/-
# The media that are received

`plugins/pjsip/pj-call.cpp`, `PJCall::process_incoming_call`: the sections of an offer that the
caller sends are the media to receive, in the order of the offer.  They are kept for the answer,
received only, and without the candidates of the caller.
-/

import LibSwitcher.Gst.SDPMedia

namespace LibSwitcher
namespace PJCall

/-- The names of the attributes of a section whose data are sent. -/
def isSentName (name : String) : Bool := name = "sendrecv" || name = "sendonly"

/-- The last attribute that says that the data are sent becomes one that says that they are
received: each time one is found, the section is cloned anew. -/
def receiveOnly : List (String × String) → List (String × String)
  | [] => []
  | a :: as =>
      if isSentName a.1 && !as.any (fun a => isSentName a.1) then ("recvonly", a.2) :: as
      else a :: receiveOnly as

/-- The section of the answer for a section of the offer, if it is to be received. -/
def receiveMedia (media : GstSDPMedia) : Option GstSDPMedia :=
  if media.attributes.any fun a => isSentName a.1 then
    some { media with attributes := (receiveOnly media.attributes).filter (·.1 ≠ "candidate") }
  else none

/-- The media to receive, each with its place in the offer. -/
def mediaToReceive (offer : List GstSDPMedia) : List (ℕ × GstSDPMedia) :=
  offer.zipIdx.filterMap fun m => (receiveMedia m.1).map (m.2, ·)

end PJCall
end LibSwitcher
