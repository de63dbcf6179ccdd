/-
# Media sections of session descriptions

`switcher/gst/sdp-utils.cpp`: an `SDPMedia` describes a stream by the fields of its caps, and is
printed as a media section.  The fields that are not standard ones become the parameters of the
`fmtp` attribute, in their order and with semicolons between them.

The structures of caps are those of GStreamer: named values, each name once.
-/

import LibSwitcher.Utils.StringUtils

namespace LibSwitcher

open Stringutils

/-- The values of fields. -/
inductive GValue
  | str (s : String)
  | int (i : ℤ)
  | other
  deriving DecidableEq

/-- A `GstStructure`. -/
structure GstStructure where
  fields : List (String × GValue)
  nodup : (fields.map Prod.fst).Nodup

namespace GstStructure

/-- `gst_structure_get_string`. -/
def getString (name : String) (s : GstStructure) : Option String :=
  match s.fields.lookup name with
  | some (.str v) => some v
  | _ => none

/-- `gst_structure_get_int`. -/
def getInt (name : String) (s : GstStructure) : Option ℤ :=
  match s.fields.lookup name with
  | some (.int i) => some i
  | _ => none

end GstStructure

/-- A media section: the media, the port, the transport and the format of its `m` line, and its
attributes. -/
structure GstSDPMedia where
  media : String
  port : ℕ
  proto : String
  fmt : String
  attributes : List (String × String)

/-- An `SDPMedia`. -/
structure SDPMedia where
  capsStructure : Option GstStructure
  port : ℕ
  iceCandidateValues : List String

namespace SDPMedia

/-- The constructor. -/
def make : SDPMedia := ⟨none, 0, []⟩

/-- `set_media_info_from_caps`. -/
def setMediaInfoFromCaps (s : GstStructure) (m : SDPMedia) : SDPMedia × Bool :=
  if (s.getString "media").isNone || (s.getString "encoding-name").isNone ||
      (s.getInt "payload").isNone || (s.getInt "clock-rate").isNone then (m, false)
  else ({ m with capsStructure := some s }, true)

/-- `set_port`. -/
def setPort (port : ℕ) (m : SDPMedia) : SDPMedia := { m with port := port }

/-- `add_ice_candidate`. -/
def addIceCandidate (value : String) (m : SDPMedia) : SDPMedia :=
  { m with iceCandidateValues := m.iceCandidateValues ++ [value] }

/-- The fields that are not printed as parameters. -/
def standardFields : List String :=
  ["media", "payload", "clock-rate", "encoding-name", "encoding-params", "ssrc", "clock-base",
    "seqnum-base"]

/-- The value of a parameter; `sprop-parameter-sets` is cut at an equals sign and at a comma. -/
def paramValue (fname val : String) : String :=
  if fname = "sprop-parameter-sets" then
    String.ofList ((val.toList.takeWhile (· ≠ '=')).takeWhile (· ≠ ','))
  else val

/-- The parameter of a field, if it is a string and not a standard field. -/
def param (s : GstStructure) (fname : String) : Option String :=
  if fname ∈ standardFields then none
  else (s.getString fname).map fun val => fname ++ "=" ++ paramValue fname val

/-- The parameters, in the order of the fields. -/
def params (s : GstStructure) : List String := (s.fields.map Prod.fst).filterMap (param s)

/-- The value of the `rtpmap` attribute. -/
def rtpmap (s : GstStructure) : String :=
  toString ((s.getInt "payload").getD 0) ++ " " ++ (s.getString "encoding-name").getD "" ++ "/" ++
    toString ((s.getInt "clock-rate").getD 0) ++
    match s.getString "encoding-params" with
    | some capsParams => "/" ++ capsParams
    | none => ""

/-- The value of the `fmtp` attribute. -/
def fmtp (s : GstStructure) : String :=
  toString ((s.getInt "payload").getD 0) ++ " " ++ ";".intercalate (params s)

/-- `add_to_sdp_description`: the media section that is added. -/
def addToSdpDescription (index : ℕ) (m : SDPMedia) : Option GstSDPMedia :=
  match m.port, m.capsStructure with
  | 0, _ => none
  | _, none => none
  | port, some s =>
      some {
        media := (s.getString "media").getD ""
        port := port
        proto := "RTP/AVP"
        fmt := toString ((s.getInt "payload").getD 0)
        attributes := [("sendonly", ""), ("rtpmap", rtpmap s), ("control", "stream=" ++ toString index)] ++
          (if params s = [] then [] else [("fmtp", fmtp s)]) ++
          m.iceCandidateValues.map ("candidate", ·) }

variable {m : SDPMedia}

/-- Candidates are added in their order. -/
theorem foldl_addIceCandidate (candidates : List String) (m : SDPMedia) :
    candidates.foldl (fun media candidate => media.addIceCandidate candidate) m =
      { m with iceCandidateValues := m.iceCandidateValues ++ candidates } := by
  induction candidates generalizing m with
  | nil =>
      rw [List.append_nil]
      rfl
  | cons c candidates ih =>
      rw [List.foldl_cons, ih, addIceCandidate, List.append_assoc]
      rfl

/-- A section that is added has the port, and describes the caps. -/
theorem of_addToSdpDescription {index : ℕ} {media : GstSDPMedia}
    (h : m.addToSdpDescription index = some media) : ∃ s, m.capsStructure = some s ∧
      media.port = m.port ∧ media.attributes =
        [("sendonly", ""), ("rtpmap", rtpmap s), ("control", "stream=" ++ toString index)] ++
          (if params s = [] then [] else [("fmtp", fmtp s)]) ++
          m.iceCandidateValues.map ("candidate", ·) := by
  rw [addToSdpDescription] at h
  split at h
  · cases h
  · cases h
  · rename_i s hcaps _
    obtain rfl := Option.some.inj h
    exact ⟨s, hcaps, rfl, rfl⟩

end SDPMedia
end LibSwitcher
