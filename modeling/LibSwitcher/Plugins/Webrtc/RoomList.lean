/-
# What a client knows of its room

The names that `webrtc.cpp` has, after the texts that the signalling server sent to it: those of
`ROOM_OK` are called, one that joins is added, and one that leaves is removed.  What a text calls is
`wssMessage`, of the model of the client; here its calls are followed from text to text, for a
client whose pipeline can be started.  `hear_text` says what each message of the server does, and a
text that does nothing whatever the list is, is `Silent`.
-/

import LibSwitcher.Plugins.Webrtc.WssMessage

namespace LibSwitcher
namespace Webrtc

open Stringutils

/-- What a call does to the names that a client has. -/
def Action.follow (view : List String) : Action → List String
  | callPeer peer | addPeerToPipeline peer => view ++ [peer]
  | removePeerFromPipeline peer => view.filter (· ≠ peer)
  | joinRoom | startPipeline | peerMessage _ _ => view

/-- The names that a client has after a text: nothing where the text is read out of its bounds. -/
def hear (view : List String) (text : String) : Option (List String) :=
  (wssMessage false (decide <| · ∈ view) true text .text).map (·.foldl Action.follow view)

/-- The names that a client has after the texts that were sent to it. -/
def hearAll (texts : List String) : Option (List String) := texts.foldlM hear []

/-- A text that changes no list. -/
def Silent (text : String) : Prop := ∀ view, hear view text = some view

theorem hearAll_append (texts : List String) (text : String) :
    hearAll (texts ++ [text]) = (hearAll texts).bind (hear · text) := by
  rw [hearAll, List.foldlM_append]
  simp [hearAll]

theorem Silent.hearAll {text : String} (h : Silent text) (texts : List String) :
    hearAll (texts ++ [text]) = hearAll texts := by
  rw [hearAll_append]
  cases Webrtc.hearAll texts with
  | none => rfl
  | some view => exact h view

/-- What a message of the server does. -/
theorem hear_text {m : ServerMessage} (h : m.WellFormed) (view : List String) :
    hear view m.text = some ((m.actions (decide <| · ∈ view) true).foldl Action.follow view) := by
  rw [hear, wssMessage_text _ _ h]
  rfl

/-- The names of a room that is entered are added one by one. -/
theorem foldl_callPeer (view peers : List String) :
    (peers.map Action.callPeer).foldl Action.follow view = view ++ peers := by
  induction peers generalizing view with
  | nil => simp
  | cons peer peers ih => simp [Action.follow, ih]

theorem hear_roomOk {peers : List String} (h : ∀ peer ∈ peers, ServerMessage.IsPeer peer)
    (view : List String) :
    hear view ("ROOM_OK " ++ " ".intercalate peers) = some (view ++ peers) := by
  have hm : (ServerMessage.roomOk peers).WellFormed := h
  have hear := hear_text hm view
  simp only [ServerMessage.actions, if_pos, List.foldl_cons, foldl_callPeer] at hear
  exact hear

theorem hear_joined {peer : String} (h : ServerMessage.IsPeer peer) (view : List String) :
    hear view ("ROOM_PEER_JOINED " ++ peer) = some (view ++ [peer]) := by
  have hm : (ServerMessage.roomPeerJoined peer).WellFormed := h
  exact hear_text hm view

/-- A peer that is not there is not removed, which comes to the same. -/
theorem hear_left {peer : String} (h : ServerMessage.IsPeer peer) (view : List String) :
    hear view ("ROOM_PEER_LEFT " ++ peer) = some (view.filter (· ≠ peer)) := by
  have hm : (ServerMessage.roomPeerLeft peer).WellFormed := h
  refine (hear_text hm view).trans (congrArg some ?_)
  rw [ServerMessage.actions]
  split
  · rfl
  · next hnot =>
      refine (List.filter_eq_self.2 fun other hother => ?_).symm
      have hpeer : peer ∉ view := by simpa using hnot
      simpa using fun heq : other = peer => hpeer (heq ▸ hother)

theorem silent_hello : Silent "HELLO" := fun view => hear_text (m := .hello) trivial view

theorem silent_sessionOk : Silent "SESSION_OK" := fun _ => rfl

theorem silent_peerMsg {peer body : String} (hpeer : ServerMessage.IsPeer peer) (hbody : body ≠ "")
    (hspace : body.toList.head? ≠ some ' ') :
    Silent ("ROOM_PEER_MSG " ++ peer ++ " " ++ body) := by
  intro view
  have hm : (ServerMessage.roomPeerMsg peer body).WellFormed := ⟨hpeer, hbody, hspace⟩
  refine (hear_text hm view).trans (congrArg some ?_)
  rw [ServerMessage.actions]
  split <;> rfl

/-- An error is for the log. -/
theorem silent_error (reason : String) : Silent ("ERROR" ++ reason) := by
  intro view
  have herror : startsWith ("ERROR" ++ reason) "ERROR" = true := startsWith_append "ERROR" reason
  have hello : "ERROR" ++ reason ≠ "HELLO" := by
    intro heq
    rw [heq] at herror
    exact absurd herror (by decide)
  rw [hear, wssMessage_other _ _ hello (startsWith_eq_false (by decide) (by decide) herror)
    (startsWith_eq_false (by decide) (by decide) herror)
    (startsWith_eq_false (by decide) (by decide) herror)
    (startsWith_eq_false (by decide) (by decide) herror)]
  rfl

end Webrtc
end LibSwitcher
