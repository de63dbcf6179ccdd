/-
# The messages of the signalling server

`Webrtc::wss_message` of `plugins/webrtc/webrtc.cpp`.  What it calls is an `Action`: the
handler is a function from the text, the peers that are registered and whether the
pipeline can be started to the calls it makes, undefined where it reads a part of the
split message that does not exist.  The messages the server sends are `ServerMessage`
(`signaling/Server.md`, `simple_server.py`).

The handler looks at the start of the text only, and ignores its case.  So a message that
starts like one of those of the room is handled whatever follows, and one that lacks
a field is read out of its bounds: `ignores_iff` says which other texts are ignored.
-/

import LibSwitcher.Utils.SplitString

namespace LibSwitcher
namespace Webrtc

open Stringutils

/-- What the handler of the messages calls. -/
inductive Action where
  | joinRoom
  | startPipeline
  | callPeer (peer : String)
  | peerMessage (peer message : String)
  | addPeerToPipeline (peer : String)
  | removePeerFromPipeline (peer : String)
  deriving DecidableEq

/-- `SoupWebsocketDataType`. -/
inductive SoupWebsocketDataType where
  | text
  | binary
  | unknown
  deriving DecidableEq

/-- The calls for `ROOM_OK`: the parts of the text but the first are called. -/
def roomOk (starts : Bool) (text : String) : List Action :=
  if starts = false then [.startPipeline]
  else if text = "ROOM_OK " then [.startPipeline]
  else .startPipeline :: (splitString text " " none).tail.map .callPeer

/-- The calls for `ROOM_PEER_MSG`. -/
def roomPeerMsg (peerRegistered : String → Bool) (text : String) : Option (List Action) :=
  let parts := splitString text " " (some 3)
  parts[1]?.bind fun peer =>
    if peerRegistered peer = false then some []
    else parts[2]?.map fun message => [.peerMessage peer message]

/-- The calls for `ROOM_PEER_JOINED`. -/
def roomPeerJoined (text : String) : Option (List Action) :=
  (splitString text " " (some 2))[1]?.map fun peer => [.addPeerToPipeline peer]

/-- The calls for `ROOM_PEER_LEFT`. -/
def roomPeerLeft (peerRegistered : String → Bool) (text : String) : Option (List Action) :=
  (splitString text " " (some 2))[1]?.map fun peer =>
    if peerRegistered peer then [.removePeerFromPipeline peer] else []

/-- `Webrtc::wss_message`, of the flag `stopping_`, the peers that `peer_registered` finds,
what `start_pipeline` returns, and a message with its type. -/
def wssMessage (stopping : Bool) (peerRegistered : String → Bool) (starts : Bool)
    (text : String) (type : SoupWebsocketDataType) : Option (List Action) :=
  if stopping then some []
  else match type with
    | .binary | .unknown => some []
    | .text =>
        if text = "HELLO" then some [.joinRoom]
        else if startsWith text "ROOM_" then
          if startsWith text "ROOM_OK" then some (roomOk starts text)
          else if startsWith text "ROOM_PEER_" then
            if startsWith text "ROOM_PEER_MSG" then roomPeerMsg peerRegistered text
            else if startsWith text "ROOM_PEER_JOINED" then roomPeerJoined text
            else if startsWith text "ROOM_PEER_LEFT" then roomPeerLeft peerRegistered text
            else some []
          else some []
        else some []

/-- The messages of the server to a peer. -/
inductive ServerMessage where
  | hello
  | roomOk (peers : List String)
  | roomPeerMsg (peer body : String)
  | roomPeerJoined (peer : String)
  | roomPeerLeft (peer : String)

namespace ServerMessage

/-- The text that is sent. -/
def text : ServerMessage → String
  | hello => "HELLO"
  | roomOk peers => "ROOM_OK " ++ " ".intercalate peers
  | roomPeerMsg peer body => "ROOM_PEER_MSG " ++ peer ++ " " ++ body
  | roomPeerJoined peer => "ROOM_PEER_JOINED " ++ peer
  | roomPeerLeft peer => "ROOM_PEER_LEFT " ++ peer

/-- A name of a peer: a field of a message. -/
def IsPeer (peer : String) : Prop := peer ≠ "" ∧ ' ' ∉ peer.toList

/-- No field of the message is missing, and no space is doubled. -/
def WellFormed : ServerMessage → Prop
  | hello => True
  | roomOk peers => ∀ peer ∈ peers, IsPeer peer
  | roomPeerMsg peer body => IsPeer peer ∧ body ≠ "" ∧ body.toList.head? ≠ some ' '
  | roomPeerJoined peer => IsPeer peer
  | roomPeerLeft peer => IsPeer peer

/-- What is called for the message. -/
def actions (peerRegistered : String → Bool) (starts : Bool) :
    ServerMessage → List Action
  | hello => [.joinRoom]
  | roomOk peers => .startPipeline :: if starts then peers.map .callPeer else []
  | roomPeerMsg peer body => if peerRegistered peer then [.peerMessage peer body] else []
  | roomPeerJoined peer => [.addPeerToPipeline peer]
  | roomPeerLeft peer => if peerRegistered peer then [.removePeerFromPipeline peer] else []

end ServerMessage

/-- The text is a message of the server. -/
def IsMessage (text : String) : Prop := ∃ m : ServerMessage, m.WellFormed ∧ m.text = text

/-- The peers that are called. -/
def called (actions : List Action) : List String :=
  actions.filterMap fun
    | .callPeer peer => some peer
    | _ => none

/-- A text is handled as the server means it: no part is missing, what is not a message of the
server is ignored, and the peers of a room are called. -/
structure Handles (stopping : Bool) (peerRegistered : String → Bool) (starts : Bool)
    (text : String) : Prop where
  defined : (wssMessage stopping peerRegistered starts text .text).isSome
  ignored : ¬IsMessage text → wssMessage stopping peerRegistered starts text .text = some []
  calls : ∀ peers : List String, (ServerMessage.roomOk peers).WellFormed →
    (ServerMessage.roomOk peers).text = text →
    (wssMessage stopping peerRegistered starts text .text).map called = some peers

/-- What keeps a text that is not a message from being handled: how it starts, or a second field
that is no registered peer. -/
structure Harmless (peerRegistered : String → Bool) (text : String) : Prop where
  ok : startsWith text "ROOM_OK" = false
  msg : startsWith text "ROOM_PEER_MSG" = true → ∃ key peer rest : String,
    text = key ++ " " ++ peer ++ " " ++ rest ∧ ' ' ∉ key.toList ∧ ' ' ∉ peer.toList ∧
      peerRegistered peer = false
  joined : startsWith text "ROOM_PEER_JOINED" = false
  left : startsWith text "ROOM_PEER_LEFT" = true → ∃ key peer : String,
    text = key ++ " " ++ peer ∧ ' ' ∉ key.toList ∧ peerRegistered peer = false

/-- A text that starts with a text starts with the start of it. -/
theorem startsWith_of_startsWith {text pre pre' : String}
    (hpre : (tolower pre').toList <+: (tolower pre).toList) (h : startsWith text pre = true) :
    startsWith text pre' = true :=
  startsWith_iff.2 (hpre.trans (startsWith_iff.1 h))

/-- A text does not start with two texts of which none starts with the other. -/
theorem startsWith_eq_false {text pre pre' : String}
    (hpre : ¬(tolower pre).toList <+: (tolower pre').toList)
    (hpre' : ¬(tolower pre').toList <+: (tolower pre).toList) (h : startsWith text pre = true) :
    startsWith text pre' = false := by
  rw [Bool.eq_false_iff]
  intro h'
  rcases List.prefix_or_prefix_of_prefix (startsWith_iff.1 h) (startsWith_iff.1 h') with hle | hle
  · exact hpre hle
  · exact hpre' hle

theorem ne_hello {text : String} (h : startsWith text "ROOM_" = true) : text ≠ "HELLO" := by
  rintro rfl
  exact absurd h (by decide)

section dispatch

variable {text : String} (peerRegistered : String → Bool) (starts : Bool)

theorem wssMessage_ok (h : startsWith text "ROOM_OK" = true) :
    wssMessage false peerRegistered starts text .text = some (roomOk starts text) := by
  have hroom : startsWith text "ROOM_" = true := startsWith_of_startsWith (by decide) h
  simp [wssMessage, ne_hello hroom, hroom, h]

/-- A text of the second kind is no text of the first. -/
theorem wssMessage_peer (h : startsWith text "ROOM_PEER_" = true) :
    wssMessage false peerRegistered starts text .text =
      if startsWith text "ROOM_PEER_MSG" then roomPeerMsg peerRegistered text
      else if startsWith text "ROOM_PEER_JOINED" then roomPeerJoined text
      else if startsWith text "ROOM_PEER_LEFT" then roomPeerLeft peerRegistered text
      else some [] := by
  have hroom : startsWith text "ROOM_" = true := startsWith_of_startsWith (by decide) h
  have hok : startsWith text "ROOM_OK" = false := startsWith_eq_false (by decide) (by decide) h
  simp [wssMessage, ne_hello hroom, hroom, hok, h]

theorem wssMessage_msg (h : startsWith text "ROOM_PEER_MSG" = true) :
    wssMessage false peerRegistered starts text .text = roomPeerMsg peerRegistered text := by
  rw [wssMessage_peer _ _ (startsWith_of_startsWith (by decide) h), if_pos h]

theorem wssMessage_joined (h : startsWith text "ROOM_PEER_JOINED" = true) :
    wssMessage false peerRegistered starts text .text = roomPeerJoined text := by
  have hmsg : startsWith text "ROOM_PEER_MSG" = false :=
    startsWith_eq_false (by decide) (by decide) h
  rw [wssMessage_peer _ _ (startsWith_of_startsWith (by decide) h), hmsg,
    if_neg Bool.false_ne_true, if_pos h]

theorem wssMessage_left (h : startsWith text "ROOM_PEER_LEFT" = true) :
    wssMessage false peerRegistered starts text .text = roomPeerLeft peerRegistered text := by
  have hmsg : startsWith text "ROOM_PEER_MSG" = false :=
    startsWith_eq_false (by decide) (by decide) h
  have hjoined : startsWith text "ROOM_PEER_JOINED" = false :=
    startsWith_eq_false (by decide) (by decide) h
  rw [wssMessage_peer _ _ (startsWith_of_startsWith (by decide) h), hmsg, hjoined,
    if_neg Bool.false_ne_true, if_neg Bool.false_ne_true, if_pos h]

/-- Nothing is called for a text that starts with none of the keywords of the room. -/
theorem wssMessage_other (hello : text ≠ "HELLO") (hok : startsWith text "ROOM_OK" = false)
    (hmsg : startsWith text "ROOM_PEER_MSG" = false)
    (hjoined : startsWith text "ROOM_PEER_JOINED" = false)
    (hleft : startsWith text "ROOM_PEER_LEFT" = false) :
    wssMessage false peerRegistered starts text .text = some [] := by
  simp [wssMessage, hello, hok, hmsg, hjoined, hleft]

end dispatch

section fields

variable {key peer : String} (peerRegistered : String → Bool) (starts : Bool)

/-- What is before the first space of a text, and what is behind it. -/
theorem exists_fields {text : String} (h : ' ' ∈ text.toList) :
    ∃ key rest : String, text = key ++ " " ++ rest ∧ ' ' ∉ key.toList :=
  exists_of_mem_toList h

theorem roomPeerMsg_fields (key rest : String) (hkey : ' ' ∉ key.toList) (hpeer : ' ' ∉ peer.toList) :
    roomPeerMsg peerRegistered (key ++ " " ++ peer ++ " " ++ rest) =
      some (if peerRegistered peer then [.peerMessage peer rest] else []) := by
  rw [roomPeerMsg, splitString_three rest hkey hpeer]
  cases hreg : peerRegistered peer <;> simp [hreg]

theorem roomPeerJoined_fields (key peer : String) (hkey : ' ' ∉ key.toList) :
    roomPeerJoined (key ++ " " ++ peer) = some [.addPeerToPipeline peer] := by
  rw [roomPeerJoined, splitString_two peer hkey]
  rfl

theorem roomPeerLeft_fields (key peer : String) (hkey : ' ' ∉ key.toList) :
    roomPeerLeft peerRegistered (key ++ " " ++ peer) =
      some (if peerRegistered peer then [.removePeerFromPipeline peer] else []) := by
  rw [roomPeerLeft, splitString_two peer hkey]
  rfl

/-- The message of a peer is ignored if its field is there and names no registered peer. -/
theorem roomPeerMsg_eq_nil_iff {text : String} : roomPeerMsg peerRegistered text = some [] ↔
    ∃ key peer rest : String, text = key ++ " " ++ peer ++ " " ++ rest ∧ ' ' ∉ key.toList ∧
      ' ' ∉ peer.toList ∧ peerRegistered peer = false := by
  constructor
  · intro h
    by_cases hfirst : ' ' ∈ text.toList
    · obtain ⟨key, others, rfl, hkey⟩ := exists_fields hfirst
      by_cases hsecond : ' ' ∈ others.toList
      · obtain ⟨peer, rest, rfl, hpeer⟩ := exists_fields hsecond
        have htext : key ++ " " ++ (peer ++ " " ++ rest) = key ++ " " ++ peer ++ " " ++ rest := by
          simp only [String.append_assoc]
        rw [htext, roomPeerMsg_fields peerRegistered _ rest hkey hpeer] at h
        refine ⟨key, peer, rest, htext, hkey, hpeer, ?_⟩
        cases hreg : peerRegistered peer with
        | false => rfl
        | true => simp [hreg] at h
      · rw [roomPeerMsg, splitString_three_singleton hkey hsecond] at h
        simp at h
    · rw [roomPeerMsg, splitString_three_of_not_mem hfirst] at h
      simp at h
  · rintro ⟨key, peer, rest, rfl, hkey, hpeer, hreg⟩
    rw [roomPeerMsg_fields peerRegistered _ rest hkey hpeer, hreg, if_neg Bool.false_ne_true]

/-- A peer that joined is always added, if its field is there. -/
theorem roomPeerJoined_ne_nil (text : String) : roomPeerJoined text ≠ some [] := by
  intro h
  by_cases hfirst : ' ' ∈ text.toList
  · obtain ⟨key, peer, rfl, hkey⟩ := exists_fields hfirst
    simp [roomPeerJoined_fields _ peer hkey] at h
  · rw [roomPeerJoined, splitString_two_of_not_mem hfirst] at h
    simp at h

theorem roomPeerLeft_eq_nil_iff {text : String} : roomPeerLeft peerRegistered text = some [] ↔
    ∃ key peer : String, text = key ++ " " ++ peer ∧ ' ' ∉ key.toList ∧
      peerRegistered peer = false := by
  constructor
  · intro h
    by_cases hfirst : ' ' ∈ text.toList
    · obtain ⟨key, peer, rfl, hkey⟩ := exists_fields hfirst
      rw [roomPeerLeft_fields peerRegistered _ peer hkey] at h
      refine ⟨key, peer, rfl, hkey, ?_⟩
      cases hreg : peerRegistered peer with
      | false => rfl
      | true => simp [hreg] at h
    · rw [roomPeerLeft, splitString_two_of_not_mem hfirst] at h
      simp at h
  · rintro ⟨key, peer, rfl, hkey, hreg⟩
    rw [roomPeerLeft_fields peerRegistered _ peer hkey, hreg, if_neg Bool.false_ne_true]

theorem roomOk_ne_nil (text : String) : roomOk starts text ≠ [] := by
  unfold roomOk
  split_ifs <;> simp

/-- **The texts that are ignored.**  A text other than `HELLO` is read within its bounds and calls
nothing exactly if it is harmless. -/
theorem ignores_iff {text : String} (hello : text ≠ "HELLO") :
    wssMessage false peerRegistered starts text .text = some [] ↔ Harmless peerRegistered text := by
  cases hok : startsWith text "ROOM_OK" with
  | true =>
      rw [wssMessage_ok peerRegistered starts hok]
      refine iff_of_false (fun h => roomOk_ne_nil starts text (Option.some.inj h)) fun h => ?_
      rw [h.ok] at hok
      cases hok
  | false =>
      cases hmsg : startsWith text "ROOM_PEER_MSG" with
      | true =>
          have hjoined : startsWith text "ROOM_PEER_JOINED" = false :=
            startsWith_eq_false (by decide) (by decide) hmsg
          have hleft : startsWith text "ROOM_PEER_LEFT" = false :=
            startsWith_eq_false (by decide) (by decide) hmsg
          rw [wssMessage_msg peerRegistered starts hmsg, roomPeerMsg_eq_nil_iff]
          exact ⟨fun h => ⟨hok, fun _ => h, hjoined, by simp [hleft]⟩, fun h => h.msg hmsg⟩
      | false =>
          cases hjoined : startsWith text "ROOM_PEER_JOINED" with
          | true =>
              rw [wssMessage_joined peerRegistered starts hjoined]
              refine iff_of_false (roomPeerJoined_ne_nil text) fun h => ?_
              rw [h.joined] at hjoined
              cases hjoined
          | false =>
              cases hleft : startsWith text "ROOM_PEER_LEFT" with
              | true =>
                  rw [wssMessage_left peerRegistered starts hleft, roomPeerLeft_eq_nil_iff]
                  exact ⟨fun h => ⟨hok, by simp [hmsg], hjoined, fun _ => h⟩, fun h => h.left hleft⟩
              | false =>
                  refine iff_of_true (wssMessage_other _ _ hello hok hmsg hjoined hleft) ?_
                  exact ⟨hok, by simp [hmsg], hjoined, by simp [hleft]⟩

end fields

section messages

variable (peerRegistered : String → Bool) (starts : Bool)

theorem startsWith_append (pre rest : String) : startsWith (pre ++ rest) pre = true := by
  rw [startsWith_iff, tolower_append, String.toList_append]
  exact List.prefix_append _ _

/-- The parts of the list of a room are its peers. -/
theorem tail_splitString_roomOk {peers : List String}
    (h : (ServerMessage.roomOk peers).WellFormed) (hne : peers ≠ []) :
    (splitString (ServerMessage.roomOk peers).text " " none).tail = peers := by
  have htext : (ServerMessage.roomOk peers).text = " ".intercalate ("ROOM_OK" :: peers) := by
    rw [String.intercalate_cons_of_ne_nil hne]
    rfl
  rw [htext, splitString_intercalate (List.cons_ne_nil _ _), List.tail_cons]
  exact List.forall_mem_cons.2 ⟨by decide, fun peer hpeer => (h peer hpeer).2⟩

/-- The text of a list is that of the empty list only if the list is empty. -/
theorem roomOk_text_eq_iff {peers : List String} (h : (ServerMessage.roomOk peers).WellFormed) :
    (ServerMessage.roomOk peers).text = "ROOM_OK " ↔ peers = [] := by
  constructor
  · intro htext
    by_contra hne
    have htail := tail_splitString_roomOk h hne
    rw [htext] at htail
    rw [← htail] at h
    exact (h "" (by decide)).1 rfl
  · rintro rfl
    rfl

/-- The calls for a list: nobody is called if the pipeline cannot be started. -/
theorem roomOk_text {peers : List String} (h : (ServerMessage.roomOk peers).WellFormed) :
    roomOk starts (ServerMessage.roomOk peers).text =
      .startPipeline :: if starts then peers.map .callPeer else [] := by
  cases starts with
  | false => rfl
  | true =>
      rw [roomOk, if_neg (Bool.noConfusion : ¬true = false), if_pos rfl]
      by_cases hnil : peers = []
      · rw [if_pos ((roomOk_text_eq_iff h).2 hnil), hnil]
        rfl
      · rw [if_neg (mt (roomOk_text_eq_iff h).1 hnil), tail_splitString_roomOk h hnil]

/-- **What a message calls.** -/
theorem wssMessage_text {m : ServerMessage} (h : m.WellFormed) :
    wssMessage false peerRegistered starts m.text .text = some (m.actions peerRegistered starts) := by
  cases m with
  | hello => rfl
  | roomOk peers =>
      have hstart : startsWith (ServerMessage.roomOk peers).text "ROOM_OK" = true :=
        startsWith_of_startsWith (by decide) (startsWith_append "ROOM_OK " _)
      rw [wssMessage_ok peerRegistered starts hstart, roomOk_text starts h]
      rfl
  | roomPeerMsg peer body =>
      have hbody : startsWith ("ROOM_PEER_MSG " ++ (peer ++ " " ++ body)) "ROOM_PEER_MSG" = true :=
        startsWith_of_startsWith (by decide) (startsWith_append "ROOM_PEER_MSG " _)
      have hassoc (a b c d : String) : a ++ (b ++ c ++ d) = a ++ b ++ c ++ d := by
        simp only [String.append_assoc]
      have htext : "ROOM_PEER_MSG " ++ (peer ++ " " ++ body) =
          (ServerMessage.roomPeerMsg peer body).text := hassoc "ROOM_PEER_MSG " peer " " body
      rw [wssMessage_msg peerRegistered starts (htext ▸ hbody)]
      exact roomPeerMsg_fields peerRegistered "ROOM_PEER_MSG" body (by decide) h.1.2
  | roomPeerJoined peer =>
      have hstart : startsWith (ServerMessage.roomPeerJoined peer).text "ROOM_PEER_JOINED" = true :=
        startsWith_of_startsWith (by decide) (startsWith_append "ROOM_PEER_JOINED " _)
      rw [wssMessage_joined peerRegistered starts hstart]
      exact roomPeerJoined_fields "ROOM_PEER_JOINED" peer (by decide)
  | roomPeerLeft peer =>
      have hstart : startsWith (ServerMessage.roomPeerLeft peer).text "ROOM_PEER_LEFT" = true :=
        startsWith_of_startsWith (by decide) (startsWith_append "ROOM_PEER_LEFT " _)
      rw [wssMessage_left peerRegistered starts hstart]
      exact roomPeerLeft_fields peerRegistered "ROOM_PEER_LEFT" peer (by decide)

theorem called_roomOk (peers : List String) :
    called ((ServerMessage.roomOk peers).actions peerRegistered starts) =
      if starts then peers else [] := by
  cases starts with
  | false => rfl
  | true =>
      have hmap : called (peers.map .callPeer) = peers := by
        rw [called, List.filterMap_map]
        exact List.filterMap_some
      exact hmap

end messages

/-- While the connection is stopped, a text is handled if it calls nobody. -/
theorem handles_stopping_iff {peerRegistered : String → Bool} {starts : Bool} {text : String} :
    Handles true peerRegistered starts text ↔
      ∀ peers : List String, (ServerMessage.roomOk peers).WellFormed →
        (ServerMessage.roomOk peers).text = text → peers = [] := by
  constructor
  · intro h peers hm htext
    exact (Option.some.inj (h.calls peers hm htext)).symm
  · intro h
    refine ⟨rfl, fun _ => rfl, fun peers hm htext => ?_⟩
    rw [h peers hm htext]
    rfl

/-- **The texts that are handled.**  A text is handled as the server means it if and only if it is
a message, of which a list of peers needs a pipeline, or is ignored for what it starts with or for
a field that names no registered peer. -/
theorem handles_iff (stopping : Bool) (peerRegistered : String → Bool) (starts : Bool)
    (text : String) : Handles stopping peerRegistered starts text ↔
      (∀ peers : List String, (ServerMessage.roomOk peers).WellFormed →
        (ServerMessage.roomOk peers).text = text →
        peers = [] ∨ stopping = false ∧ starts = true) ∧
      (¬IsMessage text → stopping = true ∨ Harmless peerRegistered text) := by
  cases stopping with
  | true => simp [handles_stopping_iff]
  | false =>
      have hhello : ¬IsMessage text → text ≠ "HELLO" := by
        rintro h rfl
        exact h ⟨.hello, trivial, rfl⟩
      constructor
      · refine fun h => ⟨fun peers hm htext => ?_, fun hno => Or.inr ?_⟩
        · have hcalls := h.calls peers hm htext
          rw [← htext, wssMessage_text peerRegistered starts hm, Option.map_some,
            called_roomOk] at hcalls
          cases starts with
          | false => exact Or.inl (Option.some.inj hcalls).symm
          | true => exact Or.inr ⟨rfl, rfl⟩
        · exact (ignores_iff peerRegistered starts (hhello hno)).1 (h.ignored hno)
      · rintro ⟨hlist, hother⟩
        have hignored (hno : ¬IsMessage text) :
            wssMessage false peerRegistered starts text .text = some [] :=
          (ignores_iff peerRegistered starts (hhello hno)).2
            ((hother hno).resolve_left Bool.false_ne_true)
        refine ⟨?_, hignored, fun peers hm htext => ?_⟩
        · by_cases hmessage : IsMessage text
          · obtain ⟨m, hm, rfl⟩ := hmessage
            rw [wssMessage_text peerRegistered starts hm]
            rfl
          · rw [hignored hmessage]
            rfl
        · have hstart := hlist peers hm htext
          rw [← htext, wssMessage_text peerRegistered starts hm, Option.map_some, called_roomOk]
          rcases hstart with rfl | ⟨-, rfl⟩
          · cases starts <;> rfl
          · rfl

/-- A message without its field is read out of its bounds. -/
theorem not_handles_joined : ¬∀ (peerRegistered : String → Bool) (starts : Bool) (text : String),
    Handles false peerRegistered starts text := by
  intro h
  have hdefined := (h (fun _ => false) true "ROOM_PEER_JOINED").defined
  exact absurd hdefined (by decide)

end Webrtc
end LibSwitcher
