/-
# The agreement of a room

Every step of a calm run keeps what `Agreed` says (`Agreed.step`), so in every state that it
reaches, the members of a room that nobody enters or leaves just then have exactly the others as
their list.  What the server answers to a request changes no list but that of the peer that asks
for a room, to which it sends the members; what it relays from one peer to another changes none, or
goes to the partner of a session, which is in no room.
-/

import LibSwitcher.Plugins.Webrtc.SignalingViews

namespace LibSwitcher
namespace Signaling

open Webrtc

theorem splitChars_of_nil {n : ℕ} {text : List Char} (h : text.dropWhile isSpace = []) :
    splitChars n text = [] := by
  unfold splitChars
  cases n <;> rw [h]

theorem splitChars_zero {text cs : List Char} {c : Char}
    (h : text.dropWhile isSpace = c :: cs) : splitChars 0 text = [c :: cs] := by
  unfold splitChars
  rw [h]

theorem splitChars_succ {n : ℕ} {text cs : List Char} {c : Char}
    (h : text.dropWhile isSpace = c :: cs) : splitChars (n + 1) text =
      (c :: cs).takeWhile (! isSpace ·) :: splitChars n ((c :: cs).dropWhile (! isSpace ·)) := by
  rw [splitChars.eq_def]
  simp only [h]

/-- What is behind white space does not start with it. -/
theorem not_isSpace_of_dropWhile {text cs : List Char} {c : Char}
    (h : text.dropWhile isSpace = c :: cs) : isSpace c = false := by
  have hhead := List.head?_dropWhile_not isSpace text
  rw [h] at hhead
  simpa using hhead

/-- No part of a text starts with white space. -/
theorem not_isSpace_of_mem {n : ℕ} {text part : List Char} (h : part ∈ splitChars n text) :
    ∃ c cs, part = c :: cs ∧ isSpace c = false := by
  induction n generalizing text with
  | zero =>
      cases hdrop : text.dropWhile isSpace with
      | nil => simp [splitChars_of_nil hdrop] at h
      | cons c cs =>
          rw [splitChars_zero hdrop] at h
          exact ⟨c, cs, List.mem_singleton.1 h, not_isSpace_of_dropWhile hdrop⟩
  | succ n ih =>
      cases hdrop : text.dropWhile isSpace with
      | nil => simp [splitChars_of_nil hdrop] at h
      | cons c cs =>
          have hc := not_isSpace_of_dropWhile hdrop
          rw [splitChars_succ hdrop] at h
          rcases List.mem_cons.1 h with rfl | hrest
          · exact ⟨c, cs.takeWhile (! isSpace ·), by simp [hc], hc⟩
          · exact ih hrest

/-- The last part of a message has text, and no space before it. -/
theorem body_of_split {n : ℕ} {msg part : String} (h : part ∈ split n msg) :
    part ≠ "" ∧ part.toList.head? ≠ some ' ' := by
  obtain ⟨chars, hchars, rfl⟩ := List.mem_map.1 h
  obtain ⟨c, cs, rfl, hc⟩ := not_isSpace_of_mem hchars
  rw [String.toList_ofList]
  refine ⟨fun heq => ?_, fun heq => ?_⟩
  · have htext := congrArg String.toList heq
    simp at htext
  · obtain rfl : c = ' ' := Option.some.inj heq
    exact absurd hc (by decide)

/-- A text that is its only part is a field of a message. -/
theorem isPeer_of_splitAll {uid : String} (h : splitAll uid = [uid]) : ServerMessage.IsPeer uid := by
  refine ⟨Server.splitAll_ne_self h, ?_⟩
  rw [splitAll, split] at h
  cases hdrop : uid.toList.dropWhile isSpace with
  | nil => simp [splitChars_of_nil hdrop] at h
  | cons c cs =>
      rw [splitChars_succ hdrop, List.map_cons] at h
      have htext := congrArg String.toList (List.cons.inj h).1
      rw [String.toList_ofList] at htext
      rw [← htext]
      intro hspace
      have hnot := List.mem_takeWhile_imp hspace
      exact absurd hnot (by decide)

/-- A coroutine is not about to enter or to leave a room. -/
def Handler.idle {κ : Type*} : Handler κ → Bool
  | entering _ _ | announcing _ _ _ | leaving _ _ _ _ => false
  | _ => true

namespace Server

variable {κ : Type*} [DecidableEq κ] {s s' : Server κ} {ws : κ} {uid : String}
  {handler : Handler κ}

theorem await_handlers (s : Server κ) (ws : κ) : s.await ws (s.handlers ws) = s := by
  rw [await, Function.update_eq_self]

section rooms

omit [DecidableEq κ] in
theorem RoomsGrow.trans {s s' s'' : Server κ} (h : RoomsGrow s s') (h' : RoomsGrow s' s'') :
    RoomsGrow s s'' := by
  intro roomId room hroom
  obtain ⟨room', hroom', hle⟩ := h roomId room hroom
  obtain ⟨room'', hroom'', hle'⟩ := h' roomId room' hroom'
  refine ⟨room'', hroom'', ?_⟩
  rcases hle with rfl | hlt
  · exact hle'
  · rcases hle' with rfl | hlt'
    · exact .inr hlt
    · exact .inr (hlt.trans hlt')

theorem rooms_dropEntry (s : Server κ) (ws : κ) (uid : String) (own : κ) :
    (s.dropEntry ws uid own).1.rooms = s.rooms := by
  rw [Server.dropEntry]
  split <;> rfl

/-- Removing a name changes rooms only as a member leaves. -/
theorem roomsGrow_removePeer (s : Server κ) (ws : κ) (uid : String) :
    RoomsGrow s (s.removePeer ws uid).1 := by
  have hentry : ∀ s : Server κ, RoomsGrow s (s.removeEntry ws uid).1 := by
    intro s
    rw [Server.removeEntry]
    split
    · exact .of_eq rfl
    · split
      · exact .of_eq (rooms_dropEntry ..)
      · split
        · rw [Server.cleanupRoom]
          split
          · exact .of_eq rfl
          · next room hroom =>
              split
              · exact .of_eq (rooms_dropEntry ..)
              · exact (roomsGrow_setRoom hroom (by simp [Room.remove])).trans
                  (.of_eq (rooms_leaveLoop ..))
        · exact .of_eq (rooms_dropEntry ..)
  rw [Server.removePeer]
  split
  · exact hentry s
  · dsimp only
    split
    · exact fun roomId room hroom => hentry (s.setSession uid none) roomId room hroom
    · next other _ _ =>
        split
        · exact fun roomId room hroom =>
            hentry ((s.setSession uid none).setSession other none) roomId room hroom
        · exact .of_eq rfl

theorem roomsGrow_announceLoop (s : Server κ) (ws : κ) (uid roomId : String) (size version : ℕ)
    (rest : List String) : RoomsGrow s (s.announceLoop ws uid roomId size version rest).1 := by
  induction rest with
  | nil => exact .of_eq rfl
  | cons pid rest ih =>
      rw [Server.announceLoop]
      split
      · exact ih
      · split
        · exact roomsGrow_removePeer s ws uid
        · rw [Server.sendThen]
          split
          · exact roomsGrow_removePeer s ws uid
          · next s' hsend =>
              obtain rfl := send_eq_some hsend
              exact .of_eq rfl

end rooms

/-- What a calm step may do: to change a room that no other coroutine uses, and to end when
everybody was told. -/
structure Settles (s : Server κ) (ws : κ) (uid : String) (s' : Server κ) : Prop where
  alone : ∀ roomId, s'.rooms roomId ≠ s.rooms roomId → s.rooms roomId ≠ none →
    ∀ a, a ≠ ws → ¬(s.handlers a).Uses roomId
  told : s'.handlers ws = .done → s'.peers uid = none

/-- An exception that leaves the loop of the messages. -/
theorem Agreed.raised (h : s.Agreed) (hs : s.Sound) (hlive : (s.handlers ws).Live uid)
    {exception : Raised} (hcalm : s.Settles ws uid (s.raised ws uid exception).1) :
    (s.raised ws uid exception).1.Agreed := by
  have hself : (s.await ws (s.handlers ws)).Agreed := by rwa [await_handlers]
  refine hself.removePeer (hs.removable hlive) hlive (fun roomId turn hhandler => ?_) hcalm.alone
    hcalm.told
  exact ((hs.name uid).announced ws roomId turn hhandler).2

/-- A message is sent, and the coroutine waits. -/
theorem Agreed.sendThen (h : s.Agreed) (hs : s.Sound) (hlive : (s.handlers ws).Live uid)
    {target : κ} {text : String} {handler : Handler κ}
    (hawait : (({ s with sent := Function.update s.sent target (s.sent target ++ [text]) } :
      Server κ).await ws handler).Agreed)
    (hcalm : s.Settles ws uid (s.sendThen ws uid target text handler).1) :
    (s.sendThen ws uid target text handler).1.Agreed := by
  rw [Server.sendThen] at hcalm ⊢
  cases hsend : s.send target text with
  | none =>
      simp only [hsend] at hcalm ⊢
      exact h.raised hs hlive hcalm
  | some s' =>
      obtain rfl := send_eq_some hsend
      exact hawait

omit [DecidableEq κ] in
/-- A coroutine waits with the name that it has. -/
theorem waits_of_name {a : κ} (h : s.Waits a) {name : String} (hname : (s.handlers a).name = some name) :
    s.peers name = some ⟨a, none⟩ := by
  cases hhandler : s.handlers a <;> simp_all [Waits, Handler.name]

/-- A coroutine that handles a message waits for the answer, or for the next message. -/
theorem Agreed.goOn (h : s.Agreed) (hlive : (s.handlers ws).Live uid)
    (hnot : ∀ roomId turn, s.handlers ws ≠ .announcing uid roomId turn) (hlive' : handler.Live uid)
    (hnot' : ∀ roomId turn, handler ≠ .announcing uid roomId turn)
    (hentering : ∀ roomId, handler ≠ .entering uid roomId)
    (hserves : handler.Serves uid → (s.handlers ws).Serves uid)
    {sent : κ → List String}
    (hsent : ∀ a, s.Waits a ∨ (∃ name roomId, s.Listens a name roomId) →
      sent a = s.sent a ∨ ∃ text, Silent text ∧ sent a = s.sent a ++ [text]) :
    (({ s with sent := sent } : Server κ).await ws handler).Agreed := by
  have hname : ServerMessage.IsPeer uid := by
    refine h.claimed ws uid ?_
    cases hws : s.handlers ws <;> simp_all [Handler.Live, Handler.claims, Handler.name]
  have hself : (({ s with sent := sent } : Server κ).await ws handler).handlers ws = handler :=
    await_self ..
  have hother : ∀ a, a ≠ ws →
      (({ s with sent := sent } : Server κ).await ws handler).handlers a = s.handlers a :=
    fun a hws => await_of_ne _ _ hws
  have hwaits : ∀ a, (({ s with sent := sent } : Server κ).await ws handler).Waits a →
      s.Waits a := by
    intro a ha
    by_cases hws : a = ws
    · subst hws
      have hpeer : s.peers uid = some ⟨a, none⟩ := waits_of_name ha (by rw [hself]; exact hlive'.name)
      rw [Waits, hself] at ha
      have hserves' : (s.handlers a).Serves uid := hserves (by
        cases handler <;> simp_all [Handler.Serves, Handler.Live])
      cases hhandler : s.handlers a <;> simp_all [Waits, Handler.Serves]
    · rw [Waits, hother a hws] at ha
      exact ha
  have hlistens : ∀ a name roomId,
      (({ s with sent := sent } : Server κ).await ws handler).Listens a name roomId →
        s.Listens a name roomId := by
    intro a name roomId ha
    refine ha.imp id fun henter => ?_
    by_cases hws : a = ws
    · subst hws
      rw [hself] at henter
      subst henter
      exact absurd (congrArg (Handler.entering · roomId) hlive') (hentering roomId)
    · rwa [hother a hws] at henter
  refine h.quiet _ ws handler rfl (fun name heq => ?_) ?_ (fun room turn heq => ?_)
    (fun _ => rfl) (fun _ _ => id) hwaits hlistens (fun a ha => hsent a ?_)
  · have huid : uid = name := by
      cases handler <;> simp_all [Handler.Live, Handler.claims, Handler.name]
    exact huid ▸ hname
  · cases handler <;> simp_all [Handler.Live, Handler.turn?]
  · cases hws : s.handlers ws <;> simp_all [Handler.Live, Handler.turn?]
  · rcases ha with ha | ⟨name, roomId, hl⟩
    · exact .inl (hwaits a ha)
    · exact .inr ⟨name, roomId, hlistens a name roomId hl⟩

/-- A text that is sent to somebody who hears nothing of it. -/
theorem sent_silent {target : κ} {text : String}
    (h : Silent text ∨ ¬s.Waits target ∧ ∀ name roomId, ¬s.Listens target name roomId) (a : κ)
    (ha : s.Waits a ∨ ∃ name roomId, s.Listens a name roomId) :
    Function.update s.sent target (s.sent target ++ [text]) a = s.sent a ∨ ∃ text', Silent text' ∧
      Function.update s.sent target (s.sent target ++ [text]) a = s.sent a ++ [text'] := by
  by_cases heq : a = target
  · subst heq
    rcases h with hsilent | ⟨hwaits, hlistens⟩
    · exact .inr ⟨text, hsilent, by rw [Function.update_self]⟩
    · rcases ha with ha | ⟨name, roomId, ha⟩
      · exact absurd ha hwaits
      · exact absurd ha (hlistens name roomId)
  · exact .inl (Function.update_of_ne heq _ _)

/-- An answer, or a message that is relayed. -/
theorem Agreed.reply (h : s.Agreed) (hs : s.Sound) {roomId roomId' : Option String}
    (hhandler : s.handlers ws = .receiving uid roomId) {target : κ} {text : String}
    (htext : Silent text ∨ ¬s.Waits target ∧ ∀ name roomId, ¬s.Listens target name roomId)
    (hcalm : s.Settles ws uid (s.sendThen ws uid target text (.replying uid roomId')).1) :
    (s.sendThen ws uid target text (.replying uid roomId')).1.Agreed := by
  have hlive : (s.handlers ws).Live uid := by rw [hhandler]; rfl
  have hnext : (Handler.replying uid roomId' : Handler κ).Live uid := rfl
  refine h.sendThen hs hlive ?_ hcalm
  refine h.goOn hlive (by simp [hhandler]) hnext (by simp) (by simp) (fun _ => ?_) (sent_silent htext)
  rw [hhandler]
  rfl

omit [DecidableEq κ] in
/-- The partner of a session hears of no room. -/
theorem Sound.partner_hears_nothing (h : s.Sound) {other : String} {wso : κ}
    (hpeer : s.peers other = some ⟨wso, some "session"⟩) (hserves : (s.handlers wso).Serves other) :
    ¬s.Waits wso ∧ ∀ name roomId, ¬s.Listens wso name roomId := by
  refine ⟨fun hwaits => ?_, fun name roomId hlistens => ?_⟩
  · have hnone := waits_of_name hwaits hserves.name
    rw [hpeer] at hnone
    exact absurd hnone (by simp)
  · rcases hlistens with ⟨hown, hmem⟩ | henter
    · obtain ⟨hne, -, a, hown', hmember⟩ := (h.name name).member roomId hmem
      obtain rfl : a = wso := congrArg Peer.ws (Option.some.inj (hown'.symm.trans hown))
      obtain rfl : name = other := Option.some.inj (hmember.name.symm.trans hserves.name)
      rw [hpeer] at hown
      simp only [Option.some.injEq, Peer.mk.injEq, true_and] at hown
      exact hne hown.symm
    · rw [henter] at hserves
      exact absurd hserves id

/-- A message in a session. -/
theorem Agreed.relay (h : s.Agreed) (hs : s.Sound) {roomId : Option String} {msg : String}
    (hhandler : s.handlers ws = .receiving uid roomId)
    (hcalm : s.Settles ws uid (s.relay ws uid roomId msg).1) :
    (s.relay ws uid roomId msg).1.Agreed := by
  have hlive : (s.handlers ws).Live uid := by rw [hhandler]; rfl
  rw [Server.relay] at hcalm ⊢
  cases hsession : s.sessions uid with
  | none =>
      simp only [hsession] at hcalm ⊢
      exact h.raised hs hlive hcalm
  | some other =>
      obtain ⟨hback, -⟩ := (hs.name uid).partner other hsession
      obtain ⟨-, -, wso, hpeer, hserves⟩ := (hs.name other).partner uid hback
      simp only [hsession, hpeer, ne_eq, not_true, if_false] at hcalm ⊢
      exact h.reply hs hhandler (.inr (hs.partner_hears_nothing hpeer hserves)) hcalm

/-- The errors of the server are for the log. -/
theorem silent_notFound (name reason : String) : Silent ("ERROR peer " ++ name ++ reason) := by
  have hassoc (a b c d : String) : a ++ b ++ c ++ d = a ++ (b ++ c ++ d) := by
    simp only [String.append_assoc]
  have hpeer : "ERROR peer " = "ERROR" ++ " peer " := by decide
  rw [hpeer, hassoc]
  exact silent_error _

/-- A message of a peer that is in a room. -/
theorem Agreed.roomCommand (repr : String → String) (h : s.Agreed) (hs : s.Sound)
    {roomId : Option String} {msg : String} (hhandler : s.handlers ws = .receiving uid roomId)
    (hcalm : s.Settles ws uid (s.roomCommand repr ws uid roomId msg).1) :
    (s.roomCommand repr ws uid roomId msg).1.Agreed := by
  have hlive : (s.handlers ws).Live uid := by rw [hhandler]; rfl
  have hname : ServerMessage.IsPeer uid := h.claimed ws uid (by rw [hhandler]; rfl)
  rw [Server.roomCommand] at hcalm ⊢
  split at hcalm <;> rename_i hmsg
  · rw [if_pos hmsg]
    split at hcalm
    · next other body hsplit =>
        have hbody : body ∈ split 2 msg := by simp [hsplit]
        have hbody := body_of_split hbody
        split at hcalm
        · exact h.reply hs hhandler (.inl (silent_notFound _ _)) hcalm
        · split at hcalm
          · exact h.raised hs hlive hcalm
          · split at hcalm <;> rename_i hstatus
            · rw [if_pos hstatus]
              exact h.reply hs hhandler (.inl (silent_notFound _ _)) hcalm
            · rw [if_neg hstatus]
              exact h.reply hs hhandler (.inl (silent_peerMsg hname hbody.1 hbody.2)) hcalm
    · exact h.raised hs hlive hcalm
  · rw [if_neg hmsg]
    split at hcalm <;> rename_i hlist
    · rw [if_pos hlist]
      exact h.raised hs hlive hcalm
    · rw [if_neg hlist]
      exact h.reply hs hhandler (.inl (silent_error " invalid msg, already in room")) hcalm

/-- The request of a session. -/
theorem Agreed.requestSession (repr : String → String) (h : s.Agreed) (hs : s.Sound)
    {roomId : Option String} {msg : String} (hhandler : s.handlers ws = .receiving uid roomId)
    (hcalm : s.Settles ws uid (s.requestSession repr ws uid roomId msg).1) :
    (s.requestSession repr ws uid roomId msg).1.Agreed := by
  have hlive : (s.handlers ws).Live uid := by rw [hhandler]; rfl
  rw [Server.requestSession] at hcalm ⊢
  split at hcalm
  · split at hcalm <;> rename_i hpeer
    · rw [if_pos hpeer]
      exact h.reply hs hhandler (.inl (silent_notFound _ _)) hcalm
    · rw [if_neg hpeer]
      rename_i callee _
      have hnext : (Handler.calling uid roomId callee : Handler κ).Live uid := rfl
      refine h.sendThen hs hlive ?_ hcalm
      exact h.goOn hlive (by simp [hhandler]) hnext (by simp) (by simp)
        (fun hserves => absurd hserves id) (sent_silent (.inl silent_sessionOk))
  · exact h.raised hs hlive hcalm

omit [DecidableEq κ] in
/-- The members of a room are fields of a message. -/
theorem Agreed.isPeer_of_mem (h : s.Agreed) (hs : s.Sound) {pid roomId : String}
    (hmem : pid ∈ s.members roomId) : ServerMessage.IsPeer pid := by
  obtain ⟨-, -, wsp, -, hmember⟩ := (hs.name pid).member roomId hmem
  refine h.claimed wsp pid ?_
  have hname := hmember.name
  cases hhandler : s.handlers wsp <;> simp_all [Handler.MemberOf, Handler.claims]

omit [DecidableEq κ] in
/-- Only members of a room are told something. -/
theorem Agreed.mem_of_announces (h : s.Agreed) (hs : s.Sound) {a : κ} {name roomId pid : String}
    (hannounce : (s.handlers a).Announces name roomId pid) : pid ∈ s.members roomId := by
  cases hhandler : s.handlers a with
  | announcing name' room turn =>
      rw [hhandler] at hannounce
      obtain ⟨rfl, rfl, hrest⟩ := hannounce
      have hturn : (s.handlers a).turn? = some (room, turn) := by rw [hhandler]; rfl
      obtain ⟨room', hroom, -, hversion, -⟩ := h.turns a room turn hturn
      obtain ⟨room'', hroom', -, hall⟩ := hs.turn a room turn hturn
      obtain rfl := Option.some.inj (hroom.symm.trans hroom')
      exact mem_members_iff.2 ⟨room', hroom, hall hversion pid hrest⟩
  | _ => rw [hhandler] at hannounce; exact absurd hannounce id

/-- **The list of a room is sent** to a peer that asks for it. -/
theorem Agreed.entering (h : s.Agreed) (hs : s.Sound) {roomId : Option String} (room : String)
    (hhandler : s.handlers ws = .receiving uid roomId) (hpeer : s.peers uid = some ⟨ws, none⟩) :
    (({ s.openRoom room with sent := Function.update s.sent ws (s.sent ws ++
      ["ROOM_OK " ++ " ".intercalate (s.members room)]) } : Server κ).await ws
        (.entering uid room)).Agreed := by
  obtain ⟨hpeers, -, hhandlers⟩ := openRoom_fields s room
  set s' := ({ s.openRoom room with sent := Function.update s.sent ws (s.sent ws ++
      ["ROOM_OK " ++ " ".intercalate (s.members room)]) } : Server κ).await ws
        (.entering uid room) with hs'
  have hupdate : s'.handlers = Function.update s.handlers ws (.entering uid room) := by
    rw [hs', ← hhandlers]
    rfl
  have hpeers' : s'.peers = s.peers := hpeers
  have hself := handlers_self hupdate
  have hmembers : ∀ room', s'.members room' = s.members room' := members_openRoom s room
  have hname : (s.handlers ws).name = some uid := by rw [hhandler]; rfl
  have hnot : ∀ room', uid ∉ s.members room' := by
    intro room' hmem
    obtain ⟨-, -, a, hown, -⟩ := (hs.name uid).member room' hmem
    rw [hpeer] at hown
    exact absurd hown (by simp)
  have htells : ∀ a q room' p,
      ((s'.handlers a).Announces q room' p ↔ (s.handlers a).Announces q room' p) ∧
        ((s'.handlers a).Leaves q room' p ↔ (s.handlers a).Leaves q room' p) := by
    intro a q room' p
    by_cases hws : a = ws
    · rw [hws, hself, hhandler]
      exact ⟨Iff.rfl, Iff.rfl⟩
    · rw [handlers_of_ne hupdate hws]
      exact ⟨Iff.rfl, Iff.rfl⟩
  refine ⟨fun a name hclaims => ?_, fun a room' turn ha => ?_, fun a ha => ?_,
    fun a name room' ha => ?_⟩
  · by_cases hws : a = ws
    · rw [hws, hself] at hclaims
      exact h.claimed ws name (by rw [hhandler]; exact hclaims)
    · rw [handlers_of_ne hupdate hws] at hclaims
      exact h.claimed a name hclaims
  · by_cases hws : a = ws
    · rw [hws, hself] at ha
      exact absurd ha (by simp [Handler.turn?])
    · rw [handlers_of_ne hupdate hws] at ha
      obtain ⟨old, hold, hrest⟩ := h.turns a room' turn ha
      exact ⟨old, rooms_openRoom_of_some hold room, hrest⟩
  · by_cases hws : a = ws
    · rw [Waits, hws, hself] at ha
      exact absurd ha id
    · rw [Waits, handlers_of_ne hupdate hws, hpeers'] at ha
      have hsent : s'.sent a = s.sent a := Function.update_of_ne hws _ _
      rw [hsent]
      exact h.waits a ha
  · by_cases hws : a = ws
    · -- the peer that enters the room knows its members
      obtain ⟨rfl, rfl⟩ : uid = name ∧ room = room' := by
        rcases ha with ⟨hown, hmem⟩ | henter
        · rw [hmembers] at hmem
          rw [hpeers', hws] at hown
          obtain ⟨-, -, b, hown', hmember⟩ := (hs.name name).member room' hmem
          obtain rfl : b = ws := congrArg Peer.ws (Option.some.inj (hown'.symm.trans hown))
          obtain rfl : uid = name := Option.some.inj (hname.symm.trans hmember.name)
          exact absurd hmem (hnot room')
        · rw [hws, hself] at henter
          exact Handler.entering.inj henter
      have hwaits : s.Waits ws := by
        rw [Waits, hhandler]
        exact hpeer
      have hsent : s'.sent ws = s.sent ws ++ ["ROOM_OK " ++ " ".intercalate (s.members room)] :=
        Function.update_self ..
      refine ⟨s.members room, ?_, hs.nodup room, fun q _ => ?_⟩
      · rw [hws, hsent, hearAll_append, h.waits ws hwaits, Option.bind_some,
          hear_roomOk (fun pid hpid => h.isPeer_of_mem hs hpid) []]
        rfl
      · rw [hmembers]
        refine ⟨fun hmem => ⟨hmem, fun heq => hnot room (heq ▸ hmem), fun b hann => ?_⟩, And.left⟩
        exact hnot room (h.mem_of_announces hs ((htells b q room uid).1.1 hann))
    · have hlistens : s.Listens a name room' := by
        rcases ha with ⟨hown, hmem⟩ | henter
        · exact .inl ⟨hpeers' ▸ hown, by rwa [hmembers] at hmem⟩
        · rw [handlers_of_ne hupdate hws] at henter
          exact .inr henter
      obtain ⟨view, hview, hnodup, hall⟩ := h.listens a name room' hlistens
      have hsent : s'.sent a = s.sent a := Function.update_of_ne hws _ _
      refine ⟨view, hsent ▸ hview, hnodup, fun q hq => ?_⟩
      simp only [(htells _ _ _ _).1, (htells _ _ _ _).2, hmembers] at hq ⊢
      exact hall q hq

omit [DecidableEq κ] in
theorem sent_openRoom (s : Server κ) (roomId : String) : (s.openRoom roomId).sent = s.sent := by
  rw [openRoom]
  split <;> rfl

omit [DecidableEq κ] in
/-- A room that a coroutine uses is there. -/
theorem Sound.rooms_of_uses (hs : s.Sound) {a : κ} {roomId : String}
    (huses : (s.handlers a).Uses roomId) : s.rooms roomId ≠ none := by
  have hiter : ∀ turn, (s.handlers a).turn? = some (roomId, turn) → s.rooms roomId ≠ none := by
    intro turn hturn
    obtain ⟨room, hroom, -⟩ := hs.turn a roomId turn hturn
    simp [hroom]
  cases hhandler : s.handlers a with
  | entering name room =>
      rw [hhandler] at huses
      obtain rfl : room = roomId := huses
      exact ((hs.name name).entering a room hhandler).2.2
  | announcing name room turn =>
      rw [hhandler] at huses
      obtain rfl : room = roomId := huses
      exact hiter turn (by rw [hhandler]; rfl)
  | leaving name room own turn =>
      rw [hhandler] at huses
      obtain rfl : room = roomId := huses
      exact hiter turn (by rw [hhandler]; rfl)
  | _ =>
      rw [hhandler] at huses
      exact absurd huses id

omit [DecidableEq κ] in
theorem Agreed.openRoom (h : s.Agreed) (roomId : String) : (s.openRoom roomId).Agreed := by
  obtain ⟨hpeers, -, hhandlers⟩ := openRoom_fields s roomId
  have hsent := sent_openRoom s roomId
  have hmembers := members_openRoom s roomId
  refine ⟨fun a name hname => ?_, fun a room turn ha => ?_, fun a ha => ?_, fun a name room ha => ?_⟩
  · rw [hhandlers] at hname
    exact h.claimed a name hname
  · rw [hhandlers] at ha
    obtain ⟨old, hold, hrest⟩ := h.turns a room turn ha
    exact ⟨old, rooms_openRoom_of_some hold roomId, hrest⟩
  · rw [Waits, hhandlers, hpeers] at ha
    rw [hsent]
    exact h.waits a ha
  · rw [Listens, hpeers, hmembers, hhandlers] at ha
    rw [Knows, hsent, hhandlers, hmembers]
    exact h.listens a name room ha

/-- The request to enter a room. -/
theorem Agreed.requestRoom (repr : String → String) (h : s.Agreed) (hs : s.Sound)
    {roomId : Option String} {msg : String} (hhandler : s.handlers ws = .receiving uid roomId)
    (hpeer : s.peers uid = some ⟨ws, none⟩)
    (hcalm : s.Settles ws uid (s.requestRoom repr ws uid msg).1) :
    (s.requestRoom repr ws uid msg).1.Agreed := by
  have hlive : (s.handlers ws).Live uid := by rw [hhandler]; rfl
  rw [Server.requestRoom] at hcalm ⊢
  split at hcalm
  · next room hsplit =>
      split at hcalm <;> rename_i hroom
      · rw [if_pos hroom]
        refine h.reply hs hhandler (.inl ?_) hcalm
        have hassoc (a b c : String) : a ++ b ++ c = a ++ (b ++ c) := by
          simp only [String.append_assoc]
        have herror : "ERROR invalid room id " = "ERROR" ++ " invalid room id " := by decide
        rw [herror, hassoc]
        exact silent_error _
      · rw [if_neg hroom]
        split at hcalm <;> rename_i hmem
        · rw [if_pos hmem]
          exact h.raised hs hlive hcalm
        · rw [if_neg hmem]
          have hentering := h.entering hs room hhandler hpeer
          obtain ⟨hpeers, hsessions, hhandlers⟩ := openRoom_fields s room
          rw [Server.sendThen] at hcalm ⊢
          cases hsend : (s.openRoom room).send ws ("ROOM_OK " ++ " ".intercalate (s.members room)) with
          | none =>
              simp only [hsend] at hcalm ⊢
              refine (h.openRoom room).raised (hs.openRoom room) (by rwa [hhandlers])
                ⟨fun roomId' hchanged _ a hws huses => ?_, hcalm.told⟩
              rw [hhandlers] at huses
              have hopen := hs.rooms_of_uses huses
              obtain ⟨old, hold⟩ := Option.ne_none_iff_exists'.1 hopen
              rw [rooms_openRoom_of_some hold room, ← hold] at hchanged
              exact hcalm.alone roomId' hchanged hopen a hws huses
          | some s' =>
              obtain rfl := send_eq_some hsend
              rw [sent_openRoom]
              exact hentering
  · exact h.raised hs hlive hcalm

/-- **The loop of the messages.** -/
theorem Agreed.handle (repr : String → String) (h : s.Agreed) (hs : s.Sound)
    {roomId : Option String} {msg : String} (hhandler : s.handlers ws = .receiving uid roomId)
    (hcalm : s.Settles ws uid (s.handle repr ws uid roomId msg).1) :
    (s.handle repr ws uid roomId msg).1.Agreed := by
  have hlive : (s.handlers ws).Live uid := by rw [hhandler]; rfl
  rw [Server.handle] at hcalm ⊢
  split at hcalm
  · exact h.raised hs hlive hcalm
  · next peer hpeer =>
      split at hcalm
      · split at hcalm <;> rename_i hsession
        · rw [if_pos hsession]
          exact h.relay hs hhandler hcalm
        · rw [if_neg hsession]
          split at hcalm <;> rename_i hempty
          · rw [if_pos hempty]
            exact h.roomCommand repr hs hhandler hcalm
          · rw [if_neg hempty]
            exact h.raised hs hlive hcalm
      · next hstatus =>
          have hws : ws = peer.ws := (hs.name uid).entry peer ws hpeer hlive.name
          have hown : s.peers uid = some ⟨ws, none⟩ := by rw [hpeer, hws, ← hstatus]
          split at hcalm <;> rename_i hsession
          · rw [if_pos hsession]
            exact h.requestSession repr hs hhandler hcalm
          · rw [if_neg hsession]
            split at hcalm <;> rename_i hroom
            · rw [if_pos hroom]
              exact h.requestRoom repr hs hhandler hown hcalm
            · rw [if_neg hroom]
              have hsame : s.await ws (.receiving uid roomId) = s := by
                rw [← hhandler, await_handlers]
              rwa [hsame]

/-- A coroutine that has no name goes on. -/
theorem Agreed.nameless (h : s.Agreed) (hname : (s.handlers ws).name = none)
    (hclaims : ∀ uid, handler.claims = some uid → ServerMessage.IsPeer uid)
    (hturn : handler.turn? = none)
    (hentering : ∀ name roomId, handler ≠ .entering name roomId)
    (hwaits : s.Waits ws ∨ ∀ s' : Server κ, s'.handlers ws = handler → ¬s'.Waits ws)
    {sent : κ → List String}
    (hsent : ∀ a, s.Waits a ∨ (∃ name roomId, s.Listens a name roomId) →
      sent a = s.sent a ∨ ∃ text, Silent text ∧ sent a = s.sent a ++ [text]) :
    (({ s with sent := sent } : Server κ).await ws handler).Agreed := by
  have hself : (({ s with sent := sent } : Server κ).await ws handler).handlers ws = handler :=
    await_self ..
  have hother : ∀ a, a ≠ ws →
      (({ s with sent := sent } : Server κ).await ws handler).handlers a = s.handlers a :=
    fun a hws => await_of_ne _ _ hws
  have hwaits' : ∀ a, (({ s with sent := sent } : Server κ).await ws handler).Waits a →
      s.Waits a := by
    intro a ha
    by_cases hws : a = ws
    · subst hws
      exact hwaits.resolve_right fun hnot => hnot _ hself ha
    · rw [Waits, hother a hws] at ha
      exact ha
  have hlistens : ∀ a name roomId,
      (({ s with sent := sent } : Server κ).await ws handler).Listens a name roomId →
        s.Listens a name roomId := by
    intro a name roomId ha
    refine ha.imp id fun henter => ?_
    by_cases hws : a = ws
    · rw [hws, hself] at henter
      exact absurd henter (hentering name roomId)
    · rwa [hother a hws] at henter
  refine h.quiet _ ws handler rfl hclaims hturn (fun room turn heq => ?_)
    (fun _ => rfl) (fun _ _ => id) hwaits' hlistens (fun a ha => hsent a ?_)
  · cases hws : s.handlers ws <;> simp_all [Handler.name, Handler.turn?]
  · rcases ha with ha | ⟨name, roomId, hl⟩
    · exact .inl (hwaits' a ha)
    · exact .inr ⟨name, roomId, hlistens a name roomId hl⟩

/-- A coroutine that has no name ends. -/
theorem Agreed.finish (h : s.Agreed) (hname : (s.handlers ws).name = none) :
    (s.finish ws).Agreed := by
  have hdone : (({ s with sent := s.sent } : Server κ).await ws .done).Agreed :=
    h.nameless hname (by simp [Handler.claims, Handler.name]) rfl (by simp)
      (.inr fun s' hs' hwaits => by rw [Waits, hs'] at hwaits; exact hwaits) (fun _ _ => .inl rfl)
  exact hdone.unheard rfl rfl rfl rfl

/-- `hello_peer`. -/
theorem Agreed.helloPeer (h : s.Agreed) (hhandler : s.handlers ws = .hello) (hello : String) :
    (s.helloPeer ws hello).1.Agreed := by
  have hname : (s.handlers ws).name = none := by rw [hhandler]; rfl
  have hrejecting : ((s.close ws).await ws .rejecting).Agreed := by
    have hawait : (({ s with sent := s.sent } : Server κ).await ws .rejecting).Agreed :=
      h.nameless hname (by simp [Handler.claims, Handler.name]) rfl (by simp)
        (.inr fun s' hs' hwaits => by rw [Waits, hs'] at hwaits; exact hwaits)
        (fun _ _ => .inl rfl)
    exact hawait.unheard rfl rfl rfl rfl
  rw [Server.helloPeer]
  split
  · next command uid _ =>
      split
      · exact hrejecting
      · split
        · exact hrejecting
        · next huid =>
            split
            · exact h.finish hname
            · next s' hsend =>
                obtain rfl := send_eq_some hsend
                refine h.nameless hname (fun name heq => ?_) rfl (by simp)
                  (.inl (by rw [Waits, hhandler]; trivial)) (sent_silent (.inl silent_hello))
                obtain rfl : uid = name := Option.some.inj heq
                exact isPeer_of_splitAll (not_not.1 (not_or.1 (not_or.1 huid).2).2)
  · exact h.finish hname

/-- A name is registered. -/
theorem Agreed.register (h : s.Agreed) (hs : s.Sound) (hhandler : s.handlers ws = .greeting uid)
    (hfree : ∀ a, (s.handlers a).name ≠ some uid) :
    ((s.setPeer uid (some ⟨ws, none⟩)).await ws (.receiving uid none)).Agreed := by
  set s' := (s.setPeer uid (some ⟨ws, none⟩)).await ws (.receiving uid none) with hs'
  have hhandlers : s'.handlers = Function.update s.handlers ws (.receiving uid none) := rfl
  have hpeers : ∀ name, name ≠ uid → s'.peers name = s.peers name :=
    fun name hne => Function.update_of_ne hne _ _
  have hself := handlers_self hhandlers
  have hclaimed : ServerMessage.IsPeer uid := h.claimed ws uid (by rw [hhandler]; rfl)
  refine h.quiet s' ws _ hhandlers (fun name heq => ?_) rfl (fun room turn heq => ?_)
    (fun _ => rfl) (fun _ _ => id) (fun a ha => ?_) (fun a name roomId ha => ?_)
    (fun _ _ => .inl rfl)
  · obtain rfl : uid = name := Option.some.inj heq
    exact hclaimed
  · rw [hhandler] at heq
    exact absurd heq (by simp [Handler.turn?])
  · by_cases hws : a = ws
    · rw [Waits, hws, hhandler]
      trivial
    · have hne : ∀ name, (s.handlers a).name = some name → s'.peers name = s.peers name :=
        fun name hname => hpeers name fun heq => hfree a (heq ▸ hname)
      rw [Waits, handlers_of_ne hhandlers hws] at ha
      rw [Waits]
      cases hold : s.handlers a with
      | receiving name roomId =>
          rw [hold] at ha hne
          exact (hne name rfl).symm.trans ha
      | replying name roomId =>
          rw [hold] at ha hne
          exact (hne name rfl).symm.trans ha
      | _ =>
          rw [hold] at ha
          exact ha
  · rcases ha with ⟨hown, hmem⟩ | henter
    · obtain ⟨-, -, b, -, hmember⟩ := (hs.name name).member roomId hmem
      have hne : name ≠ uid := fun heq => hfree b (heq ▸ hmember.name)
      exact .inl ⟨(hpeers name hne).symm.trans hown, hmem⟩
    · by_cases hws : a = ws
      · rw [hws, hself] at henter
        exact absurd henter (by simp)
      · rw [handlers_of_ne hhandlers hws] at henter
        exact .inr henter

/-- A session is registered: both its peers were in no room. -/
theorem Agreed.openSession (h : s.Agreed) (hs : s.Sound) {roomId : Option String} {callee : String}
    (hhandler : s.handlers ws = .calling uid roomId callee)
    (hfree : s.peers callee = none ∨ s.Free callee)
    (hcalm : s.Settles ws uid (s.openSession ws uid roomId callee).1) :
    (s.openSession ws uid roomId callee).1.Agreed := by
  have hlive : (s.handlers ws).Live uid := by rw [hhandler]; rfl
  have hown := (hs.name uid).busy ws (by rw [hhandler]; rfl)
  rw [Server.openSession] at hcalm ⊢
  rcases hfree with hgone | ⟨wsc, hcallee, hserves⟩
  · simp only [hgone] at hcalm ⊢
    exact h.raised hs hlive hcalm
  · simp only [hcallee, hown] at hcalm ⊢
    have hne : callee ≠ uid := by
      rintro rfl
      rw [hcallee] at hown
      obtain rfl : wsc = ws := by simpa using hown
      rw [hhandler] at hserves
      exact hserves
    set s' := (Server.setSession _ callee (some uid)).await ws (.receiving uid roomId) with hs'
    have hhandlers : s'.handlers = Function.update s.handlers ws (.receiving uid roomId) := rfl
    have hpeers : s'.peers = Function.update (Function.update s.peers uid
        (some ⟨ws, some "session"⟩)) callee (some ⟨wsc, some "session"⟩) := by
      simp [hs', setSession, setPeer, await, hne, hcallee]
    have hself := handlers_self hhandlers
    have hclaimed : ServerMessage.IsPeer uid := h.claimed ws uid (by rw [hhandler]; rfl)
    have hold : ∀ name a status, s'.peers name = some ⟨a, status⟩ → status ≠ some "session" →
        s.peers name = some ⟨a, status⟩ := by
      intro name a status hpeer hstatus
      rw [hpeers] at hpeer
      by_cases hcal : name = callee
      · rw [hcal, Function.update_self] at hpeer
        simp only [Option.some.injEq, Peer.mk.injEq] at hpeer
        exact absurd hpeer.2.symm hstatus
      · rw [Function.update_of_ne hcal] at hpeer
        by_cases huid : name = uid
        · rw [huid, Function.update_self] at hpeer
          simp only [Option.some.injEq, Peer.mk.injEq] at hpeer
          exact absurd hpeer.2.symm hstatus
        · rwa [Function.update_of_ne huid] at hpeer
    refine h.quiet s' ws _ hhandlers (fun name heq => ?_) rfl (fun room turn heq => ?_)
      (fun _ => rfl) (fun _ _ => id) (fun a ha => ?_) (fun a name room ha => ?_)
      (fun _ _ => .inl rfl)
    · obtain rfl : uid = name := Option.some.inj heq
      exact hclaimed
    · rw [hhandler] at heq
      exact absurd heq (by simp [Handler.turn?])
    · by_cases hws : a = ws
      · have hpeer : s'.peers uid = some ⟨a, none⟩ :=
          waits_of_name ha (by rw [hws, hself]; rfl)
        rw [hpeers, Function.update_of_ne hne.symm, Function.update_self] at hpeer
        exact absurd hpeer (by simp)
      · rw [Waits, handlers_of_ne hhandlers hws] at ha
        rw [Waits]
        cases hhold : s.handlers a with
        | receiving name room =>
            rw [hhold] at ha
            exact hold name a none ha (by simp)
        | replying name room =>
            rw [hhold] at ha
            exact hold name a none ha (by simp)
        | _ =>
            rw [hhold] at ha
            exact ha
    · rcases ha with ⟨hpeer, hmem⟩ | henter
      · have hroom := ((hs.name name).member room hmem).1
        exact .inl ⟨hold name a (some room) hpeer (by simpa using hroom), hmem⟩
      · by_cases hws : a = ws
        · rw [hws, hself] at henter
          exact absurd henter (by simp)
        · rw [handlers_of_ne hhandlers hws] at henter
          exact .inr henter

/-- **A room is entered**, and nobody in it is told yet. -/
theorem Agreed.entered (h : s.Agreed) (hs : s.Sound) {roomId : String} {room : Room}
    (hhandler : s.handlers ws = .entering uid roomId) (hroom : s.rooms roomId = some room)
    (halone : ∀ a, a ≠ ws → ¬(s.handlers a).Uses roomId) :
    (((s.setPeer uid (some ⟨ws, some roomId⟩)).setRoom roomId (room.add uid)).await ws
      (.announcing uid roomId (room.add uid).turn)).Agreed := by
  have hlive : (s.handlers ws).Live uid := by rw [hhandler]; rfl
  have hown := (hs.name uid).busy ws (by rw [hhandler]; rfl)
  have hnot : ∀ roomId', uid ∉ s.members roomId' := by
    intro roomId' hmem
    obtain ⟨-, -, a, hpeer, -⟩ := (hs.name uid).member roomId' hmem
    rw [hown] at hpeer
    exact absurd hpeer (by simp)
  have hmem : s.members roomId = room.members := by simp [members, hroom]
  have hadd : room.add uid = ⟨room.members ++ [uid], room.version + 1⟩ := by
    rw [Room.add, if_neg (hmem ▸ hnot roomId)]
  set s' := ((s.setPeer uid (some ⟨ws, some roomId⟩)).setRoom roomId (room.add uid)).await ws
    (.announcing uid roomId (room.add uid).turn) with hs'
  have hhandlers : s'.handlers = Function.update s.handlers ws
    (.announcing uid roomId (room.add uid).turn) := rfl
  have hself := handlers_self hhandlers
  have hpeer : ∀ name, name ≠ uid → s'.peers name = s.peers name :=
    fun name hne => Function.update_of_ne hne _ _
  have hpeer' : s'.peers uid = some ⟨ws, some roomId⟩ := Function.update_self ..
  have hmembers : ∀ q roomId', q ∈ s'.members roomId' ↔
      q ∈ s.members roomId' ∨ (roomId' = roomId ∧ q = uid) := by
    intro q roomId'
    have hset := members_setRoom (s.setPeer uid (some ⟨ws, some roomId⟩)) (room.add uid) roomId
      roomId'
    have hset : s'.members roomId' =
      if roomId' = roomId then (room.add uid).members else s.members roomId' := hset
    rw [hset]
    split
    · next heq => simp [heq, hmem, hadd]
    · next hne => simp [hne]
  have honly : ∀ a, (s.handlers a).name = some uid → a = ws :=
    fun a ha => (hs.name uid).one a ws ha hlive.name
  refine ⟨fun a name hclaims => ?_, fun a roomId' turn ha => ?_, fun a ha => ?_,
    fun a name roomId' ha => ?_⟩
  · by_cases hws : a = ws
    · rw [hws, hself] at hclaims
      exact h.claimed ws name (by rw [hhandler]; exact hclaims)
    · rw [handlers_of_ne hhandlers hws] at hclaims
      exact h.claimed a name hclaims
  · by_cases hws : a = ws
    · rw [hws, hself] at ha
      obtain ⟨rfl, rfl⟩ := Prod.mk.inj (Option.some.inj ha)
      refine ⟨room.add uid, by simp [hs', setRoom, await], rfl, rfl, ?_⟩
      have hnodup := hs.nodup roomId
      rw [hmem] at hnodup
      rw [hadd]
      exact hnodup.append (List.nodup_singleton uid) (by simpa using hmem ▸ hnot roomId)
    · rw [handlers_of_ne hhandlers hws] at ha
      have hne : roomId' ≠ roomId := by
        rintro rfl
        exact halone a hws (uses_of_turn ha)
      obtain ⟨room', hroom', hrest⟩ := h.turns a roomId' turn ha
      exact ⟨room', (Function.update_of_ne hne _ _).trans hroom', hrest⟩
  · have hws : a ≠ ws := by
      rintro rfl
      rw [Waits, hself] at ha
      exact ha
    have hne : ∀ name, (s.handlers a).name = some name → s'.peers name = s.peers name :=
      fun name hname => hpeer name fun heq => hws (honly a (heq ▸ hname))
    refine h.waits a ?_
    rw [Waits, handlers_of_ne hhandlers hws] at ha
    rw [Waits]
    cases hold : s.handlers a with
    | receiving name room =>
        rw [hold] at ha hne
        exact (hne name rfl).symm.trans ha
    | replying name room =>
        rw [hold] at ha hne
        exact (hne name rfl).symm.trans ha
    | _ =>
        rw [hold] at ha
        exact ha
  · have hleaves : ∀ b q, (s'.handlers b).Leaves q roomId' name ↔
        (s.handlers b).Leaves q roomId' name := by
      intro b q
      by_cases hws : b = ws
      · rw [hws, hself, hhandler]
        exact Iff.rfl
      · rw [handlers_of_ne hhandlers hws]
    have hannounces : ∀ b q, ¬(b = ws ∧ q = uid ∧ roomId' = roomId) →
        ((s'.handlers b).Announces q roomId' name ↔ (s.handlers b).Announces q roomId' name) := by
      intro b q hnew
      by_cases hws : b = ws
      · rw [hws, hself, hhandler]
        exact iff_of_false (fun hann => hnew ⟨hws, hann.1.symm, hann.2.1.symm⟩) id
      · rw [handlers_of_ne hhandlers hws]
    by_cases huid : name = uid
    · -- the peer that enters
      subst huid
      obtain ⟨rfl, rfl⟩ : ws = a ∧ roomId = roomId' := by
        rcases ha with ⟨hthis, -⟩ | henter
        · rw [hpeer'] at hthis
          simpa using hthis
        · by_cases hws : a = ws
          · rw [hws, hself] at henter
            exact absurd henter (by simp)
          · rw [handlers_of_ne hhandlers hws] at henter
            exact absurd (honly a (by rw [henter]; rfl)) hws
      obtain ⟨view, hview, hnodup, hall⟩ := h.listens ws name roomId (.inr hhandler)
      refine ⟨view, hview, hnodup, fun q hq => ?_⟩
      simp only [hleaves] at hq
      rw [hall q hq, hmembers]
      by_cases hqn : q = name
      · simp [hqn]
      · have hann : ∀ b, ((s'.handlers b).Announces q roomId name ↔
            (s.handlers b).Announces q roomId name) :=
          fun b => hannounces b q fun heq => hqn heq.2.1
        simp only [hann, hqn, and_false, or_false]
    · have hlistens : s.Listens a name roomId' := by
        rcases ha with ⟨hthis, hin⟩ | henter
        · refine .inl ⟨(hpeer name huid).symm.trans hthis, ?_⟩
          exact ((hmembers name roomId').1 hin).resolve_right fun heq => huid heq.2
        · by_cases hws : a = ws
          · rw [hws, hself] at henter
            exact absurd henter (by simp)
          · rw [handlers_of_ne hhandlers hws] at henter
            exact .inr henter
      obtain ⟨view, hview, hnodup, hall⟩ := h.listens a name roomId' hlistens
      refine ⟨view, hview, hnodup, fun q hq => ?_⟩
      simp only [hleaves] at hq
      rw [hall q hq, hmembers]
      by_cases hnew : q = uid ∧ roomId' = roomId
      · -- the members are still to be told
        obtain ⟨rfl, rfl⟩ := hnew
        refine iff_of_false (fun hold => hnot roomId' hold.1) fun hnew => hnew.2.2 ws ?_
        rw [hself]
        have hin : name ∈ s.members roomId' := by
          rcases hlistens with ⟨-, hin⟩ | henter
          · exact hin
          · have hws : a ≠ ws := by
              rintro rfl
              rw [hhandler] at henter
              exact huid (Handler.entering.inj henter).1.symm
            have huses := halone a hws
            rw [henter] at huses
            exact absurd rfl huses
        refine ⟨rfl, rfl, ?_⟩
        rw [hmem] at hin
        simp [Room.turn, hadd, hin]
      · have hann : ∀ b, ((s'.handlers b).Announces q roomId' name ↔
            (s.handlers b).Announces q roomId' name) :=
          fun b => hannounces b q fun heq => hnew heq.2
        have hor : ¬(roomId' = roomId ∧ q = uid) := fun heq => hnew heq.symm
        simp only [hann, hor, or_false]

theorem Agreed.enterRoom (h : s.Agreed) (hs : s.Sound) {roomId : String}
    (hhandler : s.handlers ws = .entering uid roomId)
    (hcalm : s.Settles ws uid (s.enterRoom ws uid roomId).1) :
    (s.enterRoom ws uid roomId).1.Agreed := by
  have hown := (hs.name uid).busy ws (by rw [hhandler]; rfl)
  obtain ⟨room, hroom⟩ :=
    Option.ne_none_iff_exists'.1 ((hs.name uid).entering ws roomId hhandler).2.2
  obtain ⟨hremovable, hadd⟩ := hs.entered hhandler hroom
  obtain ⟨hturn, hall⟩ :=
    turnOk_entered (s.setPeer uid (some ⟨ws, some roomId⟩)) roomId (room.add uid)
  have hroom' : (s.setPeer uid (some ⟨ws, some roomId⟩)).rooms roomId = some room := hroom
  have hentered := h.entered hs hhandler hroom
  rw [Server.enterRoom, hown] at hcalm ⊢
  dsimp only at hcalm ⊢
  rw [hroom'] at hcalm ⊢
  dsimp only at hcalm ⊢
  set s' := (s.setPeer uid (some ⟨ws, some roomId⟩)).setRoom roomId (room.add uid)
  have hgrow := roomsGrow_announceLoop s' ws uid roomId (room.add uid).members.length
    (room.add uid).version (room.add uid).members
  have hset : s'.rooms roomId = some (room.add uid) := Function.update_self ..
  have hchanged : (s'.announceLoop ws uid roomId (room.add uid).members.length
      (room.add uid).version (room.add uid).members).1.rooms roomId ≠ s.rooms roomId := by
    obtain ⟨room'', hroom'', hle⟩ := hgrow roomId _ hset
    rw [hroom'', hroom]
    intro heq
    have hversion : (room.add uid).version = room''.version + 1 := by
      rw [hadd, Option.some.inj heq]
    rcases hle with rfl | hlt
    · omega
    · omega
  have halone := hcalm.alone roomId hchanged (by simp [hroom])
  have hpeer : s'.peers uid = some ⟨ws, some roomId⟩ := Function.update_self ..
  refine (hentered halone).announceLoop hremovable hpeer (hall uid (by simp [hadd])) hturn hall
    (fun room' hne hopen a hws => ?_) hcalm.told
  by_cases heq : room' = roomId
  · exact heq ▸ halone a hws
  · have hsame : s'.rooms room' = s.rooms room' := Function.update_of_ne heq _ _
    rw [hsame] at hne hopen
    exact hcalm.alone room' hne hopen a hws

omit [DecidableEq κ] in
/-- An iterator over a room that has not changed goes on as it was. -/
theorem Agreed.goOn_eq (h : s.Agreed) {roomId : String} {turn : Turn}
    (hturn : (s.handlers ws).turn? = some (roomId, turn)) (next : Option String) :
    turn.goOn (s.rooms roomId) next = some turn := by
  obtain ⟨room, hroom, hsize, hversion, -⟩ := h.turns ws roomId turn hturn
  rw [hroom, Turn.goOn, if_neg (by simp [hsize]), if_pos hversion.symm]

/-- **A wait that returns, or raises.** -/
theorem Agreed.resume (h : s.Agreed) (hs : s.Sound) {ok : Bool} {next : Option String}
    {outcome : Outcome κ} (hpolite : s.Polite (.resume ws ok next))
    (hresume : s.resume ws ok next = some outcome)
    (hcalm : ∀ uid, (s.handlers ws).name = some uid → s.Settles ws uid outcome.1) :
    outcome.1.Agreed := by
  rw [Server.resume] at hresume
  split at hresume
  · next hhandler =>
      obtain rfl := Option.some.inj hresume
      exact h.finish (by rw [hhandler]; rfl)
  · next uid hhandler =>
      split at hresume <;> obtain rfl := Option.some.inj hresume
      · next hok =>
          subst hok
          rw [Polite, hhandler] at hpolite
          exact h.register hs hhandler hpolite
      · exact h.finish (by rw [hhandler]; rfl)
  · next uid roomId hhandler =>
      have hlive : (s.handlers ws).Live uid := by rw [hhandler]; rfl
      split at hresume <;> obtain rfl := Option.some.inj hresume
      · have hnext : (Handler.receiving uid roomId : Handler κ).Live uid := rfl
        exact h.goOn hlive (by simp [hhandler]) hnext (by simp) (by simp)
          (fun _ => by rw [hhandler]; rfl) (fun _ _ => .inl rfl)
      · exact h.raised hs hlive (hcalm uid hlive.name)
  · next uid roomId callee hhandler =>
      have hlive : (s.handlers ws).Live uid := by rw [hhandler]; rfl
      obtain rfl := Option.some.inj hresume
      split at hcalm <;> rename_i hok
      · subst hok
        rw [Polite, hhandler] at hpolite
        rw [if_pos rfl]
        exact h.openSession hs hhandler hpolite (hcalm uid hlive.name)
      · rw [if_neg hok]
        exact h.raised hs hlive (hcalm uid hlive.name)
  · next uid roomId hhandler =>
      have hlive : (s.handlers ws).Live uid := by rw [hhandler]; rfl
      obtain rfl := Option.some.inj hresume
      split at hcalm <;> rename_i hok
      · rw [if_pos hok]
        exact h.enterRoom hs hhandler (hcalm uid hlive.name)
      · rw [if_neg hok]
        exact h.raised hs hlive (hcalm uid hlive.name)
  · next uid roomId turn hhandler =>
      have hlive : (s.handlers ws).Live uid := by rw [hhandler]; rfl
      have hturn : (s.handlers ws).turn? = some (roomId, turn) := by rw [hhandler]; rfl
      obtain ⟨hpeer, hin⟩ := (hs.name uid).announced ws roomId turn hhandler
      rw [h.goOn_eq hturn] at hresume
      split at hresume <;> obtain rfl := Option.some.inj hresume
      · obtain ⟨hturnOk, hrest⟩ := (hs.turn ws roomId turn hturn).goOn (h.goOn_eq hturn next)
        have hself : (s.await ws (.announcing uid roomId turn)).Agreed := by
          rwa [← hhandler, await_handlers]
        exact hself.announceLoop (hs.removable hlive) hpeer hin hturnOk hrest
          (hcalm uid hlive.name).alone (hcalm uid hlive.name).told
      · exact h.raised hs hlive (hcalm uid hlive.name)
  · next uid hhandler =>
      obtain rfl := Option.some.inj hresume
      have hself : (s.await ws (.closingPartner uid)).Agreed := by
        rwa [← hhandler, await_handlers]
      have hold : ∀ roomId turn, (Handler.closingPartner uid : Handler κ).turn? =
        some (roomId, turn) → turn.rest = [] := by simp [Handler.turn?]
      rw [Server.removeEntry]
      cases hpeer : s.peers uid with
      | none =>
          have hends : (Handler.done : Handler κ).Ends := trivial
          have hdone : (s.await ws .done).Agreed := hself.ends hold hends
            (by simp [Handler.claims, Handler.name]) rfl (fun _ _ => id) rfl rfl
          exact hdone.unheard rfl rfl rfl rfl
      | some peer =>
          dsimp only
          have hsession := (hs.name uid).closingPartner ws peer hhandler hpeer
          rw [hsession]
          dsimp only
          rw [if_neg (by simp)]
          exact hself.dropEntry hold peer.ws
  · next uid roomId own turn hhandler =>
      have hname : (s.handlers ws).name = some uid := by rw [hhandler]; rfl
      have hturn : (s.handlers ws).turn? = some (roomId, turn) := by rw [hhandler]; rfl
      rw [h.goOn_eq hturn] at hresume
      have hself : s.await ws (.leaving uid roomId own turn) = s := by
        rw [← hhandler, await_handlers]
      obtain ⟨-, hroom⟩ := hs.removing hname (by rw [hhandler]; exact id)
      have hentry := (hs.name uid).leaving ws roomId own turn hhandler
      obtain ⟨-, hrest⟩ := (hs.turn ws roomId turn hturn).goOn (h.goOn_eq hturn next)
      split at hresume <;> obtain rfl := Option.some.inj hresume
      · have hagreed : (s.await ws (.leaving uid roomId own turn)).Agreed := by rwa [hself]
        exact hagreed.leaveLoop (by rwa [hself]) (hroom roomId) hentry hrest
          (hcalm uid hname).told
      · exact absurd ((hcalm uid hname).told (await_self ..)) hentry
  · next hhandler =>
      obtain rfl := Option.some.inj hresume
      exact h.finish (by rw [hhandler]; rfl)
  all_goals exact absurd hresume (by simp)

/-- **A step of a calm run.** -/
theorem Agreed.step (repr : String → String) (h : s.Agreed) (hs : s.Sound) {event : Event κ}
    {outcome : Outcome κ} (hcalm : Calm repr s event) (hstep : s.step repr event = some outcome) :
    outcome.1.Agreed := by
  have hsettles : ∀ uid, (s.handlers event.ws).name = some uid →
      s.Settles event.ws uid outcome.1 := fun uid hname =>
    ⟨hcalm.alone outcome hstep, hcalm.told outcome uid hstep hname⟩
  have hpolite := hcalm.polite
  cases event with
  | connect ws =>
      rw [Server.step] at hstep
      split at hstep
      · next hhandler =>
          obtain rfl := Option.some.inj hstep
          exact h.nameless (by rw [hhandler]; rfl) (by simp [Handler.claims, Handler.name]) rfl
            (by simp) (.inl (by rw [Waits, hhandler]; trivial)) (fun _ _ => .inl rfl)
      · exact absurd hstep (by simp)
  | receive ws msg =>
      rw [Server.step] at hstep
      split at hstep
      · next hhandler =>
          obtain rfl := Option.some.inj hstep
          exact h.helloPeer hhandler msg
      · next uid roomId hhandler =>
          obtain rfl := Option.some.inj hstep
          have hname : (s.handlers ws).name = some uid := by rw [hhandler]; rfl
          exact h.handle repr hs hhandler (hsettles uid hname)
      · exact absurd hstep (by simp)
  | receiveFails ws =>
      rw [Server.step] at hstep
      split at hstep
      · exact absurd hstep (by simp)
      · split at hstep
        · next hhandler =>
            obtain rfl := Option.some.inj hstep
            have hname : (s.handlers ws).name = none := by rw [hhandler]; rfl
            exact h.finish hname
        · next uid roomId hhandler =>
            obtain rfl := Option.some.inj hstep
            have hlive : (s.handlers ws).Live uid := by rw [hhandler]; rfl
            exact h.raised hs hlive (hsettles uid hlive.name)
        · exact absurd hstep (by simp)
  | resume ws ok next => exact h.resume hs hpolite hstep hsettles
  | lost ws =>
      obtain rfl := Option.some.inj hstep
      exact h.unheard rfl rfl rfl rfl

omit [DecidableEq κ] in
/-- Before any connection nobody has heard anything. -/
theorem agreed_init : (init : Server κ).Agreed where
  claimed _ _ hname := by simp [init, Handler.claims, Handler.name] at hname
  turns _ _ _ ha := by simp [init, Handler.turn?] at ha
  waits _ _ := rfl
  listens _ _ _ hl := by simp [Listens, init] at hl

/-- **The members of a room know each other.**  In every state of a calm run, and in every room that
nobody is about to enter or to leave, the client of each member has the other members as its list,
each of them once. -/
theorem calm_run (repr : String → String) {events : List (Event κ)} {s : Server κ}
    {exceptions : List (List Raised)}
    (hcalm : Machine.Admits (Server.step repr) (Calm repr) init events)
    (hrun : Machine.run (Server.step repr) init events = some (s, exceptions)) {roomId : String}
    (hidle : ∀ a, ¬(s.handlers a).Uses roomId) :
    ∀ uid ∈ s.members roomId, ∃ ws, s.peers uid = some ⟨ws, some roomId⟩ ∧
      ∃ view, hearAll (s.sent ws) = some view ∧
        view.Perm ((s.members roomId).filter (· ≠ uid)) := by
  have hstep : ∀ (s : Server κ) event r, s.Sound ∧ s.Agreed → Calm repr s event →
      s.step repr event = some r → r.1.Sound ∧ r.1.Agreed := fun s event r hs hevent hr =>
    ⟨(hs.1.step repr hevent.polite hr).1, hs.2.step repr hs.1 hevent hr⟩
  obtain ⟨hs, h⟩ : s.Sound ∧ s.Agreed :=
    (hcalm.always (fun _ => id) hstep ⟨sound_init, agreed_init⟩).run hrun
  intro uid hmem
  obtain ⟨-, -, ws, hpeer, -⟩ := (hs.name uid).member roomId hmem
  obtain ⟨view, hview, hnodup, hall⟩ := h.listens ws uid roomId (.inl ⟨hpeer, hmem⟩)
  refine ⟨ws, hpeer, view, hview, ?_⟩
  rw [List.perm_ext_iff_of_nodup hnodup ((hs.nodup roomId).filter _)]
  intro pid
  have hquiet : ∀ a, ¬(s.handlers a).Leaves pid roomId uid ∧
      ¬(s.handlers a).Announces pid roomId uid := by
    intro a
    refine ⟨fun hleave => hidle a ?_, fun hann => hidle a ?_⟩
    · cases hhandler : s.handlers a <;> rw [hhandler] at hleave <;>
        first
        | exact hleave.2.1
        | exact absurd hleave id
    · cases hhandler : s.handlers a <;> rw [hhandler] at hann <;>
        first
        | exact hann.2.1
        | exact absurd hann id
  rw [hall pid fun a => (hquiet a).1]
  simp only [fun a => (hquiet a).2, not_false_eq_true, implies_true, and_true, List.mem_filter,
    decide_eq_true_eq]

/-- No coroutine but that of the event is about to enter or to leave a room, and none ends. -/
def Lone [Fintype κ] (repr : String → String) (s : Server κ) (event : Event κ) : Prop :=
  s.Polite event ∧ (∀ a, a ≠ event.ws → (s.handlers a).idle = true) ∧
    (s.step repr event).all (fun outcome => outcome.1.handlers event.ws ≠ .done) = true

instance [Fintype κ] (repr : String → String) (s : Server κ) (event : Event κ) :
    Decidable (Lone repr s event) := by
  unfold Lone
  infer_instance

omit [DecidableEq κ] in
theorem not_uses_of_idle {handler : Handler κ} (h : handler.idle = true) (roomId : String) :
    ¬handler.Uses roomId := by
  cases handler <;> simp_all [Handler.idle, Handler.Uses]

theorem Lone.calm [Fintype κ] {repr : String → String} {event : Event κ} (h : Lone repr s event) :
    Calm repr s event := by
  obtain ⟨hpolite, hidle, hdone⟩ := h
  refine ⟨hpolite, fun _ _ roomId _ _ a ha => not_uses_of_idle (hidle a ha) roomId,
    fun outcome uid hstep _ hend => ?_⟩
  rw [hstep, Option.all_some] at hdone
  exact absurd hend (by simpa using hdone)

theorem calm_run_meeting : ∃ s exceptions,
    Machine.run (Server.step id) init meeting = some (s, exceptions) ∧
      s.members "hall" = ["alice", "bob"] ∧
      ∀ uid ∈ s.members "hall", ∃ ws, s.peers uid = some ⟨ws, some "hall"⟩ ∧
        ∃ view, hearAll (s.sent ws) = some view ∧
          view.Perm ((s.members "hall").filter (· ≠ uid)) := by
  have hlone : Machine.Admits (Server.step id) (Lone id) init meeting := by decide +kernel
  have hend : (Machine.run (Server.step id) init meeting).map (fun r =>
      (r.1.members "hall", (r.1.handlers false).idle, (r.1.handlers true).idle)) =
        some (["alice", "bob"], true, true) := by decide +kernel
  obtain ⟨⟨s, exceptions⟩, hrun, hs⟩ := Option.map_eq_some_iff.1 hend
  obtain ⟨hmembers, hfirst, hsecond⟩ : s.members "hall" = ["alice", "bob"] ∧
      (s.handlers false).idle = true ∧ (s.handlers true).idle = true := by simpa using hs
  have hidle : ∀ a, ¬(s.handlers a).Uses "hall" := by
    intro a
    cases a with
    | false => exact not_uses_of_idle hfirst _
    | true => exact not_uses_of_idle hsecond _
  exact ⟨s, exceptions, hrun, hmembers,
    calm_run id (hlone.mono fun _ _ => Lone.calm) hrun hidle⟩

end Server

end Signaling
end LibSwitcher
