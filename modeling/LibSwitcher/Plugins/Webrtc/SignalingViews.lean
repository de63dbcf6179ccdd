/-
# The members of a room know each other

Peers "are guaranteed to always have an up to date list of the members of the room they are in"
(`plugins/webrtc/signaling/Server.md`).  The list is what the client makes of the texts that the
server sent to it (`Webrtc.hearAll`), and what the server has to keep while it tells the members one
by one who joined or left, with a wait after each, is `Agreed`: a member knows the others, but for
the one that is being announced and has not come to it yet, and what it knows of the one that leaves
is open until it is told.

In a `Calm` run no room is changed while the coroutine of another peer enters it or tells its
members something, and those who are left are told.  Without this the server tells some of them
nothing: its iterator over the set of the members raises `RuntimeError`, or the list of `ROOM_OK`
is no longer that of the room.
-/

import LibSwitcher.Plugins.Webrtc.RoomList
import LibSwitcher.Plugins.Webrtc.SignalingSafety

namespace LibSwitcher
namespace Signaling

open Webrtc

variable {κ : Type*}

/-- A name that a coroutine has, or is about to register. -/
def Handler.claims (handler : Handler κ) : Option String :=
  match handler with
  | greeting uid => some uid
  | _ => handler.name

/-- A coroutine enters a room, or goes over its members. -/
def Handler.Uses (handler : Handler κ) (roomId : String) : Prop :=
  match handler with
  | entering _ room | announcing _ room _ | leaving _ room _ _ => room = roomId
  | _ => False

/-- A coroutine is about to end. -/
def Handler.Ends (handler : Handler κ) : Prop :=
  match handler with
  | closingPartner _ | closing | done => True
  | _ => False

/-- A member of a room is still to be told that a peer joined. -/
def Handler.Announces (handler : Handler κ) (uid roomId pid : String) : Prop :=
  match handler with
  | announcing name room turn => name = uid ∧ room = roomId ∧ pid ∈ turn.rest
  | _ => False

/-- A member of a room is still to be told that a peer left. -/
def Handler.Leaves (handler : Handler κ) (uid roomId pid : String) : Prop :=
  match handler with
  | leaving name room _ turn => name = uid ∧ room = roomId ∧ pid ∈ turn.rest
  | _ => False

theorem Handler.Announces.name {handler : Handler κ} {uid roomId pid : String}
    (h : handler.Announces uid roomId pid) : handler.name = some uid := by
  cases handler with
  | announcing name room turn => exact congrArg some h.1
  | _ => exact absurd h id

theorem Handler.Leaves.name {handler : Handler κ} {uid roomId pid : String}
    (h : handler.Leaves uid roomId pid) : handler.name = some uid := by
  cases handler with
  | leaving name room own turn => exact congrArg some h.1
  | _ => exact absurd h id

/-- Only an iterator tells something. -/
theorem Handler.not_announces {handler : Handler κ}
    (h : ∀ roomId turn, handler.turn? = some (roomId, turn) → turn.rest = [])
    (uid roomId pid : String) :
    ¬handler.Announces uid roomId pid ∧ ¬handler.Leaves uid roomId pid := by
  cases handler <;> simp_all [Handler.Announces, Handler.Leaves, Handler.turn?]

namespace Server

/-- The connection is that of a member of a room, or of a peer that enters it. -/
def Listens (s : Server κ) (ws : κ) (uid roomId : String) : Prop :=
  (s.peers uid = some ⟨ws, some roomId⟩ ∧ uid ∈ s.members roomId) ∨
    s.handlers ws = .entering uid roomId

/-- The connection has asked for no room yet. -/
def Waits (s : Server κ) (ws : κ) : Prop :=
  match s.handlers ws with
  | .absent | .hello | .greeting _ => True
  | .receiving uid _ | .replying uid _ => s.peers uid = some ⟨ws, none⟩
  | _ => False

/-- After the texts, the client has the other members of the room: those that are announced have
come to it, and what it has of those that leave is open until it is told. -/
def Knows (s : Server κ) (texts : List String) (uid roomId : String) : Prop :=
  ∃ view, hearAll texts = some view ∧ view.Nodup ∧
    ∀ pid, (∀ a, ¬(s.handlers a).Leaves pid roomId uid) →
      (pid ∈ view ↔ pid ∈ s.members roomId ∧ pid ≠ uid ∧
        ∀ a, ¬(s.handlers a).Announces pid roomId uid)

/-- **What the server keeps.** -/
structure Agreed (s : Server κ) : Prop where
  /-- A name is a field of a message. -/
  claimed : ∀ ws uid, (s.handlers ws).claims = some uid → ServerMessage.IsPeer uid
  /-- The room has not changed since an iterator over it was made. -/
  turns : ∀ ws roomId turn, (s.handlers ws).turn? = some (roomId, turn) →
    ∃ room, s.rooms roomId = some room ∧ turn.size = room.members.length ∧
      turn.version = room.version ∧ turn.rest.Nodup
  waits : ∀ ws, s.Waits ws → hearAll (s.sent ws) = some []
  listens : ∀ ws uid roomId, s.Listens ws uid roomId → s.Knows (s.sent ws) uid roomId

/-- **A run where nobody changes a room that another is about to enter or to leave.** -/
structure Calm [DecidableEq κ] (repr : String → String) (s : Server κ) (event : Event κ) :
    Prop where
  /-- The names are those of one coroutine each. -/
  polite : s.Polite event
  /-- A room is changed by one coroutine at a time. -/
  alone : ∀ outcome, s.step repr event = some outcome →
    ∀ roomId, outcome.1.rooms roomId ≠ s.rooms roomId → s.rooms roomId ≠ none →
      ∀ a, a ≠ event.ws → ¬(s.handlers a).Uses roomId
  /-- The coroutine of a peer does not end before it has told everybody that the peer left. -/
  told : ∀ outcome uid, s.step repr event = some outcome →
    (s.handlers event.ws).name = some uid → outcome.1.handlers event.ws = .done →
      outcome.1.peers uid = none

variable [DecidableEq κ] {s s' : Server κ} {ws : κ} {uid : String} {handler : Handler κ}

section quiet

/-- **A step that tells nobody of a room anything.**  The rooms are as before, those who hear of
them are fewer, and what they hear changes no list. -/
theorem Agreed.quiet (h : s.Agreed) (s' : Server κ) (ws : κ) (handler : Handler κ)
    (hhandlers : s'.handlers = Function.update s.handlers ws handler)
    (hclaims : ∀ uid, handler.claims = some uid → ServerMessage.IsPeer uid)
    (hturn : handler.turn? = none)
    (hold : ∀ roomId turn, (s.handlers ws).turn? = some (roomId, turn) → turn.rest = [])
    (hmembers : ∀ roomId, s'.members roomId = s.members roomId)
    (hrooms : ∀ roomId room, s.rooms roomId = some room → s'.rooms roomId = some room)
    (hwaits : ∀ a, s'.Waits a → s.Waits a)
    (hlistens : ∀ a name roomId, s'.Listens a name roomId → s.Listens a name roomId)
    (hsent : ∀ a, s'.Waits a ∨ (∃ name roomId, s'.Listens a name roomId) →
      s'.sent a = s.sent a ∨ ∃ text, Silent text ∧ s'.sent a = s.sent a ++ [text]) :
    s'.Agreed := by
  have hheard : ∀ a, s'.Waits a ∨ (∃ name roomId, s'.Listens a name roomId) →
      hearAll (s'.sent a) = hearAll (s.sent a) := by
    intro a ha
    rcases hsent a ha with heq | ⟨text, hsilent, heq⟩
    · rw [heq]
    · rw [heq, hsilent.hearAll]
  have htells : ∀ a name roomId pid,
      ((s'.handlers a).Announces name roomId pid ↔ (s.handlers a).Announces name roomId pid) ∧
        ((s'.handlers a).Leaves name roomId pid ↔ (s.handlers a).Leaves name roomId pid) := by
    intro a name roomId pid
    by_cases hws : a = ws
    · subst hws
      obtain ⟨hannounce, hleave⟩ := Handler.not_announces hold name roomId pid
      rw [handlers_self hhandlers]
      have hnone : ∀ roomId turn, handler.turn? = some (roomId, turn) → turn.rest = [] := by
        simp [hturn]
      obtain ⟨hannounce', hleave'⟩ := Handler.not_announces hnone name roomId pid
      exact ⟨iff_of_false hannounce' hannounce, iff_of_false hleave' hleave⟩
    · rw [handlers_of_ne hhandlers hws]
      exact ⟨Iff.rfl, Iff.rfl⟩
  refine ⟨fun a name hname => ?_, fun a roomId turn ha => ?_, fun a ha => ?_,
    fun a name roomId ha => ?_⟩
  · by_cases hws : a = ws
    · rw [hws, handlers_self hhandlers] at hname
      exact hclaims name hname
    · rw [handlers_of_ne hhandlers hws] at hname
      exact h.claimed a name hname
  · by_cases hws : a = ws
    · rw [hws, handlers_self hhandlers, hturn] at ha
      exact absurd ha (by simp)
    · rw [handlers_of_ne hhandlers hws] at ha
      obtain ⟨room, hroom, hturn⟩ := h.turns a roomId turn ha
      exact ⟨room, hrooms roomId room hroom, hturn⟩
  · rw [hheard a (.inl ha)]
    exact h.waits a (hwaits a ha)
  · obtain ⟨view, hview, hnodup, hknows⟩ := h.listens a name roomId (hlistens a name roomId ha)
    refine ⟨view, (hheard a (.inr ⟨name, roomId, ha⟩)).trans hview, hnodup, fun pid hpid => ?_⟩
    simp only [(htells _ _ _ _).1, (htells _ _ _ _).2, hmembers] at hpid ⊢
    exact hknows pid hpid

omit [DecidableEq κ] in
/-- What is closed, and who is in a session, is not heard. -/
theorem Agreed.unheard (h : s.Agreed) (hpeers : s'.peers = s.peers) (hrooms : s'.rooms = s.rooms)
    (hhandlers : s'.handlers = s.handlers) (hsent : s'.sent = s.sent) : s'.Agreed := by
  obtain ⟨peers, sessions, rooms, handlers, closed, sent⟩ := s
  obtain ⟨peers', sessions', rooms', handlers', closed', sent'⟩ := s'
  obtain rfl : peers' = peers := hpeers
  obtain rfl : rooms' = rooms := hrooms
  obtain rfl : handlers' = handlers := hhandlers
  obtain rfl : sent' = sent := hsent
  exact ⟨h.claimed, h.turns, h.waits, h.listens⟩

/-- A coroutine stops listening, and may remove entries. -/
theorem Agreed.ends (h : (s.await ws handler).Agreed)
    (hold : ∀ roomId turn, handler.turn? = some (roomId, turn) → turn.rest = [])
    {handler' : Handler κ} (hends : handler'.Ends)
    (hclaims : ∀ uid, handler'.claims = some uid → ServerMessage.IsPeer uid)
    (hhandlers : s'.handlers = Function.update s.handlers ws handler')
    (hpeers : ∀ name peer, s'.peers name = some peer → s.peers name = some peer)
    (hrooms : s'.rooms = s.rooms) (hsent : s'.sent = s.sent) : s'.Agreed := by
  have hself := handlers_self hhandlers
  refine h.quiet s' ws handler' ?_ hclaims ?_ ?_
    (members_of_rooms hrooms) (fun _ _ hroom => hrooms ▸ hroom) (fun a ha => ?_)
    (fun a name roomId ha => ?_) (fun a _ => .inl (by rw [hsent]; rfl))
  · rw [hhandlers, await, Function.update_idem]
  · cases handler' <;> simp_all [Handler.Ends, Handler.turn?]
  · rwa [await_self]
  · by_cases hws : a = ws
    · subst hws
      rw [Waits, hself] at ha
      cases handler' <;> simp_all [Handler.Ends]
    · rw [Waits, handlers_of_ne hhandlers hws] at ha
      rw [Waits, await_of_ne _ _ hws]
      cases hhandler : s.handlers a <;> rw [hhandler] at ha <;>
        first
        | exact ha
        | exact hpeers _ _ ha
  · rcases ha with ⟨hpeer, hin⟩ | henter
    · exact .inl ⟨hpeers _ _ hpeer, by rwa [members_of_rooms hrooms] at hin⟩
    · by_cases hws : a = ws
      · subst hws
        rw [hself] at henter
        simp [henter, Handler.Ends] at hends
      · rw [handlers_of_ne hhandlers hws] at henter
        exact .inr (by rwa [await_of_ne _ _ hws])

end quiet

section telling

omit [DecidableEq κ] in
/-- A connection that listens in a room does so for one name and in one room. -/
theorem Sound.listens_unique (h : s.Sound) {pid roomId : String} {wsp : κ}
    (hpeer : s.peers pid = some ⟨wsp, some roomId⟩) (hin : pid ∈ s.members roomId) {a : κ}
    {name roomId' : String} (hlistens : s.Listens a name roomId') :
    (a = wsp → name = pid ∧ roomId' = roomId) ∧ (name = pid → a = wsp) := by
  obtain ⟨-, -, wsp', hpeer', hmember⟩ := (h.name pid).member roomId hin
  obtain rfl : wsp' = wsp := congrArg Peer.ws (Option.some.inj (hpeer'.symm.trans hpeer))
  have hname : (s.handlers a).name = some name := by
    rcases hlistens with ⟨hown, hmem⟩ | henter
    · obtain ⟨-, -, a', hown', hmember'⟩ := (h.name name).member roomId' hmem
      obtain rfl : a' = a := congrArg Peer.ws (Option.some.inj (hown'.symm.trans hown))
      exact hmember'.name
    · rw [henter]
      rfl
  refine ⟨?_, ?_⟩
  · rintro rfl
    obtain rfl : name = pid := Option.some.inj (hname.symm.trans hmember.name)
    rcases hlistens with ⟨hown, -⟩ | henter
    · refine ⟨rfl, ?_⟩
      rw [hpeer] at hown
      simpa using hown.symm
    · rw [henter] at hmember
      exact absurd hmember id
  · rintro rfl
    exact (h.name name).one a wsp' hname hmember.name

omit [DecidableEq κ] in
/-- A member of a room has asked for it. -/
theorem Sound.not_waits (h : s.Sound) {pid roomId : String} {wsp : κ}
    (hpeer : s.peers pid = some ⟨wsp, some roomId⟩) (hin : pid ∈ s.members roomId) :
    ¬s.Waits wsp := by
  obtain ⟨-, -, wsp', hpeer', hmember⟩ := (h.name pid).member roomId hin
  obtain rfl : wsp' = wsp := congrArg Peer.ws (Option.some.inj (hpeer'.symm.trans hpeer))
  intro hwaits
  cases hhandler : s.handlers wsp' <;> simp_all [Waits, Handler.MemberOf]

/-- **A member of a room is told something.**  Its own list is as it should be; those of the others
are not concerned. -/
theorem Agreed.tell (h : s.Agreed) (uid : String) (hs : s.Sound) {pid roomId text : String} {wsp : κ}
    {turn : Turn} {rest : List String} (hpeer : s.peers pid = some ⟨wsp, some roomId⟩)
    (hin : pid ∈ s.members roomId) (hturn : (s.handlers ws).turn? = some (roomId, turn))
    (hrest : turn.rest = pid :: rest)
    (hturn' : handler.turn? = some (roomId, { turn with rest := rest }))
    (hclaims : handler.claims = (s.handlers ws).claims)
    (htells : ∀ name room q, q ≠ pid ∨ name ≠ uid →
      (handler.Announces name room q ↔ (s.handlers ws).Announces name room q) ∧
        (handler.Leaves name room q ↔ (s.handlers ws).Leaves name room q))
    (hpeers : s'.peers = s.peers) (hrooms : s'.rooms = s.rooms)
    (hhandlers : s'.handlers = Function.update s.handlers ws handler)
    (hsent : s'.sent = Function.update s.sent wsp (s.sent wsp ++ [text]))
    (hknows : ∀ view, view.Nodup →
      ((∀ a, ¬(s.handlers a).Leaves uid roomId pid) → (uid ∈ view ↔ uid ∈ s.members roomId ∧
        uid ≠ pid ∧ ∀ a, ¬(s.handlers a).Announces uid roomId pid)) →
      ∃ view', hear view text = some view' ∧ view'.Nodup ∧
        (∀ q, q ≠ uid → (q ∈ view' ↔ q ∈ view)) ∧
        (uid ∈ view' ↔ uid ∈ s.members roomId ∧ uid ≠ pid ∧
          ∀ a, ¬(s'.handlers a).Announces uid roomId pid)) : s'.Agreed := by
  have hself := handlers_self hhandlers
  have hmembers := members_of_rooms hrooms
  have hquiet : ∀ handler : Handler κ, handler.turn? ≠ none →
      (∀ name room, handler ≠ .entering name room) ∧
        ∀ s : Server κ, s.handlers ws = handler → ¬s.Waits ws := by
    intro handler hiter
    refine ⟨fun name room heq => ?_, fun s heq hwaits => ?_⟩
    · simp [heq, Handler.turn?] at hiter
    · cases handler <;> simp_all [Waits, Handler.turn?]
  have hsame : ∀ a q room name, name ≠ pid ∨ q ≠ uid →
      ((s'.handlers a).Announces q room name ↔ (s.handlers a).Announces q room name) ∧
        ((s'.handlers a).Leaves q room name ↔ (s.handlers a).Leaves q room name) := by
    intro a q room name hne
    by_cases hws : a = ws
    · rw [hws, hself]
      exact htells q room name hne
    · rw [handlers_of_ne hhandlers hws]
      exact ⟨Iff.rfl, Iff.rfl⟩
  have hlistens : ∀ a name room, s'.Listens a name room → s.Listens a name room := by
    rintro a name room (⟨hpeer, hin⟩ | henter)
    · exact .inl ⟨hpeers ▸ hpeer, by rwa [hmembers] at hin⟩
    · by_cases hws : a = ws
      · rw [hws, hself] at henter
        exact absurd henter ((hquiet handler (by simp [hturn'])).1 name room)
      · rw [handlers_of_ne hhandlers hws] at henter
        exact .inr henter
  refine ⟨fun a name hname => ?_, fun a room turn' ha => ?_, fun a ha => ?_,
    fun a name room ha => ?_⟩
  · by_cases hws : a = ws
    · rw [hws, hself, hclaims] at hname
      exact h.claimed ws name hname
    · rw [handlers_of_ne hhandlers hws] at hname
      exact h.claimed a name hname
  · by_cases hws : a = ws
    · rw [hws, hself, hturn'] at ha
      obtain ⟨rfl, rfl⟩ := Prod.mk.inj (Option.some.inj ha)
      obtain ⟨room, hroom, hsize, hversion, hnodup⟩ := h.turns ws roomId turn hturn
      rw [hrest] at hnodup
      exact ⟨room, hrooms ▸ hroom, hsize, hversion, (List.nodup_cons.1 hnodup).2⟩
    · rw [handlers_of_ne hhandlers hws] at ha
      rw [hrooms]
      exact h.turns a room turn' ha
  · have hws : a ≠ ws := by
      rintro rfl
      exact (hquiet handler (by simp [hturn'])).2 s' hself ha
    have hwaits : s.Waits a := by
      rw [Waits, handlers_of_ne hhandlers hws, hpeers] at ha
      exact ha
    have hne : a ≠ wsp := by
      rintro rfl
      exact hs.not_waits hpeer hin hwaits
    rw [hsent, Function.update_of_ne hne]
    exact h.waits a hwaits
  · have hold := hlistens a name room ha
    obtain ⟨hthis, hother⟩ := hs.listens_unique hpeer hin hold
    by_cases hwsp : a = wsp
    · obtain ⟨rfl, rfl⟩ := hthis hwsp
      obtain ⟨view, hview, hnodup, hall⟩ := h.listens a name room hold
      obtain ⟨view', hhear, hnodup', hothers, hown⟩ := hknows view hnodup (hall uid)
      refine ⟨view', ?_, hnodup', fun q hq => ?_⟩
      · rw [hwsp] at hview
        rw [hwsp, hsent, Function.update_self, hearAll_append, hview, Option.bind_some, hhear]
      · by_cases huid : q = uid
        · rw [huid, hown, hmembers]
        · simp only [(hsame _ q room name (.inr huid)).1, (hsame _ q room name (.inr huid)).2,
            hmembers] at hq ⊢
          rw [hothers q huid]
          exact hall q hq
    · have hne : name ≠ pid := fun heq => hwsp (hother heq)
      rw [hsent, Function.update_of_ne hwsp]
      obtain ⟨view, hview, hnodup, hall⟩ := h.listens a name room hold
      refine ⟨view, hview, hnodup, fun q hq => ?_⟩
      simp only [(hsame _ q room name (.inl hne)).1, (hsame _ q room name (.inl hne)).2,
        hmembers] at hq ⊢
      exact hall q hq

/-- The coroutine is done with the members of the room, and its entry is removed. -/
theorem Agreed.dropEntry (h : (s.await ws handler).Agreed)
    (hold : ∀ roomId turn, handler.turn? = some (roomId, turn) → turn.rest = []) (own : κ) :
    (s.dropEntry ws uid own).1.Agreed := by
  rw [Server.dropEntry]
  split
  · have hends : (Handler.done : Handler κ).Ends := trivial
    have hdone : (s.await ws .done).Agreed :=
      h.ends hold hends (by simp [Handler.claims, Handler.name]) rfl (fun _ _ => id) rfl rfl
    exact hdone.unheard rfl rfl rfl rfl
  · have hends : (Handler.closing : Handler κ).Ends := trivial
    refine h.ends hold hends (by simp [Handler.claims, Handler.name]) rfl
      (fun name peer hpeer => ?_) rfl rfl
    by_cases hne : name = uid
    · subst hne
      simp [await, close, setPeer] at hpeer
    · exact (Function.update_of_ne hne _ _).symm.trans hpeer

/-- **The members who are left are told**, one by one. -/
theorem Agreed.leaveLoop {roomId : String} {own : κ} {turn : Turn}
    (h : (s.await ws (.leaving uid roomId own turn)).Agreed)
    (hs : (s.await ws (.leaving uid roomId own turn)).Sound)
    (hroom : uid ∉ s.members roomId) (hentry : s.peers uid ≠ none)
    (hrest : ∀ pid ∈ turn.rest, pid ∈ s.members roomId)
    (htold : (s.leaveLoop ws uid roomId own turn).1.handlers ws = .done →
      (s.leaveLoop ws uid roomId own turn).1.peers uid = none) :
    (s.leaveLoop ws uid roomId own turn).1.Agreed := by
  have hname : ServerMessage.IsPeer uid := h.claimed ws uid (by rw [await_self]; rfl)
  obtain ⟨size, version, rest⟩ := turn
  cases rest with
  | nil =>
      refine h.dropEntry (fun _ _ heq => ?_) own
      obtain ⟨-, rfl⟩ := Prod.mk.inj (Option.some.inj heq)
      rfl
  | cons pid rest =>
      have hin : pid ∈ s.members roomId := hrest pid List.mem_cons_self
      obtain ⟨-, -, wsp, hpeer, -⟩ := (hs.name pid).member roomId hin
      have hpeer : s.peers pid = some ⟨wsp, some roomId⟩ := hpeer
      simp only [Server.leaveLoop, hpeer] at htold ⊢
      cases hsend : s.send wsp ("ROOM_PEER_LEFT " ++ uid) with
      | none =>
          simp only [hsend] at htold
          exact absurd (htold (await_self ..)) hentry
      | some s' =>
          obtain rfl := send_eq_some hsend
          have hnext : (Handler.leaving uid roomId own ⟨size, version, rest⟩).turn? =
            some (roomId, { (⟨size, version, pid :: rest⟩ : Turn) with rest := rest }) := rfl
          refine h.tell uid hs hpeer hin (by rw [await_self]; rfl) rfl hnext
            (by rw [await_self]; rfl) (fun name room q hne => ?_) rfl rfl
            (Function.update_idem ..).symm rfl (fun view hnodup _ => ⟨view.filter (· ≠ uid),
              hear_left hname view, hnodup.filter _, fun q hq => ?_, ?_⟩)
          · rw [await_self]
            rcases hne with hne | hne <;>
              simp [Handler.Announces, Handler.Leaves, hne, Ne.symm hne]
          · simp [hq]
          · refine iff_of_false (by simp) fun hmem => hroom hmem.1

omit [DecidableEq κ] in
/-- What a coroutine that handles messages tells is about its name, and nobody leaves. -/
theorem tells_of_live {handler : Handler κ} {roomId : String} (hlive : handler.Live uid)
    (hannounce : ∀ room turn, handler = .announcing uid room turn → room = roomId)
    (name room q : String) :
    (handler.Announces name room q → name = uid ∧ room = roomId) ∧
      ¬handler.Leaves name room q := by
  cases handler <;> simp_all [Handler.Live, Handler.Announces, Handler.Leaves]

omit [DecidableEq κ] in
/-- An iterator over a room uses it. -/
theorem uses_of_turn {handler : Handler κ} {roomId : String} {turn : Turn}
    (h : handler.turn? = some (roomId, turn)) : handler.Uses roomId := by
  cases handler <;> simp_all [Handler.turn?, Handler.Uses]

/-- **A peer has left its room**, and nobody is told yet. -/
theorem Agreed.left (h : (s.await ws handler).Agreed) (hlive : handler.Live uid) {roomId : String}
    {room : Room} (hroom : s.rooms roomId = some room)
    (hnodup : (s.members roomId).Nodup)
    (hannounce : ∀ room turn, handler = .announcing uid room turn → room = roomId)
    (halone : ∀ a, a ≠ ws → ¬(s.handlers a).Uses roomId) (own : κ) :
    ((s.setRoom roomId (room.remove uid)).await ws
      (.leaving uid roomId own (room.remove uid).turn)).Agreed := by
  have htells := tells_of_live hlive hannounce
  have hmembers : (s.setRoom roomId (room.remove uid)).members roomId =
    (room.remove uid).members := by rw [members_setRoom, if_pos rfl]
  refine ⟨fun a name hname => ?_, fun a roomId' turn ha => ?_, fun a ha => ?_,
    fun a name roomId' ha => ?_⟩
  · by_cases hws : a = ws
    · rw [hws, await_self] at hname
      refine h.claimed ws name ?_
      rw [await_self]
      cases handler <;> simp_all [Handler.Live, Handler.claims, Handler.name]
    · rw [await_of_ne _ _ hws] at hname
      exact h.claimed a name (by rwa [await_of_ne _ _ hws])
  · by_cases hws : a = ws
    · rw [hws, await_self] at ha
      obtain ⟨rfl, rfl⟩ := Prod.mk.inj (Option.some.inj ha)
      have hmem : s.members roomId = room.members := by simp [members, hroom]
      refine ⟨room.remove uid, by simp [setRoom, await], rfl, rfl, ?_⟩
      exact (hmem ▸ hnodup).filter _
    · rw [await_of_ne _ _ hws] at ha
      have hne : roomId' ≠ roomId := by
        rintro rfl
        exact halone a hws (uses_of_turn ha)
      obtain ⟨room', hroom', hrest⟩ := h.turns a roomId' turn (by rwa [await_of_ne _ _ hws])
      exact ⟨room', (Function.update_of_ne hne _ _).trans hroom', hrest⟩
  · have hws : a ≠ ws := by
      rintro rfl
      rw [Waits, await_self] at ha
      exact ha
    refine h.waits a ?_
    rw [Waits, await_of_ne _ _ hws] at ha ⊢
    exact ha
  · have hlistens : (s.await ws handler).Listens a name roomId' := by
      rcases ha with ⟨hpeer, hmem⟩ | henter
      · exact .inl ⟨hpeer, ((mem_members_left hroom name roomId').1 hmem).1⟩
      · by_cases hws : a = ws
        · rw [hws, await_self] at henter
          exact absurd henter (by simp)
        · rw [await_of_ne _ _ hws] at henter
          exact .inr (by rwa [await_of_ne _ _ hws])
    obtain ⟨view, hview, hnodup, hall⟩ := h.listens a name roomId' hlistens
    refine ⟨view, hview, hnodup, fun q hq => ?_⟩
    have hq' : ¬(q = uid ∧ roomId' = roomId) := by
      rintro ⟨rfl, rfl⟩
      rcases ha with ⟨-, hmem⟩ | henter
      · have hmem' : name ∈ (s.setRoom roomId' (room.remove q)).members roomId' := hmem
        rw [hmembers] at hmem'
        have hleaves := hq ws
        rw [await_self] at hleaves
        exact hleaves ⟨rfl, rfl, hmem'⟩
      · by_cases hws : a = ws
        · rw [hws, await_self] at henter
          exact absurd henter (by simp)
        · rw [await_of_ne _ _ hws] at henter
          have henter' : s.handlers a = .entering name roomId' := henter
          have huses := halone a hws
          rw [henter'] at huses
          exact huses rfl
    have hann : (∀ a, ¬((s.await ws handler).handlers a).Announces q roomId' name) ↔
        ∀ a, ¬(((s.setRoom roomId (room.remove uid)).await ws
          (.leaving uid roomId own (room.remove uid).turn)).handlers a).Announces q roomId' name := by
      refine forall_congr' fun b => not_congr ?_
      by_cases hws : b = ws
      · rw [hws, await_self, await_self]
        exact iff_of_false (fun hann => hq' ((htells q roomId' name).1 hann)) id
      · rw [await_of_ne _ _ hws, await_of_ne _ _ hws]
        exact Iff.rfl
    have hleaves : ∀ b, ¬((s.await ws handler).handlers b).Leaves q roomId' name := by
      intro b
      by_cases hws : b = ws
      · rw [hws, await_self]
        exact (htells q roomId' name).2
      · have hqb := hq b
        rw [await_of_ne _ _ hws] at hqb ⊢
        exact hqb
    rw [hall q hleaves, hann]
    have hmem : q ∈ (s.setRoom roomId (room.remove uid)).members roomId' ↔
      q ∈ s.members roomId' ∧ ¬(roomId' = roomId ∧ q = uid) := mem_members_left hroom q roomId'
    rw [not_and] at hq'
    constructor
    · rintro ⟨hin, hrest⟩
      exact ⟨hmem.2 ⟨hin, fun heq => hq' heq.2 heq.1⟩, hrest⟩
    · rintro ⟨hin, hrest⟩
      exact ⟨(hmem.1 hin).1, hrest⟩

/-- The loop over those who are left changes no room. -/
theorem rooms_leaveLoop (s : Server κ) (ws : κ) (uid roomId : String) (own : κ) (turn : Turn) :
    (s.leaveLoop ws uid roomId own turn).1.rooms = s.rooms := by
  rw [Server.leaveLoop]
  split
  · rw [Server.dropEntry]
    split <;> rfl
  · split
    · rfl
    · split
      · rfl
      · next s' hsend =>
          obtain rfl := send_eq_some hsend
          rfl

/-- **A name is removed**, and the room it was in is told. -/
theorem Agreed.removePeer (h : (s.await ws handler).Agreed) (hs : s.Removable ws uid)
    (hlive : handler.Live uid)
    (hannounce : ∀ roomId turn, handler = .announcing uid roomId turn → uid ∈ s.members roomId)
    (halone : ∀ roomId, (s.removePeer ws uid).1.rooms roomId ≠ s.rooms roomId →
      s.rooms roomId ≠ none → ∀ a, a ≠ ws → ¬(s.handlers a).Uses roomId)
    (htold : (s.removePeer ws uid).1.handlers ws = .done →
      (s.removePeer ws uid).1.peers uid = none) : (s.removePeer ws uid).1.Agreed := by
  have hname : ServerMessage.IsPeer uid := by
    refine h.claimed ws uid ?_
    rw [await_self]
    cases handler <;> simp_all [Handler.Live, Handler.claims, Handler.name]
  have hold : (∀ roomId, uid ∉ s.members roomId) →
      ∀ roomId turn, handler.turn? = some (roomId, turn) → turn.rest = [] := by
    intro hnot roomId turn hturn
    cases handler with
    | announcing name room turn' =>
        obtain rfl : name = uid := hlive
        exact absurd (hannounce room turn' rfl) (hnot room)
    | _ => simp_all [Handler.Live, Handler.turn?]
  rw [Server.removePeer] at halone htold ⊢
  cases hsession : s.sessions uid with
  | none =>
      simp only [hsession] at halone htold ⊢
      rw [Server.removeEntry] at halone htold ⊢
      cases hpeer : s.peers uid with
      | none =>
          have hnot : ∀ roomId, uid ∉ s.members roomId := by
            intro roomId hmem
            have hroom := (hs.member roomId hmem).2.2
            simp [hpeer] at hroom
          have hends : (Handler.done : Handler κ).Ends := trivial
          have hdone : (s.await ws .done).Agreed := h.ends (hold hnot) hends
            (by simp [Handler.claims, Handler.name]) rfl (fun _ _ => id) rfl rfl
          exact hdone.unheard rfl rfl rfl rfl
      | some peer =>
          obtain ⟨ws', status⟩ := peer
          obtain rfl : ws' = ws := hs.entry _ hpeer
          simp only [hpeer] at halone htold ⊢
          have hdrop : (∀ roomId, uid ∉ s.members roomId) →
            (s.dropEntry ws' uid ws').1.Agreed := fun hnot => h.dropEntry (hold hnot) ws'
          cases status with
          | none =>
              refine hdrop fun roomId hmem => ?_
              have hroom := (hs.member roomId hmem).2.2
              simp [hpeer] at hroom
          | some roomId =>
              dsimp only at halone htold ⊢
              split at halone
              · next hstatus =>
                  rw [if_pos hstatus] at htold ⊢
                  obtain ⟨room, hroom⟩ := Option.ne_none_iff_exists'.1
                    (hs.opened roomId hpeer hstatus.1 hstatus.2)
                  have hmembers : s.members roomId = room.members := by simp [members, hroom]
                  have hin : ∀ roomId', uid ∈ s.members roomId' → roomId' = roomId := by
                    intro roomId' hmem
                    have hroom' := (hs.member roomId' hmem).2.2
                    rw [hpeer] at hroom'
                    simpa using hroom'.symm
                  rw [Server.cleanupRoom] at halone htold ⊢
                  simp only [hroom] at halone htold ⊢
                  split at halone
                  · next hnot =>
                      rw [if_pos hnot]
                      refine hdrop fun roomId' hmem => ?_
                      obtain rfl := hin roomId' hmem
                      exact hnot (hmembers ▸ hmem)
                  · next hmem =>
                      rw [if_neg hmem] at htold ⊢
                      have hchanged : (s.setRoom roomId (room.remove uid)).rooms roomId ≠
                          s.rooms roomId := by
                        intro heq
                        rw [hroom] at heq
                        have hversion := congrArg (Option.map Room.version) heq
                        simp [setRoom, Room.remove] at hversion
                      have hremoving := (hs.removing hsession).left hroom
                      have hnot : ∀ roomId',
                          uid ∉ (s.setRoom roomId (room.remove uid)).members roomId' := by
                        intro roomId' hmem
                        obtain ⟨hmem, hnot⟩ := (mem_members_left hroom uid roomId').1 hmem
                        exact hnot ⟨hin roomId' hmem, rfl⟩
                      have hentry : (s.setRoom roomId (room.remove uid)).peers uid ≠ none := by
                        simp [setRoom, hpeer]
                      have hleft := h.left hlive hroom (hs.nodup roomId)
                        (fun room turn heq => hin room (hannounce room turn heq))
                        (halone roomId (by rwa [rooms_leaveLoop]) (by simp [hroom])) ws'
                      refine hleft.leaveLoop (hremoving.leaving hnot hentry ws'
                        ⟨room.remove uid, by simp [setRoom], Nat.le_refl _, fun _ _ => id⟩ _)
                        (hnot roomId) hentry (fun pid hpid => ?_) htold
                      rw [members_setRoom, if_pos rfl]
                      exact hpid
              · next hstatus =>
                  rw [if_neg hstatus]
                  refine hdrop fun roomId' hmem => ?_
                  obtain ⟨hne, hempty, hroom⟩ := hs.member roomId' hmem
                  rw [hpeer] at hroom
                  simp only [Option.some.injEq, Peer.mk.injEq, true_and] at hroom
                  exact hstatus ⟨hroom ▸ hempty, hroom ▸ hne⟩
  | some other =>
      obtain ⟨hback, hne, hown⟩ := hs.partner other hsession
      obtain ⟨-, -, wso, hentry, -⟩ := (hs.others other hne.symm).partner uid hback
      have hback' : (s.setSession uid none).sessions other = some uid := by
        simp [setSession, hne.symm, hback]
      have hentry' : ((s.setSession uid none).setSession other none).peers other =
          some ⟨wso, some "session"⟩ := hentry
      simp only [hback', hentry', if_neg (Option.some_ne_none uid)]
      have hnot : ∀ roomId, uid ∉ s.members roomId := by
        intro roomId hmem
        obtain ⟨hne, -, hroom⟩ := hs.member roomId hmem
        rw [hown] at hroom
        simp only [Option.some.injEq, Peer.mk.injEq, true_and] at hroom
        exact hne hroom.symm
      have hends : (Handler.closingPartner uid : Handler κ).Ends := trivial
      refine h.ends (hold hnot) hends (fun name heq => ?_) rfl (fun name peer hpeer => ?_) rfl rfl
      · obtain rfl : uid = name := Option.some.inj heq
        exact hname
      · by_cases heq : name = other
        · subst heq
          simp [await, close, setPeer] at hpeer
        · exact (Function.update_of_ne heq _ _).symm.trans hpeer

/-- A peer is not announced to itself. -/
theorem Agreed.skip {roomId : String} {size version : ℕ} {rest : List String}
    (h : (s.await ws (.announcing uid roomId ⟨size, version, uid :: rest⟩)).Agreed) :
    (s.await ws (.announcing uid roomId ⟨size, version, rest⟩)).Agreed := by
  have htells : ∀ a q room name, name ≠ q →
      (((s.await ws (.announcing uid roomId ⟨size, version, uid :: rest⟩)).handlers a).Announces q
          room name ↔
        ((s.await ws (.announcing uid roomId ⟨size, version, rest⟩)).handlers a).Announces q room
          name) ∧
      (((s.await ws (.announcing uid roomId ⟨size, version, uid :: rest⟩)).handlers a).Leaves q
          room name ↔
        ((s.await ws (.announcing uid roomId ⟨size, version, rest⟩)).handlers a).Leaves q room
          name) := by
    intro a q room name hne
    by_cases hws : a = ws
    · rw [hws, await_self, await_self]
      simp only [Handler.Announces, Handler.Leaves, List.mem_cons, and_congr_right_iff,
        or_iff_right_iff_imp, iff_self, and_true]
      rintro rfl - rfl
      exact absurd rfl hne
    · rw [await_of_ne _ _ hws, await_of_ne _ _ hws]
      exact ⟨Iff.rfl, Iff.rfl⟩
  refine ⟨fun a name hname => h.claimed a name ?_, fun a room turn ha => ?_,
    fun a ha => h.waits a ?_, fun a name room ha => ?_⟩
  · by_cases hws : a = ws
    · rw [hws, await_self] at hname ⊢
      exact hname
    · rw [await_of_ne _ _ hws] at hname ⊢
      exact hname
  · by_cases hws : a = ws
    · rw [hws, await_self] at ha
      obtain ⟨rfl, rfl⟩ := Prod.mk.inj (Option.some.inj ha)
      obtain ⟨room, hroom, hsize, hversion, hnodup⟩ := h.turns ws roomId
        ⟨size, version, uid :: rest⟩ (by rw [await_self]; rfl)
      exact ⟨room, hroom, hsize, hversion, (List.nodup_cons.1 hnodup).2⟩
    · rw [await_of_ne _ _ hws] at ha
      exact h.turns a room turn (by rwa [await_of_ne _ _ hws])
  · by_cases hws : a = ws
    · rw [Waits, hws, await_self] at ha
      exact absurd ha id
    · rw [Waits, await_of_ne _ _ hws] at ha ⊢
      exact ha
  · have hlistens : (s.await ws (.announcing uid roomId ⟨size, version, uid :: rest⟩)).Listens a
        name room := by
      refine ha.imp id fun henter => ?_
      by_cases hws : a = ws
      · rw [hws, await_self] at henter
        exact absurd henter (by simp)
      · rw [await_of_ne _ _ hws] at henter ⊢
        exact henter
    obtain ⟨view, hview, hnodup, hall⟩ := h.listens a name room hlistens
    refine ⟨view, hview, hnodup, fun q hq => ?_⟩
    by_cases hne : q = name
    · subst hne
      have hown := hall q fun b hleave => hq b ?_
      · simp only [ne_eq, not_true, false_and, and_false] at hown ⊢
        exact hown
      · by_cases hws : b = ws
        · rw [hws, await_self] at hleave
          exact absurd hleave id
        · rw [await_of_ne _ _ hws] at hleave ⊢
          exact hleave
    · have hne' : name ≠ q := fun heq => hne heq.symm
      simp only [← (htells _ q room name hne').1, ← (htells _ q room name hne').2] at hq ⊢
      exact hall q hq

/-- **The members of a room that is entered are told**, one by one. -/
theorem Agreed.announceLoop {roomId : String} {size version : ℕ} {rest : List String}
    (h : (s.await ws (.announcing uid roomId ⟨size, version, rest⟩)).Agreed)
    (hs : s.Removable ws uid) (hpeer : s.peers uid = some ⟨ws, some roomId⟩)
    (hin : uid ∈ s.members roomId) (hturn : s.TurnOk roomId ⟨size, version, rest⟩)
    (hrest : ∀ pid ∈ rest, pid ∈ s.members roomId)
    (halone : ∀ room, (s.announceLoop ws uid roomId size version rest).1.rooms room ≠
      s.rooms room → s.rooms room ≠ none → ∀ a, a ≠ ws → ¬(s.handlers a).Uses room)
    (htold : (s.announceLoop ws uid roomId size version rest).1.handlers ws = .done →
      (s.announceLoop ws uid roomId size version rest).1.peers uid = none) :
    (s.announceLoop ws uid roomId size version rest).1.Agreed := by
  have hname : ServerMessage.IsPeer uid := h.claimed ws uid (by rw [await_self]; rfl)
  induction rest with
  | nil =>
      refine h.quiet _ ws (.receiving uid (some roomId)) (Function.update_idem ..).symm (fun name heq => ?_) rfl (fun room turn heq => ?_)
        (fun _ => rfl) (fun _ _ => id) (fun a ha => ?_) (fun a name room ha => ?_)
        (fun _ _ => .inl rfl)
      · obtain rfl : uid = name := Option.some.inj heq
        exact hname
      · rw [await_self] at heq
        obtain ⟨-, rfl⟩ := Prod.mk.inj (Option.some.inj heq)
        rfl
      · have ha : (s.await ws (.receiving uid (some roomId))).Waits a := ha
        by_cases hws : a = ws
        · rw [Waits, hws, await_self] at ha
          have ha : s.peers uid = some ⟨ws, none⟩ := ha
          rw [hpeer] at ha
          exact absurd ha (by simp)
        · rw [Waits, await_of_ne _ _ hws] at ha ⊢
          exact ha
      · refine ha.imp id fun henter => ?_
        have henter : (s.await ws (.receiving uid (some roomId))).handlers a =
          .entering name room := henter
        by_cases hws : a = ws
        · rw [hws, await_self] at henter
          exact absurd henter (by simp)
        · rw [await_of_ne _ _ hws] at henter ⊢
          exact henter
  | cons pid rest ih =>
      have hturn' : s.TurnOk roomId ⟨size, version, rest⟩ := by
        obtain ⟨room, hroom, hle, hall⟩ := hturn
        exact ⟨room, hroom, hle, fun heq pid hpid => hall heq pid (List.mem_cons_of_mem _ hpid)⟩
      by_cases hne : pid = uid
      · subst hne
        simp only [Server.announceLoop, if_pos] at halone htold ⊢
        exact ih h.skip hturn' (fun q hq => hrest q (List.mem_cons_of_mem _ hq)) halone htold
      · have hmem := hrest pid List.mem_cons_self
        obtain ⟨-, -, wsp, hentry, -⟩ := (hs.others pid hne).member roomId hmem
        simp only [Server.announceLoop, if_neg hne, hentry, Server.sendThen] at halone htold ⊢
        cases hsend : s.send wsp ("ROOM_PEER_JOINED " ++ uid) with
        | none =>
            simp only [hsend] at halone htold ⊢
            refine h.removePeer hs rfl (fun room turn heq => ?_) halone htold
            obtain ⟨-, rfl, -⟩ := Handler.announcing.inj heq
            exact hin
        | some s' =>
            have hsound := hs.announcing hpeer hin hturn
            obtain ⟨room, hroom, -, -, hnodup⟩ := h.turns ws roomId ⟨size, version, pid :: rest⟩
              (by rw [await_self]; rfl)
            have hpid : pid ∉ rest := (List.nodup_cons.1 hnodup).1
            obtain rfl := send_eq_some hsend
            have hnext : (Handler.announcing (κ := κ) uid roomId ⟨size, version, rest⟩).turn? =
              some (roomId, { (⟨size, version, pid :: rest⟩ : Turn) with rest := rest }) := rfl
            refine h.tell uid hsound hentry hmem (by rw [await_self]; rfl) rfl hnext
              (by rw [await_self]; rfl) (fun name room q hne => ?_) rfl rfl
              (Function.update_idem ..).symm rfl (fun view hnodup hall => ?_)
            · rw [await_self]
              rcases hne with hne | hne <;>
                simp [Handler.Announces, Handler.Leaves, hne, Ne.symm hne]
            · have honly : ∀ a, a ≠ ws → (s.handlers a).name ≠ some uid :=
                fun a hws hname => hws (hs.one a hname)
              have hnot : uid ∉ view := by
                intro hview
                refine ((hall fun a hleave => ?_).1 hview).2.2 ws ?_
                · by_cases hws : a = ws
                  · rw [hws, await_self] at hleave
                    exact hleave
                  · rw [await_of_ne _ _ hws] at hleave
                    exact honly a hws hleave.name
                · rw [await_self]
                  exact ⟨rfl, rfl, List.mem_cons_self⟩
              refine ⟨view ++ [uid], hear_joined hname view, ?_, fun q hq => by simp [hq], ?_⟩
              · exact hnodup.append (List.nodup_singleton uid) (by simpa using hnot)
              · refine iff_of_true (by simp) ⟨hin, Ne.symm hne, fun a hann => ?_⟩
                by_cases hws : a = ws
                · rw [hws] at hann
                  have hself : (({ s with sent := Function.update s.sent wsp (s.sent wsp ++
                      ["ROOM_PEER_JOINED " ++ uid]) } : Server κ).await ws (.announcing uid roomId
                        ⟨size, version, rest⟩)).handlers ws =
                          .announcing uid roomId ⟨size, version, rest⟩ := await_self ..
                  rw [hself] at hann
                  exact hpid hann.2.2
                · have hother : (({ s with sent := Function.update s.sent wsp (s.sent wsp ++
                      ["ROOM_PEER_JOINED " ++ uid]) } : Server κ).await ws (.announcing uid roomId
                        ⟨size, version, rest⟩)).handlers a = s.handlers a := await_of_ne _ _ hws
                  rw [hother] at hann
                  exact honly a hws hann.name

end telling

end Server

end Signaling
end LibSwitcher
