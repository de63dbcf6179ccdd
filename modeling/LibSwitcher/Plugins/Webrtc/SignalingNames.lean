/-
# The names of the signalling server

What holds of a name of `peers`, `sessions` and `rooms` of the signalling server, in whatever
order its coroutines go on.  Between two waits of a coroutine the others may take its name or call
it, and the server does not look again when it goes on.  Two things can go wrong there, and a run
where they do not is `Polite`: a name is registered while a coroutine has it, or a session is
registered with a peer that is not free.

`NameOk` is what holds of a name: at most one coroutine has it, the entry of `peers` is that of
this coroutine, and the rooms and the session that it is in are those that its status and the
place where its coroutine waits tell.  What a coroutine does is about its own name, but for a
session, which is about two (`NameOk.congr`).
-/

import LibSwitcher.Plugins.Webrtc.SignalingServer

namespace LibSwitcher
namespace Signaling

variable {κ : Type*}

/-- The name of a coroutine, from its registration until it is removed. -/
def Handler.name : Handler κ → Option String
  | receiving uid _ | replying uid _ | calling uid _ _ | entering uid _ | announcing uid _ _
  | closingPartner uid | leaving uid _ _ _ => some uid
  | absent | hello | rejecting | greeting _ | closing | done => none

/-- A coroutine is in the loop of the messages of a name, and does nothing that takes longer. -/
def Handler.Serves (handler : Handler κ) (uid : String) : Prop :=
  match handler with
  | receiving name _ | replying name _ => name = uid
  | _ => False

/-- A coroutine is in the loop of the messages of a name, and knows the room. -/
def Handler.MemberOf (handler : Handler κ) (uid roomId : String) : Prop :=
  match handler with
  | receiving name room | replying name room => name = uid ∧ room = some roomId
  | announcing name room _ => name = uid ∧ room = roomId
  | _ => False

/-- A request of a name was answered, and is not yet registered. -/
def Handler.Busy (handler : Handler κ) (uid : String) : Prop :=
  match handler with
  | calling name _ _ | entering name _ => name = uid
  | _ => False

/-- A coroutine handles the messages of a name. -/
def Handler.Live (handler : Handler κ) (uid : String) : Prop :=
  match handler with
  | receiving name _ | replying name _ | calling name _ _ | entering name _
  | announcing name _ _ => name = uid
  | _ => False

/-- The iterator of a coroutine that goes over a room. -/
def Handler.turn? : Handler κ → Option (String × Turn)
  | announcing _ roomId turn | leaving _ roomId _ turn => some (roomId, turn)
  | _ => none

instance (handler : Handler κ) (uid : String) : Decidable (handler.Serves uid) := by
  unfold Handler.Serves
  split <;> infer_instance

theorem Handler.Serves.name {handler : Handler κ} {uid : String} (h : handler.Serves uid) :
    handler.name = some uid := by
  cases handler <;> simp_all [Handler.Serves, Handler.name]

theorem Handler.Live.name {handler : Handler κ} {uid : String} (h : handler.Live uid) :
    handler.name = some uid := by
  cases handler <;> simp_all [Handler.Live, Handler.name]

theorem Handler.Live.cases {handler : Handler κ} {uid : String} (h : handler.Live uid) :
    handler.Serves uid ∨ handler.Busy uid ∨
      ∃ roomId turn, handler = .announcing uid roomId turn := by
  cases handler <;> simp_all [Handler.Live, Handler.Serves, Handler.Busy]

theorem Handler.MemberOf.name {handler : Handler κ} {uid roomId : String}
    (h : handler.MemberOf uid roomId) : handler.name = some uid := by
  cases handler <;> simp_all [Handler.MemberOf, Handler.name]

theorem Handler.Busy.name {handler : Handler κ} {uid : String} (h : handler.Busy uid) :
    handler.name = some uid := by
  cases handler <;> simp_all [Handler.Busy, Handler.name]

namespace Server

/-- What holds of a name. -/
structure NameOk (s : Server κ) (uid : String) : Prop where
  /-- One coroutine has the name. -/
  one : ∀ a b, (s.handlers a).name = some uid → (s.handlers b).name = some uid → a = b
  /-- The entry is that of the coroutine. -/
  entry : ∀ peer a, s.peers uid = some peer → (s.handlers a).name = some uid → a = peer.ws
  /-- A member of a room has the room as its status, and its coroutine knows it. -/
  member : ∀ roomId, uid ∈ s.members roomId → roomId ≠ "session" ∧ roomId ≠ "" ∧
    ∃ ws, s.peers uid = some ⟨ws, some roomId⟩ ∧ (s.handlers ws).MemberOf uid roomId
  /-- The partner of a session has the session too. -/
  partner : ∀ other, s.sessions uid = some other → s.sessions other = some uid ∧ uid ≠ other ∧
    ∃ ws, s.peers uid = some ⟨ws, some "session"⟩ ∧ (s.handlers ws).Serves uid
  /-- A peer whose request was answered is free. -/
  busy : ∀ a, (s.handlers a).Busy uid → s.peers uid = some ⟨a, none⟩
  /-- The room that is entered is there. -/
  entering : ∀ a roomId, s.handlers a = .entering uid roomId →
    roomId ≠ "session" ∧ roomId ≠ "" ∧ s.rooms roomId ≠ none
  /-- A peer with the status of a session has one. -/
  session : ∀ a, (s.handlers a).Serves uid → s.peers uid = some ⟨a, some "session"⟩ →
    ∃ other, s.sessions uid = some other
  /-- A peer with the status of a room is a member of the room. -/
  room : ∀ a roomId, (s.handlers a).Serves uid → s.peers uid = some ⟨a, some roomId⟩ →
    roomId ≠ "session" → (s.handlers a).MemberOf uid roomId ∧ uid ∈ s.members roomId
  /-- A peer whose partner is removed first has the status of a session. -/
  closingPartner : ∀ a peer, s.handlers a = .closingPartner uid → s.peers uid = some peer →
    peer.status = some "session"
  /-- A peer that is announced is a member of the room. -/
  announced : ∀ a roomId turn, s.handlers a = .announcing uid roomId turn →
    s.peers uid = some ⟨a, some roomId⟩ ∧ uid ∈ s.members roomId
  /-- The entry of a peer that leaves a room is removed last. -/
  leaving : ∀ a roomId own turn, s.handlers a = .leaving uid roomId own turn → s.peers uid ≠ none

/-- An iterator over a room has members before it, unless the room was changed since. -/
def TurnOk (s : Server κ) (roomId : String) (turn : Turn) : Prop :=
  ∃ room, s.rooms roomId = some room ∧ turn.version ≤ room.version ∧
    (turn.version = room.version → ∀ pid ∈ turn.rest, pid ∈ room.members)

/-- What holds of all names, of the rooms and of the iterators over them. -/
structure Sound (s : Server κ) : Prop where
  name : ∀ uid, s.NameOk uid
  nodup : ∀ roomId, (s.members roomId).Nodup
  turn : ∀ a roomId turn, (s.handlers a).turn? = some (roomId, turn) → s.TurnOk roomId turn

/-- **What a maintainer relies on.**  The members of a room have entries with this room as their
status, a session is one of two peers that both have it, and no set of a room has a member twice. -/
structure Consistent (s : Server κ) : Prop where
  member : ∀ roomId, ∀ uid ∈ s.members roomId,
    ∃ ws, s.peers uid = some ⟨ws, some roomId⟩ ∧ (s.handlers ws).MemberOf uid roomId
  session : ∀ uid other, s.sessions uid = some other → uid ≠ other ∧ s.sessions other = some uid ∧
    ∃ ws, s.peers uid = some ⟨ws, some "session"⟩ ∧ (s.handlers ws).Serves uid
  nodup : ∀ roomId, (s.members roomId).Nodup

theorem Sound.consistent {s : Server κ} (h : s.Sound) : s.Consistent where
  member roomId uid hmem :=
    let ⟨_, _, ws, hpeer, hmember⟩ := (h.name uid).member roomId hmem
    ⟨ws, hpeer, hmember⟩
  session uid other hother :=
    let ⟨hback, hne, hpartner⟩ := (h.name uid).partner other hother
    ⟨hne, hback, hpartner⟩
  nodup := h.nodup

/-- A peer that can be called: it is in no session and in no room, and enters none. -/
def Free (s : Server κ) (uid : String) : Prop :=
  ∃ ws, s.peers uid = some ⟨ws, none⟩ ∧ (s.handlers ws).Serves uid

/-- **What nobody may do while a coroutine waits.**  A name is registered that no coroutine has, and
a session is registered with a peer that is free, or gone. -/
def Polite (s : Server κ) : Event κ → Prop
  | .resume ws true _ =>
      match s.handlers ws with
      | .greeting uid => ∀ a, (s.handlers a).name ≠ some uid
      | .calling _ _ callee => s.peers callee = none ∨ s.Free callee
      | _ => True
  | _ => True

/-- What the coroutine of a connection may raise: no assertion fails, and an entry that is missed is
the own one, which the partner of a session has removed, or that of a peer that was called and is
gone. -/
def Excused (s : Server κ) (ws : κ) : Raised → Prop
  | .assertionError => False
  | .nameError name => name = "peer_id"
  | .keyError key => s.peers key = none ∧ ((s.handlers ws).name = some key ∨
      ∃ uid roomId, s.handlers ws = .calling uid roomId key)
  | _ => True

section frame

variable {s s' : Server κ} {uid : String}

/-- **A name that a step is not about.**  Its entry, its session and its rooms are as before, and so
is the coroutine that has it. -/
theorem NameOk.congr (h : s.NameOk uid) (hpeers : s'.peers uid = s.peers uid)
    (hsession : s'.sessions uid = s.sessions uid)
    (hother : ∀ other, s.sessions uid = some other → s'.sessions other = s.sessions other)
    (hmembers : ∀ roomId, uid ∈ s'.members roomId ↔ uid ∈ s.members roomId)
    (hrooms : ∀ roomId, s.rooms roomId ≠ none → s'.rooms roomId ≠ none)
    (hhandlers : ∀ a, (s.handlers a).name = some uid ∨ (s'.handlers a).name = some uid →
      s'.handlers a = s.handlers a) : s'.NameOk uid where
  one a b ha hb := by
    rw [hhandlers a (.inr ha)] at ha
    rw [hhandlers b (.inr hb)] at hb
    exact h.one a b ha hb
  entry peer a hpeer ha := by
    rw [hpeers] at hpeer
    rw [hhandlers a (.inr ha)] at ha
    exact h.entry peer a hpeer ha
  member roomId hroom := by
    obtain ⟨hne, hempty, ws, hws, hmember⟩ := h.member roomId ((hmembers roomId).1 hroom)
    refine ⟨hne, hempty, ws, hpeers.trans hws, ?_⟩
    rwa [hhandlers ws (.inl hmember.name)]
  partner other hother' := by
    rw [hsession] at hother'
    obtain ⟨hback, hne, ws, hws, hserves⟩ := h.partner other hother'
    refine ⟨(hother other hother').trans hback, hne, ws, hpeers.trans hws, ?_⟩
    rwa [hhandlers ws (.inl hserves.name)]
  busy a ha := by
    have hname := hhandlers a (.inr ha.name)
    rw [hname] at ha
    exact hpeers.trans (h.busy a ha)
  entering a roomId ha := by
    have hname := hhandlers a (.inr (by rw [ha]; rfl))
    rw [hname] at ha
    obtain ⟨hne, hempty, hroom⟩ := h.entering a roomId ha
    exact ⟨hne, hempty, hrooms roomId hroom⟩
  session a ha hpeer := by
    rw [hhandlers a (.inr ha.name)] at ha
    rw [hpeers] at hpeer
    obtain ⟨other, hother'⟩ := h.session a ha hpeer
    exact ⟨other, hsession.trans hother'⟩
  room a roomId ha hpeer hne := by
    have hname := hhandlers a (.inr ha.name)
    rw [hname] at ha ⊢
    rw [hpeers] at hpeer
    obtain ⟨hmember, hin⟩ := h.room a roomId ha hpeer hne
    exact ⟨hmember, (hmembers roomId).2 hin⟩
  closingPartner a peer ha hpeer := by
    rw [hhandlers a (.inr (by rw [ha]; rfl))] at ha
    rw [hpeers] at hpeer
    exact h.closingPartner a peer ha hpeer
  announced a roomId turn ha := by
    have hname := hhandlers a (.inr (by rw [ha]; rfl))
    rw [hname] at ha
    obtain ⟨hpeer, hin⟩ := h.announced a roomId turn ha
    exact ⟨hpeers.trans hpeer, (hmembers roomId).2 hin⟩
  leaving a roomId own turn ha := by
    have hname := hhandlers a (.inr (by rw [ha]; rfl))
    rw [hname] at ha
    rw [hpeers]
    exact h.leaving a roomId own turn ha

/-- What holds of a name that one coroutine has. -/
theorem NameOk.of_handler (ws : κ) (one : ∀ a, (s.handlers a).name = some uid → a = ws)
    (entry : ∀ peer, s.peers uid = some peer → peer.ws = ws)
    (member : ∀ roomId, uid ∈ s.members roomId → roomId ≠ "session" ∧ roomId ≠ "" ∧
      s.peers uid = some ⟨ws, some roomId⟩ ∧ (s.handlers ws).MemberOf uid roomId)
    (partner : ∀ other, s.sessions uid = some other → s.sessions other = some uid ∧ uid ≠ other ∧
      s.peers uid = some ⟨ws, some "session"⟩ ∧ (s.handlers ws).Serves uid)
    (busy : (s.handlers ws).Busy uid → s.peers uid = some ⟨ws, none⟩)
    (entering : ∀ roomId, s.handlers ws = .entering uid roomId →
      roomId ≠ "session" ∧ roomId ≠ "" ∧ s.rooms roomId ≠ none)
    (session : (s.handlers ws).Serves uid → s.peers uid = some ⟨ws, some "session"⟩ →
      ∃ other, s.sessions uid = some other)
    (room : ∀ roomId, (s.handlers ws).Serves uid → s.peers uid = some ⟨ws, some roomId⟩ →
      roomId ≠ "session" → (s.handlers ws).MemberOf uid roomId ∧ uid ∈ s.members roomId)
    (closingPartner : ∀ peer, s.handlers ws = .closingPartner uid → s.peers uid = some peer →
      peer.status = some "session")
    (announced : ∀ roomId turn, s.handlers ws = .announcing uid roomId turn →
      s.peers uid = some ⟨ws, some roomId⟩ ∧ uid ∈ s.members roomId)
    (leaving : ∀ roomId own turn, s.handlers ws = .leaving uid roomId own turn →
      s.peers uid ≠ none) : s.NameOk uid where
  one a b ha hb := (one a ha).trans (one b hb).symm
  entry peer a hpeer ha := (one a ha).trans (entry peer hpeer).symm
  member roomId hroom :=
    let ⟨hne, hempty, hpeer, hmember⟩ := member roomId hroom
    ⟨hne, hempty, ws, hpeer, hmember⟩
  partner other hother :=
    let ⟨hback, hne, hpeer, hserves⟩ := partner other hother
    ⟨hback, hne, ws, hpeer, hserves⟩
  busy a ha := by
    obtain rfl := one a ha.name
    exact busy ha
  entering a roomId ha := by
    obtain rfl := one a (by rw [ha]; rfl)
    exact entering roomId ha
  session a ha hpeer := by
    obtain rfl := one a ha.name
    exact session ha hpeer
  room a roomId ha hpeer hne := by
    obtain rfl := one a ha.name
    exact room roomId ha hpeer hne
  closingPartner a peer ha hpeer := by
    obtain rfl := one a (by rw [ha]; rfl)
    exact closingPartner peer ha hpeer
  announced a roomId turn ha := by
    obtain rfl := one a (by rw [ha]; rfl)
    exact announced roomId turn ha
  leaving a roomId own turn ha := by
    obtain rfl := one a (by rw [ha]; rfl)
    exact leaving roomId own turn ha

/-- What holds of a name whose coroutine does nothing that takes longer. -/
theorem NameOk.of_serves (ws : κ) (one : ∀ a, (s.handlers a).name = some uid → a = ws)
    (hserves : (s.handlers ws).Serves uid) (entry : ∀ peer, s.peers uid = some peer → peer.ws = ws)
    (member : ∀ roomId, uid ∈ s.members roomId → roomId ≠ "session" ∧ roomId ≠ "" ∧
      s.peers uid = some ⟨ws, some roomId⟩ ∧ (s.handlers ws).MemberOf uid roomId)
    (partner : ∀ other, s.sessions uid = some other → s.sessions other = some uid ∧ uid ≠ other ∧
      s.peers uid = some ⟨ws, some "session"⟩)
    (session : s.peers uid = some ⟨ws, some "session"⟩ → ∃ other, s.sessions uid = some other)
    (room : ∀ roomId, s.peers uid = some ⟨ws, some roomId⟩ → roomId ≠ "session" →
      (s.handlers ws).MemberOf uid roomId ∧ uid ∈ s.members roomId) : s.NameOk uid := by
  refine .of_handler ws one entry member (fun other hother => ?_) (fun hbusy => ?_)
    (fun roomId henter => ?_) (fun _ => session) (fun roomId _ => room roomId)
    (fun peer hclosing => ?_) (fun roomId turn hannounce => ?_) (fun roomId own turn hleave => ?_)
  · obtain ⟨hback, hne, hpeer⟩ := partner other hother
    exact ⟨hback, hne, hpeer, hserves⟩
  · cases hhandler : s.handlers ws <;> simp_all [Handler.Serves, Handler.Busy]
  · simp [henter, Handler.Serves] at hserves
  · simp [hclosing, Handler.Serves] at hserves
  · simp [hannounce, Handler.Serves] at hserves
  · simp [hleave, Handler.Serves] at hserves

/-- What holds of a name whose entry was removed. -/
theorem NameOk.of_gone (ws : κ) (one : ∀ a, (s.handlers a).name = some uid → a = ws)
    (hserves : (s.handlers ws).Serves uid) (hpeer : s.peers uid = none)
    (hmembers : ∀ roomId, uid ∉ s.members roomId) (hsession : s.sessions uid = none) :
    s.NameOk uid :=
  .of_serves ws one hserves (by simp [hpeer]) (fun roomId hroom => absurd hroom (hmembers roomId))
    (by simp [hsession]) (by simp [hpeer]) (by simp [hpeer])

/-- What holds of a name that is in a session. -/
theorem NameOk.of_session (ws : κ) {other : String}
    (one : ∀ a, (s.handlers a).name = some uid → a = ws) (hserves : (s.handlers ws).Serves uid)
    (hpeer : s.peers uid = some ⟨ws, some "session"⟩) (hmembers : ∀ roomId, uid ∉ s.members roomId)
    (hother : s.sessions uid = some other) (hback : s.sessions other = some uid)
    (hne : uid ≠ other) : s.NameOk uid := by
  refine .of_serves ws one hserves (fun peer hpeer' => ?_)
    (fun roomId hroom => absurd hroom (hmembers roomId)) (fun other' hother' => ?_)
    (fun _ => ⟨other, hother⟩) (fun roomId hpeer' hroom => ?_)
  · rw [hpeer] at hpeer'
    exact congrArg Peer.ws (Option.some.inj hpeer').symm
  · obtain rfl := Option.some.inj (hother.symm.trans hother')
    exact ⟨hback, hne, hpeer⟩
  · rw [hpeer] at hpeer'
    simp only [Option.some.injEq, Peer.mk.injEq, true_and] at hpeer'
    exact absurd hpeer'.symm hroom

/-- What holds of a name that no coroutine has: it is in no room and in no session. -/
theorem NameOk.of_none (hnone : ∀ a, (s.handlers a).name ≠ some uid)
    (hmembers : ∀ roomId, uid ∉ s.members roomId) (hsession : s.sessions uid = none) :
    s.NameOk uid where
  one a _ ha := absurd ha (hnone a)
  entry _ a _ ha := absurd ha (hnone a)
  member roomId hroom := absurd hroom (hmembers roomId)
  partner other hother := by simp [hsession] at hother
  busy a ha := absurd ha.name (hnone a)
  entering a _ ha := absurd (by rw [ha]; rfl) (hnone a)
  session a ha := absurd ha.name (hnone a)
  room a _ ha := absurd ha.name (hnone a)
  closingPartner a _ ha := absurd (by rw [ha]; rfl) (hnone a)
  announced a _ _ ha := absurd (by rw [ha]; rfl) (hnone a)
  leaving a _ _ _ ha := absurd (by rw [ha]; rfl) (hnone a)

end frame

/-- The rooms of a server are those of another, or changed since. -/
def RoomsGrow (s s' : Server κ) : Prop :=
  ∀ roomId room, s.rooms roomId = some room →
    ∃ room', s'.rooms roomId = some room' ∧ (room' = room ∨ room.version < room'.version)

theorem RoomsGrow.of_eq {s s' : Server κ} (h : s'.rooms = s.rooms) : RoomsGrow s s' :=
  fun _ room hroom => ⟨room, by rw [h, hroom], .inl rfl⟩

theorem members_of_rooms {s s' : Server κ} (h : s'.rooms = s.rooms) (roomId : String) :
    s'.members roomId = s.members roomId := by
  rw [members, members, h]

theorem mem_members_iff {s : Server κ} {uid roomId : String} :
    uid ∈ s.members roomId ↔ ∃ room, s.rooms roomId = some room ∧ uid ∈ room.members := by
  rw [members]
  cases s.rooms roomId <;> simp

/-- An iterator stays sound where rooms are only changed as they are. -/
theorem TurnOk.grow {s s' : Server κ} {roomId : String} {turn : Turn} (h : s.TurnOk roomId turn)
    (hgrow : RoomsGrow s s') : s'.TurnOk roomId turn := by
  obtain ⟨room, hroom, hle, hrest⟩ := h
  obtain ⟨room', hroom', rfl | hlt⟩ := hgrow roomId room hroom
  · exact ⟨room', hroom', hle, hrest⟩
  · exact ⟨room', hroom', by omega, fun heq => absurd heq (by omega)⟩

/-- The members of a room that is written. -/
theorem members_setRoom (s : Server κ) (room : Room) (roomId roomId' : String) :
    (s.setRoom roomId room).members roomId' =
      if roomId' = roomId then room.members else s.members roomId' := by
  by_cases hne : roomId' = roomId
  · subst hne
    simp [members, setRoom]
  · simp [members, setRoom, hne]

/-- A room that is written anew has a higher version. -/
theorem roomsGrow_setRoom {s : Server κ} {roomId : String} {room room' : Room}
    (hroom : s.rooms roomId = some room) (hlt : room.version < room'.version) :
    RoomsGrow s (s.setRoom roomId room') := by
  intro roomId' old hold
  by_cases hne : roomId' = roomId
  · subst hne
    obtain rfl := Option.some.inj (hroom.symm.trans hold)
    exact ⟨room', by simp [setRoom], .inr hlt⟩
  · exact ⟨old, by simp [setRoom, hne, hold], .inl rfl⟩

/-- A name is removed by its coroutine: everything else is sound, and it is in no session. -/
structure Removing (s : Server κ) (ws : κ) (uid : String) : Prop where
  others : ∀ name, name ≠ uid → s.NameOk name
  nodup : ∀ roomId, (s.members roomId).Nodup
  turn : ∀ a roomId turn, a ≠ ws → (s.handlers a).turn? = some (roomId, turn) →
    s.TurnOk roomId turn
  name : (s.handlers ws).name = some uid
  one : ∀ a, (s.handlers a).name = some uid → a = ws
  entry : ∀ peer, s.peers uid = some peer → peer.ws = ws
  session : s.sessions uid = none

/-- A coroutine can remove its name: everything else is sound, and the room or the session that the
name is in is that of its entry. -/
structure Removable (s : Server κ) (ws : κ) (uid : String) : Prop where
  others : ∀ name, name ≠ uid → s.NameOk name
  nodup : ∀ roomId, (s.members roomId).Nodup
  turn : ∀ a roomId turn, a ≠ ws → (s.handlers a).turn? = some (roomId, turn) →
    s.TurnOk roomId turn
  name : (s.handlers ws).name = some uid
  one : ∀ a, (s.handlers a).name = some uid → a = ws
  entry : ∀ peer, s.peers uid = some peer → peer.ws = ws
  member : ∀ roomId, uid ∈ s.members roomId → roomId ≠ "session" ∧ roomId ≠ "" ∧
    s.peers uid = some ⟨ws, some roomId⟩
  opened : ∀ roomId, s.peers uid = some ⟨ws, some roomId⟩ → roomId ≠ "" → roomId ≠ "session" →
    s.rooms roomId ≠ none
  partner : ∀ other, s.sessions uid = some other → s.sessions other = some uid ∧ uid ≠ other ∧
    s.peers uid = some ⟨ws, some "session"⟩

/-- A coroutine that handles messages can remove its name. -/
theorem Sound.removable {s : Server κ} {ws : κ} {uid : String} (h : s.Sound) (hlive : (s.handlers ws).Live uid) : s.Removable ws uid where
  others name _ := h.name name
  nodup := h.nodup
  turn a roomId turn _ := h.turn a roomId turn
  name := hlive.name
  one a ha := (h.name uid).one a ws ha hlive.name
  entry peer hpeer := ((h.name uid).entry peer ws hpeer hlive.name).symm
  member roomId hmem := by
    obtain ⟨hne, hempty, ws', hpeer, -⟩ := (h.name uid).member roomId hmem
    obtain rfl : ws = ws' := (h.name uid).entry _ ws hpeer hlive.name
    exact ⟨hne, hempty, hpeer⟩
  opened roomId hpeer hempty hne := by
    have hin : uid ∈ s.members roomId := by
      rcases hlive.cases with hserves | hbusy | ⟨roomId', turn, hannounce⟩
      · exact ((h.name uid).room ws roomId hserves hpeer hne).2
      · rw [(h.name uid).busy ws hbusy] at hpeer
        simp at hpeer
      · obtain ⟨hpeer', hin⟩ := (h.name uid).announced ws roomId' turn hannounce
        rw [hpeer'] at hpeer
        simp only [Option.some.injEq, Peer.mk.injEq, true_and] at hpeer
        exact hpeer ▸ hin
    obtain ⟨room, hroom, -⟩ := mem_members_iff.1 hin
    simp [hroom]
  partner other hother := by
    obtain ⟨hback, hne, ws', hpeer, -⟩ := (h.name uid).partner other hother
    obtain rfl : ws = ws' := (h.name uid).entry _ ws hpeer hlive.name
    exact ⟨hback, hne, hpeer⟩

/-- A name that is in no session is removed. -/
theorem Removable.removing {s : Server κ} {ws : κ} {uid : String} (h : s.Removable ws uid) (hsession : s.sessions uid = none) :
    s.Removing ws uid :=
  ⟨h.others, h.nodup, h.turn, h.name, h.one, h.entry, hsession⟩

end Server

end Signaling
end LibSwitcher
