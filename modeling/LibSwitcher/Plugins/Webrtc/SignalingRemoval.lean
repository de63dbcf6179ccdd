/-
# A name of the signalling server is removed

`remove_peer` and what it calls, from wherever its coroutine is: the partner of a session is
removed with its connection, and the members of a room are told one by one, with a wait after each.
What is removed is `Removable` before, where everything but the own name is sound, and `Removing`
once it is in no session.  What the coroutine does instead of it goes on from the same facts
(`Removable.await`): it serves the name, has answered a request, or announces itself in a room.
-/

import LibSwitcher.Plugins.Webrtc.SignalingNames
import Mathlib.Data.List.Nodup

namespace LibSwitcher
namespace Signaling
namespace Server

variable {κ : Type*} [DecidableEq κ] {s s' : Server κ} {ws : κ} {uid : String}
  {handler : Handler κ}

/-- Another coroutine waits where it did. -/
theorem handlers_of_ne {a : κ} (hhandlers : s'.handlers = Function.update s.handlers ws handler)
    (hne : a ≠ ws) : s'.handlers a = s.handlers a := by
  rw [hhandlers, Function.update_of_ne hne]

theorem handlers_self (hhandlers : s'.handlers = Function.update s.handlers ws handler) :
    s'.handlers ws = handler := by
  rw [hhandlers, Function.update_self]

theorem await_self (s : Server κ) (ws : κ) (handler : Handler κ) :
    (s.await ws handler).handlers ws = handler := handlers_self rfl

theorem await_of_ne (s : Server κ) (handler : Handler κ) {a : κ} (hne : a ≠ ws) :
    (s.await ws handler).handlers a = s.handlers a := handlers_of_ne rfl hne

/-- The names that a coroutine neither has nor gets are those of the same coroutines. -/
theorem handlers_of_name {name : String}
    (hhandlers : s'.handlers = Function.update s.handlers ws handler)
    (hws : (s.handlers ws).name ≠ some name) (hname : handler.name ≠ some name) (a : κ)
    (ha : (s.handlers a).name = some name ∨ (s'.handlers a).name = some name) :
    s'.handlers a = s.handlers a := by
  by_cases hne : a = ws
  · subst hne
    rw [handlers_self hhandlers] at ha
    rcases ha with ha | ha
    · exact absurd ha hws
    · exact absurd ha hname
  · exact handlers_of_ne hhandlers hne

/-- The name goes on to be removed where only its entry and its place are changed. -/
theorem Removing.others_of (h : s.Removing ws uid)
    (hpeers : ∀ name, name ≠ uid → s'.peers name = s.peers name)
    (hsessions : s'.sessions = s.sessions)
    (hmembers : ∀ name, name ≠ uid → ∀ roomId, name ∈ s'.members roomId ↔ name ∈ s.members roomId)
    (hgrow : RoomsGrow s s') (hhandlers : s'.handlers = Function.update s.handlers ws handler)
    (hname : handler.name = none ∨ handler.name = some uid) (name : String) (hne : name ≠ uid) :
    s'.NameOk name := by
  refine (h.others name hne).congr (hpeers name hne) (by rw [hsessions])
    (fun other _ => by rw [hsessions]) (hmembers name hne) (fun roomId hroom => ?_)
    (handlers_of_name hhandlers ?_ ?_)
  · obtain ⟨room, hroom⟩ := Option.ne_none_iff_exists'.1 hroom
    obtain ⟨room', hroom', -⟩ := hgrow roomId room hroom
    simp [hroom']
  · rw [h.name]
    exact fun heq => hne (Option.some.inj heq).symm
  · rcases hname with hname | hname <;> rw [hname]
    · simp
    · exact fun heq => hne (Option.some.inj heq).symm

/-- **A coroutine gives up its name.** -/
theorem Removing.release (h : s.Removing ws uid) (hroom : ∀ roomId, uid ∉ s.members roomId)
    (hpeers : ∀ name, name ≠ uid → s'.peers name = s.peers name)
    (hsessions : s'.sessions = s.sessions) (hrooms : s'.rooms = s.rooms)
    (hhandlers : s'.handlers = Function.update s.handlers ws handler)
    (hname : handler.name = none) (hturn : handler.turn? = none) : s'.Sound where
  name name := by
    by_cases hne : name = uid
    · subst hne
      refine NameOk.of_none (fun a ha => ?_) (fun roomId => ?_) (by rw [hsessions, h.session])
      · by_cases hws : a = ws
        · subst hws
          rw [handlers_self hhandlers, hname] at ha
          exact absurd ha (by simp)
        · rw [handlers_of_ne hhandlers hws] at ha
          exact hws (h.one a ha)
      · rw [members_of_rooms hrooms]
        exact hroom roomId
    · exact h.others_of hpeers hsessions (fun _ _ roomId => by rw [members_of_rooms hrooms])
        (.of_eq hrooms) hhandlers (.inl hname) name hne
  nodup roomId := by
    rw [members_of_rooms hrooms]
    exact h.nodup roomId
  turn a roomId turn ha := by
    by_cases hws : a = ws
    · subst hws
      rw [handlers_self hhandlers, hturn] at ha
      exact absurd ha (by simp)
    · rw [handlers_of_ne hhandlers hws] at ha
      exact (h.turn a roomId turn hws ha).grow (.of_eq hrooms)

/-- What a coroutine did is sound, and what it raised is excused. -/
def Good (s : Server κ) (ws : κ) (outcome : Outcome κ) : Prop :=
  outcome.1.Sound ∧ ∀ exception ∈ outcome.2, s.Excused ws exception

theorem Removing.finish (h : s.Removing ws uid) (hroom : ∀ roomId, uid ∉ s.members roomId) :
    (s.finish ws).Sound :=
  h.release hroom (fun _ _ => rfl) rfl rfl rfl rfl rfl

/-- `del self.peers[uid]`. -/
theorem Removing.dropEntry (h : s.Removing ws uid) (hroom : ∀ roomId, uid ∉ s.members roomId)
    (own : κ) : s.Good ws (s.dropEntry ws uid own) := by
  rw [Server.dropEntry]
  split
  · next hpeer =>
      refine ⟨h.finish hroom, fun exception hexception => ?_⟩
      obtain rfl := List.mem_singleton.1 hexception
      exact ⟨hpeer, .inl h.name⟩
  · refine ⟨h.release hroom (fun name hne => ?_) rfl rfl rfl rfl rfl, by simp⟩
    exact Function.update_of_ne hne _ _

/-- A message that is sent. -/
theorem send_eq_some {target : κ} {text : String} (hsend : s.send target text = some s') :
    s' = { s with sent := Function.update s.sent target (s.sent target ++ [text]) } := by
  rw [Server.send] at hsend
  split at hsend
  · exact absurd hsend (by simp)
  · exact (Option.some.inj hsend).symm

/-- The coroutine waits for the rest of the loop of `cleanup_room`. -/
theorem Removing.leaving (h : s.Removing ws uid) (hroom : ∀ roomId, uid ∉ s.members roomId)
    (hpeer : s.peers uid ≠ none) {roomId : String} (own : κ) {turn : Turn} (hturn : s.TurnOk roomId turn)
    (sent : κ → List String) :
    (({ s with sent := sent } : Server κ).await ws (.leaving uid roomId own turn)).Sound where
  name name := by
    by_cases hne : name = uid
    · subst hne
      have hself : (({ s with sent := sent } : Server κ).await ws
        (.leaving name roomId own turn)).handlers ws = .leaving name roomId own turn :=
          await_self ..
      refine NameOk.of_handler ws (fun a ha => ?_) h.entry
        (fun room hroom' => absurd hroom' (hroom room))
        (fun other hother => absurd (h.session.symm.trans hother) (by simp)) ?_ ?_ ?_ ?_ ?_ ?_
        (fun _ _ _ _ => hpeer) <;>
        try simp [hself, Handler.Busy, Handler.Serves]
      by_contra hws
      rw [await_of_ne _ _ hws] at ha
      exact hws (h.one a ha)
    · have hname : (Handler.leaving uid roomId own turn).name = some uid := rfl
      refine h.others_of ?_ ?_ ?_ ?_ ?_ (.inr hname) name hne
      · exact fun _ _ => rfl
      · rfl
      · exact fun _ _ _ => Iff.rfl
      · exact .of_eq rfl
      · rfl
  nodup := h.nodup
  turn a roomId' turn' ha := by
    by_cases hws : a = ws
    · subst hws
      rw [await_self] at ha
      obtain ⟨rfl, rfl⟩ := Prod.mk.inj (Option.some.inj ha)
      exact hturn.grow (.of_eq rfl)
    · rw [await_of_ne _ _ hws] at ha
      exact (h.turn a roomId' turn' hws ha).grow (.of_eq rfl)

/-- The loop of `cleanup_room`: those who are left in the room are all there. -/
theorem Removing.leaveLoop (h : s.Removing ws uid) (hroom : ∀ roomId, uid ∉ s.members roomId)
    (hentry : s.peers uid ≠ none) {roomId : String} (own : κ) {turn : Turn} (hturn : s.TurnOk roomId turn)
    (hrest : ∀ pid ∈ turn.rest, pid ∈ s.members roomId) :
    s.Good ws (s.leaveLoop ws uid roomId own turn) := by
  rw [Server.leaveLoop]
  split
  · exact h.dropEntry hroom own
  · next pid rest hpids =>
      have hpid : pid ∈ s.members roomId := hrest pid (by rw [hpids]; exact List.mem_cons_self)
      have hne : pid ≠ uid := fun heq => hroom roomId (heq ▸ hpid)
      obtain ⟨-, -, wsp, hpeer, -⟩ := (h.others pid hne).member roomId hpid
      rw [hpeer]
      dsimp only
      split
      · exact ⟨h.finish hroom, by simp [Excused]⟩
      · next s' hsend =>
          obtain rfl := send_eq_some hsend
          obtain ⟨room, hroomId, hle, hall⟩ := hturn
          have hrest' : s.TurnOk roomId { turn with rest := rest } :=
            ⟨room, hroomId, hle, fun heq pid hpid =>
              hall heq pid (by rw [hpids]; exact List.mem_cons_of_mem _ hpid)⟩
          exact ⟨h.leaving hroom hentry own hrest' _, by simp⟩

theorem Room.mem_remove {room : Room} {name : String} :
    name ∈ (room.remove uid).members ↔ name ∈ room.members ∧ name ≠ uid := by
  simp [Room.remove]

omit [DecidableEq κ] in
/-- The members of the rooms when a peer has left its room. -/
theorem mem_members_left {roomId : String} {room : Room} (hroom : s.rooms roomId = some room)
    (name roomId' : String) : name ∈ (s.setRoom roomId (room.remove uid)).members roomId' ↔
      name ∈ s.members roomId' ∧ ¬(roomId' = roomId ∧ name = uid) := by
  have hmembers : s.members roomId = room.members := by simp [members, hroom]
  rw [members_setRoom]
  split
  · next heq => simp [heq, hmembers, Room.mem_remove]
  · next hne => simp [hne]

/-- A peer that is removed has left its room. -/
theorem Removing.left (h : s.Removing ws uid) {roomId : String} {room : Room}
    (hroom : s.rooms roomId = some room) :
    (s.setRoom roomId (room.remove uid)).Removing ws uid := by
  have hgrow : RoomsGrow s (s.setRoom roomId (room.remove uid)) :=
    roomsGrow_setRoom hroom (by simp [Room.remove])
  refine ⟨h.others_of (fun _ _ => rfl) rfl (fun name hne roomId' => ?_) hgrow
    (Function.update_eq_self _ _).symm (.inr h.name), fun roomId' => ?_,
    fun a roomId' turn hne ha => (h.turn a roomId' turn hne ha).grow hgrow, h.name, h.one, h.entry,
    h.session⟩
  · simp [mem_members_left hroom, hne]
  · have hmembers : s.members roomId = room.members := by simp [members, hroom]
    rw [members_setRoom]
    split
    · rw [Room.remove]
      exact (hmembers ▸ h.nodup roomId).filter _
    · exact h.nodup roomId'

/-- `cleanup_room`. -/
theorem Removing.cleanupRoom (h : s.Removing ws uid) {roomId : String} (own : κ)
    (hentry : s.peers uid ≠ none)
    (hin : ∀ roomId', uid ∈ s.members roomId' → roomId' = roomId) (hopen : s.rooms roomId ≠ none) :
    s.Good ws (s.cleanupRoom ws uid roomId own) := by
  obtain ⟨room, hroom⟩ := Option.ne_none_iff_exists'.1 hopen
  have hmembers : s.members roomId = room.members := by simp [members, hroom]
  rw [Server.cleanupRoom, hroom]
  dsimp only
  split
  · next hnot =>
      refine h.dropEntry (fun roomId' hmem => ?_) own
      obtain rfl := hin roomId' hmem
      exact hnot (hmembers ▸ hmem)
  · have hturn : (s.setRoom roomId (room.remove uid)).TurnOk roomId (room.remove uid).turn :=
      ⟨room.remove uid, by simp [setRoom], Nat.le_refl _, fun _ _ => id⟩
    refine (h.left hroom).leaveLoop (fun roomId' hmem => ?_) hentry own hturn (fun pid hpid => ?_)
    · obtain ⟨hmem, hnot⟩ := (mem_members_left hroom uid roomId').1 hmem
      exact hnot ⟨hin roomId' hmem, rfl⟩
    · rw [members_setRoom, if_pos rfl]
      exact hpid

/-- `remove_peer` after `cleanup_session`. -/
theorem Removing.removeEntry (h : s.Removing ws uid)
    (hin : ∀ roomId, uid ∈ s.members roomId → roomId ≠ "" ∧ roomId ≠ "session" ∧
      ∃ peer, s.peers uid = some peer ∧ peer.status = some roomId)
    (hopen : ∀ peer roomId, s.peers uid = some peer → peer.status = some roomId → roomId ≠ "" →
      roomId ≠ "session" → s.rooms roomId ≠ none) :
    s.Good ws (s.removeEntry ws uid) := by
  rw [Server.removeEntry]
  split
  · next hpeer =>
      refine ⟨h.finish fun roomId hmem => ?_, by simp⟩
      obtain ⟨-, -, peer, hpeer', -⟩ := hin roomId hmem
      simp [hpeer] at hpeer'
  · next peer hpeer =>
      split
      · next hstatus =>
          refine h.dropEntry (fun roomId hmem => ?_) _
          obtain ⟨-, -, peer', hpeer', hstatus'⟩ := hin roomId hmem
          obtain rfl := Option.some.inj (hpeer.symm.trans hpeer')
          simp [hstatus] at hstatus'
      · next status hstatus =>
          split
          · next hroom =>
              refine h.cleanupRoom _ (by simp [hpeer]) (fun roomId hmem => ?_) (hopen peer status hpeer hstatus hroom.1
                hroom.2)
              obtain ⟨-, -, peer', hpeer', hstatus'⟩ := hin roomId hmem
              obtain rfl := Option.some.inj (hpeer.symm.trans hpeer')
              exact Option.some.inj (hstatus'.symm.trans hstatus)
          · next hroom =>
              refine h.dropEntry (fun roomId hmem => ?_) _
              obtain ⟨hempty, hsession, peer', hpeer', hstatus'⟩ := hin roomId hmem
              obtain rfl := Option.some.inj (hpeer.symm.trans hpeer')
              obtain rfl := Option.some.inj (hstatus'.symm.trans hstatus)
              exact hroom ⟨hempty, hsession⟩

/-- `cleanup_session` removes the partner of a session, and closes its connection. -/
theorem Removable.closingPartner (h : s.Removable ws uid) {other : String} {peer : Peer κ}
    (hother : s.sessions uid = some other) (hpeer : s.peers other = some peer)
    (hpeers : s'.peers = Function.update s.peers other none)
    (hsessions : s'.sessions = Function.update (Function.update s.sessions uid none) other none)
    (hrooms : s'.rooms = s.rooms)
    (hhandlers : s'.handlers = Function.update s.handlers ws (.closingPartner uid)) :
    s'.Sound := by
  obtain ⟨hback, hne, hown⟩ := h.partner other hother
  obtain ⟨-, -, wso, hentry, hserves⟩ := (h.others other hne.symm).partner uid hback
  obtain rfl := Option.some.inj (hentry.symm.trans hpeer)
  have hwso : wso ≠ ws := by
    rintro rfl
    have hname := hserves.name
    rw [h.name] at hname
    exact hne (Option.some.inj hname)
  have hself := handlers_self hhandlers
  have hmembers := members_of_rooms hrooms
  refine ⟨fun name => ?_, fun roomId => ?_, fun a roomId turn ha => ?_⟩
  · by_cases huid : name = uid
    · -- the coroutine keeps its name until the partner is gone
      subst huid
      have hown' : s'.peers name = some ⟨ws, some "session"⟩ := by
        rw [hpeers, Function.update_of_ne hne, hown]
      refine NameOk.of_handler ws (fun a ha => ?_) (fun peer hpeer => ?_)
        (fun roomId hmem => ?_) (fun other' hother' => ?_) ?_ ?_ ?_ ?_ ?_ ?_ ?_ <;>
        try simp [hself, Handler.Busy, Handler.Serves]
      · by_contra hws
        rw [handlers_of_ne hhandlers hws] at ha
        exact hws (h.one a ha)
      · rw [hown'] at hpeer
        exact congrArg Peer.ws (Option.some.inj hpeer).symm
      · rw [hmembers] at hmem
        obtain ⟨hroom, -, hpeer⟩ := h.member roomId hmem
        rw [hown] at hpeer
        simp only [Option.some.injEq, Peer.mk.injEq, true_and] at hpeer
        exact absurd hpeer.symm hroom
      · simp [hsessions, hne] at hother'
      · rw [hown']
        simp
    · by_cases hoth : name = other
      · -- the coroutine of the partner finds out later
        subst hoth
        refine NameOk.of_gone wso (fun a ha => ?_) ?_ ?_ (fun roomId hmem => ?_) ?_
        · by_cases hws : a = ws
          · rw [hws, hself] at ha
            exact absurd (Option.some.inj ha).symm huid
          · rw [handlers_of_ne hhandlers hws] at ha
            exact (h.others name huid).one a wso ha hserves.name
        · rwa [handlers_of_ne hhandlers hwso]
        · rw [hpeers, Function.update_self]
        · rw [hmembers] at hmem
          obtain ⟨hroom, -, ws', hpeer', -⟩ := (h.others name huid).member roomId hmem
          rw [hpeer] at hpeer'
          simp only [Option.some.injEq, Peer.mk.injEq] at hpeer'
          exact hroom hpeer'.2.symm
        · rw [hsessions, Function.update_self]
      · refine (h.others name huid).congr ?_ ?_ (fun other' hother' => ?_) (fun roomId => ?_)
          (fun roomId hroom => ?_) (handlers_of_name hhandlers ?_ ?_)
        · rw [hpeers, Function.update_of_ne hoth]
        · rw [hsessions, Function.update_of_ne hoth, Function.update_of_ne huid]
        · obtain ⟨hback', -⟩ := (h.others name huid).partner other' hother'
          have hne' : other' ≠ other := by
            rintro rfl
            exact huid (Option.some.inj (hback'.symm.trans hback))
          have hne'' : other' ≠ uid := by
            rintro rfl
            exact hoth (Option.some.inj (hback'.symm.trans hother))
          rw [hsessions, Function.update_of_ne hne', Function.update_of_ne hne'']
        · rw [hmembers]
        · rwa [hrooms]
        · rw [h.name]
          exact fun heq => huid (Option.some.inj heq).symm
        · exact fun heq => huid (Option.some.inj heq).symm
  · rw [hmembers]
    exact h.nodup roomId
  · by_cases hws : a = ws
    · subst hws
      rw [hself] at ha
      exact absurd ha (by simp [Handler.turn?])
    · rw [handlers_of_ne hhandlers hws] at ha
      exact (h.turn a roomId turn hws ha).grow (.of_eq hrooms)

/-- **`remove_peer`.** -/
theorem Removable.removePeer (h : s.Removable ws uid) : s.Good ws (s.removePeer ws uid) := by
  rw [Server.removePeer]
  split
  · next hsession =>
      refine (h.removing hsession).removeEntry (fun roomId hmem => ?_)
        (fun peer roomId hpeer hstatus => ?_)
      · obtain ⟨hne, hempty, hpeer⟩ := h.member roomId hmem
        exact ⟨hempty, hne, _, hpeer, rfl⟩
      · obtain ⟨ws', status⟩ := peer
        obtain rfl := h.entry _ hpeer
        subst hstatus
        exact h.opened roomId hpeer
  · next other hother =>
      obtain ⟨hback, hne, -⟩ := h.partner other hother
      obtain ⟨-, -, wso, hentry, -⟩ := (h.others other hne.symm).partner uid hback
      have hback' : (s.setSession uid none).sessions other = some uid := by
        simp [setSession, hne.symm, hback]
      have hentry' : ((s.setSession uid none).setSession other none).peers other =
          some ⟨wso, some "session"⟩ := hentry
      simp only [hback', hentry', if_neg (Option.some_ne_none uid)]
      exact ⟨h.closingPartner hother hentry rfl rfl rfl rfl, by simp⟩

/-- An exception that leaves the loop of the messages. -/
theorem Removable.raised (h : s.Removable ws uid) {exception : Raised}
    (hexcused : s.Excused ws exception) : s.Good ws (s.raised ws uid exception) := by
  refine ⟨h.removePeer.1, fun other hother => ?_⟩
  rcases List.mem_cons.1 hother with rfl | hother
  · exact hexcused
  · exact h.removePeer.2 other hother

omit [DecidableEq κ] in
/-- What is good after a change that removes no entry. -/
theorem Good.mono {outcome : Outcome κ} (h : s'.Good ws outcome)
    (hpeers : ∀ key, s'.peers key = none → s.peers key = none)
    (hhandler : s'.handlers ws = s.handlers ws) : s.Good ws outcome := by
  refine ⟨h.1, fun exception hexception => ?_⟩
  have hexcused := h.2 exception hexception
  cases exception with
  | keyError key =>
      obtain ⟨hkey, hname⟩ := hexcused
      rw [hhandler] at hname
      exact ⟨hpeers key hkey, hname⟩
  | _ => exact hexcused

omit [DecidableEq κ] in
/-- What was sent and what is closed is about no name. -/
theorem Sound.of_eq (h : s.Sound) (hpeers : s'.peers = s.peers)
    (hsessions : s'.sessions = s.sessions) (hrooms : s'.rooms = s.rooms)
    (hhandlers : s'.handlers = s.handlers) : s'.Sound where
  name uid := (h.name uid).congr (by rw [hpeers]) (by rw [hsessions])
    (fun _ _ => by rw [hsessions]) (fun roomId => by rw [members_of_rooms hrooms])
    (fun roomId hroom => by rwa [hrooms]) (fun a _ => by rw [hhandlers])
  nodup roomId := by
    rw [members_of_rooms hrooms]
    exact h.nodup roomId
  turn a roomId turn ha := by
    rw [hhandlers] at ha
    exact (h.turn a roomId turn ha).grow (.of_eq hrooms)

/-- A message is sent, and the coroutine waits. -/
theorem Removable.sendThen (h : s.Removable ws uid) {target : κ} {text : String}
    (hawait : (s.await ws handler).Sound) :
    s.Good ws (s.sendThen ws uid target text handler) := by
  rw [Server.sendThen]
  split
  · exact h.raised trivial
  · next s' hsend =>
      obtain rfl := send_eq_some hsend
      exact ⟨hawait.of_eq rfl rfl rfl rfl, by simp⟩

/-- **A coroutine goes on with its name.** -/
theorem Removable.await (h : s.Removable ws uid) (hname : handler.name = some uid)
    (hok : (s.await ws handler).NameOk uid)
    (hturn : ∀ roomId turn, handler.turn? = some (roomId, turn) → s.TurnOk roomId turn) :
    (s.await ws handler).Sound where
  name name := by
    by_cases hne : name = uid
    · exact hne ▸ hok
    · refine (h.others name hne).congr rfl rfl (fun _ _ => rfl) (fun _ => Iff.rfl) (fun _ => id)
        (handlers_of_name rfl ?_ ?_)
      · rw [h.name]
        exact fun heq => hne (Option.some.inj heq).symm
      · rw [hname]
        exact fun heq => hne (Option.some.inj heq).symm
  nodup := h.nodup
  turn a roomId turn ha := by
    by_cases hws : a = ws
    · rw [hws, await_self] at ha
      exact (hturn roomId turn ha).grow (.of_eq rfl)
    · rw [await_of_ne _ _ hws] at ha
      exact (h.turn a roomId turn hws ha).grow (.of_eq rfl)

theorem Removable.one_await (h : s.Removable ws uid) (a : κ)
    (ha : ((s.await ws handler).handlers a).name = some uid) : a = ws := by
  by_contra hws
  rw [await_of_ne _ _ hws] at ha
  exact hws (h.one a ha)

/-- The coroutine waits for the next message, or for its answer to the last. -/
theorem Removable.serving (h : s.Removable ws uid) (hserves : handler.Serves uid)
    (hroom : ∀ roomId, s.peers uid = some ⟨ws, some roomId⟩ → roomId ≠ "session" →
      handler.MemberOf uid roomId ∧ uid ∈ s.members roomId)
    (hsession : s.peers uid = some ⟨ws, some "session"⟩ → ∃ other, s.sessions uid = some other) :
    (s.await ws handler).Sound := by
  have hself : (s.await ws handler).handlers ws = handler := handlers_self rfl
  refine h.await hserves.name (.of_serves ws h.one_await ?_ h.entry (fun roomId hmem => ?_)
    h.partner hsession ?_) (fun roomId turn hturn => ?_)
  · rwa [hself]
  · obtain ⟨hne, hempty, hpeer⟩ := h.member roomId hmem
    refine ⟨hne, hempty, hpeer, ?_⟩
    rw [hself]
    exact (hroom roomId hpeer hne).1
  · rw [hself]
    exact hroom
  · cases handler <;> simp_all [Handler.Serves, Handler.turn?]

/-- A request of a free peer is answered. -/
theorem Removable.answering (h : s.Removable ws uid) (hpeer : s.peers uid = some ⟨ws, none⟩)
    (hbusy : handler.Busy uid)
    (hentering : ∀ roomId, handler = .entering uid roomId →
      roomId ≠ "session" ∧ roomId ≠ "" ∧ s.rooms roomId ≠ none) :
    (s.await ws handler).Sound := by
  have hself : (s.await ws handler).handlers ws = handler := handlers_self rfl
  refine h.await hbusy.name (.of_handler ws h.one_await h.entry (fun roomId hmem => ?_)
    (fun other hother => ?_) (fun _ => hpeer) ?_ (fun hserves => ?_) (fun _ hserves => ?_)
    (fun peer hclosing => ?_) (fun roomId turn hannounce => ?_)
    (fun roomId own turn hleave => ?_)) (fun roomId turn hturn => ?_)
  · have hroom := (h.member roomId hmem).2.2
    simp [hpeer] at hroom
  · have hpartner := (h.partner other hother).2.2
    simp [hpeer] at hpartner
  · rwa [hself]
  all_goals cases handler <;>
    simp_all [Handler.Busy, Handler.Serves, Handler.turn?]

/-- A peer is announced in the room that it is in. -/
theorem Removable.announcing (h : s.Removable ws uid) {roomId : String}
    (hpeer : s.peers uid = some ⟨ws, some roomId⟩) (hin : uid ∈ s.members roomId) {turn : Turn}
    (hturn : s.TurnOk roomId turn) : (s.await ws (.announcing uid roomId turn)).Sound := by
  have hself : (s.await ws (.announcing uid roomId turn)).handlers ws =
    .announcing uid roomId turn := handlers_self rfl
  refine h.await rfl (.of_handler ws h.one_await h.entry (fun roomId' hmem => ?_)
    (fun other hother => ?_) (fun hbusy => ?_) (fun _ henter => ?_) (fun hserves => ?_)
    (fun _ hserves => ?_) (fun peer hclosing => ?_) (fun roomId' turn' hannounce => ?_)
    (fun roomId' own turn' hleave => ?_)) (fun roomId' turn' hturn' => ?_)
  · obtain ⟨hne, hempty, hroom⟩ := h.member roomId' hmem
    refine ⟨hne, hempty, hroom, ?_⟩
    rw [hpeer] at hroom
    rw [hself]
    simp_all [Handler.MemberOf]
  · have hpartner := (h.partner other hother).2.2
    rw [hpeer] at hpartner
    simp only [Option.some.injEq, Peer.mk.injEq, true_and] at hpartner
    exact absurd hpartner (h.member roomId hin).1
  · simp [hself, Handler.Busy] at hbusy
  · simp [hself] at henter
  · simp [hself, Handler.Serves] at hserves
  · simp [hself, Handler.Serves] at hserves
  · simp [hself] at hclosing
  · rw [hself] at hannounce
    obtain ⟨-, rfl, -⟩ := Handler.announcing.inj hannounce
    exact ⟨hpeer, hin⟩
  · simp [hself] at hleave
  · obtain ⟨rfl, rfl⟩ := Prod.mk.inj (Option.some.inj hturn')
    exact hturn

/-- The loop over the members of a room that is entered. -/
theorem Removable.announceLoop (h : s.Removable ws uid) {roomId : String}
    (hpeer : s.peers uid = some ⟨ws, some roomId⟩) (hin : uid ∈ s.members roomId) {turn : Turn}
    (hturn : s.TurnOk roomId turn) (hrest : ∀ pid ∈ turn.rest, pid ∈ s.members roomId) :
    s.Good ws (s.announceLoop ws uid roomId turn.size turn.version turn.rest) := by
  obtain ⟨size, version, rest⟩ := turn
  induction rest with
  | nil =>
      refine ⟨h.serving rfl (fun roomId' hpeer' _ => ?_) (fun hsession => ?_),
        by simp [Server.announceLoop]⟩
      · rw [hpeer] at hpeer'
        simp only [Option.some.injEq, Peer.mk.injEq, true_and] at hpeer'
        exact hpeer' ▸ ⟨⟨rfl, rfl⟩, hin⟩
      · rw [hpeer] at hsession
        simp only [Option.some.injEq, Peer.mk.injEq, true_and] at hsession
        exact absurd hsession (h.member roomId hin).1
  | cons pid rest ih =>
      have hturn' : s.TurnOk roomId ⟨size, version, rest⟩ := by
        obtain ⟨room, hroom, hle, hall⟩ := hturn
        exact ⟨room, hroom, hle, fun heq pid hpid => hall heq pid (List.mem_cons_of_mem _ hpid)⟩
      dsimp only [Server.announceLoop]
      split
      · exact ih hturn' fun pid hpid => hrest pid (List.mem_cons_of_mem _ hpid)
      · next hne =>
          obtain ⟨-, -, wsp, hentry, -⟩ :=
            (h.others pid hne).member roomId (hrest pid List.mem_cons_self)
          rw [hentry]
          exact h.sendThen (h.announcing hpeer hin hturn')

end Server
end Signaling
end LibSwitcher
