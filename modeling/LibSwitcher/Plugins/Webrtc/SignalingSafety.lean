/-
# The signalling server is safe

What every step of a polite run keeps (`Sound.step`), and with it what holds whenever the
signalling server waits: the members of a room are registered with this room, a session is one of
two peers that both have it, and no assertion of the server fails, in whatever order its coroutines
go on and whatever connections are lost.  The entries that a coroutine looks for are there, but for
its own, which the partner of its session may have removed, and that of a peer that it calls and
that is gone meanwhile.
-/

import LibSwitcher.Lib.Machine
import LibSwitcher.Plugins.Webrtc.SignalingRemoval
import Mathlib.Data.Fintype.Basic

namespace LibSwitcher
namespace Signaling
namespace Server

variable {κ : Type*} [DecidableEq κ] {s : Server κ} {ws : κ} {uid : String} {handler : Handler κ}

/-- The coroutine of a name goes on serving it. -/
theorem Sound.serving (h : s.Sound) (hhandler : (s.handlers ws).Serves uid)
    (hserves : handler.Serves uid)
    (hmember : ∀ roomId, (s.handlers ws).MemberOf uid roomId → handler.MemberOf uid roomId) :
    (s.await ws handler).Sound := by
  have hlive : (s.handlers ws).Live uid := by
    cases hws : s.handlers ws <;> simp_all [Handler.Serves, Handler.Live]
  refine (h.removable hlive).serving hserves (fun roomId hpeer hne => ?_)
    ((h.name uid).session ws hhandler)
  obtain ⟨hroom, hin⟩ := (h.name uid).room ws roomId hhandler hpeer hne
  exact ⟨hmember roomId hroom, hin⟩

/-- A message is sent, and the next one is awaited. -/
theorem Sound.reply (h : s.Sound) {roomId : Option String}
    (hhandler : s.handlers ws = .receiving uid roomId) (target : κ) (text : String) :
    s.Good ws (s.sendThen ws uid target text (.replying uid roomId)) := by
  refine (h.removable (by rw [hhandler]; rfl)).sendThen (h.serving (by rw [hhandler]; rfl) rfl ?_)
  intro roomId' hmember
  rw [hhandler] at hmember
  exact hmember

/-- A message in a session: the partner has the session too. -/
theorem Sound.relay (h : s.Sound) {roomId : Option String} {peer : Peer κ} (msg : String)
    (hhandler : s.handlers ws = .receiving uid roomId) (hpeer : s.peers uid = some peer)
    (hstatus : peer.status = some "session") : s.Good ws (s.relay ws uid roomId msg) := by
  have hserves : (s.handlers ws).Serves uid := by rw [hhandler]; rfl
  have hws : ws = peer.ws := (h.name uid).entry peer ws hpeer hserves.name
  have hown : s.peers uid = some ⟨ws, some "session"⟩ := by rw [hpeer, hws, ← hstatus]
  obtain ⟨other, hother⟩ := (h.name uid).session ws hserves hown
  obtain ⟨hback, -, -⟩ := (h.name uid).partner other hother
  obtain ⟨-, -, wso, hpartner, -⟩ := (h.name other).partner uid hback
  rw [Server.relay, hother]
  dsimp only
  rw [hpartner]
  dsimp only
  rw [if_neg (by simp)]
  exact h.reply hhandler _ _

/-- A message of a peer that is in a room: its coroutine knows the room. -/
theorem Sound.roomCommand (repr : String → String) (h : s.Sound) {roomId : Option String}
    {peer : Peer κ} {room : String} (msg : String)
    (hhandler : s.handlers ws = .receiving uid roomId) (hpeer : s.peers uid = some peer)
    (hstatus : peer.status = some room) (hroom : room ≠ "session") :
    s.Good ws (s.roomCommand repr ws uid roomId msg) := by
  have hserves : (s.handlers ws).Serves uid := by rw [hhandler]; rfl
  have hlive : (s.handlers ws).Live uid := by rw [hhandler]; rfl
  have hremovable := h.removable hlive
  have hws : ws = peer.ws := (h.name uid).entry peer ws hpeer hserves.name
  have hown : s.peers uid = some ⟨ws, some room⟩ := by rw [hpeer, hws, ← hstatus]
  have hknown : roomId = some room := by
    have hmember := ((h.name uid).room ws room hserves hown hroom).1
    rw [hhandler] at hmember
    exact hmember.2
  rw [Server.roomCommand, hknown]
  rw [hknown] at hhandler
  split
  · split
    · split
      · exact h.reply hhandler _ _
      · dsimp only
        split <;> exact h.reply hhandler _ _
    · exact hremovable.raised trivial
  · split
    · exact hremovable.raised rfl
    · exact h.reply hhandler _ _

/-- The request of a session. -/
theorem Sound.requestSession (repr : String → String) (h : s.Sound) {roomId : Option String}
    (msg : String) (hhandler : s.handlers ws = .receiving uid roomId)
    (hpeer : s.peers uid = some ⟨ws, none⟩) :
    s.Good ws (s.requestSession repr ws uid roomId msg) := by
  have hlive : (s.handlers ws).Live uid := by rw [hhandler]; rfl
  have hremovable := h.removable hlive
  rw [Server.requestSession]
  split
  · split
    · exact h.reply hhandler _ _
    · exact hremovable.sendThen (hremovable.answering hpeer rfl (by simp))
  · exact hremovable.raised trivial

omit [DecidableEq κ] in
/-- A room is created with nobody in it. -/
theorem members_openRoom (s : Server κ) (roomId roomId' : String) :
    (s.openRoom roomId).members roomId' = s.members roomId' := by
  rw [openRoom]
  split
  · next hroom =>
      rw [members_setRoom]
      split
      · next heq => simp [heq, members, hroom]
      · rfl
  · rfl

omit [DecidableEq κ] in
theorem rooms_openRoom (s : Server κ) (roomId : String) :
    (s.openRoom roomId).rooms roomId ≠ none := by
  rw [openRoom]
  split
  · simp [setRoom]
  · next room hroom => simp [hroom]

omit [DecidableEq κ] in
/-- A room that is there stays as it is. -/
theorem rooms_openRoom_of_some {roomId : String} {room : Room} (hroom : s.rooms roomId = some room)
    (roomId' : String) : (s.openRoom roomId').rooms roomId = some room := by
  rw [openRoom]
  split
  · next hnone =>
      have hne : roomId ≠ roomId' := by
        rintro rfl
        simp [hnone] at hroom
      simp [setRoom, hne, hroom]
  · exact hroom

omit [DecidableEq κ] in
theorem roomsGrow_openRoom (s : Server κ) (roomId : String) : RoomsGrow s (s.openRoom roomId) :=
  fun _ room hroom => ⟨room, rooms_openRoom_of_some hroom roomId, .inl rfl⟩

omit [DecidableEq κ] in
theorem openRoom_fields (s : Server κ) (roomId : String) :
    (s.openRoom roomId).peers = s.peers ∧ (s.openRoom roomId).sessions = s.sessions ∧
      (s.openRoom roomId).handlers = s.handlers := by
  rw [openRoom]
  split <;> exact ⟨rfl, rfl, rfl⟩

omit [DecidableEq κ] in
theorem Sound.openRoom (h : s.Sound) (roomId : String) : (s.openRoom roomId).Sound := by
  obtain ⟨hpeers, hsessions, hhandlers⟩ := openRoom_fields s roomId
  have hgrow := roomsGrow_openRoom s roomId
  refine ⟨fun name => (h.name name).congr (by rw [hpeers]) (by rw [hsessions])
    (fun _ _ => by rw [hsessions]) (fun _ => by rw [members_openRoom]) (fun roomId' hroom => ?_)
    (fun _ _ => by rw [hhandlers]), fun roomId' => ?_, fun a roomId' turn ha => ?_⟩
  · obtain ⟨room, hroom⟩ := Option.ne_none_iff_exists'.1 hroom
    obtain ⟨room', hroom', -⟩ := hgrow roomId' room hroom
    simp [hroom']
  · rw [members_openRoom]
    exact h.nodup roomId'
  · rw [hhandlers] at ha
    exact (h.turn a roomId' turn ha).grow hgrow

theorem splitAll_ne_self {roomId : String} (hroom : splitAll roomId = [roomId]) :
    roomId ≠ "" := by
  rintro rfl
  exact absurd hroom (by decide)

/-- The request to enter a room: the peer is in none. -/
theorem Sound.requestRoom (repr : String → String) (h : s.Sound) {roomId : Option String}
    (msg : String) (hhandler : s.handlers ws = .receiving uid roomId)
    (hpeer : s.peers uid = some ⟨ws, none⟩) : s.Good ws (s.requestRoom repr ws uid msg) := by
  have hserves : (s.handlers ws).Serves uid := by rw [hhandler]; rfl
  have hlive : (s.handlers ws).Live uid := by rw [hhandler]; rfl
  have hremovable := h.removable hlive
  rw [Server.requestRoom]
  split
  · next room _ =>
      split
      · refine hremovable.sendThen (hremovable.serving rfl (fun roomId' hpeer' => ?_)
          (fun hpeer' => ?_)) <;> simp [hpeer] at hpeer'
      · next hname =>
          obtain ⟨hsession, hsplit⟩ := not_or.1 hname
          have hempty := splitAll_ne_self (not_not.1 hsplit)
          split
          · next hin =>
              have hroom := (hremovable.member room hin).2.2
              simp [hpeer] at hroom
          · obtain ⟨hpeers, -, hhandlers⟩ := openRoom_fields s room
            have hopen : (s.openRoom room).Removable ws uid :=
              (h.openRoom room).removable (by rw [hhandlers, hhandler]; rfl)
            have hpeer' : (s.openRoom room).peers uid = some ⟨ws, none⟩ := by rw [hpeers, hpeer]
            have hawait : ((s.openRoom room).await ws (.entering uid room)).Sound := by
              refine hopen.answering hpeer' rfl fun roomId' heq => ?_
              obtain ⟨-, rfl⟩ := Handler.entering.inj heq
              exact ⟨hsession, hempty, rooms_openRoom s room⟩
            exact (hopen.sendThen hawait).mono (fun key hkey => by rwa [hpeers] at hkey)
              (by rw [hhandlers])
  · exact hremovable.raised trivial

/-- **The loop of the messages.** -/
theorem Sound.handle (repr : String → String) (h : s.Sound) {roomId : Option String} (msg : String)
    (hhandler : s.handlers ws = .receiving uid roomId) :
    s.Good ws (s.handle repr ws uid roomId msg) := by
  have hserves : (s.handlers ws).Serves uid := by rw [hhandler]; rfl
  have hlive : (s.handlers ws).Live uid := by rw [hhandler]; rfl
  have hremovable := h.removable hlive
  rw [Server.handle]
  split
  · next hpeer => exact hremovable.raised ⟨hpeer, .inl hserves.name⟩
  · next peer hpeer =>
      have hws : ws = peer.ws := (h.name uid).entry peer ws hpeer hserves.name
      split
      · next status hstatus =>
          split
          · next hsession =>
              subst hsession
              exact h.relay msg hhandler hpeer hstatus
          · next hsession =>
              split
              · exact h.roomCommand repr msg hhandler hpeer hstatus hsession
              · next hempty =>
                  have hown : s.peers uid = some ⟨ws, some status⟩ := by
                    rw [hpeer, hws, ← hstatus]
                  have hin := ((h.name uid).room ws status hserves hown hsession).2
                  exact absurd ((h.name uid).member status hin).2.1 (by simpa using hempty)
      · next hstatus =>
          have hown : s.peers uid = some ⟨ws, none⟩ := by rw [hpeer, hws, ← hstatus]
          split
          · exact h.requestSession repr msg hhandler hown
          · split
            · exact h.requestRoom repr msg hhandler hown
            · refine ⟨h.serving hserves rfl fun roomId' hmember => ?_, by simp⟩
              rw [hhandler] at hmember
              exact hmember

/-- A coroutine without a name goes on without one. -/
theorem Sound.nameless (h : s.Sound) (hws : (s.handlers ws).name = none)
    (hname : handler.name = none) : (s.await ws handler).Sound where
  name name := by
    refine (h.name name).congr rfl rfl (fun _ _ => rfl) (fun _ => Iff.rfl) (fun _ => id)
      (handlers_of_name rfl ?_ ?_)
    · simp [hws]
    · simp [hname]
  nodup := h.nodup
  turn a roomId turn ha := by
    by_cases heq : a = ws
    · subst heq
      rw [await_self] at ha
      cases handler <;> simp_all [Handler.name, Handler.turn?]
    · rw [await_of_ne _ _ heq] at ha
      exact (h.turn a roomId turn ha).grow (.of_eq rfl)

theorem Sound.finish (h : s.Sound) (hws : (s.handlers ws).name = none) : (s.finish ws).Sound :=
  have hawait : (s.await ws .done).Sound := h.nameless hws rfl
  hawait.of_eq rfl rfl rfl rfl

/-- `hello_peer`. -/
theorem Sound.helloPeer (h : s.Sound) (hws : (s.handlers ws).name = none) (hello : String) :
    s.Good ws (s.helloPeer ws hello) := by
  have hawait : (s.await ws .rejecting).Sound := h.nameless hws rfl
  have hrejecting : ((s.close ws).await ws .rejecting).Sound := hawait.of_eq rfl rfl rfl rfl
  rw [Server.helloPeer]
  split
  · next command uid _ =>
      split
      · exact ⟨hrejecting, by simp⟩
      · split
        · exact ⟨hrejecting, by simp⟩
        · split
          · exact ⟨h.finish hws, by simp [Excused]⟩
          · next s' hsend =>
              obtain rfl := send_eq_some hsend
              have hgreeting : (s.await ws (.greeting uid)).Sound := h.nameless hws rfl
              exact ⟨hgreeting.of_eq rfl rfl rfl rfl, by simp⟩
  · exact ⟨h.finish hws, by simp [Excused]⟩

/-- A name that no coroutine has is registered. -/
theorem Sound.register (h : s.Sound) (hws : (s.handlers ws).name = none)
    (hfree : ∀ a, (s.handlers a).name ≠ some uid) :
    ((s.setPeer uid (some ⟨ws, none⟩)).await ws (.receiving uid none)).Sound := by
  have hhandlers : ((s.setPeer uid (some ⟨ws, none⟩)).await ws (.receiving uid none)).handlers =
    Function.update s.handlers ws (.receiving uid none) := rfl
  have hpeer : ((s.setPeer uid (some ⟨ws, none⟩)).await ws (.receiving uid none)).peers uid =
    some ⟨ws, none⟩ := Function.update_self ..
  refine ⟨fun name => ?_, h.nodup, fun a roomId turn ha => ?_⟩
  · by_cases hne : name = uid
    · subst hne
      refine .of_serves ws (fun a ha => ?_) ?_ (fun peer hpeer' => ?_)
        (fun roomId hmem => ?_) (fun other hother => ?_) (fun hsession => ?_)
        (fun roomId hroom => ?_)
      · by_contra hne
        rw [handlers_of_ne hhandlers hne] at ha
        exact hfree a ha
      · rw [handlers_self hhandlers]
        rfl
      · rw [hpeer] at hpeer'
        exact congrArg Peer.ws (Option.some.inj hpeer').symm
      · obtain ⟨-, -, a, -, hmember⟩ := (h.name name).member roomId hmem
        exact absurd hmember.name (hfree a)
      · obtain ⟨-, -, a, -, hserves⟩ := (h.name name).partner other hother
        exact absurd hserves.name (hfree a)
      · simp [hpeer] at hsession
      · simp [hpeer] at hroom
    · refine (h.name name).congr (Function.update_of_ne hne _ _) rfl (fun _ _ => rfl)
        (fun _ => Iff.rfl) (fun _ => id) (handlers_of_name hhandlers ?_ ?_)
      · simp [hws]
      · exact fun heq => hne (Option.some.inj heq).symm
  · by_cases heq : a = ws
    · rw [heq, handlers_self hhandlers] at ha
      exact absurd ha (by simp [Handler.turn?])
    · rw [handlers_of_ne hhandlers heq] at ha
      exact (h.turn a roomId turn ha).grow (.of_eq rfl)

/-- **A session is registered**, with a peer that is free. -/
theorem Sound.openSession (h : s.Sound) {roomId : Option String} {callee : String}
    (hhandler : s.handlers ws = .calling uid roomId callee)
    (hfree : s.peers callee = none ∨ s.Free callee) :
    s.Good ws (s.openSession ws uid roomId callee) := by
  have hbusy : (s.handlers ws).Busy uid := by rw [hhandler]; rfl
  have hlive : (s.handlers ws).Live uid := by rw [hhandler]; rfl
  have hremovable := h.removable hlive
  have hown := (h.name uid).busy ws hbusy
  rw [Server.openSession]
  rcases hfree with hgone | ⟨wsc, hcallee, hserves⟩
  · rw [hgone]
    exact hremovable.raised ⟨hgone, .inr ⟨uid, roomId, hhandler⟩⟩
  rw [hcallee, hown]
  dsimp only
  have hws : wsc ≠ ws := by
    rintro rfl
    simp [hhandler, Handler.Serves] at hserves
  have hne : callee ≠ uid := by
    rintro rfl
    exact hws ((h.name callee).one wsc ws hserves.name hlive.name)
  set s' := (Server.setSession _ callee (some uid)).await ws (.receiving uid roomId) with hs'
  have hhandlers : s'.handlers = Function.update s.handlers ws (.receiving uid roomId) := rfl
  have hsessions : s'.sessions =
    Function.update (Function.update s.sessions uid (some callee)) callee (some uid) := rfl
  have hpeers : s'.peers = Function.update (Function.update s.peers uid
      (some ⟨ws, some "session"⟩)) callee (some ⟨wsc, some "session"⟩) := by
    simp [hs', setSession, setPeer, await, hne, hcallee]
  have hmembers : ∀ roomId, s'.members roomId = s.members roomId := members_of_rooms rfl
  have hnoRoom : ∀ name a, s.peers name = some ⟨a, none⟩ → ∀ roomId, name ∉ s'.members roomId := by
    intro name a hpeer roomId' hmem
    rw [hmembers] at hmem
    obtain ⟨-, -, a', hpeer', -⟩ := (h.name name).member roomId' hmem
    simp [hpeer] at hpeer'
  have hnoSession : ∀ name a other, s.peers name = some ⟨a, none⟩ →
      s.sessions other ≠ some name := by
    intro name a other hpeer hother
    obtain ⟨hback, -⟩ := (h.name other).partner name hother
    obtain ⟨-, -, a', hpeer', -⟩ := (h.name name).partner other hback
    simp [hpeer] at hpeer'
  refine ⟨⟨fun name => ?_, h.nodup, fun a roomId' turn ha => ?_⟩, by simp⟩
  · by_cases huid : name = uid
    · subst huid
      refine .of_session ws hremovable.one_await ?_ ?_ (hnoRoom name ws hown) ?_ ?_ hne.symm
      · rw [handlers_self hhandlers]
        rfl
      · rw [hpeers, Function.update_of_ne hne.symm, Function.update_self]
      · rw [hsessions, Function.update_of_ne hne.symm, Function.update_self]
      · rw [hsessions, Function.update_self]
    · by_cases hcal : name = callee
      · subst hcal
        refine .of_session wsc (fun a ha => ?_) ?_ ?_ (hnoRoom name wsc hcallee) ?_ ?_ hne
        · by_cases heq : a = ws
          · rw [heq, handlers_self hhandlers] at ha
            exact absurd (Option.some.inj ha).symm hne
          · rw [handlers_of_ne hhandlers heq] at ha
            exact (h.name name).one a wsc ha hserves.name
        · rwa [handlers_of_ne hhandlers hws]
        · rw [hpeers, Function.update_self]
        · rw [hsessions, Function.update_self]
        · rw [hsessions, Function.update_of_ne hne.symm, Function.update_self]
      · refine (h.name name).congr ?_ ?_ (fun other hother => ?_) (fun roomId' => ?_)
          (fun _ => id) (handlers_of_name hhandlers ?_ ?_)
        · rw [hpeers, Function.update_of_ne hcal, Function.update_of_ne huid]
        · rw [hsessions, Function.update_of_ne hcal, Function.update_of_ne huid]
        · have hother' : other ≠ callee := by
            rintro rfl
            exact hnoSession other wsc name hcallee hother
          have hother'' : other ≠ uid := by
            rintro rfl
            exact hnoSession other ws name hown hother
          rw [hsessions, Function.update_of_ne hother', Function.update_of_ne hother'']
        · rw [hmembers]
        · rw [hlive.name]
          exact fun heq => huid (Option.some.inj heq).symm
        · exact fun heq => huid (Option.some.inj heq).symm
  · by_cases heq : a = ws
    · rw [heq, handlers_self hhandlers] at ha
      exact absurd ha (by simp [Handler.turn?])
    · rw [handlers_of_ne hhandlers heq] at ha
      exact (h.turn a roomId' turn ha).grow (.of_eq rfl)

omit [DecidableEq κ] in
/-- A room is entered: whatever comes next, the name can be removed. -/
theorem Sound.entered (h : s.Sound) {roomId : String} {room : Room}
    (hhandler : s.handlers ws = .entering uid roomId) (hroom : s.rooms roomId = some room) :
    ((s.setPeer uid (some ⟨ws, some roomId⟩)).setRoom roomId (room.add uid)).Removable ws uid ∧
      room.add uid = ⟨room.members ++ [uid], room.version + 1⟩ := by
  have hlive : (s.handlers ws).Live uid := by rw [hhandler]; rfl
  have hown := (h.name uid).busy ws (by rw [hhandler]; rfl)
  obtain ⟨hsession, hempty, -⟩ := (h.name uid).entering ws roomId hhandler
  have hremovable := h.removable hlive
  have hnot : ∀ roomId', uid ∉ s.members roomId' := by
    intro roomId' hmem
    have hpeer := (hremovable.member roomId' hmem).2.2
    simp [hown] at hpeer
  have hmem : s.members roomId = room.members := by simp [members, hroom]
  have hadd : room.add uid = ⟨room.members ++ [uid], room.version + 1⟩ := by
    rw [Room.add, if_neg (hmem ▸ hnot roomId)]
  set s' := (s.setPeer uid (some ⟨ws, some roomId⟩)).setRoom roomId (room.add uid) with hs'
  have hpeer : s'.peers uid = some ⟨ws, some roomId⟩ := Function.update_self ..
  have hmembers : ∀ roomId', s'.members roomId' =
      if roomId' = roomId then (room.add uid).members else s.members roomId' := fun roomId' =>
    members_setRoom (s.setPeer uid (some ⟨ws, some roomId⟩)) (room.add uid) roomId roomId'
  have hgrow : RoomsGrow s s' := by
    have hset : RoomsGrow (s.setPeer uid (some ⟨ws, some roomId⟩)) s' :=
      roomsGrow_setRoom hroom (by simp [hadd])
    exact hset
  refine ⟨⟨fun name hne => ?_, fun roomId' => ?_, fun a roomId' turn hws ha => ?_, hlive.name,
    hremovable.one, fun peer hpeer' => ?_, fun roomId' hmem' => ?_, fun roomId' hpeer' _ _ => ?_,
    fun other hother => ?_⟩, hadd⟩
  · refine (h.name name).congr (Function.update_of_ne hne _ _) rfl (fun _ _ => rfl)
      (fun roomId' => ?_) (fun roomId' hold => ?_) (fun _ _ => rfl)
    · rw [hmembers]
      split
      · next heq => simp [heq, hmem, hadd, hne]
      · exact Iff.rfl
    · obtain ⟨old, hold⟩ := Option.ne_none_iff_exists'.1 hold
      obtain ⟨new, hnew, -⟩ := hgrow roomId' old hold
      simp [hnew]
  · rw [hmembers]
    split
    · have hnodup := h.nodup roomId
      rw [hmem] at hnodup
      rw [hadd]
      exact hnodup.append (List.nodup_singleton uid)
        (by simpa using hmem ▸ hnot roomId)
    · exact h.nodup roomId'
  · exact (h.turn a roomId' turn ha).grow hgrow
  · rw [hpeer] at hpeer'
    exact congrArg Peer.ws (Option.some.inj hpeer').symm
  · rw [hmembers] at hmem'
    split at hmem'
    · next heq => exact heq ▸ ⟨hsession, hempty, hpeer⟩
    · exact absurd hmem' (hnot roomId')
  · rw [hpeer] at hpeer'
    simp only [Option.some.injEq, Peer.mk.injEq, true_and] at hpeer'
    simp [← hpeer', hs', setRoom]
  · have hpartner := (hremovable.partner other hother).2.2
    simp [hown] at hpartner

omit [DecidableEq κ] in
/-- The members of a room that is entered are gone through from the first. -/
theorem turnOk_entered (s : Server κ) (roomId : String) (room : Room) :
    (s.setRoom roomId room).TurnOk roomId room.turn ∧
      ∀ pid ∈ room.members, pid ∈ (s.setRoom roomId room).members roomId := by
  refine ⟨⟨room, by simp [setRoom], Nat.le_refl _, fun _ _ => id⟩, fun pid hpid => ?_⟩
  rw [members_setRoom, if_pos rfl]
  exact hpid

/-- **A room is entered.** -/
theorem Sound.enterRoom (h : s.Sound) {roomId : String}
    (hhandler : s.handlers ws = .entering uid roomId) :
    s.Good ws (s.enterRoom ws uid roomId) := by
  have hown := (h.name uid).busy ws (by rw [hhandler]; rfl)
  obtain ⟨room, hroom⟩ :=
    Option.ne_none_iff_exists'.1 ((h.name uid).entering ws roomId hhandler).2.2
  obtain ⟨hremovable, hadd⟩ := h.entered hhandler hroom
  obtain ⟨hturn, hall⟩ :=
    turnOk_entered (s.setPeer uid (some ⟨ws, some roomId⟩)) roomId (room.add uid)
  have hroom' : (s.setPeer uid (some ⟨ws, some roomId⟩)).rooms roomId = some room := hroom
  rw [Server.enterRoom, hown]
  dsimp only
  rw [hroom']
  dsimp only
  set s' := (s.setPeer uid (some ⟨ws, some roomId⟩)).setRoom roomId (room.add uid)
  have hpeer : s'.peers uid = some ⟨ws, some roomId⟩ := Function.update_self ..
  have hin : uid ∈ s'.members roomId := hall uid (by simp [hadd])
  refine (hremovable.announceLoop hpeer hin hturn hall).mono (fun key hkey => ?_) rfl
  by_cases hne : key = uid
  · rw [hne, hpeer] at hkey
    exact absurd hkey (by simp)
  · exact (Function.update_of_ne hne _ _).symm.trans hkey

omit [DecidableEq κ] in
/-- An iterator that goes on goes on with members of its room. -/
theorem TurnOk.goOn {roomId : String} {turn turn' : Turn} {next : Option String}
    (h : s.TurnOk roomId turn) (hturn : turn.goOn (s.rooms roomId) next = some turn') :
    s.TurnOk roomId turn' ∧ ∀ pid ∈ turn'.rest, pid ∈ s.members roomId := by
  obtain ⟨room, hroom, hle, hall⟩ := h
  have hmem : s.members roomId = room.members := by simp [members, hroom]
  rw [hroom, Turn.goOn] at hturn
  split at hturn
  · exact absurd hturn (by simp)
  · split at hturn
    · next heq =>
        obtain rfl := Option.some.inj hturn
        exact ⟨⟨room, hroom, hle, hall⟩, hmem ▸ hall heq.symm⟩
    · next hne =>
        obtain rfl := Option.some.inj hturn
        refine ⟨⟨room, hroom, hle, fun heq => absurd heq.symm hne⟩, fun pid hpid => ?_⟩
        rw [hmem]
        simpa using (List.mem_filter.1 hpid).2

omit [DecidableEq κ] in
/-- A coroutine that waits for the partner or for a room to be told is in no room. -/
theorem Sound.removing (h : s.Sound) (hname : (s.handlers ws).name = some uid)
    (hlive : ¬(s.handlers ws).Live uid) :
    s.Removing ws uid ∧ ∀ roomId, uid ∉ s.members roomId := by
  have hroom : ∀ roomId, ¬(s.handlers ws).MemberOf uid roomId := fun roomId hmember => hlive <| by
    cases hws : s.handlers ws <;> simp_all [Handler.MemberOf, Handler.Live]
  have hserves : ¬(s.handlers ws).Serves uid := fun hserves => hlive <| by
    cases hws : s.handlers ws <;> simp_all [Handler.Serves, Handler.Live]
  refine ⟨⟨fun name _ => h.name name, h.nodup, fun a roomId turn _ => h.turn a roomId turn, hname,
    fun a ha => (h.name uid).one a ws ha hname,
    fun peer hpeer => ((h.name uid).entry peer ws hpeer hname).symm, ?_⟩, fun roomId hmem => ?_⟩
  · by_contra hsession
    obtain ⟨other, hother⟩ := Option.ne_none_iff_exists'.1 hsession
    obtain ⟨-, -, ws', hpeer, hserves'⟩ := (h.name uid).partner other hother
    obtain rfl : ws = ws' := (h.name uid).entry _ ws hpeer hname
    exact hserves hserves'
  · obtain ⟨-, -, ws', hpeer, hmember⟩ := (h.name uid).member roomId hmem
    obtain rfl : ws = ws' := (h.name uid).entry _ ws hpeer hname
    exact hroom roomId hmember

/-- **A wait that returns, or raises.** -/
theorem Sound.resume (h : s.Sound) {ok : Bool} {next : Option String} {outcome : Outcome κ}
    (hpolite : s.Polite (.resume ws ok next)) (hresume : s.resume ws ok next = some outcome) :
    s.Good ws outcome := by
  rw [Server.resume] at hresume
  split at hresume
  · next hhandler =>
      obtain rfl := Option.some.inj hresume
      exact ⟨h.finish (by rw [hhandler]; rfl), by simp [Excused]⟩
  · next uid hhandler =>
      have hname : (s.handlers ws).name = none := by rw [hhandler]; rfl
      split at hresume <;> obtain rfl := Option.some.inj hresume
      · next hok =>
          subst hok
          rw [Polite, hhandler] at hpolite
          exact ⟨h.register hname hpolite, by simp⟩
      · exact ⟨h.finish hname, by simp [Excused]⟩
  · next uid roomId hhandler =>
      split at hresume <;> obtain rfl := Option.some.inj hresume
      · have hserves : (s.handlers ws).Serves uid := by rw [hhandler]; rfl
        refine ⟨h.serving hserves rfl fun roomId' hmember => ?_, by simp⟩
        rw [hhandler] at hmember
        exact hmember
      · exact (h.removable (by rw [hhandler]; rfl)).raised trivial
  · next uid roomId callee hhandler =>
      obtain rfl := Option.some.inj hresume
      split
      · next hok =>
          subst hok
          rw [Polite, hhandler] at hpolite
          exact h.openSession hhandler hpolite
      · exact (h.removable (by rw [hhandler]; rfl)).raised trivial
  · next uid roomId hhandler =>
      obtain rfl := Option.some.inj hresume
      split
      · exact h.enterRoom hhandler
      · exact (h.removable (by rw [hhandler]; rfl)).raised trivial
  · next uid roomId turn hhandler =>
      have hlive : (s.handlers ws).Live uid := by rw [hhandler]; rfl
      have hremovable := h.removable hlive
      obtain ⟨hpeer, hin⟩ := (h.name uid).announced ws roomId turn hhandler
      split at hresume
      · split at hresume <;> obtain rfl := Option.some.inj hresume
        · exact hremovable.raised trivial
        · next turn' hturn =>
            obtain ⟨hturn', hrest⟩ := (h.turn ws roomId turn (by rw [hhandler]; rfl)).goOn hturn
            exact hremovable.announceLoop hpeer hin hturn' hrest
      · obtain rfl := Option.some.inj hresume
        exact hremovable.raised trivial
  · next uid hhandler =>
      obtain rfl := Option.some.inj hresume
      have hname : (s.handlers ws).name = some uid := by rw [hhandler]; rfl
      obtain ⟨hremoving, hroom⟩ := h.removing hname (by rw [hhandler]; exact id)
      refine hremoving.removeEntry (fun roomId hmem => absurd hmem (hroom roomId))
        (fun peer roomId hpeer hstatus _ hne => absurd ?_ hne)
      have hsession := (h.name uid).closingPartner ws peer hhandler hpeer
      exact Option.some.inj (hstatus.symm.trans hsession)
  · next uid roomId own turn hhandler =>
      have hname : (s.handlers ws).name = some uid := by rw [hhandler]; rfl
      obtain ⟨hremoving, hroom⟩ := h.removing hname (by rw [hhandler]; exact id)
      split at hresume
      · split at hresume <;> obtain rfl := Option.some.inj hresume
        · exact ⟨hremoving.finish hroom, by simp [Excused]⟩
        · next turn' hturn =>
            obtain ⟨hturn', hrest⟩ := (h.turn ws roomId turn (by rw [hhandler]; rfl)).goOn hturn
            exact hremoving.leaveLoop hroom ((h.name uid).leaving ws roomId own turn hhandler) own hturn'
              hrest
      · obtain rfl := Option.some.inj hresume
        exact ⟨hremoving.finish hroom, by simp [Excused]⟩
  · next hhandler =>
      obtain rfl := Option.some.inj hresume
      exact ⟨h.finish (by rw [hhandler]; rfl), by simp⟩
  all_goals exact absurd hresume (by simp)

/-- **A step of a polite run.** -/
theorem Sound.step (repr : String → String) (h : s.Sound) {event : Event κ} {outcome : Outcome κ}
    (hpolite : s.Polite event) (hstep : s.step repr event = some outcome) :
    s.Good event.ws outcome := by
  cases event with
  | connect ws =>
      rw [Server.step] at hstep
      split at hstep
      · next hhandler =>
          obtain rfl := Option.some.inj hstep
          exact ⟨h.nameless (by rw [hhandler]; rfl) rfl, by simp⟩
      · exact absurd hstep (by simp)
  | receive ws msg =>
      rw [Server.step] at hstep
      split at hstep
      · next hhandler =>
          obtain rfl := Option.some.inj hstep
          have hname : (s.handlers ws).name = none := by rw [hhandler]; rfl
          exact h.helloPeer hname msg
      · next uid roomId hhandler =>
          obtain rfl := Option.some.inj hstep
          exact h.handle repr msg hhandler
      · exact absurd hstep (by simp)
  | receiveFails ws =>
      rw [Server.step] at hstep
      split at hstep
      · exact absurd hstep (by simp)
      · split at hstep
        · next hhandler =>
            obtain rfl := Option.some.inj hstep
            exact ⟨h.finish (by rw [hhandler]; rfl), by simp [Excused]⟩
        · next uid roomId hhandler =>
            obtain rfl := Option.some.inj hstep
            have hlive : (s.handlers ws).Live uid := by rw [hhandler]; rfl
            exact (h.removable hlive).raised trivial
        · exact absurd hstep (by simp)
  | resume ws ok next => exact h.resume hpolite hstep
  | lost ws =>
      obtain rfl := Option.some.inj hstep
      exact ⟨h.of_eq rfl rfl rfl rfl, by simp⟩

omit [DecidableEq κ] in
/-- Before any connection there are no names. -/
theorem sound_init : (init : Server κ).Sound where
  name _ := .of_none (by simp [init, Handler.name]) (by simp [init, members]) rfl
  nodup _ := List.nodup_nil
  turn _ _ _ ha := by simp [init, Handler.turn?] at ha

/-- **The signalling server is safe.**  In every state of a polite run the members of the rooms are
registered with their rooms and the sessions are mutual, and whatever is politely done next, no
assertion of the server fails, and no entry is missing but the own one, or that of a peer that was
called. -/
theorem polite_run (repr : String → String) {events : List (Event κ)} {s : Server κ}
    {exceptions : List (List Raised)}
    (hpolite : Machine.Admits (Server.step repr) Polite init events)
    (hrun : Machine.run (Server.step repr) init events = some (s, exceptions)) :
    s.Consistent ∧ ∀ (event : Event κ) (outcome : Outcome κ), s.Polite event →
      s.step repr event = some outcome →
        ∀ exception ∈ outcome.2, s.Excused event.ws exception := by
  have hstep : ∀ (s : Server κ) event r, s.Sound → s.Polite event →
      s.step repr event = some r → r.1.Sound :=
    fun s event r hs hevent hr => (hs.step repr hevent hr).1
  have hsound : s.Sound :=
    (hpolite.always (fun _ => id) hstep sound_init).run hrun
  exact ⟨hsound.consistent, fun event outcome hevent hr => (hsound.step repr hevent hr).2⟩

instance [Fintype κ] (s : Server κ) (uid : String) : Decidable (s.Free uid) :=
  inferInstanceAs (Decidable (∃ ws, s.peers uid = some ⟨ws, none⟩ ∧ (s.handlers ws).Serves uid))

instance [Fintype κ] (s : Server κ) (event : Event κ) : Decidable (s.Polite event) := by
  unfold Polite
  split
  · split <;> infer_instance
  · infer_instance

/-- Two peers register and meet in a room. -/
def meeting : List (Event Bool) :=
  [.connect false, .receive false "HELLO alice", .resume false true none,
    .receive false "ROOM hall", .resume false true none, .connect true,
    .receive true "HELLO bob", .resume true true none, .receive true "ROOM hall",
    .resume true true none, .resume true true none]

theorem polite_run_meeting : ∃ s exceptions,
    Machine.run (Server.step id) init meeting = some (s, exceptions) ∧ s.Consistent ∧
      s.members "hall" = ["alice", "bob"] := by
  have hpolite : Machine.Admits (Server.step id) Polite init meeting := by decide +kernel
  have hmembers : (Machine.run (Server.step id) init meeting).map (·.1.members "hall") =
    some ["alice", "bob"] := by decide +kernel
  obtain ⟨⟨s, exceptions⟩, hrun, hs⟩ := Option.map_eq_some_iff.1 hmembers
  exact ⟨s, exceptions, hrun, (polite_run id hpolite hrun).1, hs⟩

end Server
end Signaling
end LibSwitcher
