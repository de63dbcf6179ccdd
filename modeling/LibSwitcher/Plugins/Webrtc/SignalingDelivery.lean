/-
# Whom the signalling server sends something

"It shovels data between peers" (`plugins/webrtc/signaling/Server.md`): what the coroutine of a
connection sends to another connection in one go is at most one text, and there is a reason for it
(`Reaches`).  It is what the peer said in a session of the two, or one of the three messages of a
room, with the name of the peer, to somebody who has the room as its status.  In particular
nothing is sent to a peer that is neither in a session nor in a room.
-/

import LibSwitcher.Plugins.Webrtc.SignalingAgreement

namespace LibSwitcher
namespace Signaling
namespace Server

variable {κ : Type*} [DecidableEq κ] {s s' : Server κ} {ws : κ} {uid : String}

/-- Why a text of a peer is sent to another connection. -/
inductive Reaches (s : Server κ) (ws : κ) (uid : String) (a : κ) (text : String) : Prop where
  /-- The two have a session. -/
  | partner (other : String) (session : s.sessions uid = some other)
      (back : s.sessions other = some uid) (peer : s.peers other = some ⟨a, some "session"⟩)
  /-- The peer is in the room of the other, or enters or leaves it. -/
  | room (other roomId : String) (own : uid ∈ s.members roomId ∨ (s.handlers ws).Uses roomId)
      (peer : s.peers other = some ⟨a, some roomId⟩)
      (said : text = "ROOM_PEER_JOINED " ++ uid ∨ text = "ROOM_PEER_LEFT " ++ uid ∨
        ∃ body, text = "ROOM_PEER_MSG " ++ uid ++ " " ++ body)

/-- What the coroutine of a connection sends in one go. -/
def Sends (s : Server κ) (ws : κ) (uid : String) (sent : κ → List String) : Prop :=
  ∀ a, sent a = s.sent a ∨
    ∃ text, sent a = s.sent a ++ [text] ∧ (a = ws ∨ s.Reaches ws uid a text)

omit [DecidableEq κ] in
theorem Sends.nothing (s : Server κ) (ws : κ) (uid : String) : s.Sends ws uid s.sent :=
  fun _ => .inl rfl

/-- A text is sent. -/
theorem Sends.one {target : κ} {text : String} (h : target = ws ∨ s.Reaches ws uid target text) :
    s.Sends ws uid (Function.update s.sent target (s.sent target ++ [text])) := by
  intro a
  by_cases heq : a = target
  · subst heq
    exact .inr ⟨text, Function.update_self .., h⟩
  · exact .inl (Function.update_of_ne heq _ _)

theorem sent_dropEntry (s : Server κ) (ws : κ) (uid : String) (own : κ) :
    (s.dropEntry ws uid own).1.sent = s.sent := by
  rw [Server.dropEntry]
  split <;> rfl

omit [DecidableEq κ] in
/-- What is sent after a change that gives nobody a reason. -/
theorem Sends.of_base {sent : κ → List String} (h : s'.Sends ws uid sent) (hsent : s'.sent = s.sent)
    (hreaches : ∀ a text, s'.Reaches ws uid a text → a = ws ∨ s.Reaches ws uid a text) :
    s.Sends ws uid sent := by
  intro a
  rcases h a with heq | ⟨text, heq, rfl | hreach⟩
  · exact .inl (heq.trans (congrFun hsent a))
  · exact .inr ⟨text, by rw [heq, hsent], .inl rfl⟩
  · exact .inr ⟨text, by rw [heq, hsent], hreaches a text hreach⟩

/-- Those who are left are told who leaves. -/
theorem Sends.leaveLoop {roomId : String} (own : κ) {turn : Turn} (hsent : s'.sent = s.sent)
    (hrest : ∀ pid ∈ turn.rest, ∃ wsp, s'.peers pid = some ⟨wsp, some roomId⟩ ∧
      s.Reaches ws uid wsp ("ROOM_PEER_LEFT " ++ uid)) :
    s.Sends ws uid (s'.leaveLoop ws uid roomId own turn).1.sent := by
  have hnothing : s.Sends ws uid s'.sent := hsent ▸ .nothing s ws uid
  rw [Server.leaveLoop]
  split
  · rwa [sent_dropEntry]
  · next pid rest hturn =>
      obtain ⟨wsp, hpeer, hreaches⟩ := hrest pid (by rw [hturn]; exact List.mem_cons_self)
      rw [hpeer]
      dsimp only
      split
      · exact hnothing
      · next s' hsend =>
          obtain rfl := send_eq_some hsend
          have hone : s.Sends ws uid (Function.update s.sent wsp (s.sent wsp ++
            ["ROOM_PEER_LEFT " ++ uid])) := .one (.inr hreaches)
          rw [← hsent] at hone
          exact hone

/-- **`remove_peer`** tells those who are left, if the peer was in a room. -/
theorem Sends.removePeer (h : s.Removable ws uid) :
    s.Sends ws uid (s.removePeer ws uid).1.sent := by
  have hdrop : ∀ own, s.Sends ws uid (s.dropEntry ws uid own).1.sent := fun own => by
    rw [sent_dropEntry]
    exact .nothing s ws uid
  rw [Server.removePeer]
  split
  · rw [Server.removeEntry]
    split
    · exact .nothing s ws uid
    · next peer hpeer =>
        obtain ⟨ws', status⟩ := peer
        obtain rfl : ws' = ws := h.entry _ hpeer
        split
        · exact hdrop ws'
        · next roomId hstatus =>
            obtain rfl : status = some roomId := hstatus
            split
            · rw [Server.cleanupRoom]
              split
              · exact .nothing s ws' uid
              · next room hroom =>
                  split
                  · exact hdrop ws'
                  · next hmem =>
                      have hmembers : s.members roomId = room.members := by simp [members, hroom]
                      have hin : uid ∈ s.members roomId := hmembers ▸ not_not.1 hmem
                      refine .leaveLoop ws' rfl fun pid hpid => ?_
                      obtain ⟨hmem, hne⟩ := Room.mem_remove.1 hpid
                      obtain ⟨-, -, wsp, hpeer, -⟩ :=
                        (h.others pid hne).member roomId (hmembers ▸ hmem)
                      exact ⟨wsp, hpeer, .room pid roomId (.inl hin) hpeer (.inr (.inl rfl))⟩
            · exact hdrop ws'
  · next other hother =>
      obtain ⟨hback, hne, -⟩ := h.partner other hother
      obtain ⟨-, -, wso, hentry, -⟩ := (h.others other hne.symm).partner uid hback
      have hback' : (s.setSession uid none).sessions other = some uid := by
        simp [setSession, hne.symm, hback]
      have hentry' : ((s.setSession uid none).setSession other none).peers other =
          some ⟨wso, some "session"⟩ := hentry
      simp only [hback', hentry', if_neg (Option.some_ne_none uid)]
      exact .nothing s ws uid

theorem Sends.sendThen (h : s.Removable ws uid) {target : κ} {text : String} {handler : Handler κ}
    (htext : target = ws ∨ s.Reaches ws uid target text) :
    s.Sends ws uid (s.sendThen ws uid target text handler).1.sent := by
  rw [Server.sendThen]
  split
  · exact .removePeer h
  · next s' hsend =>
      obtain rfl := send_eq_some hsend
      exact .one htext

/-- Those who are in a room are told who enters it. -/
theorem Sends.announceLoop (h : s.Removable ws uid) {roomId : String} {size version : ℕ}
    {rest : List String} (hrest : ∀ pid ∈ rest, pid ∈ s.members roomId)
    (hin : uid ∈ s.members roomId) :
    s.Sends ws uid (s.announceLoop ws uid roomId size version rest).1.sent := by
  induction rest with
  | nil => exact .nothing s ws uid
  | cons pid rest ih =>
      rw [Server.announceLoop]
      split
      · exact ih fun pid hpid => hrest pid (List.mem_cons_of_mem _ hpid)
      · next hne =>
          obtain ⟨-, -, wsp, hpeer, -⟩ :=
            (h.others pid hne).member roomId (hrest pid List.mem_cons_self)
          rw [hpeer]
          exact .sendThen h (.inr (.room pid roomId (.inl hin) hpeer (.inl rfl)))

/-- **What a message makes the server send.** -/
theorem Sends.handle (repr : String → String) (hs : s.Sound) {roomId : Option String}
    (msg : String) (hhandler : s.handlers ws = .receiving uid roomId) :
    s.Sends ws uid (s.handle repr ws uid roomId msg).1.sent := by
  have hserves : (s.handlers ws).Serves uid := by rw [hhandler]; rfl
  have hlive : (s.handlers ws).Live uid := by rw [hhandler]; rfl
  have h := hs.removable hlive
  have hself : ∀ text handler, s.Sends ws uid (s.sendThen ws uid ws text handler).1.sent :=
    fun _ _ => .sendThen h (.inl rfl)
  rw [Server.handle]
  split
  · exact .removePeer h
  · next peer hpeer =>
      have hws : ws = peer.ws := (hs.name uid).entry peer ws hpeer hserves.name
      split
      · next status hstatus =>
          have hown : s.peers uid = some ⟨ws, some status⟩ := by rw [hpeer, hws, ← hstatus]
          split
          · next hsession =>
              subst hsession
              obtain ⟨other, hother⟩ := (hs.name uid).session ws hserves hown
              obtain ⟨hback, -⟩ := (hs.name uid).partner other hother
              obtain ⟨-, -, wso, hentry, -⟩ := (hs.name other).partner uid hback
              rw [Server.relay, hother]
              dsimp only
              rw [hentry]
              dsimp only
              rw [if_neg (by simp)]
              exact .sendThen h (.inr (.partner other hother hback hentry))
          · next hsession =>
              split
              · obtain ⟨hmember, hin⟩ := (hs.name uid).room ws status hserves hown hsession
                rw [hhandler] at hmember
                obtain ⟨-, rfl⟩ := hmember
                rw [Server.roomCommand]
                split
                · split
                  · next other body _ =>
                      split
                      · exact hself _ _
                      · next wso' hentry =>
                          dsimp only
                          split
                          · exact hself _ _
                          · next hroom =>
                              obtain ⟨wso, status'⟩ := wso'
                              obtain rfl : status' = some status := not_not.1 hroom
                              exact .sendThen h (.inr (.room other status (.inl hin) hentry
                                (.inr (.inr ⟨body, rfl⟩))))
                  · exact .removePeer h
                · split
                  · exact .removePeer h
                  · exact hself _ _
              · exact .removePeer h
      · next hstatus =>
          have hown : s.peers uid = some ⟨ws, none⟩ := by rw [hpeer, hws, ← hstatus]
          split
          · rw [Server.requestSession]
            split
            · split <;> exact hself _ _
            · exact .removePeer h
          · split
            · rw [Server.requestRoom]
              split
              · next room _ =>
                  split
                  · exact hself _ _
                  · split
                    · exact .removePeer h
                    · obtain ⟨hpeers, hsessions, hhandlers⟩ := openRoom_fields s room
                      have hopen : (s.openRoom room).Removable ws uid :=
                        (hs.openRoom room).removable (by rw [hhandlers, hhandler]; rfl)
                      refine (Sends.sendThen hopen (.inl rfl)).of_base (sent_openRoom s room) ?_
                      rintro a text (⟨other, hsession, hback, hentry⟩ |
                        ⟨other, roomId', hin, hentry, hsaid⟩)
                      · rw [hsessions] at hsession hback
                        rw [hpeers] at hentry
                        exact .inr (.partner other hsession hback hentry)
                      · rw [members_openRoom, hhandlers] at hin
                        rw [hpeers] at hentry
                        exact .inr (.room other roomId' hin hentry hsaid)
              · exact .removePeer h
            · exact .nothing s ws uid

/-- What a peer makes the server send when it enters a room. -/
theorem Sends.enterRoom (hs : s.Sound) {roomId : String}
    (hhandler : s.handlers ws = .entering uid roomId) :
    s.Sends ws uid (s.enterRoom ws uid roomId).1.sent := by
  have hown := (hs.name uid).busy ws (by rw [hhandler]; rfl)
  obtain ⟨hsession, -, hopen⟩ := (hs.name uid).entering ws roomId hhandler
  obtain ⟨room, hroom⟩ := Option.ne_none_iff_exists'.1 hopen
  obtain ⟨hremovable, hadd⟩ := hs.entered hhandler hroom
  obtain ⟨-, hall⟩ :=
    turnOk_entered (s.setPeer uid (some ⟨ws, some roomId⟩)) roomId (room.add uid)
  have hroom' : (s.setPeer uid (some ⟨ws, some roomId⟩)).rooms roomId = some room := hroom
  rw [Server.enterRoom, hown]
  dsimp only
  rw [hroom']
  dsimp only
  set s' := (s.setPeer uid (some ⟨ws, some roomId⟩)).setRoom roomId (room.add uid)
  have hsends : s'.Sends ws uid (s'.announceLoop ws uid roomId (room.add uid).members.length
      (room.add uid).version (room.add uid).members).1.sent :=
    .announceLoop hremovable hall (hall uid (by simp [hadd]))
  have hself : s'.peers uid = some ⟨ws, some roomId⟩ := Function.update_self ..
  have hother : ∀ other, other ≠ uid → s'.peers other = s.peers other :=
    fun other hne => Function.update_of_ne hne _ _
  refine hsends.of_base rfl ?_
  rintro a text (⟨other, hsession', hback, hentry⟩ | ⟨other, roomId', hin, hentry, hsaid⟩)
  · by_cases hne : other = uid
    · rw [hne, hself] at hentry
      simp only [Option.some.injEq, Peer.mk.injEq] at hentry
      exact absurd hentry.2 hsession
    · exact .inr (.partner other hsession' hback ((hother other hne).symm.trans hentry))
  · by_cases hne : other = uid
    · rw [hne, hself] at hentry
      simp only [Option.some.injEq, Peer.mk.injEq] at hentry
      exact .inl hentry.1.symm
    · have huses : (s.handlers ws).Uses roomId' := by
        rcases hin with hin | huses
        · have hroom := (hremovable.member roomId' hin).2.2
          rw [hself] at hroom
          simp only [Option.some.injEq, Peer.mk.injEq, true_and] at hroom
          rw [hhandler]
          exact hroom
        · exact huses
      exact .inr (.room other roomId' (.inr huses) ((hother other hne).symm.trans hentry) hsaid)

/-- What the coroutine of a connection sends in one go, with the name that it has. -/
def Delivers (s : Server κ) (ws : κ) (sent : κ → List String) : Prop :=
  ∀ a, sent a = s.sent a ∨ ∃ text, sent a = s.sent a ++ [text] ∧
    (a = ws ∨ ∃ uid, (s.handlers ws).name = some uid ∧ s.Reaches ws uid a text)

omit [DecidableEq κ] in
theorem Sends.delivers {sent : κ → List String} (h : s.Sends ws uid sent)
    (hname : (s.handlers ws).name = some uid) : s.Delivers ws sent := by
  intro a
  rcases h a with heq | ⟨text, heq, hown | hreach⟩
  · exact .inl heq
  · exact .inr ⟨text, heq, .inl hown⟩
  · exact .inr ⟨text, heq, .inr ⟨uid, hname, hreach⟩⟩

omit [DecidableEq κ] in
theorem Delivers.nothing (s : Server κ) (ws : κ) : s.Delivers ws s.sent := fun _ => .inl rfl

/-- **What a wait that returns makes the server send.** -/
theorem Delivers.resume (hs : s.Sound) {ok : Bool} {next : Option String} {outcome : Outcome κ}
    (hresume : s.resume ws ok next = some outcome) : s.Delivers ws outcome.1.sent := by
  have hraised : ∀ uid exception, (s.handlers ws).Live uid →
      s.Delivers ws (s.raised ws uid exception).1.sent := fun uid _ hlive =>
    (Sends.removePeer (hs.removable hlive)).delivers hlive.name
  rw [Server.resume] at hresume
  split at hresume
  · obtain rfl := Option.some.inj hresume
    exact .nothing s ws
  · split at hresume <;> obtain rfl := Option.some.inj hresume <;> exact .nothing s ws
  · next uid roomId hhandler =>
      split at hresume <;> obtain rfl := Option.some.inj hresume
      · exact .nothing s ws
      · exact hraised uid _ (by rw [hhandler]; rfl)
  · next uid roomId callee hhandler =>
      have hlive : (s.handlers ws).Live uid := by rw [hhandler]; rfl
      obtain rfl := Option.some.inj hresume
      split
      · rw [Server.openSession]
        split
        · exact hraised uid _ hlive
        · exact hraised uid _ hlive
        · exact .nothing s ws
      · exact hraised uid _ hlive
  · next uid roomId hhandler =>
      have hlive : (s.handlers ws).Live uid := by rw [hhandler]; rfl
      obtain rfl := Option.some.inj hresume
      split
      · exact (Sends.enterRoom hs hhandler).delivers hlive.name
      · exact hraised uid _ hlive
  · next uid roomId turn hhandler =>
      have hlive : (s.handlers ws).Live uid := by rw [hhandler]; rfl
      obtain ⟨-, hin⟩ := (hs.name uid).announced ws roomId turn hhandler
      split at hresume
      · split at hresume <;> obtain rfl := Option.some.inj hresume
        · exact hraised uid _ hlive
        · next turn' hturn =>
            obtain ⟨-, hrest⟩ := (hs.turn ws roomId turn (by rw [hhandler]; rfl)).goOn hturn
            exact (Sends.announceLoop (hs.removable hlive) hrest hin).delivers hlive.name
      · obtain rfl := Option.some.inj hresume
        exact hraised uid _ hlive
  · next uid hhandler =>
      have hname : (s.handlers ws).name = some uid := by rw [hhandler]; rfl
      obtain rfl := Option.some.inj hresume
      rw [Server.removeEntry]
      split
      · exact .nothing s ws
      · next peer hpeer =>
          rw [(hs.name uid).closingPartner ws peer hhandler hpeer]
          dsimp only
          rw [if_neg (by simp), sent_dropEntry]
          exact .nothing s ws
  · next uid roomId own turn hhandler =>
      have hname : (s.handlers ws).name = some uid := by rw [hhandler]; rfl
      have huses : (s.handlers ws).Uses roomId := by rw [hhandler]; rfl
      obtain ⟨hremoving, hroom⟩ := hs.removing hname (by rw [hhandler]; exact id)
      split at hresume
      · split at hresume <;> obtain rfl := Option.some.inj hresume
        · exact .nothing s ws
        · next turn' hturn =>
            obtain ⟨-, hrest⟩ := (hs.turn ws roomId turn (by rw [hhandler]; rfl)).goOn hturn
            have hsends : s.Sends ws uid (s.leaveLoop ws uid roomId own turn').1.sent := by
              refine .leaveLoop own rfl fun pid hpid => ?_
              obtain ⟨-, -, wsp, hpeer, -⟩ := (hs.name pid).member roomId (hrest pid hpid)
              exact ⟨wsp, hpeer, .room pid roomId (.inr huses) hpeer (.inr (.inl rfl))⟩
            exact hsends.delivers hname
      · obtain rfl := Option.some.inj hresume
        exact .nothing s ws
  · obtain rfl := Option.some.inj hresume
    exact .nothing s ws
  all_goals exact absurd hresume (by simp)

/-- A step of a polite run sends at most one text, to whom it is for. -/
theorem Delivers.step (repr : String → String) (hs : s.Sound) {event : Event κ}
    {outcome : Outcome κ} (hstep : s.step repr event = some outcome) :
    s.Delivers event.ws outcome.1.sent := by
  cases event with
  | connect ws =>
      rw [Server.step] at hstep
      split at hstep
      · obtain rfl := Option.some.inj hstep
        exact .nothing s ws
      · exact absurd hstep (by simp)
  | receive ws msg =>
      rw [Server.step] at hstep
      split at hstep
      · obtain rfl := Option.some.inj hstep
        rw [Server.helloPeer]
        split
        · split
          · exact .nothing s ws
          · split
            · exact .nothing s ws
            · split
              · exact .nothing s ws
              · next s' hsend =>
                  obtain rfl := send_eq_some hsend
                  intro a
                  by_cases heq : a = ws
                  · exact .inr ⟨"HELLO", by rw [heq]; exact Function.update_self .., .inl heq⟩
                  · exact .inl (Function.update_of_ne heq _ _)
        · exact .nothing s ws
      · next uid roomId hhandler =>
          obtain rfl := Option.some.inj hstep
          have hname : (s.handlers ws).name = some uid := by rw [hhandler]; rfl
          exact (Sends.handle repr hs msg hhandler).delivers hname
      · exact absurd hstep (by simp)
  | receiveFails ws =>
      rw [Server.step] at hstep
      split at hstep
      · exact absurd hstep (by simp)
      · split at hstep
        · obtain rfl := Option.some.inj hstep
          exact .nothing s ws
        · next uid roomId hhandler =>
            obtain rfl := Option.some.inj hstep
            have hlive : (s.handlers ws).Live uid := by rw [hhandler]; rfl
            exact (Sends.removePeer (hs.removable hlive)).delivers hlive.name
        · exact absurd hstep (by simp)
  | resume ws ok next => exact Delivers.resume hs hstep
  | lost ws =>
      obtain rfl := Option.some.inj hstep
      exact .nothing s ws

/-- **Nobody hears what is not meant for it.**  After a polite run, what the coroutine of a
connection does next sends nothing to another connection, or one text: to the partner of the
session of its peer, or one of the messages of a room, in the name of its peer, to one whose room
the peer is in, enters or leaves. -/
theorem polite_run_delivers (repr : String → String) {events : List (Event κ)} {s : Server κ}
    {exceptions : List (List Raised)}
    (hpolite : Machine.Admits (Server.step repr) Polite init events)
    (hrun : Machine.run (Server.step repr) init events = some (s, exceptions))
    {event : Event κ} {outcome : Outcome κ} (hstep : s.step repr event = some outcome) (a : κ)
    (ha : a ≠ event.ws) : outcome.1.sent a = s.sent a ∨
      ∃ uid text, outcome.1.sent a = s.sent a ++ [text] ∧
        (s.handlers event.ws).name = some uid ∧ s.Reaches event.ws uid a text := by
  have hkeep : ∀ (s : Server κ) event r, s.Sound → s.Polite event →
      s.step repr event = some r → r.1.Sound :=
    fun s event r hs hevent hr => (hs.step repr hevent hr).1
  have hs : s.Sound := (hpolite.always (fun _ => id) hkeep sound_init).run hrun
  rcases Delivers.step repr hs hstep a with heq | ⟨text, heq, hown | ⟨uid, hname, hreach⟩⟩
  · exact .inl heq
  · exact absurd hown ha
  · exact .inr ⟨uid, text, heq, hname, hreach⟩

/-- The first of two peers that meet is told of the second. -/
theorem polite_run_delivers_meeting : ∃ s exceptions outcome uid text,
    Machine.run (Server.step id) init (meeting.take 9) = some (s, exceptions) ∧
      s.step id (.resume true true none) = some outcome ∧
      outcome.1.sent false = s.sent false ++ [text] ∧ (s.handlers true).name = some uid ∧
      s.Reaches true uid false text := by
  have hpolite : Machine.Admits (Server.step id) Polite init (meeting.take 9) := by
    decide +kernel
  have hend : (Machine.run (Server.step id) init (meeting.take 9)).bind (fun r =>
      (r.1.step id (.resume true true none)).map fun outcome =>
        decide (outcome.1.sent false = r.1.sent false)) = some false := by decide +kernel
  obtain ⟨⟨s, exceptions⟩, hrun, hnext⟩ := Option.bind_eq_some_iff.1 hend
  obtain ⟨outcome, hstep, hsent⟩ := Option.map_eq_some_iff.1 hnext
  rcases polite_run_delivers id hpolite hrun hstep false (by decide) with heq | ⟨uid, text, htext⟩
  · exact absurd heq (by simpa using hsent)
  · exact ⟨s, exceptions, outcome, uid, text, hrun, hstep, htext.1, htext.2.1, htext.2.2⟩

end Server

end Signaling
end LibSwitcher
