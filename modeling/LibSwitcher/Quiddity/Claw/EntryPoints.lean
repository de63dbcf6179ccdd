/-
# Functions of identifiers

Quiddities, followers and writers are known to users by identifiers, which may be those of
something that has been removed, or of nothing.  The functions that take them should say so, by an
invalid result, and leave the quiddities as they are.

Three of them do not.  `get_nickname` looks at the entry of the map without a test, and all that is
asked about another quiddity goes through it; `is_meta_follower` compares the entry of a follower
with the end of the map of the writers; and `sfid_can_do_shmtype` answers for the type `all` without
looking at the follower.  `Guarded` says when a call meets none of them, and decides whether it is
total (`total_iff`).
-/

import LibSwitcher.Quiddity.Claw.ClawCompleteness
import LibSwitcher.Quiddity.Container

namespace LibSwitcher
namespace Claw

variable {τ : Type} {x : Externals τ}

/-! ### The quiddities of a container -/

/-- The claws of the quiddities of a container. -/
def claws (s : Container (Claw τ)) : IdMap (Claw τ) :=
  Std.ExtTreeMap.ofList (s.quiddities.entries.map fun e => (e.1, e.2.body))

/-- A quiddity of a container and the other ones. -/
def peers (s : Container (Claw τ)) (qid : ℕ) : Option (Peers τ) :=
  (s.quiddities.lookup qid).map fun q => ⟨qid, q.body, claws s⟩

/-- The container after a call of a function of the claw of a quiddity. -/
def setClaw (qid : ℕ) (c : Claw τ) (s : Container (Claw τ)) : Container (Claw τ) :=
  match s.quiddities.lookup qid with
  | none => s
  | some q => { s with quiddities := s.quiddities.replace qid { q with body := c } }

theorem getElem?_claws (s : Container (Claw τ)) (id : ℕ) :
    (claws s)[id]? = (s.quiddities.lookup id).map Quiddity.body := by
  have hkeys : (s.quiddities.entries.map fun e => (e.1, e.2.body)).map Prod.fst =
      s.quiddities.keys := by
    rw [List.map_map]
    rfl
  cases hq : s.quiddities.lookup id with
  | none =>
      refine Std.ExtTreeMap.getElem?_ofList_of_contains_eq_false ?_
      rw [hkeys, List.contains_eq_mem, decide_eq_false_iff_not]
      exact AList.lookup_eq_none.1 hq
  | some q =>
      have hmem := AList.mem_lookup_iff.1 hq
      refine Std.ExtTreeMap.getElem?_ofList_of_mem (k := id) (IdMap.compare_eq_iff.2 rfl) ?_
        (List.mem_map.2 ⟨_, hmem, rfl⟩)
      exact List.pairwise_map.2 (s.quiddities.nodupKeys.pairwise_ne.imp fun hne heq =>
        hne (IdMap.compare_eq_iff.1 heq))

/-- A call that leaves the claw as it is leaves the container. -/
theorem setClaw_self {s : Container (Claw τ)} {qid : ℕ} {q : Quiddity (Claw τ)}
    (hq : s.quiddities.lookup qid = some q) : setClaw qid q.body s = s := by
  rw [setClaw, hq]
  have hself : s.quiddities.replace qid q = s.quiddities :=
    AList.ext (List.kreplace_self s.quiddities.nodupKeys (AList.mem_lookup_iff.1 hq))
  exact congrArg (fun quiddities => ({ s with quiddities := quiddities } : Container (Claw τ))) hself

/-! ### The functions -/

/-- A call of a function that takes identifiers: of the container, or of the claw of a quiddity.
Those that connect come with what the callback of the quiddity returns. -/
inductive EntryPoint
  | getQrox (id : ℕ)
  | getNickname (id : ℕ)
  | connect (sfid quid swid : ℕ) (cb : Bool)
  | connectRaw (sfid : ℕ) (shmpath : String) (cb : Bool)
  | disconnect (sfid : ℕ) (cb : Bool)
  | canDoSwid (sfid quid swid : ℕ)
  | connectQuid (sfid quid : ℕ) (cb : Bool)
  | tryConnect (quid : ℕ) (cb : ℕ → Bool)

/-- What such a function returns. -/
inductive EntryResult
  | qrox (r : Qrox)
  | nickname (nick : String)
  | id (n : ℕ)
  | bool (b : Bool)

/-- The result that says that nothing was found. -/
def EntryResult.IsInvalid : EntryResult → Prop
  | .qrox r => r.isValid = false
  | .nickname nick => nick = ""
  | .id n => n = Ids.kInvalid
  | .bool b => b = false

variable (caps : Caps x) (path : ℕ → ℕ → String)

/-- A call, on the quiddity `qid` for the functions of claws. -/
def call (qid : ℕ) (s : Container (Claw τ)) :
    EntryPoint → Option (Container (Claw τ) × EntryResult)
  | .getQrox id => (s.getQrox id).map fun r => (s, .qrox r)
  | .getNickname id => (s.getNickname id).map fun r => (s, .nickname r)
  | .connect sfid quid swid cb => (peers s qid).bind fun q =>
      (q.connect path cb sfid quid swid).map fun r => (setClaw qid r.1.claw s, .id r.2)
  | .connectRaw sfid shmpath cb => (peers s qid).bind fun q =>
      (q.claw.connectRaw sfid shmpath cb).map fun r => (setClaw qid r.1 s, .id r.2)
  | .disconnect sfid cb => (peers s qid).map fun q =>
      (setClaw qid (q.claw.disconnect sfid cb).1 s, .bool (q.claw.disconnect sfid cb).2)
  | .canDoSwid sfid quid swid => (peers s qid).bind fun q =>
      (q.canDoSwid caps sfid quid swid).map fun b => (s, .bool b)
  | .connectQuid sfid quid cb => (peers s qid).bind fun q =>
      (q.connectQuid caps path cb sfid quid).map fun o => (setClaw qid o.peers.claw s, .id o.id)
  | .tryConnect quid cb => (peers s qid).bind fun q =>
      (q.tryConnect caps path cb quid).map fun o => (setClaw qid o.peers.claw s, .id o.id)

/-! ### Totality -/

/-- The followers of a quiddity. -/
def followerIds (s : Container (Claw τ)) (qid : ℕ) : List ℕ :=
  ((s.quiddities.lookup qid).map fun q => q.body.getSfids).getD []

/-- The writers of a quiddity. -/
def writers (s : Container (Claw τ)) (quid : ℕ) : Points τ :=
  ((s.quiddities.lookup quid).map fun q => q.body.connectionSpec.writer).getD Points.empty

/-- All the identifiers of a call are known. -/
def Known (qid : ℕ) (s : Container (Claw τ)) : EntryPoint → Prop
  | .getQrox id | .getNickname id | .tryConnect id _ => id ∈ s.quiddities
  | .connect sfid quid swid _ | .canDoSwid sfid quid swid =>
      sfid ∈ followerIds s qid ∧ quid ∈ s.quiddities ∧ swid ∈ (writers s quid).ids
  | .connectRaw sfid _ _ | .disconnect sfid _ => sfid ∈ followerIds s qid
  | .connectQuid sfid quid _ => sfid ∈ followerIds s qid ∧ quid ∈ s.quiddities

/-- A call is defined, and with an unknown identifier it returns an invalid result and leaves the
quiddities as they are. -/
def Total (qid : ℕ) (s : Container (Claw τ)) (e : EntryPoint) : Prop :=
  ∃ r, call caps path qid s e = some r ∧ (¬Known qid s e → r.1 = s ∧ r.2.IsInvalid)

/-- A call does not meet a function that does not test its identifier. -/
def Guarded (qid : ℕ) (s : Container (Claw τ)) : EntryPoint → Prop
  | .getQrox id | .getNickname id => id ∈ s.quiddities
  | .connect sfid quid swid _ => quid ∈ s.quiddities ∧ (sfid ∈ followerIds s qid ∨
      swid ∉ (writers s quid).ids ∨ (writers s quid).IsMeta swid ∨ path quid swid = "")
  | .connectRaw sfid _ _ => sfid ∈ followerIds s qid
  | .disconnect _ _ => True
  | .canDoSwid sfid quid swid => quid ∈ s.quiddities ∧ (sfid ∈ followerIds s qid ∨
      ∀ type ∈ (writers s quid).typesOf swid, caps.name type ≠ "all")
  | .connectQuid _ quid _ => quid ∈ s.quiddities
  | .tryConnect quid _ => quid ∈ s.quiddities ∨ followerIds s qid = []

section

variable {caps path} {s : Container (Claw τ)} {qid sfid quid swid : ℕ} {q w : Quiddity (Claw τ)}

theorem peers_eq (hq : s.quiddities.lookup qid = some q) :
    peers s qid = some ⟨qid, q.body, claws s⟩ := by
  rw [peers, hq, Option.map_some]

/-- A quiddity is found by its identifier, the one that asks included. -/
theorem getQrox_peers (hq : s.quiddities.lookup qid = some q) (quid : ℕ) :
    (⟨qid, q.body, claws s⟩ : Peers τ).getQrox quid =
      (s.quiddities.lookup quid).map Quiddity.body := by
  rw [Peers.getQrox]
  split_ifs with heq
  · rw [show quid = qid from heq, hq, Option.map_some]
  · exact getElem?_claws s quid

theorem mem_followerIds (hq : s.quiddities.lookup qid = some q) :
    sfid ∈ followerIds s qid ↔ sfid ∈ q.body.connectionSpec.follower.ids := by
  rw [followerIds, hq]
  exact IdMap.mem_map_fst_toList

theorem writers_eq (hw : s.quiddities.lookup quid = some w) :
    writers s quid = w.body.connectionSpec.writer := by
  rw [writers, hw, Option.map_some, Option.getD_some]

theorem mem_of_lookup (hw : s.quiddities.lookup quid = some w) : quid ∈ s.quiddities :=
  AList.lookup_isSome.1 (by rw [hw]; rfl)

theorem not_mem_of_lookup (hw : s.quiddities.lookup quid = none) : quid ∉ s.quiddities :=
  AList.lookup_eq_none.1 hw

/-- A call that is not defined is not total. -/
theorem not_total_of_none {e : EntryPoint} (h : call caps path qid s e = none) :
    ¬Total caps path qid s e := by
  rintro ⟨r, hr, -⟩
  rw [h] at hr
  cases hr

/-- A call that returns an invalid result and leaves the container as it is. -/
theorem total_of_unchanged {e : EntryPoint} {r : EntryResult}
    (h : call caps path qid s e = some (s, r)) (hr : r.IsInvalid) : Total caps path qid s e :=
  ⟨_, h, fun _ => ⟨rfl, hr⟩⟩

/-- A call that returns an invalid result and leaves the claw as it is. -/
theorem total_of_setClaw {e : EntryPoint} {r : EntryResult}
    (hq : s.quiddities.lookup qid = some q)
    (h : call caps path qid s e = some (setClaw qid q.body s, r)) (hr : r.IsInvalid) :
    Total caps path qid s e := by
  rw [setClaw_self hq] at h
  exact total_of_unchanged h hr

/-- A call whose identifiers are known has to be defined. -/
theorem total_of_known {e : EntryPoint} {r : Container (Claw τ) × EntryResult}
    (hknown : Known qid s e) (h : call caps path qid s e = some r) : Total caps path qid s e :=
  ⟨r, h, fun hnot => absurd hknown hnot⟩

theorem getWriterShmpath_eq_empty_iff {shmpath : String} {c : Claw τ} :
    getWriterShmpath shmpath c swid = "" ↔ swid ∉ c.connectionSpec.writer.ids ∨
      c.connectionSpec.writer.IsMeta swid ∨ shmpath = "" := by
  rw [getWriterShmpath]
  by_cases hswid : swid ∉ c.connectionSpec.writer.ids
  · rw [if_pos hswid]
    exact iff_of_true rfl (Or.inl hswid)
  · rw [if_neg hswid]
    by_cases hmeta : c.connectionSpec.writer.IsMeta swid
    · rw [if_pos hmeta]
      exact iff_of_true rfl (Or.inr (Or.inl hmeta))
    · rw [if_neg hmeta]
      exact ⟨fun h => Or.inr (Or.inr h), fun h => (h.resolve_left hswid).resolve_left hmeta⟩

/-- The functions of the container. -/
theorem total_lookup_iff {e : EntryPoint} {id : ℕ} {f : String → EntryResult}
    (hknown : Known qid s e ↔ id ∈ s.quiddities)
    (h : call caps path qid s e = (s.getNickname id).map fun nick => (s, f nick)) :
    Total caps path qid s e ↔ id ∈ s.quiddities := by
  rw [Container.getNickname] at h
  cases hw : s.quiddities.lookup id with
  | none =>
      rw [hw] at h
      exact iff_of_false (not_total_of_none h) (not_mem_of_lookup hw)
  | some w =>
      rw [hw] at h
      exact iff_of_true (total_of_known (hknown.2 (mem_of_lookup hw)) h) (mem_of_lookup hw)

theorem total_connectRaw_iff (hq : s.quiddities.lookup qid = some q) (shmpath : String) (cb : Bool) :
    Total caps path qid s (.connectRaw sfid shmpath cb) ↔ sfid ∈ followerIds s qid := by
  have hcall : call caps path qid s (.connectRaw sfid shmpath cb) =
      (q.body.connectRaw sfid shmpath cb).map fun r => (setClaw qid r.1 s, .id r.2) := by
    rw [call, peers_eq hq, Option.bind_some]
  by_cases hid : sfid ∈ followerIds s qid
  · obtain ⟨r, hr, -⟩ := connectRaw_of_mem q.body ((mem_followerIds hq).1 hid) shmpath cb
    rw [hr] at hcall
    exact iff_of_true (total_of_known hid hcall) hid
  · rw [connectRaw_of_not_mem fun hmem => hid ((mem_followerIds hq).2 hmem)] at hcall
    exact iff_of_false (not_total_of_none hcall) hid

theorem total_disconnect (hq : s.quiddities.lookup qid = some q) (sfid : ℕ) (cb : Bool) :
    Total caps path qid s (.disconnect sfid cb) := by
  have hcall : call caps path qid s (.disconnect sfid cb) =
      some (setClaw qid (q.body.disconnect sfid cb).1 s, .bool (q.body.disconnect sfid cb).2) := by
    rw [call, peers_eq hq, Option.map_some]
  by_cases hid : sfid ∈ followerIds s qid
  · exact total_of_known hid hcall
  · rw [disconnect, if_pos fun hmem => hid ((mem_followerIds hq).2 hmem)] at hcall
    exact total_of_setClaw hq hcall rfl

theorem total_connect_iff (hq : s.quiddities.lookup qid = some q) (cb : Bool) :
    Total caps path qid s (.connect sfid quid swid cb) ↔
      Guarded caps path qid s (.connect sfid quid swid cb) := by
  have hcall : call caps path qid s (.connect sfid quid swid cb) =
      ((⟨qid, q.body, claws s⟩ : Peers τ).connect path cb sfid quid swid).map
        fun r => (setClaw qid r.1.claw s, .id r.2) := by
    rw [call, peers_eq hq, Option.bind_some]
  rw [Peers.connect, getQrox_peers hq] at hcall
  cases hw : s.quiddities.lookup quid with
  | none =>
      rw [hw] at hcall
      exact iff_of_false (not_total_of_none hcall) fun h => not_mem_of_lookup hw h.1
  | some w =>
      rw [hw, Option.map_some, Option.bind_some] at hcall
      dsimp only at hcall
      have hquid := mem_of_lookup hw
      have hempty : getWriterShmpath (path quid swid) w.body swid = "" ↔ _ :=
        getWriterShmpath_eq_empty_iff
      rw [← writers_eq hw] at hempty
      by_cases hshm : getWriterShmpath (path quid swid) w.body swid = ""
      · rw [if_pos hshm] at hcall
        exact iff_of_true (total_of_setClaw hq hcall rfl) ⟨hquid, Or.inr (hempty.1 hshm)⟩
      · rw [if_neg hshm] at hcall
        obtain ⟨hswid, -⟩ := not_or.1 (hempty.not.1 hshm)
        by_cases hid : sfid ∈ followerIds s qid
        · obtain ⟨r, hr, -⟩ := connectRaw_of_mem q.body ((mem_followerIds hq).1 hid)
            (getWriterShmpath (path quid swid) w.body swid) cb
          rw [hr] at hcall
          exact iff_of_true (total_of_known ⟨hid, hquid, not_not.1 hswid⟩ hcall)
            ⟨hquid, Or.inl hid⟩
        · rw [connectRaw_of_not_mem fun hmem => hid ((mem_followerIds hq).2 hmem)] at hcall
          refine iff_of_false (not_total_of_none hcall) fun h => ?_
          exact hshm (hempty.2 (h.2.resolve_left hid))

/-- Without the follower there are no types to look at. -/
theorem typesOf_of_not_mem {p : Points τ} {id : ℕ} (hid : id ∉ p.ids) : p.typesOf id = [] := by
  rw [Points.typesOf, Std.ExtTreeMap.getElem?_eq_none (mt (p.mem_canDo id).1 hid), Option.getD_none]

theorem total_canDoSwid_iff (hq : s.quiddities.lookup qid = some q) :
    Total caps path qid s (.canDoSwid sfid quid swid) ↔
      Guarded caps path qid s (.canDoSwid sfid quid swid) := by
  have hcall : call caps path qid s (.canDoSwid sfid quid swid) =
      ((⟨qid, q.body, claws s⟩ : Peers τ).canDoSwid caps sfid quid swid).map
        fun b => (s, .bool b) := by
    rw [call, peers_eq hq, Option.bind_some]
  rw [Peers.canDoSwid, getQrox_peers hq] at hcall
  cases hw : s.quiddities.lookup quid with
  | none =>
      rw [hw] at hcall
      exact iff_of_false (not_total_of_none hcall) fun h => not_mem_of_lookup hw h.1
  | some w =>
      rw [hw, Option.map_some, Option.map_some, Option.map_some, ← writers_eq hw] at hcall
      have hquid := mem_of_lookup hw
      by_cases hid : sfid ∈ followerIds s qid
      · refine iff_of_true ?_ ⟨hquid, Or.inl hid⟩
        by_cases hswid : swid ∈ (writers s quid).ids
        · exact total_of_known ⟨hid, hquid, hswid⟩ hcall
        · rw [typesOf_of_not_mem hswid] at hcall
          exact total_of_unchanged hcall rfl
      · -- a follower without types can do what is named `all`
        have htypes : sfidCanDoShmtype caps q.body sfid = fun type => caps.name type = "all" := by
          funext type
          rw [sfidCanDoShmtype, canDoShmtype,
            typesOf_of_not_mem fun hmem => hid ((mem_followerIds hq).2 hmem), List.any_nil]
          split_ifs with hname <;> simp [hname]
        rw [htypes] at hcall
        constructor
        · rintro ⟨r, hr, hsame⟩
          obtain rfl := Option.some.inj (hr.symm.trans hcall)
          obtain ⟨-, hfalse⟩ := hsame fun hknown => hid hknown.1
          refine ⟨hquid, Or.inr fun type htype hname => ?_⟩
          exact List.any_eq_false.1 hfalse type htype (decide_eq_true hname)
        · rintro ⟨-, hall⟩
          refine total_of_unchanged hcall (List.any_eq_false.2 fun type htype hname => ?_)
          exact hall.resolve_left hid type htype (of_decide_eq_true hname)

theorem total_connectQuid_iff (hq : s.quiddities.lookup qid = some q) (cb : Bool) :
    Total caps path qid s (.connectQuid sfid quid cb) ↔ quid ∈ s.quiddities := by
  have hcall : call caps path qid s (.connectQuid sfid quid cb) =
      ((⟨qid, q.body, claws s⟩ : Peers τ).connectQuid caps path cb sfid quid).map
        fun o => (setClaw qid o.peers.claw s, .id o.id) := by
    rw [call, peers_eq hq, Option.bind_some]
  cases hw : s.quiddities.lookup quid with
  | none =>
      rw [Peers.connectQuid, getQrox_peers hq, hw] at hcall
      exact iff_of_false (not_total_of_none hcall) (not_mem_of_lookup hw)
  | some w =>
      have hquid := mem_of_lookup hw
      have hqrox := (getQrox_peers hq quid).trans (congrArg (Option.map Quiddity.body) hw)
      refine iff_of_true ?_ hquid
      by_cases hid : sfid ∈ followerIds s qid
      · obtain ⟨o, ho, -⟩ := connectQuid_of_mem caps path hqrox ((mem_followerIds hq).1 hid) cb
        rw [ho] at hcall
        exact total_of_known ⟨hid, hquid⟩ hcall
      · have htypes : q.body.connectionSpec.follower.typesOf sfid = [] :=
          typesOf_of_not_mem fun hmem => hid ((mem_followerIds hq).2 hmem)
        rw [Peers.connectQuid, hqrox, Option.map_some, Option.bind_some, htypes] at hcall
        exact total_of_setClaw hq hcall rfl

/-- The loop of `try_connect` over followers of the quiddity. -/
theorem exists_tryConnectLoop {p : Peers τ} {c : Claw τ} (hw : p.getQrox quid = some c)
    (cb : ℕ → Bool) {sfids : List ℕ}
    (hids : ∀ sfid ∈ sfids, sfid ∈ p.claw.connectionSpec.follower.ids) :
    ∃ o, p.tryConnectLoop caps path cb quid sfids = some o := by
  induction sfids generalizing p c with
  | nil => exact ⟨_, rfl⟩
  | cons sfid rest ih =>
      obtain ⟨o, ho, -, halike, -⟩ := connectQuid_of_mem caps path hw
        (hids sfid List.mem_cons_self) (cb sfid)
      rw [Peers.tryConnectLoop, ho, Option.bind_some]
      by_cases hid : o.id = Ids.kInvalid
      · have hp := halike hid
        obtain ⟨c', hc', -⟩ := hp.getQrox hw
        obtain ⟨o', ho'⟩ := ih hc' fun sfid' hmem =>
          hp.follower.ids ▸ hids sfid' (List.mem_cons_of_mem _ hmem)
        rw [if_neg (not_not.2 hid), ho']
        exact ⟨_, rfl⟩
      · rw [if_pos hid]
        exact ⟨o, rfl⟩

theorem total_tryConnect_iff (hq : s.quiddities.lookup qid = some q) (cb : ℕ → Bool) :
    Total caps path qid s (.tryConnect quid cb) ↔
      Guarded caps path qid s (.tryConnect quid cb) := by
  have hcall : call caps path qid s (.tryConnect quid cb) =
      ((⟨qid, q.body, claws s⟩ : Peers τ).tryConnectLoop caps path cb quid (followerIds s qid)).map
        fun o => (setClaw qid o.peers.claw s, .id o.id) := by
    rw [call, peers_eq hq, Option.bind_some, followerIds, hq]
    rfl
  cases hw : s.quiddities.lookup quid with
  | none =>
      have hquid := not_mem_of_lookup hw
      cases hids : followerIds s qid with
      | nil =>
          rw [hids] at hcall
          exact iff_of_true (total_of_setClaw hq hcall rfl) (Or.inr hids)
      | cons sfid rest =>
          rw [hids, Peers.tryConnectLoop, Peers.connectQuid, getQrox_peers hq, hw] at hcall
          refine iff_of_false (not_total_of_none hcall) fun h => ?_
          exact h.elim hquid fun hnil => List.cons_ne_nil _ _ (hids.symm.trans hnil)
  | some w =>
      have hquid := mem_of_lookup hw
      have hqrox := (getQrox_peers hq quid).trans (congrArg (Option.map Quiddity.body) hw)
      obtain ⟨o, ho⟩ : ∃ o, Peers.tryConnectLoop caps path cb quid (followerIds s qid) _ = some o :=
        exists_tryConnectLoop hqrox cb fun sfid hmem => (mem_followerIds hq).1 hmem
      rw [ho] at hcall
      exact iff_of_true (total_of_known hquid hcall) (Or.inl hquid)

/-- **Which calls are total**, whatever the identifiers are. -/
theorem total_iff (hq : s.quiddities.lookup qid = some q) (e : EntryPoint) :
    Total caps path qid s e ↔ Guarded caps path qid s e := by
  cases e with
  | getQrox id =>
      refine total_lookup_iff (f := fun nick => .qrox ⟨true, nick, id⟩) Iff.rfl ?_
      rw [call, Container.getQrox, Option.map_map]
      rfl
  | getNickname id => exact total_lookup_iff (f := .nickname) Iff.rfl rfl
  | connect sfid quid swid cb => exact total_connect_iff hq cb
  | connectRaw sfid shmpath cb => exact total_connectRaw_iff hq shmpath cb
  | disconnect sfid cb => exact iff_of_true (total_disconnect hq sfid cb) trivial
  | canDoSwid sfid quid swid => exact total_canDoSwid_iff hq
  | connectQuid sfid quid cb => exact total_connectQuid_iff hq cb
  | tryConnect quid cb => exact total_tryConnect_iff hq cb

end

/-- A container with a quiddity that has a follower, and one with a writer for all types. -/
def viewerAndSource : Container (Claw String) :=
  { (Container.empty (β := Claw String)).allocated.allocated with
    quiddities := ((∅ : AList fun _ : ℕ => Quiddity (Claw String)).insert 1
      ⟨"viewer", "glfw", make (typesSpec followerRole ["video/x-raw"])⟩).insert 2
        ⟨"source", "shmsrc", make (typesSpec writerRole ["all"])⟩ }

theorem lookup_viewer : viewerAndSource.quiddities.lookup 1 =
    some ⟨"viewer", "glfw", make (typesSpec followerRole ["video/x-raw"])⟩ := rfl

theorem total_connect_viewer :
    Total plainCaps (fun _ _ => "/tmp/video") 1 viewerAndSource (.connect 1 2 1 true) :=
  (total_iff lookup_viewer _).2 ⟨by decide +kernel, Or.inl (by decide +kernel)⟩

/-- The nickname of a quiddity that does not exist, the connection of a follower that does not
exist, and what such a follower can do. -/
theorem not_total_unknown :
    ¬Total plainCaps (fun _ _ => "/tmp/video") 1 viewerAndSource (.getQrox 3) ∧
      ¬Total plainCaps (fun _ _ => "/tmp/video") 1 viewerAndSource
        (.connectRaw 7 "/tmp/video" true) ∧
      ¬Total plainCaps (fun _ _ => "/tmp/video") 1 viewerAndSource (.canDoSwid 7 2 1) := by
  refine ⟨not_total_of_none rfl, ?_, ?_⟩
  · rw [total_connectRaw_iff lookup_viewer]
    decide +kernel
  · rw [total_canDoSwid_iff lookup_viewer]
    rintro ⟨-, hid | hall⟩
    · exact absurd hid (by decide +kernel)
    · exact hall "all" (by decide +kernel) (by decide +kernel)

end Claw
end LibSwitcher
