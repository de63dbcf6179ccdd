/-
# Which connections are found

`connect_quid` should attempt a connection exactly when `can_do_swid` holds of some
writer of the other quiddity that is not meta, and to such a writer.

The two tests agree on types that have no properties (`canDo_of_accepts`).  Where a
type is named `all` and has properties they do not: a follower with such a type is
connected to the first writer whatever its types are, and a writer with such a type is
not found for a follower that it is compatible with.  `ChoiceAgrees` says when neither
happens, and decides whether all the connections of a quiddity to another one are
found and correct (`connectsCorrectly_iff`).  The other one is a quiddity of the container: `get_qrox`
is undefined for an identifier of none.
-/

import LibSwitcher.Quiddity.Claw.ClawCompatibility

namespace LibSwitcher
namespace Claw

variable {τ : Type} {x : Externals τ}

/-! ### Points have types -/

/-- Every point has a type. -/
def Typed (p : Points τ) : Prop := ∀ id ∈ p.ids, p.typesOf id ≠ []

theorem typed_empty : Typed (Points.empty : Points τ) := fun id hid => by
  simp [Points.empty] at hid

section

variable {p : Points τ} {label : String} {types : List τ}

theorem Typed.add (h : Typed p) (hleft : p.Left) (hne : types ≠ []) :
    Typed (p.add hleft label types) := by
  intro id hid
  have hid : id ∈ (p.addDynamic hleft label types).ids := hid
  change (p.addDynamic hleft label types).typesOf id ≠ []
  rcases Points.mem_ids_addDynamic.1 hid with rfl | hid
  · rwa [Points.typesOf_addDynamic_nextId]
  · rw [Points.typesOf_addDynamic hid]
    exact h id hid

theorem Typed.remove (h : Typed p) (id : ℕ) : Typed (p.remove id) := by
  intro id' hid'
  obtain ⟨hne, hmem⟩ := Points.mem_ids_remove.1 hid'
  rw [Points.typesOf_remove hne]
  exact h id' hmem

theorem Typed.setTypes (h : Typed p) {id : ℕ} (hid : id ∈ p.ids) (hne : types ≠ []) :
    Typed (p.setTypes id hid types) := by
  intro id' hid'
  rcases eq_or_ne id' id with rfl | hid''
  · rwa [Points.typesOf_setTypes_self]
  · rw [Points.typesOf_setTypes_ne hid hid'']
    exact h id' hid'

end

open InfoTree ConnectionSpec

/-- Both sides of a specification have types. -/
structure SpecTyped (s : ConnectionSpec τ) : Prop where
  follower : Typed s.follower
  writer : Typed s.writer

/-- What the constructor registers has types, even where it stops at an error. -/
theorem specTyped_ofTree (tree : InfoTree) : SpecTyped (ofTree x tree) := by
  obtain ⟨hfollower, hwriter⟩ := ofTree_points (x := x) typed_empty
    (fun _ hleft _ _ hne hp => hp.add hleft hne) tree
  exact ⟨hfollower, hwriter⟩

/-- Every call keeps the types. -/
theorem SpecTyped.call {s : ConnectionSpec τ} (h : SpecTyped s) (op : SpecOp τ) :
    SpecTyped (s.call x op).1 := by
  cases op with
  | allocateSfidFromMeta sfid =>
      rw [ConnectionSpec.call, ConnectionSpec.allocateSfidFromMeta]
      split_ifs with hmeta
      · exact ⟨h.follower.add hmeta.2 (h.follower sfid hmeta.1.1), h.writer⟩
      · exact h
  | deallocateSfidFromMeta sfid =>
      rw [ConnectionSpec.call, ConnectionSpec.deallocateSfidFromMeta]
      split_ifs
      · exact ⟨h.follower.remove sfid, h.writer⟩
      · exact h
  | allocateSwidFromMeta swid spec =>
      rw [ConnectionSpec.call, ConnectionSpec.allocateSwidFromMeta]
      by_cases hmeta : s.writer.IsMeta swid ∧ s.writer.Left
      · rw [dif_pos hmeta]
        exact ⟨h.follower, h.writer.add hmeta.2 (h.writer swid hmeta.1.1)⟩
      · rw [dif_neg hmeta]
        exact h
  | deallocateSwidFromMeta swid =>
      rw [ConnectionSpec.call, ConnectionSpec.deallocateSwidFromMeta]
      split_ifs
      · exact ⟨h.follower, h.writer.remove swid⟩
      · exact h
  | replaceFollowerCanDo sfid types =>
      rw [ConnectionSpec.call, ConnectionSpec.replaceFollowerCanDo]
      split_ifs with htypes
      · exact ⟨h.follower.setTypes htypes.2 htypes.1, h.writer⟩
      · exact h
  | replaceWriterCanDo swid types =>
      rw [ConnectionSpec.call, ConnectionSpec.replaceWriterCanDo]
      split_ifs with htypes
      · exact ⟨h.follower, h.writer.setTypes htypes.2 htypes.1⟩
      · exact h

/-- A specification that the constructor makes, valid or not, after any calls. -/
def Reached (x : Externals τ) (s : ConnectionSpec τ) : Prop :=
  ∃ tree ops results, Machine.run (ConnectionSpec.step x) (ofTree x tree) ops = some (s, results)

theorem Reached.specTyped {s : ConnectionSpec τ} (h : Reached x s) : SpecTyped s := by
  obtain ⟨tree, ops, results, hrun⟩ := h
  exact Machine.run_invariant (fun _ op _ h hr => Option.some.inj hr ▸ h.call op)
    (specTyped_ofTree tree) hrun

/-! ### The choice of a writer -/

variable (caps : Caps x)

/-- The writers that are not meta. -/
def connectableSwids (w : Claw τ) : List ℕ :=
  w.getSwids.filter fun swid => !decide (w.connectionSpec.writer.IsMeta swid)

/-- The two tests do not disagree about the types of a follower and the writers of a
claw.  Of the types of the follower, take the first that a writer accepts.  If there is
none, no writer may have a type named `all`.  If that type is named `all` and has
properties, the first writer must have a type that the follower can do. -/
def ChoiceAgrees (followerTypes : List τ) (w : Claw τ) : Prop :=
  match followerTypes.find? fun type => getCompatibleSwids caps w type ≠ [] with
  | none => ∀ swid ∈ connectableSwids w, ∀ type ∈ w.connectionSpec.writer.typesOf swid,
      caps.name type ≠ "all"
  | some type => caps.name type = "all" → x.str type ≠ "all" →
      ∀ swid ∈ (connectableSwids w).head?,
        (w.connectionSpec.writer.typesOf swid).any (canDoShmtype caps followerTypes) = true

instance decidableChoiceAgrees (followerTypes : List τ) (w : Claw τ) :
    Decidable (ChoiceAgrees caps followerTypes w) := by
  unfold ChoiceAgrees
  cases followerTypes.find? fun type => getCompatibleSwids caps w type ≠ [] <;> infer_instance

variable {caps} {w : Claw τ} {types : List τ} {type shmtype : τ} {swid : ℕ}

theorem canDoShmtype_iff : canDoShmtype caps types shmtype = true ↔ caps.name shmtype = "all" ∨
    ∃ canDo ∈ types, x.str canDo = "all" ∨
      caps.canIntersect (x.str canDo) (x.str shmtype) = true := by
  rw [canDoShmtype]
  by_cases hname : caps.name shmtype = "all"
  · simp [hname]
  · simp [hname]

theorem mem_getCompatibleSwids_iff : swid ∈ getCompatibleSwids caps w type ↔
    swid ∈ connectableSwids w ∧ swidCanDoShmtype caps w swid type = true := by
  rw [getCompatibleSwids, connectableSwids, List.mem_filter, List.mem_filter, Bool.and_eq_true,
    and_assoc, and_comm (b := _ = true)]

/-- A type named `all` is accepted by all writers. -/
theorem getCompatibleSwids_of_name (h : caps.name type = "all") :
    getCompatibleSwids caps w type = connectableSwids w := by
  refine List.filter_congr fun swid _ => ?_
  rw [swidCanDoShmtype, canDoShmtype, if_pos h, Bool.true_and]

/-- What the loop finds: the first writer that accepts the first type that a writer
accepts. -/
theorem chooseSwid_eq (w : Claw τ) (types : List τ) : Peers.chooseSwid caps w types =
    match types.find? fun type => getCompatibleSwids caps w type ≠ [] with
    | none => Ids.kInvalid
    | some type => (getCompatibleSwids caps w type).headD Ids.kInvalid := by
  induction types with
  | nil => rfl
  | cons type rest ih =>
      rw [Peers.chooseSwid, List.find?_cons]
      cases hcompat : getCompatibleSwids caps w type with
      | nil => simpa using ih
      | cons swid swids => simp [hcompat]

/-- A writer that accepts a type of the follower by its caps, or by the text `all`, has
a type that the follower can do. -/
theorem canDo_of_accepts (hmem : type ∈ types) (hname : caps.name type ≠ "all")
    (h : swidCanDoShmtype caps w swid type = true) :
    (w.connectionSpec.writer.typesOf swid).any (canDoShmtype caps types) = true := by
  obtain hall | ⟨canDo, hcanDo, hstr | hcaps⟩ := canDoShmtype_iff.1 h
  · exact absurd hall hname
  · exact List.any_eq_true.2 ⟨canDo, hcanDo, canDoShmtype_iff.2 (Or.inl (caps.name_eq _ hstr))⟩
  · rw [caps.canIntersect_comm] at hcaps
    exact List.any_eq_true.2 ⟨canDo, hcanDo, canDoShmtype_iff.2 (Or.inr ⟨type, hmem, Or.inr hcaps⟩)⟩

/-- A writer with a type that the follower can do accepts a type of the follower, unless
the type is named `all`. -/
theorem accepts_of_canDo (hmem : shmtype ∈ w.connectionSpec.writer.typesOf swid)
    (hname : caps.name shmtype ≠ "all") (h : canDoShmtype caps types shmtype = true) :
    ∃ type ∈ types, swidCanDoShmtype caps w swid type = true := by
  obtain hall | ⟨type, htype, hstr | hcaps⟩ := canDoShmtype_iff.1 h
  · exact absurd hall hname
  · exact ⟨type, htype, canDoShmtype_iff.2 (Or.inl (caps.name_eq _ hstr))⟩
  · rw [caps.canIntersect_comm] at hcaps
    exact ⟨type, htype, canDoShmtype_iff.2 (Or.inr ⟨shmtype, hmem, Or.inr hcaps⟩)⟩

/-- The writer that is chosen, if there is one, has a type that the follower can do, and
there is one if a writer has. -/
def ChoiceCorrect (caps : Caps x) (types : List τ) (w : Claw τ) : Prop :=
  (Peers.chooseSwid caps w types = Ids.kInvalid → ∀ swid ∈ connectableSwids w,
      (w.connectionSpec.writer.typesOf swid).any (canDoShmtype caps types) = false) ∧
    (Peers.chooseSwid caps w types ≠ Ids.kInvalid →
      (w.connectionSpec.writer.typesOf (Peers.chooseSwid caps w types)).any
        (canDoShmtype caps types) = true)

theorem mem_connectableSwids_iff : swid ∈ connectableSwids w ↔
    swid ∈ w.connectionSpec.writer.ids ∧ ¬w.connectionSpec.writer.IsMeta swid := by
  rw [connectableSwids, getSwids, List.mem_filter, IdMap.mem_map_fst_toList]
  simp

/-- What is chosen is a writer that is not meta. -/
theorem chooseSwid_mem (h : Peers.chooseSwid caps w types ≠ Ids.kInvalid) :
    Peers.chooseSwid caps w types ∈ connectableSwids w := by
  rw [chooseSwid_eq] at h ⊢
  cases hfind : types.find? fun type => getCompatibleSwids caps w type ≠ [] with
  | none =>
      rw [hfind] at h
      exact absurd rfl h
  | some type =>
      have hne : getCompatibleSwids caps w type ≠ [] := by simpa using List.find?_some hfind
      obtain ⟨swid, swids, hcompat⟩ := List.exists_cons_of_ne_nil hne
      change (getCompatibleSwids caps w type).headD Ids.kInvalid ∈ connectableSwids w
      rw [hcompat]
      exact (mem_getCompatibleSwids_iff.1 (hcompat ▸ List.mem_cons_self)).1

/-- The choice is correct exactly when the tests do not disagree. -/
theorem choiceCorrect_iff (hw : Typed w.connectionSpec.writer) (types : List τ) :
    ChoiceCorrect caps types w ↔ ChoiceAgrees caps types w := by
  rw [ChoiceCorrect, ChoiceAgrees, chooseSwid_eq]
  cases hfind : types.find? fun type => getCompatibleSwids caps w type ≠ [] with
  | none =>
      have hnone : ∀ type ∈ types, getCompatibleSwids caps w type = [] := fun type htype => by
        simpa using List.find?_eq_none.1 hfind type htype
      constructor
      · rintro ⟨hall, -⟩ swid hswid type htype hname
        refine List.any_eq_false.1 (hall rfl swid hswid) type htype ?_
        exact canDoShmtype_iff.2 (Or.inl hname)
      · intro hnames
        refine ⟨fun _ swid hswid => ?_, fun hne => absurd rfl hne⟩
        rw [List.any_eq_false]
        intro shmtype hmem hcanDo
        have hname := hnames swid hswid shmtype hmem
        obtain ⟨type, htype, haccepts⟩ := accepts_of_canDo hmem hname hcanDo
        have hcompat := mem_getCompatibleSwids_iff.2 ⟨hswid, haccepts⟩
        rw [hnone type htype] at hcompat
        exact absurd hcompat List.not_mem_nil
  | some type =>
      have htype := List.mem_of_find?_eq_some hfind
      have hne : getCompatibleSwids caps w type ≠ [] := by simpa using List.find?_some hfind
      obtain ⟨swid, swids, hcompat⟩ := List.exists_cons_of_ne_nil hne
      obtain ⟨hswid, haccepts⟩ := mem_getCompatibleSwids_iff.1
        (hcompat ▸ List.mem_cons_self : swid ∈ getCompatibleSwids caps w type)
      have hzero : swid ≠ Ids.kInvalid := Points.ne_zero_of_mem (mem_connectableSwids_iff.1 hswid).1
      simp only [hcompat, List.headD_cons, hzero, ne_eq, not_false_eq_true, false_imp_iff,
        true_imp_iff, true_and]
      by_cases hname : caps.name type = "all"
      · rw [← getCompatibleSwids_of_name hname, hcompat]
        by_cases hstr : x.str type = "all"
        · obtain ⟨shmtype, hmem⟩ := List.exists_mem_of_ne_nil _
            (hw swid (mem_connectableSwids_iff.1 hswid).1)
          refine ⟨fun _ _ hne => absurd hstr hne, fun _ => List.any_eq_true.2 ⟨shmtype, hmem, ?_⟩⟩
          exact canDoShmtype_iff.2 (Or.inr ⟨type, htype, Or.inl hstr⟩)
        · simp [hname, hstr]
      · exact ⟨fun _ hall => absurd hall hname, fun _ => canDo_of_accepts htype hname haccepts⟩

/-! ### Connections -/

/-- Some writer that is not meta has a type that the follower can do. -/
def HasWriter (caps : Caps x) (q : Peers τ) (sfid quid : ℕ) : Prop :=
  ∃ w, q.getQrox quid = some w ∧ ∃ swid ∈ connectableSwids w, q.canDoSwid caps sfid quid swid = some true

/-- The calls of `connect` are made for the given followers that have a writer, and to
such writers. -/
structure Attempted (caps : Caps x) (q : Peers τ) (quid : ℕ) (sfids : List ℕ)
    (connects : List ConnectCall) : Prop where
  complete : connects ≠ [] ↔ ∃ sfid ∈ sfids, HasWriter caps q sfid quid
  correct : ∀ call ∈ connects, call.sfid ∈ sfids ∧ call.quid = quid ∧
    q.canDoSwid caps call.sfid quid call.swid = some true

/-- `connect_quid` is complete and correct, whatever the callback returns. -/
def ConnectQuidCorrect (caps : Caps x) (path : ℕ → ℕ → String) (q : Peers τ) (sfid quid : ℕ) :
    Prop :=
  ∀ cb, ∃ o, q.connectQuid caps path cb sfid quid = some o ∧ Attempted caps q quid [sfid] o.connects

/-- `try_connect` is complete and correct. -/
def TryConnectCorrect (caps : Caps x) (path : ℕ → ℕ → String) (q : Peers τ) (quid : ℕ) : Prop :=
  ∀ cb, ∃ o, q.tryConnect caps path cb quid = some o ∧
    Attempted caps q quid q.claw.getSfids o.connects

variable {q q' : Peers τ} {sfid quid : ℕ} {path : ℕ → ℕ → String}

theorem canDoSwid_of_getQrox (hw : q.getQrox quid = some w) :
    q.canDoSwid caps sfid quid swid = some ((w.connectionSpec.writer.typesOf swid).any
      (canDoShmtype caps (q.claw.connectionSpec.follower.typesOf sfid))) := by
  rw [Peers.canDoSwid, hw]
  rfl

theorem getQrox_of_canDoSwid (h : q.canDoSwid caps sfid quid swid = some true) :
    ∃ w, q.getQrox quid = some w := by
  obtain ⟨w, hw, -⟩ := Option.map_eq_some_iff.1 h
  exact ⟨w, hw⟩

/-! ### What a failed attempt leaves -/

/-- Quiddities with the same types of followers and of writers. -/
structure Alike (q q' : Peers τ) : Prop where
  qid : q'.qid = q.qid
  others : q'.others = q.others
  follower : SamePoints q.claw.connectionSpec.follower q'.claw.connectionSpec.follower
  writer : q'.claw.connectionSpec.writer = q.claw.connectionSpec.writer

namespace Alike

theorem refl (q : Peers τ) : Alike q q := ⟨rfl, rfl, ⟨rfl, rfl, rfl⟩, rfl⟩

theorem symm (h : Alike q q') : Alike q' q :=
  ⟨h.qid.symm, h.others.symm, ⟨h.follower.ids.symm, h.follower.canDo.symm, h.follower.dynamic.symm⟩,
    h.writer.symm⟩

theorem trans {q'' : Peers τ} (h : Alike q q') (h' : Alike q' q'') : Alike q q'' :=
  ⟨h'.qid.trans h.qid, h'.others.trans h.others, ⟨h'.follower.ids.trans h.follower.ids,
    h'.follower.canDo.trans h.follower.canDo, h'.follower.dynamic.trans h.follower.dynamic⟩,
    h'.writer.trans h.writer⟩

theorem typesOf (h : Alike q q') (sfid : ℕ) : q'.claw.connectionSpec.follower.typesOf sfid =
    q.claw.connectionSpec.follower.typesOf sfid := by
  rw [Points.typesOf, Points.typesOf, h.follower.canDo]

/-- The other quiddity has the same writers. -/
theorem getQrox (h : Alike q q') (hw : q.getQrox quid = some w) :
    ∃ w', q'.getQrox quid = some w' ∧ w'.connectionSpec.writer = w.connectionSpec.writer := by
  rw [Peers.getQrox] at hw ⊢
  rw [h.qid, h.others]
  split_ifs at hw ⊢
  · exact ⟨q'.claw, rfl, Option.some.inj hw ▸ h.writer⟩
  · exact ⟨w, hw, rfl⟩

theorem canDoSwid (h : Alike q q') (hdo : q.canDoSwid caps sfid quid swid = some true) :
    q'.canDoSwid caps sfid quid swid = some true := by
  obtain ⟨w, hw⟩ := getQrox_of_canDoSwid hdo
  obtain ⟨w', hw', hwriter⟩ := h.getQrox hw
  rw [canDoSwid_of_getQrox hw', hwriter, h.typesOf, ← canDoSwid_of_getQrox hw]
  exact hdo

theorem hasWriter (h : Alike q q') (hq : HasWriter caps q sfid quid) :
    HasWriter caps q' sfid quid := by
  obtain ⟨w, hw, swid, hswid, hdo⟩ := hq
  obtain ⟨w', hw', hwriter⟩ := h.getQrox hw
  refine ⟨w', hw', swid, ?_, h.canDoSwid hdo⟩
  rw [mem_connectableSwids_iff] at hswid ⊢
  rwa [hwriter]

/-- Attempts that are complete and correct are so for quiddities that are alike. -/
theorem attempted {sfids : List ℕ} {connects : List ConnectCall} (h : Alike q q')
    (hq : Attempted caps q quid sfids connects) : Attempted caps q' quid sfids connects where
  complete := by
    rw [hq.complete]
    exact ⟨fun ⟨sfid, hmem, hw⟩ => ⟨sfid, hmem, h.hasWriter hw⟩,
      fun ⟨sfid, hmem, hw⟩ => ⟨sfid, hmem, h.symm.hasWriter hw⟩⟩
  correct := fun call hcall => by
    obtain ⟨hmem, hquid, hdo⟩ := hq.correct call hcall
    exact ⟨hmem, hquid, h.canDoSwid hdo⟩

end Alike

/-- A `connect_raw` of an allocated follower is defined, and where it fails the points
are those before. -/
theorem connectRaw_of_mem (c : Claw τ) (hid : sfid ∈ c.connectionSpec.follower.ids) (shmpath : String)
    (cb : Bool) : ∃ r, c.connectRaw sfid shmpath cb = some r ∧ (r.2 = Ids.kInvalid →
      SamePoints c.connectionSpec.follower r.1.connectionSpec.follower ∧
        r.1.connectionSpec.writer = c.connectionSpec.writer) := by
  by_cases hmeta : c.connectionSpec.follower.IsMeta sfid
  · by_cases hleft : c.connectionSpec.follower.Left
    · refine ⟨_, connectRaw_meta hmeta hleft, fun hinvalid => ?_⟩
      cases cb with
      | true => exact absurd hinvalid (c.connectionSpec.follower.nextId_ne_zero hleft)
      | false =>
          rw [if_pos rfl, ConnectionSpec.allocateSfidFromMeta, dif_pos ⟨hmeta, hleft⟩,
            ConnectionSpec.deallocateSfidFromMeta, if_pos (by
              exact List.mem_append_right _ (List.mem_singleton.2 rfl))]
          exact ⟨samePoints_remove_addDynamic, rfl⟩
    · exact ⟨_, connectRaw_not_left hmeta hleft, fun _ => ⟨⟨rfl, rfl, rfl⟩, rfl⟩⟩
  · refine ⟨_, connectRaw_static hid hmeta, fun hinvalid => ?_⟩
    cases cb with
    | true => exact absurd hinvalid (Points.ne_zero_of_mem hid)
    | false => exact ⟨⟨rfl, rfl, rfl⟩, rfl⟩

theorem connect_of_mem (path : ℕ → ℕ → String) (hw : q.getQrox quid = some w)
    (hid : sfid ∈ q.claw.connectionSpec.follower.ids) (cb : Bool)
    (swid : ℕ) : ∃ r, q.connect path cb sfid quid swid = some r ∧
      (r.2 = Ids.kInvalid → Alike q r.1) := by
  rw [Peers.connect, hw, Option.bind_some]
  dsimp only
  split_ifs
  · exact ⟨_, rfl, fun _ => Alike.refl q⟩
  · obtain ⟨r, hr, hsame⟩ := connectRaw_of_mem q.claw hid
      (getWriterShmpath (path quid swid) w swid) cb
    rw [hr]
    exact ⟨_, rfl, fun hinvalid => ⟨rfl, rfl, (hsame hinvalid).1, (hsame hinvalid).2⟩⟩

/-! ### Both functions -/

/-- The calls of `connect` that `connect_quid` makes. -/
def connectsOf (caps : Caps x) (q : Peers τ) (sfid quid : ℕ) : List ConnectCall :=
  match q.getQrox quid with
  | none => []
  | some w =>
      let swid := Peers.chooseSwid caps w (q.claw.connectionSpec.follower.typesOf sfid)
      if swid = Ids.kInvalid then [] else [⟨sfid, quid, swid⟩]

/-- `connect_quid` is defined for allocated followers, and leaves everything alike
where it fails. -/
theorem connectQuid_of_mem (caps : Caps x) (path : ℕ → ℕ → String)
    (hw : q.getQrox quid = some w) (hid : sfid ∈ q.claw.connectionSpec.follower.ids) (cb : Bool) :
    ∃ o, q.connectQuid caps path cb sfid quid = some o ∧
      o.connects = connectsOf caps q sfid quid ∧ (o.id = Ids.kInvalid → Alike q o.peers) ∧
        (o.id ≠ Ids.kInvalid → o.connects ≠ []) := by
  rw [Peers.connectQuid, connectsOf, hw, Option.bind_some]
  dsimp only
  split_ifs with hzero
  · exact ⟨_, rfl, rfl, fun _ => Alike.refl q, fun hne => absurd rfl hne⟩
  · obtain ⟨r, hr, halike⟩ := connect_of_mem path hw hid cb
      (Peers.chooseSwid caps w (q.claw.connectionSpec.follower.typesOf sfid))
    rw [hr]
    exact ⟨_, rfl, rfl, halike, fun _ => List.cons_ne_nil _ _⟩

/-- The calls are complete and correct exactly when the choice is. -/
theorem attempted_connectsOf_iff (hw : q.getQrox quid = some w) :
    Attempted caps q quid [sfid] (connectsOf caps q sfid quid) ↔
      ChoiceCorrect caps (q.claw.connectionSpec.follower.typesOf sfid) w := by
  have hwriter : HasWriter caps q sfid quid ↔ ∃ swid ∈ connectableSwids w,
      (w.connectionSpec.writer.typesOf swid).any
        (canDoShmtype caps (q.claw.connectionSpec.follower.typesOf sfid)) = true := by
    constructor
    · rintro ⟨w', hw', swid, hswid, hdo⟩
      obtain rfl : w' = w := Option.some.inj (hw'.symm.trans hw)
      exact ⟨swid, hswid, Option.some.inj ((canDoSwid_of_getQrox hw).symm.trans hdo)⟩
    · rintro ⟨swid, hswid, hdo⟩
      exact ⟨w, hw, swid, hswid, (canDoSwid_of_getQrox hw).trans (congrArg some hdo)⟩
  rw [connectsOf, hw, ChoiceCorrect]
  dsimp only
  by_cases hzero : Peers.chooseSwid caps w (q.claw.connectionSpec.follower.typesOf sfid) = Ids.kInvalid
  · rw [if_pos hzero]
    constructor
    · intro h
      refine ⟨fun _ swid hswid => ?_, fun hne => absurd hzero hne⟩
      rw [Bool.eq_false_iff]
      intro hdo
      exact h.complete.2 ⟨sfid, List.mem_singleton_self _, hwriter.2 ⟨swid, hswid, hdo⟩⟩ rfl
    · rintro ⟨hall, -⟩
      refine ⟨⟨fun hne => absurd rfl hne, ?_⟩, fun call hcall => absurd hcall List.not_mem_nil⟩
      rintro ⟨sfid', hmem, hhas⟩
      obtain rfl := List.mem_singleton.1 hmem
      obtain ⟨swid, hswid, hdo⟩ := hwriter.1 hhas
      exact absurd ((hall hzero swid hswid).symm.trans hdo) (by decide)
  · rw [if_neg hzero]
    constructor
    · intro h
      refine ⟨fun heq => absurd heq hzero, fun _ => ?_⟩
      obtain ⟨-, -, hdo⟩ := h.correct _ (List.mem_singleton_self _)
      exact Option.some.inj ((canDoSwid_of_getQrox hw).symm.trans hdo)
    · rintro ⟨-, hdo⟩
      have hdo := hdo hzero
      refine ⟨⟨fun _ => ⟨sfid, List.mem_singleton_self _, hwriter.2 ⟨_, chooseSwid_mem hzero, hdo⟩⟩,
        fun _ => List.cons_ne_nil _ _⟩, fun call hcall => ?_⟩
      obtain rfl := List.mem_singleton.1 hcall
      exact ⟨List.mem_singleton_self _, rfl,
        (canDoSwid_of_getQrox hw).trans (congrArg some hdo)⟩

/-- The tests agree about a follower and the writers of another quiddity. -/
def Agrees (caps : Caps x) (q : Peers τ) (quid sfid : ℕ) : Prop :=
  ∀ w, q.getQrox quid = some w →
    ChoiceAgrees caps (q.claw.connectionSpec.follower.typesOf sfid) w

/-- Only the writers of the other quiddity matter. -/
theorem choiceAgrees_congr {w' : Claw τ}
    (h : w'.connectionSpec.writer = w.connectionSpec.writer) :
    ChoiceAgrees caps types w' ↔ ChoiceAgrees caps types w := by
  have hcompat : getCompatibleSwids caps w' = getCompatibleSwids caps w := by
    funext type
    simp only [getCompatibleSwids, getSwids, swidCanDoShmtype, h]
  rw [ChoiceAgrees, ChoiceAgrees, hcompat, connectableSwids, connectableSwids, getSwids, getSwids, h]

theorem Alike.agrees (h : Alike q q') (hq : Agrees caps q quid sfid) :
    Agrees caps q' quid sfid := by
  intro w' hw'
  obtain ⟨w, hw, hwriter⟩ := h.symm.getQrox hw'
  rw [h.typesOf, ← choiceAgrees_congr hwriter]
  exact hq w hw

theorem attempted_iff_agrees (hw : q.getQrox quid = some w)
    (htyped : Typed w.connectionSpec.writer) :
    Attempted caps q quid [sfid] (connectsOf caps q sfid quid) ↔ Agrees caps q quid sfid := by
  rw [attempted_connectsOf_iff hw, choiceCorrect_iff htyped, Agrees]
  refine ⟨fun h w' hw' => ?_, fun h => h w hw⟩
  obtain rfl : w = w' := Option.some.inj (hw.symm.trans hw')
  exact h

/-- The loop of `try_connect` stops at the first follower it connects, and has then made
an attempt. -/
theorem tryConnectLoop_attempted (cb : ℕ → Bool) (hw : q.getQrox quid = some w) {sfids : List ℕ}
    (hids : ∀ sfid ∈ sfids, sfid ∈ q.claw.connectionSpec.follower.ids)
    (hatt : ∀ q', Alike q q' → ∀ sfid ∈ sfids,
      Attempted caps q' quid [sfid] (connectsOf caps q' sfid quid)) :
    ∃ o, q.tryConnectLoop caps path cb quid sfids = some o ∧
      Attempted caps q quid sfids o.connects := by
  induction sfids generalizing q w with
  | nil =>
      refine ⟨_, rfl, ⟨fun hne => absurd rfl hne, ?_⟩, fun call hcall => ?_⟩
      · rintro ⟨sfid, hmem, -⟩
        exact absurd hmem List.not_mem_nil
      · exact absurd hcall List.not_mem_nil
  | cons sfid rest ih =>
      obtain ⟨o, ho, hconnects, halike, hmade⟩ := connectQuid_of_mem caps path hw
        (hids sfid List.mem_cons_self) (cb sfid)
      have hfirst := hatt q (Alike.refl q) sfid List.mem_cons_self
      rw [← hconnects] at hfirst
      rw [Peers.tryConnectLoop, ho, Option.bind_some]
      by_cases hid : o.id = Ids.kInvalid
      · have hq := halike hid
        obtain ⟨w', hw', -⟩ := hq.getQrox hw
        obtain ⟨o', ho', hrest⟩ := ih hw'
          (fun sfid' hmem => hq.follower.ids ▸ hids sfid' (List.mem_cons_of_mem _ hmem))
          (fun q' hq' sfid' hmem => hatt q' (hq.trans hq') sfid' (List.mem_cons_of_mem _ hmem))
        have hrest := hq.symm.attempted hrest
        rw [if_neg (not_not.2 hid), ho']
        refine ⟨_, rfl, ?_, fun call hcall => ?_⟩
        · change o.connects ++ o'.connects ≠ [] ↔ _
          rw [Ne, List.append_eq_nil_iff, not_and_or, ← Ne, ← Ne, hfirst.complete, hrest.complete]
          simp
        · rcases List.mem_append.1 hcall with hcall | hcall
          · obtain ⟨hmem, hcorrect⟩ := hfirst.correct call hcall
            exact ⟨List.mem_cons.2 (Or.inl (List.mem_singleton.1 hmem)), hcorrect⟩
          · obtain ⟨hmem, hcorrect⟩ := hrest.correct call hcall
            exact ⟨List.mem_cons_of_mem _ hmem, hcorrect⟩
      · rw [if_pos hid]
        refine ⟨o, rfl, ⟨fun hne => ?_, fun _ => hmade hid⟩, fun call hcall => ?_⟩
        · obtain ⟨sfid', hmem, hhas⟩ := hfirst.complete.1 hne
          exact ⟨sfid', List.mem_cons.2 (Or.inl (List.mem_singleton.1 hmem)), hhas⟩
        · obtain ⟨hmem, hcorrect⟩ := hfirst.correct call hcall
          exact ⟨List.mem_cons.2 (Or.inl (List.mem_singleton.1 hmem)), hcorrect⟩

theorem connectQuidCorrect_iff (hw : q.getQrox quid = some w)
    (hid : sfid ∈ q.claw.connectionSpec.follower.ids) :
    ConnectQuidCorrect caps path q sfid quid ↔
      Attempted caps q quid [sfid] (connectsOf caps q sfid quid) := by
  constructor
  · intro h
    obtain ⟨o, ho, hatt⟩ := h true
    obtain ⟨o', ho', hconnects, -⟩ := connectQuid_of_mem caps path hw hid true
    obtain rfl : o = o' := Option.some.inj (ho.symm.trans ho')
    exact hconnects ▸ hatt
  · intro h cb
    obtain ⟨o, ho, hconnects, -⟩ := connectQuid_of_mem caps path hw hid cb
    exact ⟨o, ho, hconnects ▸ h⟩

/-- All connections of a quiddity to another one are found and correct exactly when the
tests agree about each follower. -/
theorem connectsCorrectly_iff (q : Peers τ) (quid : ℕ) (hw : q.getQrox quid = some w)
    (hreached : Reached x w.connectionSpec) :
    ((∀ sfid ∈ q.claw.connectionSpec.follower.ids, ConnectQuidCorrect caps path q sfid quid) ∧
        TryConnectCorrect caps path q quid) ↔
      ∀ sfid ∈ q.claw.connectionSpec.follower.ids, Agrees caps q quid sfid := by
  have htyped := hreached.specTyped.writer
  have hone : ∀ sfid ∈ q.claw.connectionSpec.follower.ids,
      (ConnectQuidCorrect caps path q sfid quid ↔ Agrees caps q quid sfid) := by
    intro sfid hid
    rw [connectQuidCorrect_iff hw hid, attempted_iff_agrees hw htyped]
  constructor
  · exact fun h sfid hid => (hone sfid hid).1 (h.1 sfid hid)
  · refine fun h => ⟨fun sfid hid => (hone sfid hid).2 (h sfid hid), fun cb => ?_⟩
    have hmem : ∀ sfid ∈ q.claw.getSfids, sfid ∈ q.claw.connectionSpec.follower.ids :=
      fun sfid => IdMap.mem_map_fst_toList.1
    refine tryConnectLoop_attempted cb hw hmem fun q' hq' sfid hsfid => ?_
    obtain ⟨w', hw', hwriter⟩ := hq'.getQrox hw
    exact (attempted_iff_agrees hw' (hwriter ▸ htyped)).2 (hq'.agrees (h sfid (hmem sfid hsfid)))

/-! ### Two quiddities with given types -/

/-- Types whose name ends at the first comma and whose caps intersect if they are equal. -/
def plainCaps : Caps plainText where
  name := fun t => String.ofList (t.toList.takeWhile (· ≠ ','))
  canIntersect := fun a b => a = b
  name_eq := by
    rintro t (rfl : t = "all")
    decide +kernel
  canIntersect_comm := fun a b => decide_eq_decide.2 eq_comm

/-- The specification of one point with the given types. -/
def typesSpec (role : Role) (types : List String) : ConnectionSpec String :=
  ofTree plainText (Json.obj [(role.name, .arr [.obj [("label", .str "video"),
    ("description", .str ""), ("can_do", .arr (types.map .str))]])]).toTree

/-- A quiddity with a follower of the given types, and one with a writer. -/
def pairOf (followerTypes writerTypes : List String) : Peers String where
  qid := 1
  claw := make (typesSpec followerRole followerTypes)
  others := (∅ : IdMap (Claw String)).insert 2 (make (typesSpec writerRole writerTypes))

theorem getQrox_pairOf (followerTypes writerTypes : List String) :
    (pairOf followerTypes writerTypes).getQrox 2 =
      some (make (typesSpec writerRole writerTypes)) := by
  have hne : 2 ≠ (pairOf followerTypes writerTypes).qid := show 2 ≠ 1 by decide
  rw [Peers.getQrox, if_neg hne]
  exact Std.ExtTreeMap.getElem?_insert_self

theorem reached_typesSpec (role : Role) (types : List String) :
    Reached plainText (make (typesSpec role types)).connectionSpec := by
  change Reached plainText (typesSpec role types)
  rw [typesSpec]
  exact ⟨_, [], [], Machine.run_nil _⟩

/-- A follower of two types and a writer that accepts all types. -/
theorem connectsCorrectly_video_all :
    (∀ sfid ∈ (pairOf ["audio/x-raw", "video/x-raw"] ["all"]).claw.connectionSpec.follower.ids,
        ConnectQuidCorrect plainCaps (fun _ _ => "/tmp/video")
          (pairOf ["audio/x-raw", "video/x-raw"] ["all"]) sfid 2) ∧
      TryConnectCorrect plainCaps (fun _ _ => "/tmp/video")
        (pairOf ["audio/x-raw", "video/x-raw"] ["all"]) 2 := by
  refine (connectsCorrectly_iff _ 2 (getQrox_pairOf _ _) (reached_typesSpec _ _)).2
    fun sfid hid w hw => ?_
  have hsfid : sfid ∈ [1] := by
    rw [← show (pairOf ["audio/x-raw", "video/x-raw"] ["all"]).claw.getSfids = [1] by
      decide +kernel]
    exact IdMap.mem_map_fst_toList.2 hid
  obtain rfl := List.mem_singleton.1 hsfid
  obtain rfl := Option.some.inj (hw.symm.trans (getQrox_pairOf _ _))
  decide +kernel

/-- A follower whose type is named `all` and has a property is connected to a writer that
it cannot do, and a writer with such a type is not found. -/
theorem not_connectQuidCorrect_all_property :
    ((pairOf ["all, rate=1"] ["video/x-raw"]).claw.connectionSpec.isValid = true ∧
        1 ∈ (pairOf ["all, rate=1"] ["video/x-raw"]).claw.connectionSpec.follower.ids ∧
        ¬ConnectQuidCorrect plainCaps (fun _ _ => "/tmp/video")
          (pairOf ["all, rate=1"] ["video/x-raw"]) 1 2) ∧
      (pairOf ["video/x-raw"] ["all, rate=1"]).claw.connectionSpec.isValid = true ∧
        1 ∈ (pairOf ["video/x-raw"] ["all, rate=1"]).claw.connectionSpec.follower.ids ∧
        ¬ConnectQuidCorrect plainCaps (fun _ _ => "/tmp/video")
          (pairOf ["video/x-raw"] ["all, rate=1"]) 1 2 := by
  refine ⟨⟨by decide +kernel, by decide +kernel, fun h => ?_⟩, by decide +kernel,
    by decide +kernel, fun h => ?_⟩
  all_goals
    have hatt := (connectQuidCorrect_iff (getQrox_pairOf _ _) (by decide +kernel)).1 h
    rw [attempted_connectsOf_iff (getQrox_pairOf _ _)] at hatt
  · exact absurd (hatt.2 (by decide +kernel)) (by decide +kernel)
  · exact absurd (hatt.1 (by decide +kernel) 1 (by decide +kernel)) (by decide +kernel)

end Claw
end LibSwitcher
