/-
# The first follower of a claw

A caller that does not name a follower takes the first one of `get_sfids`.  The followers of a
specification are numbered from `1` on, and the dynamic ones come and go, so the first one
is `1` all the time, and it is not dynamic (`Steady`).  If it is a meta follower, connecting it
connects a new dynamic one, and disconnecting it disconnects none.
-/

import LibSwitcher.Quiddity.Claw.ClawCompatibility
import LibSwitcher.Quiddity.Claw.Registration

namespace LibSwitcher
namespace Claw

open ConnectionSpec

variable {τ : Type}

/-- The first follower of a specification is `1` and stays so, and it is the only one that is
connected unless it is a meta follower. -/
structure Steady (c : Claw τ) : Prop where
  keys : KeysAllocated c
  first : ∀ id ∈ c.connectionSpec.follower.ids, 1 ∈ c.connectionSpec.follower.ids
  static : 1 ∉ c.connectionSpec.follower.dynamic
  only : ¬c.connectionSpec.follower.IsMeta 1 → ∀ id ∈ c.followerShmpaths, id = 1

variable {x : Externals τ} {c c' c'' : Claw τ} {shmpath : String} {cb : Bool}

/-! ### The first follower -/

/-- The points of a specification are numbered from `1` on. -/
theorem exists_registered_ofTree (tree : InfoTree) :
    ∃ ls, Registered ls (ofTree x tree).follower := by
  have hadd : ∀ (p : Points τ) (hleft : p.Left) label types, types ≠ [] →
      (∃ ls, Registered ls p) → ∃ ls, Registered ls (p.add hleft label types) := by
    rintro p hleft label types - ⟨ls, hls⟩
    exact ⟨_, hls.add hleft label types⟩
  exact (ofTree_points (x := x) ⟨[], registered_empty⟩ hadd tree).1

theorem steady_make (tree : InfoTree) : Steady (make (ofTree x tree)) := by
  obtain ⟨ls, hls⟩ := exists_registered_ofTree (x := x) tree
  have hempty : ∀ {P : Prop} {id : ℕ}, id ∈ (make (ofTree x tree)).followerShmpaths → P := by
    intro P id hid
    simp [make] at hid
  refine ⟨fun _ => hempty, fun id hid => ?_, ?_, fun _ _ => hempty⟩
  · have hrange := List.mem_range'_1.1 (hls.ids.mem_iff.1 hid)
    exact hls.ids.mem_iff.2 (List.mem_range'_1.2 ⟨Nat.le_refl 1, by omega⟩)
  · change 1 ∉ (ofTree x tree).follower.dynamic
    rw [hls.dynamic]
    exact List.not_mem_nil

/-- The first of the followers is `1`. -/
theorem head?_getSfids (h : 1 ∈ c.connectionSpec.follower.ids) : c.getSfids.head? = some 1 := by
  have hsorted : c.getSfids.Pairwise (· < ·) := by
    rw [getSfids, List.pairwise_map]
    exact Std.ExtTreeMap.ordered_keys_toList.imp Nat.compare_eq_lt.1
  have hmem : 1 ∈ c.getSfids := IdMap.mem_map_fst_toList.2 h
  have hpos : ∀ id ∈ c.getSfids, id ≠ 0 := fun id hid =>
    Points.ne_zero_of_mem (IdMap.mem_map_fst_toList.1 hid)
  revert hsorted hmem hpos
  cases c.getSfids with
  | nil => exact fun _ hmem _ => absurd hmem List.not_mem_nil
  | cons id ids =>
      intro hsorted hmem hpos
      rcases List.mem_cons.1 hmem with rfl | hmem
      · rfl
      · have hlt := List.rel_of_pairwise_cons hsorted hmem
        exact absurd (by omega) (hpos id List.mem_cons_self)

theorem head?_getSfids_eq_some_iff (h : Steady c) {sfid : ℕ} :
    c.getSfids.head? = some sfid ↔ sfid = 1 ∧ 1 ∈ c.connectionSpec.follower.ids := by
  constructor
  · intro hsfid
    have hmem : sfid ∈ c.connectionSpec.follower.ids :=
      IdMap.mem_map_fst_toList.1 (List.mem_of_head? hsfid)
    have hone := h.first sfid hmem
    exact ⟨Option.some.inj (hsfid.symm.trans (head?_getSfids hone)), hone⟩
  · rintro ⟨rfl, hone⟩
    exact head?_getSfids hone

/-! ### What connecting and disconnecting the first follower changes -/

/-- The first follower has been connected to a path, or not: it is what it was, and no connection was
lost. -/
structure Joins (shmpath : String) (c c' : Claw τ) : Prop where
  mem : 1 ∈ c'.connectionSpec.follower.ids ↔ 1 ∈ c.connectionSpec.follower.ids
  types : c'.connectionSpec.follower.typesOf 1 = c.connectionSpec.follower.typesOf 1
  isMeta : c'.connectionSpec.follower.IsMeta 1 ↔ c.connectionSpec.follower.IsMeta 1
  kept : ∀ (id : ℕ) path, c.followerShmpaths[id]? = some path → c'.followerShmpaths[id]? = some path
  joined : ∀ (id : ℕ) path, c'.followerShmpaths[id]? = some path →
    c.followerShmpaths[id]? = some path ∨ path = shmpath

theorem Joins.refl (shmpath : String) (c : Claw τ) : Joins shmpath c c :=
  ⟨Iff.rfl, rfl, Iff.rfl, fun _ _ => id, fun _ _ => .inl⟩

theorem Joins.trans (h : Joins shmpath c c') (h' : Joins shmpath c' c'') : Joins shmpath c c'' where
  mem := h'.mem.trans h.mem
  types := h'.types.trans h.types
  isMeta := h'.isMeta.trans h.isMeta
  kept id path hpath := h'.kept id path (h.kept id path hpath)
  joined id path hpath := (h'.joined id path hpath).elim (h.joined id path) .inr

/-- The first follower can be connected: it is free, or it is a meta follower and there is an
identifier left. -/
def Open (c : Claw τ) : Prop :=
  if c.connectionSpec.follower.IsMeta 1 then c.connectionSpec.follower.Left
  else 1 ∉ c.followerShmpaths

/-- No path is followed twice. -/
def Once (c : Claw τ) : Prop := ∀ path (id id' : ℕ), c.followerShmpaths[id]? = some path →
  c.followerShmpaths[id']? = some path → id = id'

/-- A new connection to a path that no follower has. -/
theorem Once.emplace (h : c.Once) {id : ℕ} (hid : id ∉ c.followerShmpaths)
    (hnew : ∀ id' : ℕ, c.followerShmpaths[id']? ≠ some shmpath)
    (hpaths : c'.followerShmpaths = c.followerShmpaths.insertIfNew id shmpath) : c'.Once := by
  intro path a b ha hb
  rw [hpaths, IdMap.getElem?_emplace hid] at ha hb
  split_ifs at ha hb with heqa heqb heqb
  · exact heqa.trans heqb.symm
  · exact absurd ((Option.some.inj ha).symm ▸ hb) (hnew b)
  · exact absurd ((Option.some.inj hb).symm ▸ ha) (hnew a)
  · exact h path a b ha hb

/-- What a `connect_raw` of the first follower does, by what its callback returns. -/
structure Tries (shmpath : String) (cb : Bool) (c c' : Claw τ) : Prop where
  steady : c'.Steady
  joins : Joins shmpath c c'
  succeeds : cb = true → c.Open → ∃ id : ℕ, c'.followerShmpaths[id]? = some shmpath
  fails : ¬c.connectionSpec.follower.IsMeta 1 → cb = false → c' = c
  once : c.Once → (c.connectionSpec.follower.IsMeta 1 → cb = true →
    ∀ id : ℕ, c.followerShmpaths[id]? ≠ some shmpath) → c'.Once

theorem Tries.refl (h : c.Steady) (hopen : cb = true → ¬c.Open) : Tries shmpath cb c c where
  steady := h
  joins := .refl _ _
  succeeds hcb ho := absurd ho (hopen hcb)
  fails _ _ := rfl
  once honce _ := honce

/-- A call that fails for a meta follower leaves the points and the connections. -/
theorem Tries.of_samePoints (h : c.Steady)
    (hsame : SamePoints c.connectionSpec.follower c'.connectionSpec.follower)
    (hpaths : c'.followerShmpaths = c.followerShmpaths)
    (hmeta : c.connectionSpec.follower.IsMeta 1) : Tries shmpath false c c' := by
  obtain ⟨hids, hcanDo, hdynamic⟩ := hsame
  have hmeta' : c'.connectionSpec.follower.IsMeta 1 ↔ c.connectionSpec.follower.IsMeta 1 := by
    rw [Points.IsMeta, Points.IsMeta, Points.labelOf, Points.labelOf, hids]
  refine ⟨⟨h.keys.of_spec hpaths hids, hids ▸ h.first, hdynamic ▸ h.static, fun hnot => ?_⟩,
    ⟨by rw [hids], by rw [Points.typesOf, Points.typesOf, hcanDo], hmeta', ?_, ?_⟩,
    Bool.noConfusion, fun hnot => absurd hmeta hnot, fun honce _ => ?_⟩
  · exact absurd (hmeta'.2 hmeta) hnot
  · exact fun id path hpath => hpaths ▸ hpath
  · exact fun id path hpath => .inl (hpaths ▸ hpath)
  · rw [Once, hpaths]
    exact honce

/-- A follower that is not a meta one is connected unless it is already. -/
theorem tries_static (h : c.Steady) (hmem : 1 ∈ c.connectionSpec.follower.ids)
    (hmeta : ¬c.connectionSpec.follower.IsMeta 1) :
    ∃ r, c.connectRaw 1 shmpath cb = some r ∧ Tries shmpath cb c r.1 := by
  refine ⟨_, connectRaw_static hmem hmeta, ?_⟩
  cases cb with
  | false => exact .refl h Bool.noConfusion
  | true =>
      rw [if_neg Bool.noConfusion]
      by_cases hkey : 1 ∈ c.followerShmpaths
      · rw [IdMap.emplace_of_mem hkey]
        exact .refl h fun _ hopen => absurd hkey ((if_neg hmeta).mp hopen)
      · have hfree : ∀ id : ℕ, c.followerShmpaths[id]? = none := fun id =>
          IdMap.getElem?_eq_none_iff.2 fun hid => hkey (h.only hmeta id hid ▸ hid)
        refine ⟨⟨h.keys.emplace hmem hmeta, h.first, h.static, fun _ id hid => ?_⟩,
          ⟨Iff.rfl, rfl, Iff.rfl, fun id path hpath => ?_, fun id path hpath => ?_⟩,
          fun _ _ => ⟨1, IdMap.getElem?_emplace_self hkey⟩, fun _ hcb => Bool.noConfusion hcb,
          fun honce _ => ?_⟩
        · exact (IdMap.mem_emplace.1 hid).elim (·) (h.only hmeta id)
        · cases (hfree id).symm.trans hpath
        · rw [IdMap.getElem?_emplace hkey] at hpath
          split_ifs at hpath
          · exact .inr (Option.some.inj hpath).symm
          · exact .inl hpath
        · refine honce.emplace hkey (fun id hid => ?_) rfl
          cases (hfree id).symm.trans hid

/-- A meta follower has a new dynamic follower connected, if the callback succeeds. -/
theorem tries_meta (h : c.Steady) (hmeta : c.connectionSpec.follower.IsMeta 1) :
    ∃ r, c.connectRaw 1 shmpath cb = some r ∧ Tries shmpath cb c r.1 := by
  by_cases hleft : c.connectionSpec.follower.Left
  swap
  · exact ⟨_, connectRaw_not_left hmeta hleft, .refl h fun _ hopen => hleft ((if_pos hmeta).mp hopen)⟩
  have hnew := h.keys.nextId_not_mem hleft
  obtain ⟨hkeys, hid, hnot⟩ := h.keys.allocate hmeta hleft
  refine ⟨_, connectRaw_meta hmeta hleft, ?_⟩
  cases cb with
  | false =>
      rw [if_pos rfl]
      refine .of_samePoints h ?_ rfl hmeta
      rw [allocateSfidFromMeta, dif_pos ⟨hmeta, hleft⟩, deallocateSfidFromMeta, if_pos (by
        exact List.mem_append_right _ (List.mem_singleton.2 rfl))]
      exact samePoints_remove_addDynamic
  | true =>
      rw [if_neg Bool.noConfusion]
      obtain ⟨label, types, hfollower⟩ : ∃ label types,
          (c.connectionSpec.allocateSfidFromMeta 1).1.follower =
            c.connectionSpec.follower.addDynamic hleft label types := by
        rw [allocateSfidFromMeta, dif_pos ⟨hmeta, hleft⟩]
        exact ⟨_, _, rfl⟩
      have hone : 1 ∈ c.connectionSpec.follower.ids := hmeta.1
      have hne : 1 ≠ c.connectionSpec.follower.nextId hleft := fun heq =>
        c.connectionSpec.follower.nextId_not_mem hleft (heq ▸ hone)
      have hmem : 1 ∈ (c.connectionSpec.allocateSfidFromMeta 1).1.follower.ids := by
        rw [hfollower]
        exact Points.mem_ids_addDynamic.2 (.inr hone)
      have hmeta' : (c.connectionSpec.allocateSfidFromMeta 1).1.follower.IsMeta 1 := by
        refine ⟨hmem, ?_⟩
        rw [hfollower, Points.labelOf_addDynamic hone]
        exact hmeta.2
      refine ⟨⟨hkeys.emplace hid hnot, fun _ _ => hmem, ?_, fun hnot' => absurd hmeta' hnot'⟩,
        ⟨iff_of_true hmem hone, ?_, iff_of_true hmeta' hmeta, fun id path hpath => ?_,
          fun id path hpath => ?_⟩,
        fun _ _ => ⟨_, IdMap.getElem?_emplace_self hnew⟩, fun hnot' => absurd hmeta hnot',
        fun honce hpath => honce.emplace hnew (hpath hmeta rfl) rfl⟩
      · rw [hfollower]
        intro hdynamic
        rcases List.mem_append.1 hdynamic with hdynamic | hdynamic
        · exact h.static hdynamic
        · exact hne (List.mem_singleton.1 hdynamic)
      · rw [hfollower, Points.typesOf_addDynamic hone]
      · have hkey : id ∈ c.followerShmpaths := by
          rw [Std.ExtTreeMap.mem_iff_isSome_getElem?, hpath]
          rfl
        exact (IdMap.getElem?_emplace_of_mem hkey).trans hpath
      · rw [IdMap.getElem?_emplace hnew] at hpath
        split_ifs at hpath
        · exact .inr (Option.some.inj hpath).symm
        · exact .inl hpath

/-- Connecting the first follower. -/
theorem tries_connectRaw (h : c.Steady) (hmem : 1 ∈ c.connectionSpec.follower.ids)
    (shmpath : String) (cb : Bool) :
    ∃ r, c.connectRaw 1 shmpath cb = some r ∧ Tries shmpath cb c r.1 := by
  by_cases hmeta : c.connectionSpec.follower.IsMeta 1
  · exact tries_meta h hmeta
  · exact tries_static h hmem hmeta

/-- Disconnecting the first follower takes its connection away if the callback succeeds. -/
theorem disconnect_first (h : c.Steady) (hmem : 1 ∈ c.connectionSpec.follower.ids) (cb : Bool) :
    (c.disconnect 1 cb).1.connectionSpec = c.connectionSpec ∧
      ∀ id : ℕ, (c.disconnect 1 cb).1.followerShmpaths[id]? =
        if cb = true ∧ id = 1 then none else c.followerShmpaths[id]? := by
  cases cb with
  | false =>
      rw [disconnect, if_neg (not_not.2 hmem), if_pos rfl]
      exact ⟨rfl, fun id => (if_neg fun hcb => Bool.noConfusion hcb.1).symm⟩
  | true =>
      rw [disconnect_true hmem, deallocateSfidFromMeta, if_neg h.static]
      refine ⟨rfl, fun id => IdMap.getElem?_erase.trans ?_⟩
      simp only [true_and]

/-- A claw stays steady when its connections go. -/
theorem Steady.of_subset (h : c.Steady) (hspec : c'.connectionSpec = c.connectionSpec)
    (hsub : ∀ id ∈ c'.followerShmpaths, id ∈ c.followerShmpaths) : c'.Steady where
  keys := fun id hid => hspec ▸ h.keys id (hsub id hid)
  first := hspec ▸ h.first
  static := hspec ▸ h.static
  only := fun hnot id hid => h.only (hspec ▸ hnot) id (hsub id hid)

end Claw
end LibSwitcher
