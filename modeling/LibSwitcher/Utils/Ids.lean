/-
# Identifiers

`switcher/utils/ids.cpp`: a list of allocated `size_t` identifiers and the last
one given out.  `allocate_id` goes on from that one, back to `1` after the largest,
until it finds an identifier that is not allocated; it stops because there are
more identifiers than allocated ones (`exists_free`).
-/

import Mathlib.Data.List.Nodup
import Mathlib.Data.List.Perm.Subperm
import Mathlib.Data.Nat.ModEq
import Mathlib.Logic.Function.Iterate
import Mathlib.Tactic.Common

namespace LibSwitcher

/-- `std::numeric_limits<id_t>::max()`. -/
def Ids.idMax : ℕ := 2 ^ 64 - 1

/-- `Ids::kMaxNumOfIds`. -/
def Ids.kMaxNumOfIds : ℕ := Ids.idMax - 0 - 1

/-- `Ids::kInvalid`. -/
def Ids.kInvalid : ℕ := 0

/-- The state of an `Ids`: identifiers are allocated once, are valid, and are at
most `kMaxNumOfIds`. -/
structure Ids where
  ids : List ℕ
  curId : ℕ
  nodup : ids.Nodup
  valid : ∀ id ∈ ids, id ≠ Ids.kInvalid
  length_le : ids.length ≤ Ids.kMaxNumOfIds
  curId_le : curId ≤ Ids.idMax

namespace Ids

/-- The initial state. -/
def empty : Ids where
  ids := []
  curId := kInvalid
  nodup := List.nodup_nil
  valid := fun _ h => by simp at h
  length_le := Nat.zero_le _
  curId_le := Nat.zero_le _

/-- The identifier tried after `cur`. -/
def next (cur : ℕ) : ℕ := if cur = idMax then 1 else cur + 1

/-- The loop of `allocate_id`, for at most `fuel` turns. -/
def search (ids : List ℕ) : ℕ → ℕ → Option ℕ
  | 0, _ => none
  | fuel + 1, cur => if next cur ∈ ids then search ids fuel (next cur) else some (next cur)

theorem next_le {cur : ℕ} (h : cur ≤ idMax) : next cur ≤ idMax := by
  unfold next
  split_ifs with hmax
  · decide
  · omega

theorem next_ne_zero (cur : ℕ) : next cur ≠ 0 := by
  unfold next
  split_ifs <;> omega

/-- The identifiers the loop goes through. -/
theorem iterate_next {cur : ℕ} (h : cur ≤ idMax) (j : ℕ) :
    next^[j + 1] cur = (cur + j) % idMax + 1 := by
  have hpos : 0 < idMax := by decide
  induction j generalizing cur with
  | zero =>
      change next cur = cur % idMax + 1
      unfold next
      split_ifs with hmax
      · rw [hmax, Nat.mod_self]
      · rw [Nat.mod_eq_of_lt (by omega)]
  | succ j ih =>
      rw [Function.iterate_succ_apply, ih (next_le h), next]
      split_ifs with hmax
      · rw [hmax, show idMax + (j + 1) = (1 + j) + idMax by omega, Nat.add_mod_right]
      · rw [show cur + 1 + j = cur + (j + 1) by omega]

/-- A search that fails has only met allocated identifiers. -/
theorem mem_of_search_eq_none {ids : List ℕ} {fuel cur : ℕ} (h : search ids fuel cur = none) :
    ∀ j < fuel, next^[j + 1] cur ∈ ids := by
  induction fuel generalizing cur with
  | zero => exact fun j hj => absurd hj (Nat.not_lt_zero j)
  | succ fuel ih =>
      rw [search] at h
      split_ifs at h with hmem
      intro j hj
      cases j with
      | zero => exact hmem
      | succ j =>
          rw [Function.iterate_succ_apply]
          exact ih h j (by omega)

/-- What a search finds is a valid identifier that is not allocated. -/
theorem search_spec {ids : List ℕ} {fuel cur id : ℕ} (hcur : cur ≤ idMax)
    (h : search ids fuel cur = some id) : id ∉ ids ∧ id ≠ kInvalid ∧ id ≤ idMax := by
  induction fuel generalizing cur with
  | zero => cases h
  | succ fuel ih =>
      rw [search] at h
      split_ifs at h with hmem
      · exact ih (next_le hcur) h
      · obtain rfl := Option.some.inj h
        exact ⟨hmem, next_ne_zero cur, next_le hcur⟩

/-- The loop of `allocate_id` ends: it meets one identifier more than are
allocated, all different. -/
theorem search_isSome (s : Ids) (h : s.ids.length ≠ kMaxNumOfIds) :
    (search s.ids (s.ids.length + 1) s.curId).isSome := by
  rw [Option.isSome_iff_ne_none]
  intro hnone
  have hlen := s.length_le
  have hlt : s.ids.length + 1 ≤ idMax := by
    unfold kMaxNumOfIds at hlen h
    omega
  have hnodup : ((List.range (s.ids.length + 1)).map fun j => next^[j + 1] s.curId).Nodup := by
    refine List.Nodup.map_on (fun i hi j hj hij => ?_) List.nodup_range
    rw [iterate_next s.curId_le, iterate_next s.curId_le] at hij
    have hmod : i % idMax = j % idMax := Nat.ModEq.add_left_cancel' s.curId (Nat.succ.inj hij)
    have hi' := List.mem_range.1 hi
    have hj' := List.mem_range.1 hj
    rwa [Nat.mod_eq_of_lt (by omega), Nat.mod_eq_of_lt (by omega)] at hmod
  have hsub : ((List.range (s.ids.length + 1)).map fun j => next^[j + 1] s.curId) ⊆ s.ids := by
    intro id hid
    obtain ⟨j, hj, rfl⟩ := List.mem_map.1 hid
    exact mem_of_search_eq_none hnone j (List.mem_range.1 hj)
  have := (List.subperm_of_subset hnodup hsub).length_le
  simp only [List.length_map, List.length_range] at this
  omega

/-- The identifier `allocate_id` finds when there is one left. -/
def free (s : Ids) (h : s.ids.length ≠ kMaxNumOfIds) : ℕ :=
  (search s.ids (s.ids.length + 1) s.curId).get (s.search_isSome h)

theorem free_spec (s : Ids) (h : s.ids.length ≠ kMaxNumOfIds) :
    s.free h ∉ s.ids ∧ s.free h ≠ kInvalid ∧ s.free h ≤ idMax :=
  search_spec s.curId_le (Option.some_get _).symm

/-- The identifier after the last one is given if it is not allocated. -/
theorem free_eq_succ (s : Ids) (h : s.ids.length ≠ kMaxNumOfIds) (hcur : s.curId ≠ idMax)
    (hmem : s.curId + 1 ∉ s.ids) : s.free h = s.curId + 1 := by
  have hsearch : search s.ids (s.ids.length + 1) s.curId = some (s.curId + 1) := by
    rw [search, next, if_neg hcur, if_neg hmem]
  exact Option.get_of_eq_some _ hsearch

/-- The allocation of a free identifier. -/
def allocate (s : Ids) (h : s.ids.length ≠ kMaxNumOfIds) : Ids where
  ids := s.ids ++ [s.free h]
  curId := s.free h
  nodup := List.nodup_append.2 ⟨s.nodup, List.nodup_singleton _, fun a ha b hb => by
    obtain rfl := List.mem_singleton.1 hb
    exact fun hab => (s.free_spec h).1 (hab ▸ ha)⟩
  valid := fun id hid => (List.mem_append.1 hid).elim (s.valid id) fun hid => by
    rw [List.mem_singleton.1 hid]
    exact (s.free_spec h).2.1
  length_le := by
    have := s.length_le
    rw [List.length_append, List.length_singleton]
    omega
  curId_le := (s.free_spec h).2.2

/-- `allocate_id`. -/
def allocateId (s : Ids) : ℕ × Ids :=
  if h : s.ids.length = kMaxNumOfIds then (kInvalid, s) else (s.free h, s.allocate h)

/-- The state without some of the identifiers. -/
def keep (s : Ids) (ids : List ℕ) (h : ids.Sublist s.ids) : Ids where
  ids := ids
  curId := s.curId
  nodup := h.nodup s.nodup
  valid := fun id hid => s.valid id (h.subset hid)
  length_le := Nat.le_trans h.length_le s.length_le
  curId_le := s.curId_le

/-- `release_last_allocated_id`, undefined when no identifier is allocated. -/
def releaseLastAllocatedId (s : Ids) : Option Ids :=
  if s.ids = [] then none else some (s.keep s.ids.dropLast (List.dropLast_sublist _))

/-- `release_id`: the state after it, if the identifier was allocated. -/
def releaseId (s : Ids) (id : ℕ) : Option Ids :=
  if id ∈ s.ids then some (s.keep (s.ids.erase id) List.erase_sublist) else none

end Ids
end LibSwitcher
