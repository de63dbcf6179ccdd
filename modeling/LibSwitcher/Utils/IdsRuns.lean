/-
# Runs of identifiers

The calls of an `Ids` in any order, on its members as they are: the vector of the allocated identifiers
and the last one given out, with no more said about them than that `allocate_id` returns `kInvalid` if
the vector has `kMaxNumOfIds` elements and that its loop is given one turn more than it has.

What the calls should do is told by the times of the allocations (`Right`).  `right_of_admits` says that
they do in every run in which `release_last_allocated_id` is not called without an identifier: the
members are those of an `Ids` throughout, and the vector has the identifiers in the order in which they
were allocated.
-/

import LibSwitcher.Lib.Machine
import LibSwitcher.Utils.Ids
import Mathlib.Logic.Function.Basic

namespace LibSwitcher
namespace Ids

/-- The members of an `Ids`, with the number of the allocations so far and, for each identifier, the
number of the last one that has returned it. -/
structure Members where
  ids : List ℕ
  curId : ℕ
  clock : ℕ
  allocatedAt : ℕ → ℕ

/-- The calls. -/
inductive Call
  | allocateId
  | releaseId (id : ℕ)
  | releaseLastAllocatedId

/-- What a call returns. -/
inductive Returned
  | id (id : ℕ)
  | success (ok : Bool)
  | nothing
  deriving DecidableEq

namespace Members

/-- A new object. -/
def start : Members := ⟨[], kInvalid, 0, fun _ => 0⟩

/-- A call: undefined if the loop of `allocate_id` does not end after as many turns as there are
identifiers in the vector and one more, and if the last of no elements is erased. -/
def step (s : Members) : Call → Option (Members × Returned)
  | .allocateId =>
      if s.ids.length = kMaxNumOfIds then some (s, .id kInvalid)
      else (search s.ids (s.ids.length + 1) s.curId).map fun id =>
        (⟨s.ids ++ [id], id, s.clock + 1, Function.update s.allocatedAt id s.clock⟩, .id id)
  | .releaseId id =>
      if id ∈ s.ids then some ({ s with ids := s.ids.erase id }, .success true)
      else some (s, .success false)
  | .releaseLastAllocatedId =>
      if s.ids = [] then none else some ({ s with ids := s.ids.dropLast }, .nothing)

/-- Some identifier is allocated when the last one is released. -/
def CallOk (s : Members) : Call → Prop
  | .releaseLastAllocatedId => s.ids ≠ []
  | _ => True

instance decidableCallOk (s : Members) (c : Call) : Decidable (s.CallOk c) :=
  match c with
  | .allocateId | .releaseId _ => isTrue trivial
  | .releaseLastAllocatedId => inferInstanceAs (Decidable (s.ids ≠ []))

/-- What the calls do to the identifiers that are allocated, and what they return. -/
def Serves (s : Members) (c : Call) (r : Members × Returned) : Prop :=
  match c with
  | .allocateId => ∃ id, r.2 = .id id ∧ (id = kInvalid ↔ s.ids.length = kMaxNumOfIds) ∧
      id ∉ s.ids ∧ ∀ id', id' ∈ r.1.ids ↔ id' ∈ s.ids ∨ id' = id ∧ id ≠ kInvalid
  | .releaseId id => r.2 = .success (decide (id ∈ s.ids)) ∧
      ∀ id', id' ∈ r.1.ids ↔ id' ∈ s.ids ∧ id' ≠ id
  | .releaseLastAllocatedId => ∃ id ∈ s.ids,
      (∀ id' ∈ s.ids, id' ≠ id → s.allocatedAt id' < s.allocatedAt id) ∧
        ∀ id', id' ∈ r.1.ids ↔ id' ∈ s.ids ∧ id' ≠ id

/-- A call does what it should, and the identifiers that are allocated after it are different from each
other and from `kInvalid`. -/
structure Right (s : Members) (c : Call) (r : Members × Returned) : Prop where
  serves : s.Serves c r
  nodup : r.1.ids.Nodup
  valid : kInvalid ∉ r.1.ids

/-! ### The order of the allocations -/

/-- The members of a state. -/
def Of (s : Members) (i : Ids) : Prop := s.ids = i.ids ∧ s.curId = i.curId

/-- The vector is in the order of the allocations, all of which are over. -/
structure Ordered (s : Members) : Prop where
  pairwise : s.ids.Pairwise fun id id' => s.allocatedAt id < s.allocatedAt id'
  lt_clock : ∀ id ∈ s.ids, s.allocatedAt id < s.clock

variable {s : Members} {i : Ids} {r : Members × Returned}

/-- Fewer identifiers are in order as well. -/
theorem Ordered.keep (h : s.Ordered) {ids : List ℕ} (hsub : ids.Sublist s.ids) :
    Ordered { s with ids := ids } where
  pairwise := h.pairwise.sublist hsub
  lt_clock id hid := h.lt_clock id (hsub.subset hid)

/-- A new identifier comes last. -/
theorem Ordered.allocate (h : s.Ordered) {id : ℕ} (hnew : id ∉ s.ids) :
    Ordered ⟨s.ids ++ [id], id, s.clock + 1, Function.update s.allocatedAt id s.clock⟩ := by
  have hold : ∀ id' ∈ s.ids, Function.update s.allocatedAt id s.clock id' = s.allocatedAt id' :=
    fun id' hid' => Function.update_of_ne (ne_of_mem_of_not_mem hid' hnew) _ _
  have hself : Function.update s.allocatedAt id s.clock id = s.clock := Function.update_self _ _ _
  constructor
  · refine List.pairwise_append.2 ⟨?_, List.pairwise_singleton _ _, fun id' hid' last hlast => ?_⟩
    · refine h.pairwise.imp_of_mem fun ha hb hlt => ?_
      exact lt_of_eq_of_lt (hold _ ha) (lt_of_lt_of_eq hlt (hold _ hb).symm)
    · rw [List.mem_singleton.1 hlast]
      exact lt_of_eq_of_lt (hold id' hid') (lt_of_lt_of_eq (h.lt_clock id' hid') hself.symm)
  · intro id' hid'
    change Function.update s.allocatedAt id s.clock id' < s.clock + 1
    rcases List.mem_append.1 hid' with hid' | hid'
    · rw [hold id' hid']
      exact Nat.lt_succ_of_lt (h.lt_clock id' hid')
    · rw [List.mem_singleton.1 hid', hself]
      exact Nat.lt_succ_self _

/-- The members are those of an `Ids`, and in order. -/
structure Inv (s : Members) : Prop where
  of : ∃ i : Ids, s.Of i
  ordered : s.Ordered

theorem inv_start : start.Inv where
  of := ⟨empty, rfl, rfl⟩
  ordered := ⟨List.Pairwise.nil, fun _ h => absurd h List.not_mem_nil⟩

theorem nodup_of_of (h : s.Of i) : s.ids.Nodup := h.1 ▸ i.nodup

theorem valid_of_of (h : s.Of i) : kInvalid ∉ s.ids := fun hmem => i.valid _ (h.1 ▸ hmem) rfl

/-- The call of `allocate_id`, of the members of an `Ids`: the loop ends. -/
theorem step_allocateId (h : s.Of i) (hfree : i.ids.length ≠ kMaxNumOfIds) :
    s.step .allocateId = some (⟨s.ids ++ [i.free hfree], i.free hfree, s.clock + 1,
      Function.update s.allocatedAt (i.free hfree) s.clock⟩, .id (i.free hfree)) := by
  have hsearch : search s.ids (s.ids.length + 1) s.curId = some (i.free hfree) := by
    rw [h.1, h.2]
    exact (Option.some_get (i.search_isSome hfree)).symm
  rw [step, if_neg (h.1 ▸ hfree), hsearch, Option.map_some]

theorem allocateId_right (h : s.Inv) :
    ∃ r, s.step .allocateId = some r ∧ s.Right .allocateId r ∧ r.1.Inv := by
  obtain ⟨⟨i, hi⟩, hordered⟩ := h
  by_cases hfull : i.ids.length = kMaxNumOfIds
  · have hfull' : s.ids.length = kMaxNumOfIds := hi.1 ▸ hfull
    refine ⟨(s, .id kInvalid), if_pos hfull', ⟨?_, nodup_of_of hi, valid_of_of hi⟩, ⟨i, hi⟩, hordered⟩
    refine ⟨kInvalid, rfl, iff_of_true rfl hfull', valid_of_of hi, fun id' => ?_⟩
    exact ⟨Or.inl, fun h => h.resolve_right fun h => h.2 rfl⟩
  · have hnext : Of ⟨s.ids ++ [i.free hfull], i.free hfull, s.clock + 1,
        Function.update s.allocatedAt (i.free hfull) s.clock⟩ (i.allocate hfull) :=
      ⟨congrArg (· ++ _) hi.1, rfl⟩
    obtain ⟨hnew, hvalid, -⟩ := i.free_spec hfull
    have hnew' : i.free hfull ∉ s.ids := hi.1 ▸ hnew
    refine ⟨_, step_allocateId hi hfull, ⟨?_, nodup_of_of hnext, valid_of_of hnext⟩,
      ⟨_, hnext⟩, hordered.allocate hnew'⟩
    refine ⟨i.free hfull, rfl, iff_of_false hvalid (hi.1 ▸ hfull), hnew', fun id' => ?_⟩
    rw [and_iff_left hvalid, List.mem_append, List.mem_singleton]

theorem releaseId_right (h : s.Inv) (id : ℕ) :
    ∃ r, s.step (.releaseId id) = some r ∧ s.Right (.releaseId id) r ∧ r.1.Inv := by
  obtain ⟨⟨i, hi⟩, hordered⟩ := h
  by_cases hmem : id ∈ s.ids
  · have hsub : (s.ids.erase id).Sublist i.ids := hi.1 ▸ List.erase_sublist
    have hnext : Of { s with ids := s.ids.erase id } (i.keep _ hsub) := ⟨rfl, hi.2⟩
    refine ⟨_, if_pos hmem, ⟨?_, nodup_of_of hnext, valid_of_of hnext⟩, ⟨_, hnext⟩,
      hordered.keep List.erase_sublist⟩
    refine ⟨congrArg Returned.success (decide_eq_true hmem).symm, fun id' => ?_⟩
    exact ((nodup_of_of hi).mem_erase_iff).trans and_comm
  · refine ⟨_, if_neg hmem, ⟨?_, nodup_of_of hi, valid_of_of hi⟩, ⟨i, hi⟩, hordered⟩
    refine ⟨congrArg Returned.success (decide_eq_false hmem).symm, fun id' => ?_⟩
    exact (and_iff_left_of_imp fun hid' => ne_of_mem_of_not_mem hid' hmem).symm

/-- The last element of the vector was allocated last. -/
theorem releaseLastAllocatedId_right (h : s.Inv) (hne : s.ids ≠ []) :
    ∃ r, s.step .releaseLastAllocatedId = some r ∧ s.Right .releaseLastAllocatedId r ∧ r.1.Inv := by
  obtain ⟨⟨i, hi⟩, hordered⟩ := h
  have hsub : s.ids.dropLast.Sublist i.ids := hi.1 ▸ List.dropLast_sublist _
  have hnext : Of { s with ids := s.ids.dropLast } (i.keep _ hsub) := ⟨rfl, hi.2⟩
  refine ⟨_, if_neg hne, ⟨?_, nodup_of_of hnext, valid_of_of hnext⟩, ⟨_, hnext⟩,
    hordered.keep (List.dropLast_sublist _)⟩
  have hsplit : s.ids.dropLast ++ [s.ids.getLast hne] = s.ids := List.dropLast_append_getLast hne
  have hpairwise := hordered.pairwise
  have hnodup := nodup_of_of hi
  rw [← hsplit] at hpairwise hnodup
  have hlast : s.ids.getLast hne ∉ s.ids.dropLast := fun hmem =>
    (List.nodup_append.1 hnodup).2.2 _ hmem _ (List.mem_singleton_self _) rfl
  have hmem : ∀ id', id' ∈ s.ids ↔ id' ∈ s.ids.dropLast ∨ id' = s.ids.getLast hne := fun id' => by
    rw [← List.mem_singleton, ← List.mem_append, hsplit]
  refine ⟨s.ids.getLast hne, List.getLast_mem hne, fun id' hid' hid => ?_, fun id' => ?_⟩
  · exact (List.pairwise_append.1 hpairwise).2.2 id' (((hmem id').1 hid').resolve_right hid) _
      (List.mem_singleton_self _)
  · rw [hmem]
    constructor
    · exact fun hid' => ⟨Or.inl hid', ne_of_mem_of_not_mem hid' hlast⟩
    · exact fun hid' => hid'.1.resolve_right hid'.2

/-- **Identifiers are unique, the search for one ends, and the last one is released**, in every run in
which some identifier is allocated when the last one is released. -/
theorem right_of_admits (cs : List Call) (h : Machine.Admits step CallOk start cs) :
    Machine.Meets step Right start cs := by
  refine h.meets (I := Inv) (fun s c hs hok => ?_) inv_start
  cases c with
  | allocateId => exact allocateId_right hs
  | releaseId id => exact releaseId_right hs id
  | releaseLastAllocatedId => exact releaseLastAllocatedId_right hs hok

/-- An identifier in the middle is released, and then the last one. -/
theorem right_threeIds : Machine.Meets step Right start
    [.allocateId, .allocateId, .allocateId, .releaseId 2, .releaseLastAllocatedId, .allocateId] :=
  right_of_admits _ (by decide)

end Members
end Ids
end LibSwitcher
