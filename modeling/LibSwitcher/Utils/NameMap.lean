/-
# Ordered maps from names

The code keeps what belongs to a name in a `std::map<std::string, T>`.  Its entries are ordered by
their names, so that a search finds the smallest name with a property
(`find?_toList_eq_some_iff`).
-/

import Mathlib.Data.Nat.Notation
import Mathlib.Tactic.Common
import Std.Data.ExtTreeMap

namespace LibSwitcher

/-- An ordered map from names, `std::map<std::string, T>`. -/
abbrev NameMap (α : Type) := Std.ExtTreeMap String α

namespace NameMap

variable {α : Type} {m : NameMap α} {k k' : String} {v : α}

theorem compare_eq_iff : compare k k' = .eq ↔ k = k' :=
  ⟨Std.LawfulEqCmp.eq_of_compare, fun h => by rw [h]; exact Std.ReflCmp.compare_self⟩

theorem mem_insert : k' ∈ m.insert k v ↔ k' = k ∨ k' ∈ m := by
  rw [Std.ExtTreeMap.mem_insert, compare_eq_iff, eq_comm]

theorem mem_erase : k' ∈ m.erase k ↔ k' ≠ k ∧ k' ∈ m := by
  rw [Std.ExtTreeMap.mem_erase, Ne, compare_eq_iff, eq_comm]

/-- What is found after a value is set. -/
theorem getElem?_insert : (m.insert k v)[k']? = if k' = k then some v else m[k']? := by
  simp only [Std.ExtTreeMap.getElem?_insert, compare_eq_iff, eq_comm (a := k)]

/-- What is found after a value is taken out. -/
theorem getElem?_erase : (m.erase k)[k']? = if k' = k then none else m[k']? := by
  simp only [Std.ExtTreeMap.getElem?_erase, compare_eq_iff, eq_comm (a := k)]

theorem erase_of_not_mem (h : k ∉ m) : m.erase k = m := by
  refine Std.ExtTreeMap.ext_getElem? fun k' => ?_
  rw [getElem?_erase]
  split_ifs with hk
  · rw [hk, Std.ExtTreeMap.getElem?_eq_none h]
  · rfl

theorem mem_toList_iff {e : String × α} : e ∈ m.toList ↔ m[e.1]? = some e.2 :=
  Std.ExtTreeMap.mem_toList_iff_getElem?_eq_some

/-- No key has a property. -/
theorem find?_toList_eq_none_iff {q : String → Bool} :
    m.toList.find? (fun e => q e.1) = none ↔ ∀ k ∈ m, q k = false := by
  rw [List.find?_eq_none]
  constructor
  · intro h k hk
    obtain ⟨v, hv⟩ := Option.isSome_iff_exists.1 (Std.ExtTreeMap.mem_iff_isSome_getElem?.1 hk)
    exact Bool.eq_false_iff.2 (h (k, v) (mem_toList_iff.2 hv))
  · intro h e he
    have hmem : e.1 ∈ m := by
      rw [Std.ExtTreeMap.mem_iff_isSome_getElem?, mem_toList_iff.1 he]
      rfl
    rw [h e.1 hmem]
    exact Bool.false_ne_true

/-- The first entry whose key has a property: no smaller key has it. -/
theorem find?_toList_eq_some_iff {q : String → Bool} :
    m.toList.find? (fun e => q e.1) = some (k, v) ↔
      m[k]? = some v ∧ q k = true ∧ ∀ k' ∈ m, compare k' k = .lt → q k' = false := by
  have hordered := Std.ExtTreeMap.ordered_keys_toList (t := m)
  rw [List.find?_eq_some_iff_append]
  constructor
  · rintro ⟨hq, as, bs, hsplit, has⟩
    refine ⟨mem_toList_iff.1 (hsplit ▸ List.mem_append_right _ List.mem_cons_self), hq,
      fun k' hk' hlt => ?_⟩
    obtain ⟨v', hv'⟩ := Option.isSome_iff_exists.1 (Std.ExtTreeMap.mem_iff_isSome_getElem?.1 hk')
    have hmem : (k', v') ∈ as ++ (k, v) :: bs := hsplit ▸ mem_toList_iff.2 hv'
    rw [hsplit, List.pairwise_append, List.pairwise_cons] at hordered
    rcases List.mem_append.1 hmem with hmem | hmem
    · simpa using has _ hmem
    · rcases List.mem_cons.1 hmem with heq | hmem
      · obtain rfl := (Prod.mk.inj heq).1
        exact absurd (Std.ReflCmp.compare_self.symm.trans hlt) (by decide)
      · have hgt := hordered.2.1.1 _ hmem
        exact absurd ((Std.OrientedCmp.gt_of_lt hgt).symm.trans hlt) (by decide)
  · rintro ⟨hv, hq, hsmaller⟩
    obtain ⟨as, bs, hsplit⟩ := List.append_of_mem (mem_toList_iff (e := (k, v)).2 hv)
    refine ⟨hq, as, bs, hsplit, fun e he => ?_⟩
    rw [hsplit, List.pairwise_append] at hordered
    have hmem : e.1 ∈ m := by
      rw [Std.ExtTreeMap.mem_iff_isSome_getElem?,
        mem_toList_iff.1 (hsplit ▸ List.mem_append_left _ he)]
      rfl
    rw [hsmaller e.1 hmem (hordered.2.2 e he _ List.mem_cons_self)]
    rfl

end NameMap
end LibSwitcher
