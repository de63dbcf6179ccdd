/-
# Ordered maps from identifiers

The code keeps what belongs to an identifier in a `std::map<Ids::id_t, T>`.
`emplace` enters a value if the identifier has none, and an iteration goes through
the identifiers in increasing order, so that a new largest one comes last
(`toList_emplace_of_lt`).
-/

import Mathlib.Data.List.Perm.Basic
import Mathlib.Data.Nat.Notation
import Mathlib.Tactic.Common
import Std.Data.ExtTreeMap

namespace LibSwitcher

/-- An ordered map from identifiers, `std::map<Ids::id_t, T>`. -/
abbrev IdMap (α : Type) := Std.ExtTreeMap ℕ α

namespace IdMap

variable {α : Type} {m : IdMap α} {k k' : ℕ} {v : α}

theorem compare_eq_iff : compare k k' = .eq ↔ k = k' :=
  ⟨Std.LawfulEqCmp.eq_of_compare, fun h => by rw [h]; exact Std.ReflCmp.compare_self⟩

theorem mem_emplace : k' ∈ m.insertIfNew k v ↔ k' = k ∨ k' ∈ m := by
  rw [Std.ExtTreeMap.mem_insertIfNew, compare_eq_iff, eq_comm]

theorem mem_insert : k' ∈ m.insert k v ↔ k' = k ∨ k' ∈ m := by
  rw [Std.ExtTreeMap.mem_insert, compare_eq_iff, eq_comm]

theorem mem_erase : k' ∈ m.erase k ↔ k' ≠ k ∧ k' ∈ m := by
  rw [Std.ExtTreeMap.mem_erase, Ne, compare_eq_iff, eq_comm]

theorem getElem?_emplace_self (h : k ∉ m) : (m.insertIfNew k v)[k]? = some v := by
  rw [Std.ExtTreeMap.getElem?_insertIfNew, if_pos ⟨compare_eq_iff.2 rfl, h⟩]

theorem getElem?_emplace_ne (h : k' ≠ k) : (m.insertIfNew k v)[k']? = m[k']? := by
  rw [Std.ExtTreeMap.getElem?_insertIfNew, if_neg fun hk => h (compare_eq_iff.1 hk.1).symm]

/-- An identifier that has a value keeps it. -/
theorem getElem?_emplace_of_mem (h : k' ∈ m) : (m.insertIfNew k v)[k']? = m[k']? := by
  refine Std.ExtTreeMap.getElem?_insertIfNew.trans (if_neg fun hk => hk.2 ?_)
  rwa [compare_eq_iff.1 hk.1]

/-- What is found after a new identifier is entered. -/
theorem getElem?_emplace (h : k ∉ m) :
    (m.insertIfNew k v)[k']? = if k' = k then some v else m[k']? := by
  split_ifs with heq
  · rw [heq, getElem?_emplace_self h]
  · exact getElem?_emplace_ne heq

/-- An identifier that has a value leaves the map as it is. -/
theorem emplace_of_mem (h : k ∈ m) : m.insertIfNew k v = m := by
  refine Std.ExtTreeMap.ext_getElem? fun k' => ?_
  by_cases heq : k' = k
  · rw [heq, getElem?_emplace_of_mem h]
  · exact getElem?_emplace_ne heq

theorem getElem?_erase_ne (h : k' ≠ k) : (m.erase k)[k']? = m[k']? := by
  rw [Std.ExtTreeMap.getElem?_erase, if_neg fun hk => h (compare_eq_iff.1 hk).symm]

theorem getElem?_insert_ne (h : k' ≠ k) : (m.insert k v)[k']? = m[k']? := by
  rw [Std.ExtTreeMap.getElem?_insert, if_neg fun hk => h (compare_eq_iff.1 hk).symm]

/-- What is found after a value is set. -/
theorem getElem?_insert : (m.insert k v)[k']? = if k' = k then some v else m[k']? := by
  simp only [Std.ExtTreeMap.getElem?_insert, compare_eq_iff, eq_comm (a := k)]

/-- What is found after a value is taken out. -/
theorem getElem?_erase : (m.erase k)[k']? = if k' = k then none else m[k']? := by
  simp only [Std.ExtTreeMap.getElem?_erase, compare_eq_iff, eq_comm (a := k)]

theorem getElem?_eq_none_iff : m[k]? = none ↔ k ∉ m := by
  rw [Std.ExtTreeMap.mem_iff_isSome_getElem?, Option.not_isSome_iff_eq_none]

/-- Erasing what `emplace` has entered gives the map back. -/
theorem erase_emplace (h : k ∉ m) : (m.insertIfNew k v).erase k = m := by
  refine Std.ExtTreeMap.ext_getElem? fun k' => ?_
  rcases eq_or_ne k' k with rfl | hne
  · rw [Std.ExtTreeMap.getElem?_erase_self, getElem?_eq_none_iff.2 h]
  · rw [getElem?_erase_ne hne, getElem?_emplace_ne hne]

/-- A list in the order of the identifiers has each of them once. -/
theorem nodup_of_ordered {l : List (ℕ × α)} (h : l.Pairwise fun a b => compare a.1 b.1 = .lt) :
    l.Nodup :=
  h.imp fun hab heq => by
    rw [heq] at hab
    exact absurd (Nat.compare_eq_lt.1 hab) (Nat.lt_irrefl _)

theorem nodup_toList (m : IdMap α) : m.toList.Nodup :=
  nodup_of_ordered Std.ExtTreeMap.ordered_keys_toList

/-- The identifiers an iteration goes through. -/
theorem mem_map_fst_toList : k ∈ m.toList.map Prod.fst ↔ k ∈ m := by
  rw [Std.ExtTreeMap.map_fst_toList_eq_keys, Std.ExtTreeMap.mem_keys]

/-- A new largest identifier comes last. -/
theorem toList_emplace_of_lt (h : ∀ k' ∈ m, k' < k) (v : α) :
    (m.insertIfNew k v).toList = m.toList ++ [(k, v)] := by
  have hk : k ∉ m := fun hk => absurd (h k hk) (Nat.lt_irrefl k)
  have hsorted : (m.toList ++ [(k, v)]).Pairwise fun a b => compare a.1 b.1 = .lt := by
    rw [List.pairwise_append]
    refine ⟨Std.ExtTreeMap.ordered_keys_toList, List.pairwise_singleton _ _, fun a ha b hb => ?_⟩
    rw [List.mem_singleton.1 hb]
    refine Nat.compare_eq_lt.2 (h a.1 (Std.ExtTreeMap.mem_iff_isSome_getElem?.2 ?_))
    rw [Std.ExtTreeMap.mem_toList_iff_getElem?_eq_some.1 ha]
    rfl
  have hmem : ∀ a, a ∈ (m.insertIfNew k v).toList ↔ a ∈ m.toList ++ [(k, v)] := by
    rintro ⟨k', v'⟩
    rw [List.mem_append, List.mem_singleton, Std.ExtTreeMap.mem_toList_iff_getElem?_eq_some,
      Std.ExtTreeMap.mem_toList_iff_getElem?_eq_some, Prod.mk.injEq]
    rcases eq_or_ne k' k with rfl | hne
    · rw [getElem?_emplace_self hk, getElem?_eq_none_iff.2 hk]
      simp [eq_comm]
    · rw [getElem?_emplace_ne hne]
      simp [hne]
  refine ((List.perm_ext_iff_of_nodup (nodup_toList _) (nodup_of_ordered hsorted)).2
    hmem).eq_of_pairwise ?_ Std.ExtTreeMap.ordered_keys_toList hsorted
  intro a b _ _ hab hba
  have := Nat.compare_eq_lt.1 hab
  have := Nat.compare_eq_lt.1 hba
  omega

/-- The map numbers the values of a list from `1` on. -/
structure Enumerates (m : IdMap α) (l : List α) : Prop where
  zero : m[0]? = none
  succ : ∀ i, m[i + 1]? = l[i]?
  values : m.toList.map Prod.snd = l

theorem enumerates_empty : Enumerates (∅ : IdMap α) [] where
  zero := Std.ExtTreeMap.getElem?_empty
  succ := fun _ => Std.ExtTreeMap.getElem?_empty
  values := by simp

namespace Enumerates

variable {l : List α} {id : ℕ}

theorem mem_iff (h : Enumerates m l) : id ∈ m ↔ id ∈ List.range' 1 l.length := by
  rw [Std.ExtTreeMap.mem_iff_isSome_getElem?, List.mem_range'_1]
  cases id with
  | zero => simp [h.zero]
  | succ i =>
      rw [h.succ, isSome_getElem?]
      omega

/-- The next number is that of a value added at the end. -/
theorem emplace (h : Enumerates m l) (v : α) :
    Enumerates (m.insertIfNew (l.length + 1) v) (l ++ [v]) := by
  have hlt : ∀ id ∈ m, id < l.length + 1 := fun id hid => by
    have := List.mem_range'_1.1 (h.mem_iff.1 hid)
    omega
  have hnew : l.length + 1 ∉ m := fun hid => absurd (hlt _ hid) (Nat.lt_irrefl _)
  constructor
  · rw [getElem?_emplace_ne (by omega), h.zero]
  · intro i
    rcases Nat.lt_trichotomy i l.length with hi | rfl | hi
    · rw [getElem?_emplace_ne (by omega), h.succ, List.getElem?_append_left hi]
    · rw [getElem?_emplace_self hnew, List.getElem?_concat_length]
    · rw [getElem?_emplace_ne (by omega), h.succ, List.getElem?_eq_none (by omega),
        List.getElem?_eq_none (by rw [List.length_append, List.length_singleton]; omega)]
  · rw [toList_emplace_of_lt hlt, List.map_append, h.values]
    rfl

end Enumerates
end IdMap
end LibSwitcher
