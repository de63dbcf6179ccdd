/-
# The sections of a specification tree

The elements under `follower` and under `writer` in the tree of a specification
(`sectionOf`), and what the functions that change the tree do to them: a graft adds
a last element, a pruning takes one out, a loop visits them in order, and the other
section stays as it is.
-/

import LibSwitcher.Quiddity.Claw.ConnectionSpec

namespace LibSwitcher
namespace Claw

open InfoTree

/-- The elements of the section of a role, with their keys. -/
def sectionOf (role : Role) (t : InfoTree) : List (String × InfoTree) :=
  match t.child role.name with
  | some n => if isArray n then n.children else []
  | none => []

variable {role role' : Role} {t t' leaf : InfoTree} {id : ℕ} {path : String} {σ : Type}
  {fn : σ → InfoTree → σ × InfoTree} {s : σ}

/-- A section depends on the node of its role. -/
theorem sectionOf_congr (h : t'.child role.name = t.child role.name) :
    sectionOf role t' = sectionOf role t := by
  rw [sectionOf, sectionOf, h]

/-- A section with elements is an array of the tree. -/
theorem exists_section (h : sectionOf role t ≠ []) : ∃ n, t.child role.name = some n ∧
    isArray n = true ∧ n.children = sectionOf role t := by
  unfold sectionOf at h ⊢
  cases hn : t.child role.name with
  | none => simp [hn] at h
  | some n =>
      simp only [hn] at h ⊢
      by_cases harr : isArray n = true
      · exact ⟨n, rfl, harr, by rw [if_pos harr]⟩
      · rw [if_neg harr] at h
        exact absurd rfl h

/-- The path of an element. -/
theorem components_element (role : Role) (id : ℕ) :
    components (role.name ++ "." ++ toString id) = [role.name, toString id] :=
  components_pair role.plain_name (Components.plain_toString (by decide) id)

/-- The node of the role after a graft under a new identifier. -/
theorem child_graft_element {n : InfoTree} (hn : t.child role.name = some n)
    (hnew : toString id ∉ n.children.map Prod.fst) :
    (graft (role.name ++ "." ++ toString id) leaf t).child role.name =
      some (n.setChildren (n.children ++ [(toString id, leaf)])) := by
  rw [graft, components_element, if_neg (by simp), KeyTree.child_graft_self, hn, Option.getD_some,
    KeyTree.graft_singleton_of_not_mem hnew]

/-- A graft under a new identifier adds a last element. -/
theorem sectionOf_graft (hne : sectionOf role t ≠ [])
    (hnew : toString id ∉ (sectionOf role t).map Prod.fst) :
    sectionOf role (graft (role.name ++ "." ++ toString id) leaf t) =
      sectionOf role t ++ [(toString id, leaf)] := by
  obtain ⟨n, hn, harr, hcs⟩ := exists_section hne
  rw [← hcs] at hnew ⊢
  rw [sectionOf, child_graft_element hn hnew]
  exact if_pos harr

/-- A graft in a section leaves the other one. -/
theorem sectionOf_graft_ne (role : Role) (h : role'.name ≠ role.name) :
    sectionOf role' (graft (role.name ++ "." ++ toString id) leaf t) = sectionOf role' t := by
  refine sectionOf_congr ?_
  rw [graft, components_element, if_neg (by simp), KeyTree.child_graft_ne h]

/-- Pruning an element takes it out of its section. -/
theorem sectionOf_prune :
    sectionOf role (prune (role.name ++ "." ++ toString id) t) =
      KeyTree.eraseKey (toString id) (sectionOf role t) := by
  rw [prune, components_element]
  cases hn : t.child role.name with
  | none =>
      have hsec : sectionOf role t = [] := by rw [sectionOf, hn]
      rw [KeyTree.prune, hn, hsec]
      rfl
  | some n =>
      rw [KeyTree.prune_cons_of_child hn (by simp), sectionOf, KeyTree.child_setKey_self, sectionOf,
        hn]
      change (if isArray n then KeyTree.eraseKey (toString id) n.children else []) =
        KeyTree.eraseKey (toString id) (if isArray n then n.children else [])
      split_ifs <;> rfl

/-- Pruning in a section leaves the other one. -/
theorem sectionOf_prune_ne (role : Role) (h : role'.name ≠ role.name) :
    sectionOf role' (prune (role.name ++ "." ++ toString id) t) = sectionOf role' t := by
  refine sectionOf_congr ?_
  rw [prune, components_element]
  cases hn : t.child role.name with
  | none => rw [KeyTree.prune, hn]
  | some n => rw [KeyTree.prune_cons_of_child hn (by simp), KeyTree.child_setKey_ne h]

/-- The loop over a section visits its elements. -/
theorem forEachInArray_section (hpath : components path = [role.name])
    (hbranch : branch path t = t.child role.name) :
    (forEachInArray path fn s t).1 = (visit fn s (sectionOf role t)).1 ∧
      sectionOf role (forEachInArray path fn s t).2 = (visit fn s (sectionOf role t)).2 := by
  rw [forEachInArray, hbranch, hpath, sectionOf]
  cases hn : t.child role.name with
  | none =>
      simp only [sectionOf, hn]
      exact ⟨rfl, rfl⟩
  | some n =>
      by_cases harr : isArray n = true
      · simp only [if_pos harr, sectionOf, KeyTree.modify_cons_of_child hn,
          KeyTree.child_setKey_self]
        exact ⟨trivial, if_pos harr⟩
      · simp only [if_neg harr, sectionOf, hn]
        exact ⟨rfl, rfl⟩

/-- The loop over a section leaves the other one. -/
theorem sectionOf_forEachInArray_ne (hpath : components path = [role.name])
    (h : role'.name ≠ role.name) :
    sectionOf role' (forEachInArray path fn s t).2 = sectionOf role' t := by
  refine sectionOf_congr ?_
  unfold forEachInArray
  cases branch path t with
  | none => rfl
  | some n =>
      by_cases harr : isArray n = true
      · simp only [if_pos harr, hpath]
        cases hn : t.child role.name with
        | none => rw [KeyTree.modify, hn]
        | some c => rw [KeyTree.modify_cons_of_child hn, KeyTree.child_setKey_ne h]
      · simp only [if_neg harr]

end Claw
end LibSwitcher
