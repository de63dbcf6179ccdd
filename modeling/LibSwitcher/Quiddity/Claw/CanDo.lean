/-
# The types an element shows

The entries under `can_do` are what an element of a specification shows of the types
of its point (`canDo`).  The functions that make elements graft them one by one
under their index and then tag the node as an array; everything else in the element
is left as it is.
-/

import LibSwitcher.Quiddity.Claw.ConnectionSpec

namespace LibSwitcher
namespace Claw

open InfoTree ConnectionSpec

/-- The values under `can_do`, in order. -/
def canDo (e : InfoTree) : List Any := (elements "can_do" e).map InfoTree.data

/-- The children of the node `can_do`. -/
def canDoChildren (e : InfoTree) : List (String × InfoTree) :=
  ((e.child "can_do").map KeyTree.children).getD []

variable {τ : Type} {x : Externals τ} {e e' tree : InfoTree} {k : String}

theorem plain_can_do : Components.Plain '.' "can_do" := by decide

/-- What is under `can_do` depends on this child. -/
theorem canDo_congr (h : e'.child "can_do" = e.child "can_do") : canDo e' = canDo e := by
  rw [canDo, canDo, elements, elements, branch_of_plain plain_can_do, branch_of_plain plain_can_do,
    h]

/-! ### Tagging the node -/

theorem child_tagAsArray_ne (hk : k ≠ "can_do") (b : Bool) :
    (tagAsArray "can_do" b e).child k = e.child k := by
  rw [tagAsArray, if_neg (by decide), if_neg (by decide), components_of_plain plain_can_do]
  cases h : e.child "can_do" with
  | none => rw [KeyTree.modify, h]
  | some n => rw [KeyTree.modify_cons_of_child h, KeyTree.child_setKey_ne hk]

/-- The children of the tagged node are its elements. -/
theorem canDo_tagAsArray : canDo (tagAsArray "can_do" true e) =
    (canDoChildren e).map fun c => InfoTree.data c.2 := by
  rw [canDo, elements, branch_of_plain plain_can_do, tagAsArray, if_neg (by decide),
    if_neg (by decide), components_of_plain plain_can_do, canDoChildren]
  cases h : e.child "can_do" with
  | none =>
      rw [KeyTree.modify, h]
      simp [h]
  | some n =>
      rw [KeyTree.modify_cons_of_child h, KeyTree.child_setKey_self]
      simp [KeyTree.modify, makeArray, InfoTree.isArray]

/-! ### Grafting entries -/

theorem components_entry (i : ℕ) :
    components ("can_do" ++ "." ++ toString i) = ["can_do", toString i] :=
  components_pair plain_can_do (Components.plain_toString (by decide) i)

theorem child_graftCanDo_ne (hk : k ≠ "can_do") (i : ℕ) (canDos : List String) :
    (graftCanDo i canDos e).child k = e.child k := by
  induction canDos generalizing i e with
  | nil => rfl
  | cons c rest ih =>
      rw [graftCanDo, ih, vgraft, graft, components_entry, if_neg (by simp),
        KeyTree.child_graft_ne hk]

/-- An entry under a new index is added at the end. -/
theorem canDoChildren_vgraft {i : ℕ} (hnew : toString i ∉ (canDoChildren e).map Prod.fst) (v : Any) :
    canDoChildren (vgraft ("can_do" ++ "." ++ toString i) v e) =
      canDoChildren e ++ [(toString i, makeValue v)] := by
  have hchildren : ((e.child "can_do").getD (.node emptyNode [])).children = canDoChildren e := by
    rw [canDoChildren]
    cases e.child "can_do" <;> rfl
  rw [canDoChildren, vgraft, graft, components_entry, if_neg (by simp), KeyTree.child_graft_self,
    KeyTree.graft_singleton_of_not_mem (hchildren ▸ hnew), hchildren]
  rfl

/-- The loop adds the entries from its index on. -/
theorem canDoChildren_graftCanDo (i : ℕ) (canDos : List String)
    (hkeys : (canDoChildren e).map Prod.fst = (List.range i).map toString) :
    (canDoChildren (graftCanDo i canDos e)).map (fun c => InfoTree.data c.2) =
      (canDoChildren e).map (fun c => InfoTree.data c.2) ++ canDos.map Any.str := by
  induction canDos generalizing i e with
  | nil => simp [graftCanDo]
  | cons c rest ih =>
      have hnew : toString i ∉ (canDoChildren e).map Prod.fst := by
        rw [hkeys, List.mem_map]
        rintro ⟨i', hi', heq⟩
        exact absurd (Components.toString_inj.1 heq) (Nat.ne_of_lt (List.mem_range.1 hi'))
      have hchildren := canDoChildren_vgraft hnew (.str c)
      rw [graftCanDo, ih (i + 1), hchildren, List.map_append, List.append_assoc]
      · rfl
      · rw [hchildren, List.map_append, hkeys, List.range_succ, List.map_append]
        rfl

/-! ### The elements the code makes -/

/-- The children of a dynamic writer besides its types. -/
theorem child_writerTree_ne (hk : k ≠ "can_do") (label : String) (id swid : ℕ)
    (description : String) (canDos : List String) :
    (writerTree label id swid description canDos).child k =
      ((((InfoTree.make.vgraft "label" (.str label)).vgraft "swid" (.id id)).vgraft
        "description" (.str description)).vgraft "from_swid" (.id swid)).child k := by
  rw [writerTree, child_tagAsArray_ne hk, child_graftCanDo_ne hk]

theorem canDo_writerTree (label : String) (id swid : ℕ) (description : String)
    (canDos : List String) : canDo (writerTree label id swid description canDos) =
      canDos.map Any.str := by
  have hnone : canDoChildren ((((InfoTree.make.vgraft "label" (.str label)).vgraft "swid"
      (.id id)).vgraft "description" (.str description)).vgraft "from_swid" (.id swid)) = [] := by
    rw [canDoChildren, child_vgraft_ne (by decide) (by decide),
      child_vgraft_ne (by decide) (by decide), child_vgraft_ne (by decide) (by decide),
      child_vgraft_ne (by decide) (by decide)]
    rfl
  rw [writerTree, canDo_tagAsArray, canDoChildren_graftCanDo 0 canDos (by rw [hnone]; rfl), hnone]
  rfl

/-- The children of an element besides its types do not change with them. -/
theorem child_replaceCanDo_ne (hk : k ≠ "can_do") (types : List τ) :
    (replaceCanDo x types e).child k = e.child k := by
  rw [replaceCanDo, child_tagAsArray_ne hk, child_graft_ne plain_can_do hk]

/-- The types an element shows after a replacement are the children of the tree of
types. -/
theorem canDo_replaceCanDo (types : List τ) : canDo (replaceCanDo x types e) =
    (typesTree x types).children.map fun c => InfoTree.data c.2 := by
  rw [replaceCanDo, canDo_tagAsArray, canDoChildren, graft, components_of_plain plain_can_do,
    if_neg (by simp), KeyTree.child_graft_self]
  rfl

end Claw
end LibSwitcher
