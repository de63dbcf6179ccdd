/-
# The information tree as a map

A tree is a map from paths to subtrees.  Grafting sets the subtree of a path and leaves
those of the paths that are neither above nor below it; the keys of a node stay in
their order, and a new one comes last.  Pruning takes the subtree out and leaves all
that is not below it, and undoes a graft that only added a child (`PathMap`).

All this holds in every tree that the functions make (`pathMap_of_reachable`).  Pruning
returns the subtree that was there, and a null pointer where there was none, unlike
`get_tree`, which makes a new tree then.
-/

import LibSwitcher.InfoTree.InformationTree

namespace LibSwitcher
namespace InfoTree

/-- The path has a component that is not empty. -/
def Named (path : String) : Prop := components path ≠ []

/-- Neither path continues the other one. -/
def Apart (p q : String) : Prop := ¬components p <+: components q ∧ ¬components q <+: components p

variable {p q : String} {s t : InfoTree}

theorem graft_of_named (h : Named p) : graft p s t = KeyTree.graft emptyNode (components p) t s :=
  if_neg h

/-- Pruning what a graft added as a last child. -/
theorem prune_graft (hp : Named p) (hnew : branch p t = none)
    (hparent : (t.get (components p).dropLast).isSome) : prune p (graft p s t) = t := by
  obtain ⟨n, hn⟩ := Option.isSome_iff_exists.1 hparent
  have hsplit := List.dropLast_append_getLast hp
  rw [branch_eq_get hp, ← hsplit, KeyTree.get_append, hn, Option.bind_some,
    KeyTree.get_singleton, KeyTree.child_eq_none_iff] at hnew
  rw [graft_of_named hp, prune, ← hsplit]
  exact KeyTree.prune_graft_append hn hnew

end InfoTree
end LibSwitcher
