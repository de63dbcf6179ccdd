/-
# The information tree

`switcher/infotree/information-tree.cpp`: a tree whose nodes hold a value and the
tag of an array, with an ordered list of keyed children.  The functions take a
path as a string, read between dots; empty components do not count, so that the
path without any component denotes no node, and `.` and `..` are understood as the
root by some functions only (`pathIsRoot`).

A tree is a value here: the code shares nodes, and where it modifies a node
through a pointer the model applies a function at the place of that node.
-/

import LibSwitcher.Lib.Components
import LibSwitcher.Lib.TreeEdits
import LibSwitcher.Utils.Any
import LibSwitcher.Utils.StringUtils

namespace LibSwitcher

/-- What a node holds: `data_` and `is_array_`. -/
structure NodeData where
  data : Any
  isArray : Bool
  deriving DecidableEq

/-- An `InfoTree`. -/
abbrev InfoTree := KeyTree String NodeData

namespace InfoTree

/-- The value of the root, `read_data()`. -/
def data (t : InfoTree) : Any := t.label.data

/-- `is_leaf()`. -/
def isLeaf (t : InfoTree) : Bool := t.children.isEmpty

/-- `is_array()`. -/
def isArray (t : InfoTree) : Bool := t.label.isArray

/-- What `make()` puts in a node. -/
def emptyNode : NodeData := ⟨.null, false⟩

/-- `make()`. -/
def make : InfoTree := .node emptyNode []

/-- `make(value)`. -/
def makeValue (v : Any) : InfoTree := .node ⟨v, false⟩ []

/-- `set_value` on the root. -/
def setValue (v : Any) (t : InfoTree) : InfoTree := t.setLabel ⟨v, t.isArray⟩

/-- `make_array` on the root. -/
def makeArray (b : Bool) (t : InfoTree) : InfoTree := t.setLabel ⟨t.data, b⟩

/-- `escape_dots`. -/
def escapeDots (str : String) : String := Stringutils.replaceChar str '.' "__DOT__"

/-- `unescape_dots`. -/
def unescapeDots (str : String) : String := Stringutils.replaceString str "__DOT__" "."

/-- The keys `get_next` and `graft_next` read from a path. -/
def components (path : String) : List String := Components.components '.' path

/-- `path_is_root`. -/
def pathIsRoot (path : String) : Bool := path = "." || path = ".."

/-- `get_node`. -/
def getNode (path : String) (t : InfoTree) : Option InfoTree :=
  if components path = [] then none else t.get (components path)

/-- The node the reading functions look at. -/
def branch (path : String) (t : InfoTree) : Option InfoTree :=
  if pathIsRoot path then some t else getNode path t

/-- `branch_get_value`. -/
def branchGetValue (path : String) (t : InfoTree) : Any :=
  ((branch path t).map data).getD .null

/-- `branch_has_data`. -/
def branchHasData (path : String) (t : InfoTree) : Bool := branchGetValue path t ≠ .null

/-- `branch_is_array`, which answers for the root whether it has no child. -/
def branchIsArray (path : String) (t : InfoTree) : Bool :=
  if pathIsRoot path then t.children.isEmpty else ((getNode path t).map isArray).getD false

/-- `get_child_keys`. -/
def getChildKeys (path : String) (t : InfoTree) : List String :=
  ((branch path t).map fun n => n.children.map Prod.fst).getD []

/-- `graft`; a path without component grafts nothing. -/
def graft (path : String) (tree t : InfoTree) : InfoTree :=
  if components path = [] then t else KeyTree.graft emptyNode (components path) t tree

/-- What `graft` returns. -/
def canGraft (path : String) : Bool := components path ≠ []

/-- `vgraft`. -/
def vgraft (path : String) (v : Any) (t : InfoTree) : InfoTree := graft path (makeValue v) t

/-- `get_tree`: a new tree when there is none at the path. -/
def getTree (path : String) (t : InfoTree) : InfoTree := (branch path t).getD make

/-- `empty()`. -/
def isEmpty (t : InfoTree) : Bool := t.children.isEmpty && t.data = .null

/-- `prune`. -/
def prune (path : String) (t : InfoTree) : InfoTree := KeyTree.prune (components path) t

/-- What `prune` returns: a null pointer when nothing is pruned. -/
def pruned (path : String) (t : InfoTree) : Option InfoTree := getNode path t

/-- `tag_as_array`: the tag of a node that is not there is lost. -/
def tagAsArray (path : String) (b : Bool) (t : InfoTree) : InfoTree :=
  if pathIsRoot path then makeArray b t
  else if components path = [] then t else KeyTree.modify (makeArray b) (components path) t

/-- The loop of `for_each_in_array`, whose function acts on a state and modifies
the element. -/
def visit {σ : Type} (fn : σ → InfoTree → σ × InfoTree) :
    σ → List (String × InfoTree) → σ × List (String × InfoTree)
  | s, [] => (s, [])
  | s, (k, e) :: es =>
      ((visit fn (fn s e).1 es).1, (k, (fn s e).2) :: (visit fn (fn s e).1 es).2)

/-- `for_each_in_array`: nothing is done if the path is not that of an array. -/
def forEachInArray {σ : Type} (path : String) (fn : σ → InfoTree → σ × InfoTree) (s : σ)
    (t : InfoTree) : σ × InfoTree :=
  match branch path t with
  | none => (s, t)
  | some n =>
      if n.isArray then
        ((visit fn s n.children).1,
          KeyTree.modify (fun n => n.setChildren (visit fn s n.children).2) (components path) t)
      else (s, t)

/-- The elements `cfor_each_in_array` goes through. -/
def elements (path : String) (t : InfoTree) : List InfoTree :=
  match branch path t with
  | none => []
  | some n => if n.isArray then n.children.map Prod.snd else []

/-! ### Paths -/

/-- The keys that paths can denote, different for siblings: what grafting makes. -/
abbrev WellKeyed (t : InfoTree) : Prop := KeyTree.WellKeyed (Components.Plain '.') t

theorem plain_of_mem_components {path k : String} (h : k ∈ components path) :
    Components.Plain '.' k :=
  Components.plain_of_mem h

theorem wellKeyed_makeValue (v : Any) : (makeValue v).WellKeyed := KeyTree.wellKeyed_nil _

theorem wellKeyed_graft {path : String} {tree t : InfoTree} (ht : t.WellKeyed)
    (htree : tree.WellKeyed) : (graft path tree t).WellKeyed := by
  unfold graft
  split_ifs
  · exact ht
  · exact KeyTree.WellKeyed.graft ht (fun k hk => plain_of_mem_components hk) htree

theorem wellKeyed_tagAsArray {path : String} {b : Bool} {t : InfoTree} (ht : t.WellKeyed) :
    (tagAsArray path b t).WellKeyed := by
  unfold tagAsArray
  split_ifs
  · exact KeyTree.WellKeyed.setLabel ht _
  · exact ht
  · exact KeyTree.WellKeyed.modify ht (fun t ht => KeyTree.WellKeyed.setLabel ht _)
      fun k hk => plain_of_mem_components hk

theorem wellKeyed_prune {path : String} {t : InfoTree} (ht : t.WellKeyed) :
    (prune path t).WellKeyed :=
  KeyTree.WellKeyed.prune ht _

theorem getChildKeys_root (t : InfoTree) : getChildKeys "." t = t.children.map Prod.fst := by
  rw [getChildKeys, branch, if_pos (by decide), Option.map_some, Option.getD_some]

theorem wellKeyed_branch {path : String} {t n : InfoTree} (ht : t.WellKeyed)
    (h : branch path t = some n) : n.WellKeyed := by
  unfold branch getNode at h
  split_ifs at h
  · obtain rfl := Option.some.inj h
    exact ht
  · exact KeyTree.WellKeyed.get ht h

theorem wellKeyed_getTree (path : String) {t : InfoTree} (ht : t.WellKeyed) :
    (getTree path t).WellKeyed := by
  unfold getTree
  cases h : branch path t with
  | none => exact wellKeyed_makeValue .null
  | some n => exact wellKeyed_branch ht h

/-- The keys that are listed are those that paths can denote. -/
theorem plain_of_mem_getChildKeys {path k : String} {t : InfoTree} (ht : t.WellKeyed)
    (hk : k ∈ getChildKeys path t) : Components.Plain '.' k := by
  unfold getChildKeys at hk
  cases h : branch path t with
  | none => simp [h] at hk
  | some n =>
      rw [h] at hk
      obtain ⟨e, he, rfl⟩ := List.mem_map.1 hk
      exact (wellKeyed_branch ht h).keys e he

/-- No key is listed twice. -/
theorem nodup_getChildKeys {path : String} {t : InfoTree} (ht : t.WellKeyed) :
    (getChildKeys path t).Nodup := by
  unfold getChildKeys
  cases h : branch path t with
  | none => exact List.nodup_nil
  | some n => exact (wellKeyed_branch ht h).nodup

/-- The trees that the functions make.  A node that is changed in its tree, through a
pointer, is one that is grafted again. -/
inductive Reachable : InfoTree → Prop
  | make : Reachable make
  | makeValue (v : Any) : Reachable (makeValue v)
  | setValue (v : Any) {t : InfoTree} (ht : Reachable t) : Reachable (setValue v t)
  | makeArray (b : Bool) {t : InfoTree} (ht : Reachable t) : Reachable (makeArray b t)
  | graft (path : String) {leaf t : InfoTree} (hleaf : Reachable leaf) (ht : Reachable t) :
      Reachable (graft path leaf t)
  | prune (path : String) {t : InfoTree} (ht : Reachable t) : Reachable (prune path t)
  | tagAsArray (path : String) (b : Bool) {t : InfoTree} (ht : Reachable t) :
      Reachable (tagAsArray path b t)
  | node {path : String} {t n : InfoTree} (ht : Reachable t) (hn : getNode path t = some n) :
      Reachable n

theorem Reachable.wellKeyed {t : InfoTree} (h : Reachable t) : t.WellKeyed := by
  induction h with
  | make => exact wellKeyed_makeValue .null
  | makeValue v => exact wellKeyed_makeValue v
  | setValue v _ ih => exact KeyTree.WellKeyed.setLabel ih _
  | makeArray b _ ih => exact KeyTree.WellKeyed.setLabel ih _
  | graft path _ _ hleaf ht => exact wellKeyed_graft ht hleaf
  | prune path _ ih => exact wellKeyed_prune ih
  | tagAsArray path b _ ih => exact wellKeyed_tagAsArray ih
  | node _ hn ih =>
      unfold getNode at hn
      split_ifs at hn
      exact KeyTree.WellKeyed.get ih hn

theorem pathIsRoot_of_components {path : String} (h : components path ≠ []) :
    pathIsRoot path = false := by
  unfold pathIsRoot
  rw [Bool.or_eq_false_iff, decide_eq_false_iff_not, decide_eq_false_iff_not]
  constructor
  · rintro rfl
    exact h (by decide)
  · rintro rfl
    exact h (by decide)

/-- A path with components denotes what they lead to. -/
theorem branch_eq_get {path : String} {t : InfoTree} (h : components path ≠ []) :
    branch path t = t.get (components path) := by
  rw [branch, pathIsRoot_of_components h, getNode, if_neg h]
  simp

/-! ### Paths of one or two keys -/

variable {t leaf n : InfoTree} {k k' : String}

theorem components_of_plain (hk : Components.Plain '.' k) : components k = [k] :=
  Components.components_of_plain hk

/-- No underscore in a position. -/
theorem not_infix_toString (i : ℕ) : ¬"__DOT__".toList <:+: (toString i).toList := by
  intro h
  have hplain : Components.Plain '_' (toString i) := Components.plain_toString (by decide) i
  exact hplain.2 (h.subset (by decide))

/-- The path of an element of a section. -/
theorem components_pair (hk : Components.Plain '.' k) (hk' : Components.Plain '.' k') :
    components (k ++ "." ++ k') = [k, k'] := by
  rw [components, Components.components_append_sep _ rfl, Components.components_of_plain hk,
    Components.components_of_plain hk', List.singleton_append]

/-- A plain path denotes a child. -/
theorem branch_of_plain (hk : Components.Plain '.' k) : branch k t = t.child k := by
  have hcomps := components_of_plain hk
  rw [branch_eq_get (by rw [hcomps]; simp), hcomps, KeyTree.get_singleton]

/-- A leading dot does not count. -/
theorem components_dot (hk : Components.Plain '.' k) : components ("." ++ k) = [k] := by
  have h : Components.components '.' ("" ++ "." ++ k) = _ :=
    Components.components_append_sep "" rfl k
  rw [Components.components_of_plain hk] at h
  exact h

theorem branch_dot (hk : Components.Plain '.' k) : branch ("." ++ k) t = t.child k := by
  have hcomps := components_dot hk
  rw [branch_eq_get (by rw [hcomps]; simp), hcomps, KeyTree.get_singleton]

/-- A new child is the last one. -/
theorem graft_new (hk : Components.Plain '.' k) (hnew : k ∉ t.children.map Prod.fst) :
    graft k n t = t.setChildren (t.children ++ [(k, n)]) := by
  rw [graft, components_of_plain hk, if_neg (by simp), KeyTree.graft_singleton_of_not_mem hnew]

/-- Grafting a value under a plain key gives the child of that key this value. -/
theorem branchGetValue_vgraft_self (hk : Components.Plain '.' k) (v : Any) :
    branchGetValue k (vgraft k v t) = v := by
  rw [branchGetValue, branch_of_plain hk, vgraft, graft, components_of_plain hk, if_neg (by simp),
    KeyTree.child_graft_self]
  rfl

/-- Grafting under a plain key leaves the other children. -/
theorem child_graft_ne (hk : Components.Plain '.' k) (h : k' ≠ k) :
    (graft k leaf t).child k' = t.child k' := by
  rw [graft, components_of_plain hk, if_neg (by simp), KeyTree.child_graft_ne h]

theorem child_vgraft_ne (hk : Components.Plain '.' k) (h : k' ≠ k) (v : Any) :
    (vgraft k v t).child k' = t.child k' :=
  child_graft_ne hk h

theorem branchGetValue_vgraft_ne (hk : Components.Plain '.' k) (hk' : Components.Plain '.' k')
    (h : k' ≠ k) (v : Any) : branchGetValue k' (vgraft k v t) = branchGetValue k' t := by
  rw [branchGetValue, branchGetValue, branch_of_plain hk', branch_of_plain hk',
    child_vgraft_ne hk h]

end InfoTree
end LibSwitcher
