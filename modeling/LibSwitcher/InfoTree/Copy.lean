/-
# Copies

`InfoTree::copy` walks a tree in preorder and grafts a node for each one it meets on
the result, at the path made of the keys on the way; before an element of an array it
tags the node above.  So a copy is the tree itself but for the tags of nodes that have no
child (`copy_eq_settle`), and holds its values (`valueAt_copy`).
-/

import LibSwitcher.InfoTree.InformationTree

namespace LibSwitcher
namespace InfoTree

/-- The path `copy` builds for the node it is in: each key on the way and a dot. -/
def keyPath (path : List String) : String := path.foldl (fun key it => key ++ it ++ ".") "."

/-- What `copy` does when it meets a node of a value under a name. -/
def copyNode (path : List String) (isArrayElement : Bool) (name : String) (value : Any)
    (res : InfoTree) : InfoTree :=
  graft (keyPath path ++ "." ++ name) (makeValue value)
    (if isArrayElement then tagAsArray (keyPath path) true res else res)

mutual

/-- `preorder_tree_walk` with the functions of `copy`. -/
def copyWalk (path : List String) : InfoTree → InfoTree → InfoTree
  | .node d cs, res => copyChildren path d.isArray cs res

/-- The loop of `preorder_tree_walk` on the children of a node. -/
def copyChildren (path : List String) (isArray : Bool) :
    List (String × InfoTree) → InfoTree → InfoTree
  | [], res => res
  | (name, c) :: cs, res =>
      copyChildren path isArray cs
        (copyWalk (path ++ [name]) c (copyNode path isArray name c.data res))

end

/-- `copy`. -/
def copy (tree : InfoTree) : InfoTree :=
  copyWalk [] tree (if tree.data ≠ .null then setValue tree.data make else make)

/-- `branch_get_copy`: a null pointer when there is no node at the path. -/
def branchGetCopy (path : String) (t : InfoTree) : Option InfoTree := (branch path t).map copy

/-! ### Values -/

/-- The value at a path of keys, null where there is no node. -/
def valueAt (p : List String) (t : InfoTree) : Any := ((t.get p).map data).getD .null

variable {t leaf : InfoTree} {p q : List String} {k path : String}

theorem branchGetValue_eq_valueAt (h : components path ≠ []) :
    branchGetValue path t = valueAt (components path) t := by
  rw [branchGetValue, branch_eq_get h, valueAt]

/-! ### The copy of a tree -/

theorem components_foldl (b : String) {path : List String}
    (h : ∀ k ∈ path, Components.Plain '.' k) :
    components (path.foldl (fun key it => key ++ it ++ ".") (b ++ ".")) = components b ++ path := by
  induction path generalizing b with
  | nil =>
      rw [List.foldl_nil, List.append_nil]
      exact Components.components_append_sep_empty b rfl
  | cons k ks ih =>
      have hk : components (b ++ "." ++ k) = components b ++ [k] := by
        rw [components, Components.components_append_sep _ rfl,
          Components.components_of_plain (h k (by simp)), components]
      rw [List.foldl_cons, ih (b ++ "." ++ k) fun k' hk' => h k' (List.mem_cons_of_mem _ hk'), hk,
        List.append_assoc, List.singleton_append]

theorem components_keyPath {path : List String} (h : ∀ k ∈ path, Components.Plain '.' k) :
    components (keyPath path) = path :=
  components_foldl "" h

/-- The keys of the path at which `copy` grafts a node. -/
theorem components_node {path : List String} {name : String}
    (h : ∀ k ∈ path, Components.Plain '.' k) (hname : Components.Plain '.' name) :
    components (keyPath path ++ "." ++ name) = path ++ [name] := by
  rw [components, Components.components_append_sep _ rfl, Components.components_of_plain hname]
  exact congrArg (· ++ [name]) (components_keyPath h)

mutual

/-- The tree without the tags of nodes that have no child. -/
def settle : InfoTree → InfoTree
  | .node d cs => .node ⟨d.data, d.isArray && !cs.isEmpty⟩ (settleChildren cs)

/-- The children of a node, settled. -/
def settleChildren : List (String × InfoTree) → List (String × InfoTree)
  | [] => []
  | (name, c) :: cs => (name, settle c) :: settleChildren cs

end

theorem settleChildren_eq_map (cs : List (String × InfoTree)) :
    settleChildren cs = cs.map fun e => (e.1, settle e.2) := by
  induction cs with
  | nil => rfl
  | cons e cs ih => rw [settleChildren, ih, List.map_cons]

/-- Tagging the node `copy` is in. -/
theorem tagAsArray_keyPath {path : List String} (h : ∀ k ∈ path, Components.Plain '.' k) (b : Bool)
    {res n : InfoTree} (hn : res.get path = some n) :
    tagAsArray (keyPath path) b res = KeyTree.graft emptyNode path res (makeArray b n) := by
  have hcomps := components_keyPath h
  cases path with
  | nil =>
      obtain rfl := Option.some.inj hn
      rfl
  | cons k ks =>
      rw [tagAsArray, pathIsRoot_of_components (by rw [hcomps]; simp), hcomps, if_neg (by simp),
        if_neg (by simp), KeyTree.modify_eq_graft hn]

/-- What `copy` makes of the node `n` it is in, when it meets a new child. -/
theorem copyNode_eq {path : List String} {name : String} (h : ∀ k ∈ path, Components.Plain '.' k)
    (hname : Components.Plain '.' name) (isArray : Bool) (v : Any) {res n : InfoTree}
    (hn : res.get path = some n) : copyNode path isArray name v res =
      KeyTree.graft emptyNode path res (KeyTree.graft emptyNode [name]
        (if isArray then makeArray true n else n) (makeValue v)) := by
  have hcomps := components_node h hname
  have htag : (if isArray then tagAsArray (keyPath path) true res else res) =
      KeyTree.graft emptyNode path res (if isArray then makeArray true n else n) := by
    split_ifs
    · exact tagAsArray_keyPath h true hn
    · exact (KeyTree.graft_get hn).symm
  rw [copyNode, htag, graft, hcomps, if_neg (by simp), KeyTree.graft_append, KeyTree.get_graft_self,
    Option.getD_some, KeyTree.graft_graft]

mutual

/-- The walk adds the children of a node, settled, and tags the node if there are any. -/
theorem copyWalk_eq {path : List String} (h : ∀ k ∈ path, Components.Plain '.' k)
    {res n : InfoTree} (hn : res.get path = some n) : (t : InfoTree) → t.WellKeyed →
    (∀ e ∈ t.children, e.1 ∉ n.children.map Prod.fst) →
    copyWalk path t res = KeyTree.graft emptyNode path res
      (.node ⟨n.data, n.isArray || t.isArray && !t.children.isEmpty⟩
        (n.children ++ settleChildren t.children))
  | .node d cs, ht, hnew => copyChildren_eq h d.isArray hn cs ht.keys ht.nodup ht.children hnew

/-- The loop over the children. -/
theorem copyChildren_eq {path : List String} (h : ∀ k ∈ path, Components.Plain '.' k)
    (isArray : Bool) {res n : InfoTree} (hn : res.get path = some n) :
    (cs : List (String × InfoTree)) → (∀ e ∈ cs, Components.Plain '.' e.1) →
    (cs.map Prod.fst).Nodup → (∀ e ∈ cs, WellKeyed e.2) →
    (∀ e ∈ cs, e.1 ∉ n.children.map Prod.fst) →
    copyChildren path isArray cs res = KeyTree.graft emptyNode path res
      (.node ⟨n.data, n.isArray || isArray && !cs.isEmpty⟩ (n.children ++ settleChildren cs))
  | [], _, _, _, _ => by
      obtain ⟨d, ns⟩ := n
      rw [copyChildren, settleChildren, List.append_nil, List.isEmpty_nil, Bool.not_true,
        Bool.and_false, Bool.or_false]
      exact (KeyTree.graft_get hn).symm
  | (name, c) :: cs, hkeys, hnodup, hcs, hnew => by
      have hname := hkeys (name, c) (by simp)
      have hc : c.WellKeyed := hcs (name, c) (by simp)
      rw [List.map_cons, List.nodup_cons] at hnodup
      have hpath : ∀ k ∈ path ++ [name], Components.Plain '.' k := fun k hk =>
        (List.mem_append.1 hk).elim (h k) fun hk => List.mem_singleton.1 hk ▸ hname
      -- the node that is met, and then its children
      have hnode := copyNode_eq h hname isArray c.data hn
      have hget : (copyNode path isArray name c.data res).get (path ++ [name]) =
          some (makeValue c.data) := by
        rw [hnode, KeyTree.get_append, KeyTree.get_graft_self, Option.bind_some,
          KeyTree.get_graft_self]
      have hwalk := copyWalk_eq hpath hget c hc fun e _ => List.not_mem_nil
      have hsettle : (.node ⟨(makeValue c.data).data, (makeValue c.data).isArray ||
          c.isArray && !c.children.isEmpty⟩ ((makeValue c.data).children ++
            settleChildren c.children) : InfoTree) = settle c := by
        obtain ⟨d, ds⟩ := c
        rfl
      have hfresh : name ∉ n.children.map Prod.fst := hnew (name, c) (by simp)
      have hadd : KeyTree.graft emptyNode [name] (if isArray then makeArray true n else n)
          (settle c) = .node ⟨n.data, n.isArray || isArray⟩ (n.children ++ [(name, settle c)]) := by
        obtain ⟨d, ns⟩ := n
        rw [KeyTree.graft_singleton_of_not_mem]
        · cases isArray
          · exact congrArg (fun b => KeyTree.node (⟨d.data, b⟩ : NodeData) _) (Bool.or_false _).symm
          · exact congrArg (fun b => KeyTree.node (⟨d.data, b⟩ : NodeData) _) (Bool.or_true _).symm
        · split_ifs <;> exact hfresh
      have hwalk : copyWalk (path ++ [name]) c (copyNode path isArray name c.data res) =
          KeyTree.graft emptyNode path res
            (.node ⟨n.data, n.isArray || isArray⟩ (n.children ++ [(name, settle c)])) := by
        rw [hwalk, hsettle, hnode, KeyTree.graft_append, KeyTree.get_graft_self, Option.getD_some,
          KeyTree.graft_graft, KeyTree.graft_graft, hadd]
      rw [copyChildren, hwalk, copyChildren_eq h isArray (KeyTree.get_graft_self path res _) cs
        (fun e he => hkeys e (List.mem_cons_of_mem _ he)) hnodup.2
        (fun e he => hcs e (List.mem_cons_of_mem _ he)) ?_, KeyTree.graft_graft, settleChildren]
      · cases isArray <;> simp [data, isArray]
      · intro e he hmem
        rw [KeyTree.children_node, List.map_append, List.mem_append] at hmem
        rcases hmem with hmem | hmem
        · exact hnew e (List.mem_cons_of_mem _ he) hmem
        · exact hnodup.1 (List.mem_singleton.1 hmem ▸ List.mem_map_of_mem he)

end

/-- A copy is the tree but for the tags of nodes without children. -/
theorem copy_eq_settle (ht : t.WellKeyed) : copy t = settle t := by
  have hres : (if t.data ≠ .null then setValue t.data make else make) = makeValue t.data := by
    split_ifs with h
    · rfl
    · rw [not_not.1 h]
      rfl
  have hwalk := copyWalk_eq (fun k hk => absurd hk List.not_mem_nil)
    (show (makeValue t.data).get [] = _ from rfl) t ht fun e _ => List.not_mem_nil
  rw [copy, hres, hwalk]
  obtain ⟨d, cs⟩ := t
  rfl

theorem child_settle (t : InfoTree) (k : String) : (settle t).child k = (t.child k).map settle := by
  obtain ⟨d, cs⟩ := t
  rw [settle, KeyTree.child, KeyTree.children_node, settleChildren_eq_map, KeyTree.lookup_map_snd]
  rfl

theorem get_settle (p : List String) (t : InfoTree) : (settle t).get p = (t.get p).map settle := by
  induction p generalizing t with
  | nil => rfl
  | cons k ks ih =>
      rw [KeyTree.get_cons, KeyTree.get_cons, child_settle]
      cases t.child k with
      | none => rfl
      | some c => exact ih c

theorem data_settle (t : InfoTree) : (settle t).data = t.data := by
  cases t
  rfl

/-- A copy holds the values of its tree. -/
theorem valueAt_copy (ht : t.WellKeyed) (p : List String) : valueAt p (copy t) = valueAt p t := by
  rw [copy_eq_settle ht, valueAt, get_settle, valueAt, Option.map_map]
  exact congrArg (Option.getD · _) (congrArg (Option.map · _) (funext data_settle))

/-! ### Copies are made by the functions -/

theorem reachable_copyNode {res : InfoTree} (h : Reachable res) (path : List String)
    (isArray : Bool) (name : String) (v : Any) : Reachable (copyNode path isArray name v res) := by
  unfold copyNode
  refine Reachable.graft _ (Reachable.makeValue v) ?_
  split_ifs
  · exact h.tagAsArray _ _
  · exact h

mutual

theorem reachable_copyWalk (path : List String) {res : InfoTree} (h : Reachable res) :
    (t : InfoTree) → Reachable (copyWalk path t res)
  | .node d cs => by
      rw [copyWalk]
      exact reachable_copyChildren path d.isArray h cs

theorem reachable_copyChildren (path : List String) (isArray : Bool) {res : InfoTree}
    (h : Reachable res) : (cs : List (String × InfoTree)) →
    Reachable (copyChildren path isArray cs res)
  | [] => h
  | (name, c) :: cs => by
      rw [copyChildren]
      exact reachable_copyChildren path isArray
        (reachable_copyWalk (path ++ [name]) (reachable_copyNode h path isArray name c.data) c) cs

end

/-- A copy is made by grafts. -/
theorem reachable_copy (t : InfoTree) : Reachable (copy t) := by
  unfold copy
  refine reachable_copyWalk [] ?_ t
  split_ifs
  · exact Reachable.make.setValue _
  · exact Reachable.make

end InfoTree
end LibSwitcher
