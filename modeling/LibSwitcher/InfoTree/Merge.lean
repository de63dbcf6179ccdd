/-
# Merges

`InfoTree::merge` copies its first tree and walks the second one in preorder.  A value
that the walk meets is grafted, as a new node, at the path made of the keys on the way;
before an element of an array it tags the node above, at a path that denotes no node where
that is the root.

A merge should show at every path what the second tree has there, and what the first one
has where it does not (`MergeCorrect`).  But a value hides what the first tree has
below it, nodes of the second tree without any value are not made, the root of the second
tree does not count, and a tag is lost where the node above the element is not made yet.
`MergeOk` says of each path when none of this matters (`mergeCorrect_iff`).
-/

import LibSwitcher.InfoTree.Copy

namespace LibSwitcher
namespace InfoTree

/-- The path `merge` builds for the node it is in: a dot and a key for each on the way. -/
def mergeKey (path : List String) : String := path.foldl (fun key it => key ++ ("." ++ it)) ""

/-- What `merge` does when it meets a node of a value under a name. -/
def mergeNode (path : List String) (isArrayElement : Bool) (name : String) (value : Any)
    (res : InfoTree) : InfoTree :=
  let res := if isArrayElement then tagAsArray (mergeKey path) true res else res
  if value ≠ .null then graft (mergeKey path ++ ("." ++ name)) (makeValue value) res else res

mutual

/-- `preorder_tree_walk` with the functions of `merge`. -/
def mergeWalk (path : List String) : InfoTree → InfoTree → InfoTree
  | .node d cs, res => mergeChildren path d.isArray cs res

/-- The loop of `preorder_tree_walk` on the children of a node. -/
def mergeChildren (path : List String) (isArray : Bool) :
    List (String × InfoTree) → InfoTree → InfoTree
  | [], res => res
  | (name, c) :: cs, res =>
      mergeChildren path isArray cs
        (mergeWalk (path ++ [name]) c (mergeNode path isArray name c.data res))

end

/-- `merge`, of two trees that are there. -/
def merge (first second : InfoTree) : InfoTree := mergeWalk [] second (copy first)

/-! ### What a merge should be -/

/-- The value and the tag at a path, if there is a node. -/
def labelAt (p : List String) (t : InfoTree) : Option NodeData := (t.get p).map KeyTree.label

/-- A node of the second tree over one of the first: its tag, and its value if it has one. -/
def overlay : Option NodeData → Option NodeData → Option NodeData
  | o, none => o
  | none, some y => some y
  | some x, some y => some ⟨if y.data ≠ .null then y.data else x.data, y.isArray⟩

/-- The merge has the nodes of both trees: at every path the value of the second tree if it
has one there, that of the first otherwise, and the tag of the second tree if it has
the node, that of the first otherwise. -/
def MergeCorrect (a b : InfoTree) : Prop :=
  ∀ p, labelAt p (merge a b) = overlay (labelAt p a) (labelAt p b)

/-! ### When it is -/

mutual

/-- There is a value at a node or below. -/
def hasValue : InfoTree → Bool
  | .node d cs => d.data ≠ .null || hasValueBelow cs

/-- There is a value in one of the children. -/
def hasValueBelow : List (String × InfoTree) → Bool
  | [] => false
  | (_, c) :: cs => hasValue c || hasValueBelow cs

end

/-- There is a value on the way to the path, neither at the root nor at the end. -/
def overwritten : List String → InfoTree → Bool
  | [], _ => false
  | k :: ks, t =>
      match t.child k with
      | none => false
      | some c => (ks ≠ [] && data c ≠ .null) || overwritten ks c

/-- The node of the first tree that is there when the walk comes to the path. -/
def reached (a b : InfoTree) (p : List String) : Option InfoTree :=
  if overwritten p b then none else a.get p

/-- The tag that a copy of the node has. -/
def copiedTag (n : InfoTree) : Bool := n.isArray && !n.children.isEmpty

/-- What the merge needs of the two trees at a path. -/
def MergeOk (a b : InfoTree) (p : List String) : Prop :=
  match b.get p, reached a b p with
  | none, some n => isArray n = copiedTag n
  | none, none => a.get p = none
  | some c, n =>
      if p = [] then (b.data = .null ∨ b.data = a.data) ∧ b.isArray = copiedTag a
      else if data c ≠ .null then isArray c = copiedTag c
      else match n with
        | some n => isArray c = (copiedTag n || copiedTag c)
        | none => hasValue c = true ∧ valueAt p a = .null ∧
            (isArray c = true → hasValueBelow c.children.dropLast = true)

/-! ### The walk, without paths -/

/-- Graft a tree, if there is one. -/
def writeAt (p : List String) (o : Option InfoTree) (t : InfoTree) : InfoTree :=
  match o with
  | none => t
  | some n => KeyTree.graft emptyNode p t n

/-- Put a tree under a key of a tree, making the latter if it is not there. -/
def putChild (k : String) (x o : Option InfoTree) : Option InfoTree :=
  match x with
  | none => o
  | some n => some (KeyTree.graft emptyNode [k] (o.getD make) n)

mutual

/-- What the walk makes of the node that is there when it meets one of the second tree. -/
def mergeInto : InfoTree → Option InfoTree → Option InfoTree
  | .node d cs, o =>
      mergeKids d.isArray cs (if d.data ≠ .null then some (makeValue d.data) else o)

/-- What it makes of this node for its children. -/
def mergeKids (isArray : Bool) : List (String × InfoTree) → Option InfoTree → Option InfoTree
  | [], o => o
  | (k, c) :: cs, o =>
      mergeKids isArray cs (putChild k (mergeInto c (o.bind fun n => n.child k))
        (if isArray then o.map (makeArray true) else o))

end

variable {a b t : InfoTree} {o o' x : Option InfoTree} {p path : List String} {k : String}

theorem putChild_eq_none (h : putChild k x o = none) : o = none := by
  cases x with
  | none => exact h
  | some n => cases h

theorem writeAt_get (p : List String) (t : InfoTree) : writeAt p (t.get p) t = t := by
  cases h : t.get p with
  | none => rfl
  | some n => exact KeyTree.graft_get h

theorem get_writeAt (h : o = none → t.get p = none) : (writeAt p o t).get p = o := by
  cases o with
  | none => exact h rfl
  | some n => exact KeyTree.get_graft_self p t n

theorem writeAt_writeAt (h : o' = none → o = none) :
    writeAt p o' (writeAt p o t) = writeAt p o' t := by
  cases o' with
  | none => rw [h rfl]; rfl
  | some n =>
      cases o with
      | none => rfl
      | some n' => exact KeyTree.graft_graft p t n' n

/-- Writing below a path. -/
theorem writeAt_append (p : List String) (k : String) (x : Option InfoTree) (t : InfoTree) :
    writeAt (p ++ [k]) x t = writeAt p (putChild k x (t.get p)) t := by
  cases x with
  | none => exact (writeAt_get p t).symm
  | some n => exact KeyTree.graft_append p [k] t n

theorem components_mergeKey {path : List String} (h : ∀ k ∈ path, Components.Plain '.' k) :
    components (mergeKey path) = path := by
  have hfold : ∀ (ks : List String) (b : String), (∀ k ∈ ks, Components.Plain '.' k) →
      components (ks.foldl (fun key it => key ++ ("." ++ it)) b) = components b ++ ks := by
    intro ks
    induction ks with
    | nil => exact fun b _ => (List.append_nil _).symm
    | cons k ks ih =>
        intro b hks
        have hk : components (b ++ ("." ++ k)) = components b ++ [k] := by
          rw [← String.append_assoc, components, Components.components_append_sep _ rfl,
            Components.components_of_plain (hks k (by simp)), components]
        rw [List.foldl_cons, ih _ fun k' hk' => hks k' (List.mem_cons_of_mem _ hk'), hk,
          List.append_assoc, List.singleton_append]
  exact hfold path "" h

/-- The path at which `merge` grafts the value of a node. -/
theorem components_mergeNode {path : List String} {name : String}
    (h : ∀ k ∈ path, Components.Plain '.' k) (hname : Components.Plain '.' name) :
    components (mergeKey path ++ ("." ++ name)) = path ++ [name] := by
  have hk := components_mergeKey h
  rw [components] at hk
  rw [← String.append_assoc, components, Components.components_append_sep _ rfl, hk,
    Components.components_of_plain hname]

/-- The tag of the node above an element, which is not set at the root. -/
theorem tag_mergeKey {path : List String} (h : ∀ k ∈ path, Components.Plain '.' k)
    (isArrayElement : Bool) (res : InfoTree) :
    (if isArrayElement then tagAsArray (mergeKey path) true res else res) =
      writeAt path (if isArrayElement && !path.isEmpty then (res.get path).map (makeArray true)
        else res.get path) res := by
  have hcomps := components_mergeKey h
  cases isArrayElement with
  | false => exact (writeAt_get path res).symm
  | true =>
      cases path with
      | nil => rfl
      | cons k ks =>
          rw [if_pos rfl, tagAsArray, pathIsRoot_of_components (by rw [hcomps]; simp), hcomps,
            if_neg (by simp), if_neg (by simp)]
          cases hn : res.get (k :: ks) with
          | none => exact KeyTree.modify_of_get_eq_none hn
          | some n => exact KeyTree.modify_eq_graft hn

/-- The node that is met becomes one with its value, if it has one. -/
theorem mergeNode_eq {path : List String} {name : String} (h : ∀ k ∈ path, Components.Plain '.' k)
    (hname : Components.Plain '.' name) (isArrayElement : Bool) (v : Any) {res res' : InfoTree}
    (hres : (if isArrayElement then tagAsArray (mergeKey path) true res else res) = res') :
    mergeNode path isArrayElement name v res = writeAt (path ++ [name])
      (if v ≠ .null then some (makeValue v) else res'.get (path ++ [name])) res' := by
  rw [mergeNode, hres]
  split_ifs
  · rw [graft, components_mergeNode h hname, if_neg (by simp)]
    rfl
  · exact (writeAt_get _ res').symm

mutual

/-- The walk makes something of a node where there is one. -/
theorem mergeInto_eq_none : (c : InfoTree) → (o : Option InfoTree) → mergeInto c o = none → o = none
  | .node d cs, o, h => by
      rw [mergeInto] at h
      have hbase := mergeKids_eq_none d.isArray cs _ h
      split_ifs at hbase
      exact hbase

theorem mergeKids_eq_none (isArray : Bool) : (cs : List (String × InfoTree)) →
    (o : Option InfoTree) → mergeKids isArray cs o = none → o = none
  | [], _, h => h
  | (k, c) :: cs, o, h => by
      rw [mergeKids] at h
      have htag := putChild_eq_none (mergeKids_eq_none isArray cs _ h)
      split_ifs at htag
      · exact Option.map_eq_none_iff.1 htag
      · exact htag

end

mutual

/-- The walk writes at the path it is at: by induction on the tree. -/
theorem mergeWalk_eq {path : List String} (h : ∀ k ∈ path, Components.Plain '.' k) :
    (t : InfoTree) → t.WellKeyed → (res : InfoTree) → mergeWalk path t res =
      writeAt path (mergeKids (t.isArray && !path.isEmpty) t.children (res.get path)) res
  | .node d cs, ht, res => by
      rw [mergeWalk]
      exact mergeChildren_eq h d.isArray cs ht.keys ht.children res

theorem mergeChildren_eq {path : List String} (h : ∀ k ∈ path, Components.Plain '.' k)
    (isArray : Bool) : (cs : List (String × InfoTree)) →
    (∀ e ∈ cs, Components.Plain '.' e.1) → (∀ e ∈ cs, WellKeyed e.2) → (res : InfoTree) →
    mergeChildren path isArray cs res =
      writeAt path (mergeKids (isArray && !path.isEmpty) cs (res.get path)) res
  | [], _, _, res => (writeAt_get path res).symm
  | (name, c) :: cs, hkeys, hcs, res => by
      have hname := hkeys (name, c) (by simp)
      have hc : c.WellKeyed := hcs (name, c) (by simp)
      have hpath : ∀ k ∈ path ++ [name], Components.Plain '.' k := fun k hk =>
        (List.mem_append.1 hk).elim (h k) fun hk => List.mem_singleton.1 hk ▸ hname
      obtain ⟨res', hres⟩ : ∃ res', (if isArray then tagAsArray (mergeKey path) true res else res) =
        res' := ⟨_, rfl⟩
      have htag := hres.symm.trans (tag_mergeKey h isArray res)
      have hnode := mergeNode_eq h hname isArray c.data hres
      -- what the tag leaves at the path, and at that of the child
      have hget : res'.get path = if isArray && !path.isEmpty then
          (res.get path).map (makeArray true) else res.get path := by
        rw [htag, get_writeAt]
        split_ifs
        · exact Option.map_eq_none_iff.1
        · exact fun h => h
      have hchild : (res'.get (path ++ [name])) = (res.get path).bind fun n => n.child name := by
        rw [KeyTree.get_append, hget]
        cases hn : res.get path with
        | none => split_ifs <;> rfl
        | some n =>
            split_ifs
            · exact KeyTree.get_singleton name (makeArray true n)
            · exact KeyTree.get_singleton name n
      have hbase : (mergeNode path isArray name c.data res).get (path ++ [name]) =
          if c.data ≠ .null then some (makeValue c.data) else res'.get (path ++ [name]) := by
        rw [hnode, get_writeAt]
        split_ifs
        · exact fun h => absurd h (by simp)
        · exact fun h => h
      have hinto : mergeKids (c.isArray && !(path ++ [name]).isEmpty) c.children
          (if c.data ≠ .null then some (makeValue c.data) else res'.get (path ++ [name])) =
            mergeInto c (res'.get (path ++ [name])) := by
        obtain ⟨d, ds⟩ := c
        rw [mergeInto, List.isEmpty_eq_false_iff.2 (by simp), Bool.not_false, Bool.and_true]
        rfl
      have hwalk : mergeWalk (path ++ [name]) c (mergeNode path isArray name c.data res) =
          writeAt path (putChild name (mergeInto c ((res.get path).bind fun n => n.child name))
            (res'.get path)) res' := by
        rw [mergeWalk_eq hpath c hc, hbase, hnode, writeAt_writeAt (mergeKids_eq_none _ _ _), hinto,
          writeAt_append, hchild]
      rw [mergeChildren, hwalk, mergeChildren_eq h isArray cs
        (fun e he => hkeys e (List.mem_cons_of_mem _ he))
        (fun e he => hcs e (List.mem_cons_of_mem _ he)), get_writeAt putChild_eq_none,
        writeAt_writeAt (mergeKids_eq_none _ _ _), hget, htag,
        writeAt_writeAt fun hnone => putChild_eq_none (mergeKids_eq_none _ _ _ hnone), mergeKids]

end

/-- What a merge is, apart from paths. -/
theorem merge_eq (ha : a.WellKeyed) (hb : b.WellKeyed) :
    some (merge a b) = mergeKids false b.children (some (settle a)) := by
  rw [merge, mergeWalk_eq (fun k hk => absurd hk List.not_mem_nil) b hb, copy_eq_settle ha]
  have hflag : (b.isArray && !([] : List String).isEmpty) = false := by simp
  rw [hflag, KeyTree.get_nil]
  cases hkids : mergeKids false b.children (some (settle a)) with
  | none => exact absurd (mergeKids_eq_none false b.children _ hkids) (by simp)
  | some n => rfl

/-! ### Merges are made by the functions -/

theorem reachable_mergeNode {res : InfoTree} (h : Reachable res) (path : List String)
    (isArrayElement : Bool) (name : String) (v : Any) :
    Reachable (mergeNode path isArrayElement name v res) := by
  have htag : Reachable (if isArrayElement then tagAsArray (mergeKey path) true res else res) := by
    split_ifs
    · exact h.tagAsArray _ _
    · exact h
  unfold mergeNode
  by_cases hv : v = .null
  · simpa only [if_neg (not_not.2 hv)] using htag
  · simpa only [if_pos hv] using Reachable.graft _ (Reachable.makeValue v) htag

mutual

theorem reachable_mergeWalk (path : List String) {res : InfoTree} (h : Reachable res) :
    (t : InfoTree) → Reachable (mergeWalk path t res)
  | .node d cs => by
      rw [mergeWalk]
      exact reachable_mergeChildren path d.isArray h cs

theorem reachable_mergeChildren (path : List String) (isArray : Bool) {res : InfoTree}
    (h : Reachable res) : (cs : List (String × InfoTree)) →
    Reachable (mergeChildren path isArray cs res)
  | [] => h
  | (name, c) :: cs => by
      rw [mergeChildren]
      exact reachable_mergeChildren path isArray (reachable_mergeWalk (path ++ [name])
        (reachable_mergeNode h path isArray name c.data) c) cs

end

/-- A merge is made by grafts. -/
theorem reachable_merge (first second : InfoTree) : Reachable (merge first second) :=
  reachable_mergeWalk [] (reachable_copy first) second

/-! ### What a merge shows -/

mutual

/-- There is something at a node that the walk has met if there was, or if there is a value. -/
theorem isSome_mergeInto : (c : InfoTree) → (o : Option InfoTree) →
    (mergeInto c o).isSome = (o.isSome || hasValue c)
  | .node d cs, o => by
      rw [mergeInto, isSome_mergeKids, hasValue]
      by_cases hd : d.data = .null
      · simp [hd]
      · simp [hd]

theorem isSome_mergeKids (isArray : Bool) : (cs : List (String × InfoTree)) →
    (o : Option InfoTree) → (mergeKids isArray cs o).isSome = (o.isSome || hasValueBelow cs)
  | [], o => by rw [mergeKids, hasValueBelow, Bool.or_false]
  | (k, c) :: cs, o => by
      have htag : (if isArray then o.map (makeArray true) else o).isSome = o.isSome := by
        split_ifs
        · exact Option.isSome_map
        · rfl
      have hchild : (o.bind fun n => n.child k).isSome = true → o.isSome = true := by
        cases o <;> simp
      have hput : ∀ x o' : Option InfoTree, (putChild k x o').isSome = (x.isSome || o'.isSome) := by
        intro x o'
        cases x <;> simp [putChild]
      rw [mergeKids, isSome_mergeKids, hput, isSome_mergeInto, htag, hasValueBelow]
      revert hchild
      cases (o.bind fun n => n.child k).isSome <;> cases o.isSome <;> simp

end

/-- The node itself after its children have been met. -/
theorem map_label_mergeKids_some (isArray : Bool) (cs : List (String × InfoTree)) (n : InfoTree) :
    (mergeKids isArray cs (some n)).map KeyTree.label =
      some ⟨n.data, n.isArray || isArray && !cs.isEmpty⟩ := by
  induction cs generalizing n with
  | nil => simp [mergeKids, data, InfoTree.isArray]
  | cons e cs ih =>
      obtain ⟨k, c⟩ := e
      have htag : (if isArray then (some n).map (makeArray true) else some n) =
          some (n.setLabel ⟨n.data, n.isArray || isArray⟩) := by
        cases isArray with
        | true => simp [makeArray]
        | false =>
            obtain ⟨d, ns⟩ := n
            simp [data, InfoTree.isArray, KeyTree.setLabel]
      rw [mergeKids, htag]
      cases mergeInto c ((some n).bind fun n => n.child k) with
      | none =>
          rw [putChild, ih]
          cases isArray <;> simp [data, InfoTree.isArray]
      | some x =>
          rw [putChild, ih]
          cases isArray <;> simp [data, InfoTree.isArray, KeyTree.graft]

/-- The node is made for the first child with a value, and tagged for the next one. -/
theorem map_label_mergeKids_none (isArray : Bool) (cs : List (String × InfoTree)) :
    (mergeKids isArray cs none).map KeyTree.label =
      if hasValueBelow cs then some ⟨.null, isArray && hasValueBelow cs.dropLast⟩ else none := by
  induction cs with
  | nil => rfl
  | cons e cs ih =>
      obtain ⟨k, c⟩ := e
      have htag :
          (if isArray then (none : Option InfoTree).map (makeArray true) else none) = none := by
        split_ifs <;> rfl
      have hsome := isSome_mergeInto c none
      rw [mergeKids, htag, Option.bind_none]
      cases hinto : mergeInto c none with
      | none =>
          rw [hinto] at hsome
          have hvalue : hasValue c = false := by simpa using hsome.symm
          rw [putChild, ih, hasValueBelow, hvalue, Bool.false_or]
          cases cs with
          | nil => rfl
          | cons e cs =>
              have hlast : hasValueBelow ((k, c) :: (e :: cs).dropLast) =
                  hasValueBelow (e :: cs).dropLast := by rw [hasValueBelow, hvalue, Bool.false_or]
              rw [List.dropLast_cons_cons, hlast]
      | some x =>
          rw [hinto] at hsome
          have hvalue : hasValue c = true := by simpa using hsome.symm
          rw [putChild, map_label_mergeKids_some, hasValueBelow, hvalue, Bool.true_or, if_pos rfl]
          cases cs with
          | nil => simp [data, InfoTree.isArray, make, emptyNode, KeyTree.graft, hasValueBelow]
          | cons e cs =>
              rw [List.dropLast_cons_cons, hasValueBelow, hvalue, Bool.true_or]
              simp [data, InfoTree.isArray, make, emptyNode, KeyTree.graft]

/-- A child after all of them have been met. -/
theorem child_mergeKids (isArray : Bool) {cs : List (String × InfoTree)}
    (hnodup : (cs.map Prod.fst).Nodup) (o : Option InfoTree) (k : String) :
    ((mergeKids isArray cs o).bind fun n => n.child k) =
      match cs.lookup k with
      | none => o.bind fun n => n.child k
      | some c => mergeInto c (o.bind fun n => n.child k) := by
  induction cs generalizing o with
  | nil => rfl
  | cons e cs ih =>
      obtain ⟨k', c⟩ := e
      rw [List.map_cons, List.nodup_cons] at hnodup
      have htag : ((if isArray then o.map (makeArray true) else o).bind fun n => n.child k) =
          o.bind fun n => n.child k := by
        split_ifs
        · cases o <;> rfl
        · rfl
      rw [mergeKids, ih hnodup.2, List.lookup_cons]
      by_cases hk : k = k'
      · subst hk
        rw [KeyTree.lookup_eq_none_iff.2 hnodup.1, beq_self_eq_true]
        dsimp only
        cases hinto : mergeInto c (o.bind fun n => n.child k) with
        | none =>
            rw [putChild, htag]
            exact mergeInto_eq_none c _ hinto
        | some x =>
            rw [putChild, Option.bind_some]
            exact KeyTree.child_graft_self
      · rw [beq_eq_false_iff_ne.2 hk]
        dsimp only
        have hput : ∀ x o' : Option InfoTree,
            ((putChild k' x o').bind fun n => n.child k) = o'.bind fun n => n.child k := by
          intro x o'
          cases x with
          | none => rfl
          | some n =>
              rw [putChild, Option.bind_some, KeyTree.child_graft_ne hk]
              cases o' <;> rfl
        rw [hput, htag]

/-- The node that the walk finds at a path, below one that it has met. -/
def reachedBelow (c : InfoTree) (o : Option InfoTree) (p : List String) : Option InfoTree :=
  if p ≠ [] && data c ≠ .null || overwritten p c then none else o.bind (KeyTree.get p)

/-- What the walk leaves at a path where it finds the node `n`. -/
def mergedLabel (c n : Option InfoTree) : Option NodeData :=
  match c, n with
  | none, n => n.map KeyTree.label
  | some c, n =>
      if data c ≠ .null then some ⟨data c, copiedTag c⟩
      else match n with
        | some n => some ⟨data n, isArray n || copiedTag c⟩
        | none =>
            if hasValueBelow c.children then
              some ⟨.null, isArray c && hasValueBelow c.children.dropLast⟩
            else none

section mergedLabel

variable {c n : InfoTree}

theorem mergedLabel_of_ne (h : data c ≠ .null) (o : Option InfoTree) :
    mergedLabel (some c) o = some ⟨data c, copiedTag c⟩ := by
  cases o <;> exact if_pos h

theorem mergedLabel_of_some (h : data c = .null) :
    mergedLabel (some c) (some n) = some ⟨data n, isArray n || copiedTag c⟩ :=
  if_neg (not_not.2 h)

theorem mergedLabel_of_none (h : data c = .null) : mergedLabel (some c) none =
    if hasValueBelow c.children then
      some ⟨.null, isArray c && hasValueBelow c.children.dropLast⟩
    else none :=
  if_neg (not_not.2 h)

end mergedLabel

theorem overwritten_cons_of_child {c d : InfoTree} (ks : List String) (h : c.child k = some d) :
    overwritten (k :: ks) c = (ks ≠ [] && data d ≠ .null || overwritten ks d) := by
  rw [overwritten, h]

theorem bind_labelAt_cons (k : String) (ks : List String) (o : Option InfoTree) :
    o.bind (labelAt (k :: ks)) = (o.bind fun n => n.child k).bind (labelAt ks) := by
  cases o with
  | none => rfl
  | some n =>
      rw [Option.bind_some, Option.bind_some, labelAt, KeyTree.get_cons]
      cases n.child k <;> rfl

/-- What is found below a child. -/
theorem reachedBelow_cons {d : NodeData} {cs : List (String × InfoTree)} {c : InfoTree}
    (h : cs.lookup k = some c) (o : Option InfoTree) (ks : List String) :
    reachedBelow (.node d cs) o (k :: ks) = reachedBelow c
      ((if d.data ≠ .null then some (makeValue d.data) else o).bind fun n => n.child k) ks := by
  have hchild : (KeyTree.node d cs).child k = some c := h
  have hover := overwritten_cons_of_child ks hchild
  rw [reachedBelow, reachedBelow, hover]
  by_cases hd : d.data = .null
  · have hget : o.bind (KeyTree.get (k :: ks)) =
        (o.bind fun n => n.child k).bind (KeyTree.get ks) := by
      cases o <;> rfl
    rw [if_neg (not_not.2 hd), hget]
    simp [data, hd]
  · rw [if_pos hd]
    simp [data, hd, makeValue, KeyTree.child]

/-- The labels below a node that the walk has met: by induction on the path. -/
theorem labelAt_mergeInto (p : List String) {c : InfoTree} (hc : c.WellKeyed)
    (o : Option InfoTree) : (mergeInto c o).bind (labelAt p) =
      mergedLabel (c.get p) (reachedBelow c o p) := by
  induction p generalizing c o with
  | nil =>
      obtain ⟨d, cs⟩ := c
      have hlabel : (mergeInto (.node d cs) o).bind (labelAt []) =
          (mergeInto (.node d cs) o).map KeyTree.label := by
        cases mergeInto (.node d cs) o <;> rfl
      have hreached : reachedBelow (.node d cs) o [] = o := by
        cases o <;> rfl
      rw [hlabel, hreached, mergeInto, KeyTree.get_nil]
      by_cases hd : d.data = .null
      · have hnull : data (.node d cs) = .null := hd
        rw [if_neg (not_not.2 hd)]
        cases o with
        | none => rw [map_label_mergeKids_none, mergedLabel_of_none hnull]; rfl
        | some n => rw [map_label_mergeKids_some, mergedLabel_of_some hnull]; rfl
      · have hvalue : data (.node d cs) ≠ .null := hd
        rw [if_pos hd, map_label_mergeKids_some, mergedLabel_of_ne hvalue]
        rfl
  | cons k ks ih =>
      obtain ⟨d, cs⟩ := c
      have hnodup : (cs.map Prod.fst).Nodup := hc.nodup
      rw [bind_labelAt_cons, mergeInto, child_mergeKids d.isArray hnodup]
      cases hlookup : cs.lookup k with
      | none =>
          have hchild : (KeyTree.node d cs).child k = none := hlookup
          have hreached : reachedBelow (.node d cs) o (k :: ks) =
              if d.data ≠ .null then none else o.bind (KeyTree.get (k :: ks)) := by
            rw [reachedBelow, overwritten, hchild]
            by_cases hd : d.data = .null <;> simp [data, hd]
          rw [KeyTree.get_cons, hchild, hreached]
          split_ifs
          · rfl
          · rw [← bind_labelAt_cons]
            cases o <;> rfl
      | some e =>
          have hchild : (KeyTree.node d cs).child k = some e := hlookup
          rw [KeyTree.get_cons, hchild, Option.bind_some, reachedBelow_cons hlookup]
          exact ih (hc.child hchild) _

/-- The node of the first tree that the walk finds, in its copy. -/
theorem labelAt_merge (ha : a.WellKeyed) (hb : b.WellKeyed) (hp : p ≠ []) :
    labelAt p (merge a b) = mergedLabel (b.get p) ((reached a b p).map settle) := by
  obtain ⟨k, ks, rfl⟩ := List.exists_cons_of_ne_nil hp
  have hmerge := merge_eq ha hb
  obtain ⟨d, cs⟩ := b
  have hlabel : labelAt (k :: ks) (merge a (.node d cs)) =
      ((mergeKids false cs (some (settle a))).bind fun n => n.child k).bind (labelAt ks) := by
    rw [← bind_labelAt_cons]
    exact congrArg (Option.bind · (labelAt (k :: ks))) hmerge
  have hnodup : (cs.map Prod.fst).Nodup := hb.nodup
  have hget : ((a.child k).map settle).bind (KeyTree.get ks) = (a.get (k :: ks)).map settle := by
    rw [← get_settle, KeyTree.get_cons, child_settle]
  rw [hlabel, child_mergeKids false hnodup, Option.bind_some, child_settle]
  cases hlookup : cs.lookup k with
  | none =>
      have hchild : (KeyTree.node d cs).child k = none := hlookup
      have hreached : reached a (.node d cs) (k :: ks) = a.get (k :: ks) := by
        rw [reached, overwritten, hchild]
        rfl
      rw [KeyTree.get_cons (t := .node d cs), hchild, hreached, ← hget]
      cases (a.child k).map settle <;> rfl
  | some e =>
      have hchild : (KeyTree.node d cs).child k = some e := hlookup
      have hover := overwritten_cons_of_child ks hchild
      dsimp only
      rw [labelAt_mergeInto ks (hb.child hchild), KeyTree.get_cons (t := .node d cs), hchild,
        Option.bind_some, reachedBelow, reached, hover, hget]
      split_ifs <;> rfl

/-! ### When a merge is correct -/

theorem overlay_none (o : Option NodeData) : overlay o none = o := by
  cases o <;> rfl

theorem overlay_of_ne {y : NodeData} (h : y.data ≠ .null) (o : Option NodeData) :
    overlay o (some y) = some y := by
  cases o with
  | none => rfl
  | some x => rw [overlay, if_pos h]

theorem overlay_of_null {y : NodeData} (h : y.data = .null) (o : Option NodeData) :
    overlay o (some y) = some ⟨(o.map NodeData.data).getD .null, y.isArray⟩ := by
  cases o with
  | none => rw [Option.map_none, Option.getD_none, ← h]; rfl
  | some x => rw [overlay, if_neg (not_not.2 h)]; rfl

theorem label_settle (n : InfoTree) : (settle n).label = ⟨data n, copiedTag n⟩ := by
  cases n
  rfl

theorem labelAt_merge_nil (ha : a.WellKeyed) (hb : b.WellKeyed) :
    labelAt [] (merge a b) = some ⟨data a, copiedTag a⟩ := by
  have h := congrArg (Option.map KeyTree.label) (merge_eq ha hb)
  rw [map_label_mergeKids_some, Bool.false_and, Bool.or_false] at h
  have hlabel := label_settle a
  rw [InfoTree.data, InfoTree.isArray, hlabel] at h
  exact h

theorem valueAt_eq_labelAt (p : List String) (t : InfoTree) :
    valueAt p t = ((labelAt p t).map NodeData.data).getD .null := by
  rw [valueAt, labelAt, Option.map_map]
  rfl

theorem some_label_eq_iff {v : Any} {tag : Bool} {n : InfoTree} (h : data n = v) :
    some (⟨v, tag⟩ : NodeData) = some n.label ↔ isArray n = tag := by
  obtain ⟨⟨v', tag'⟩, cs⟩ := n
  obtain rfl : v' = v := h
  rw [Option.some.injEq, KeyTree.label_node, NodeData.mk.injEq, eq_comm (a := tag)]
  exact and_iff_right rfl

theorem get_of_reached {n : InfoTree} (h : reached a b p = some n) : a.get p = some n := by
  rw [reached] at h
  split_ifs at h
  exact h

/-- What the merge shows at a path is what it should exactly when it has what it needs there. -/
theorem labelAt_merge_iff (ha : a.WellKeyed) (hb : b.WellKeyed) (p : List String) :
    labelAt p (merge a b) = overlay (labelAt p a) (labelAt p b) ↔ MergeOk a b p := by
  by_cases hp : p = []
  · subst hp
    rw [labelAt_merge_nil ha hb]
    change some _ = some (⟨if data b ≠ .null then data b else data a, isArray b⟩ : NodeData) ↔
      (data b = .null ∨ data b = data a) ∧ isArray b = copiedTag a
    rw [Option.some.injEq, NodeData.mk.injEq, eq_comm (a := copiedTag a)]
    refine and_congr_left fun _ => ?_
    by_cases hd : data b = .null
    · rw [if_neg (not_not.2 hd)]
      exact iff_of_true rfl (Or.inl hd)
    · rw [if_pos hd, or_iff_right hd, eq_comm]
  · rw [labelAt_merge ha hb hp, MergeOk]
    cases hc : b.get p with
    | none =>
        have hlabel : labelAt p b = none := by rw [labelAt, hc, Option.map_none]
        rw [hlabel, overlay_none]
        cases hn : reached a b p with
        | none =>
            rw [labelAt, eq_comm]
            exact Option.map_eq_none_iff
        | some n =>
            rw [labelAt, get_of_reached hn, Option.map_some, mergedLabel, Option.map_some,
              label_settle]
            exact some_label_eq_iff rfl
    | some c =>
        have hlabel : labelAt p b = some c.label := by rw [labelAt, hc, Option.map_some]
        dsimp only
        rw [hlabel, if_neg hp]
        by_cases hd : data c ≠ .null
        · rw [if_pos hd, mergedLabel_of_ne hd, overlay_of_ne hd]
          exact some_label_eq_iff rfl
        · rw [if_neg hd]
          have hd := not_not.1 hd
          rw [overlay_of_null hd, ← valueAt_eq_labelAt]
          cases hn : reached a b p with
          | none =>
              have hvalue : hasValue c = hasValueBelow c.children := by
                obtain ⟨d, cs⟩ := c
                have hd : d.data = .null := hd
                rw [hasValue, hd, decide_eq_false (not_not.2 rfl), Bool.false_or]
                rfl
              rw [Option.map_none, mergedLabel_of_none hd, hvalue]
              dsimp only
              by_cases hbelow : hasValueBelow c.children = true
              · rw [if_pos hbelow, Option.some.injEq, NodeData.mk.injEq, and_iff_right hbelow,
                  eq_comm (a := Any.null)]
                refine and_congr_right fun _ => ?_
                change (isArray c && _) = isArray c ↔ _
                cases isArray c <;> simp
              · rw [if_neg hbelow]
                exact iff_of_false (by simp) fun h => hbelow h.1
          | some n =>
              rw [Option.map_some, mergedLabel_of_some hd, valueAt, get_of_reached hn, data_settle,
                Option.some.injEq, NodeData.mk.injEq]
              have htag : isArray (settle n) = copiedTag n :=
                congrArg NodeData.isArray (label_settle n)
              rw [htag, eq_comm (b := c.label.isArray)]
              exact and_iff_right rfl

/-- A merge is correct exactly when it has what it needs at every path. -/
theorem mergeCorrect_iff (ha : Reachable a) (hb : Reachable b) :
    MergeCorrect a b ↔ ∀ p, MergeOk a b p :=
  forall_congr' fun p => labelAt_merge_iff ha.wellKeyed hb.wellKeyed p

/-- A configuration of one entry. -/
def oneEntry (name : String) (value : InfoTree) : InfoTree := graft name value make

theorem reachable_oneEntry (name : String) {value : InfoTree} (h : Reachable value) :
    Reachable (oneEntry name value) :=
  Reachable.graft name h .make

theorem child_oneEntry {name : String} (hname : Components.Plain '.' name) (value : InfoTree)
    (k : String) : (oneEntry name value).child k = if k = name then some value else none := by
  rw [oneEntry, graft, components_of_plain hname, if_neg (by simp)]
  split_ifs with h
  · rw [h, KeyTree.child_graft_self]
    rfl
  · rw [KeyTree.child_graft_ne h]
    rfl

/-- Two configurations of one entry each have both of them. -/
theorem mergeCorrect_prefix_directory :
    MergeCorrect (oneEntry "prefix" (makeValue (.str "switcher_")))
      (oneEntry "directory" (makeValue (.str "/tmp"))) := by
  refine (mergeCorrect_iff (reachable_oneEntry "prefix" (.makeValue _))
    (reachable_oneEntry "directory" (.makeValue _))).2 fun p => ?_
  have hpre := child_oneEntry (by decide : Components.Plain '.' "prefix")
    (makeValue (.str "switcher_"))
  have hdirectory := child_oneEntry (by decide : Components.Plain '.' "directory")
    (makeValue (.str "/tmp"))
  cases p with
  | nil => exact ⟨Or.inl (by decide +kernel), by decide +kernel⟩
  | cons k ks =>
      rw [MergeOk, reached, overwritten, KeyTree.get_cons, KeyTree.get_cons, hpre, hdirectory]
      by_cases hk : k = "directory"
      · have hne : k ≠ "prefix" := by
          rw [hk]
          decide
        rw [if_pos hk, if_neg hne, Option.bind_some, Option.bind_none, ite_self]
        cases ks with
        | nil => exact rfl
        | cons k' ks => exact rfl
      · rw [if_neg hk]
        by_cases hk' : k = "prefix"
        · rw [if_pos hk', Option.bind_some]
          cases ks with
          | nil => exact rfl
          | cons k' ks => exact rfl
        · rw [if_neg hk']
          exact rfl

/-- The only element of an array makes the node above it, too late for the tag. -/
theorem not_mergeCorrect_extraConfig : ¬ MergeCorrect make
    (oneEntry "extraConfig" (makeArray true (oneEntry "0" (makeValue (.str "a.json"))))) :=
  fun h => absurd (h ["extraConfig"]) (by decide +kernel)

end InfoTree
end LibSwitcher
