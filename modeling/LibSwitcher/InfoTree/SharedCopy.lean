/-
# Copies share nothing

The nodes of information trees are held by pointers, and `graft` puts a pointer into a tree.  Here
the trees are in a heap, and `copy` makes its nodes there while it walks through those of its
argument (`copy_spec`): the nodes of the copy are new, so that later edits of one of the two leave
the other one as it is, unless something of the other one is grafted.

So a copy is exact but for the tags of nodes without children, which `copy` gives to a node when it
meets a child of it (`copy_exact_iff`).
-/

import LibSwitcher.InfoTree.Copy
import LibSwitcher.Lib.Machine
import LibSwitcher.Lib.OwnedTree

namespace LibSwitcher

/-- The nodes of information trees. -/
abbrev InfoTreeHeap := TreeHeap String NodeData

namespace InfoTreeHeap

open InfoTree TreeHeap

/-! ### The functions on nodes -/

/-- `data_ = v`. -/
def setData (v : Any) (d : NodeData) : NodeData := ⟨v, d.isArray⟩

/-- `is_array_ = b`. -/
def setIsArray (b : Bool) (d : NodeData) : NodeData := ⟨d.data, b⟩

/-- `read_data()`. -/
def readData (x : ℕ) (h : InfoTreeHeap) : Any := (h[x]?.map fun n => n.label.data).getD .null

/-- `graft`, on the node `x`. -/
def graft (path : String) (tree x : ℕ) (h : InfoTreeHeap) : InfoTreeHeap :=
  TreeHeap.graft emptyNode (components path) x tree h

/-- `prune`. -/
def prune (path : String) (x : ℕ) (h : InfoTreeHeap) : InfoTreeHeap :=
  TreeHeap.prune (components path) x h

/-- Write the node at a path, as the functions that understand the path of the root do. -/
def modifyBranch (f : NodeData → NodeData) (path : String) (x : ℕ) (h : InfoTreeHeap) :
    InfoTreeHeap :=
  if pathIsRoot path then writeLabel f x h
  else if components path = [] then h else modifyLabel f (components path) x h

/-- `branch_set_value`. -/
def branchSetValue (path : String) (v : Any) : ℕ → InfoTreeHeap → InfoTreeHeap :=
  modifyBranch (setData v) path

/-- `tag_as_array`. -/
def tagAsArray (path : String) (b : Bool) : ℕ → InfoTreeHeap → InfoTreeHeap :=
  modifyBranch (setIsArray b) path

/-- What `copy` does when it meets a node of a value under a name: it makes a node. -/
def copyNode (path : List String) (isArrayElement : Bool) (name : String) (value : Any) (res : ℕ)
    (h : InfoTreeHeap) : InfoTreeHeap :=
  let h' := if isArrayElement then tagAsArray (keyPath path) true res h else h
  graft (keyPath path ++ "." ++ name) h'.length res (h' ++ [⟨⟨value, false⟩, []⟩])

/-- `preorder_tree_walk` with the functions of `copy`, for trees up to a height. -/
def copyWalk : ℕ → List String → ℕ → ℕ → InfoTreeHeap → InfoTreeHeap
  | 0, _, _, _, h => h
  | fuel + 1, path, res, tree, h =>
      match h[tree]? with
      | none => h
      | some n => n.children.foldl (fun h e => copyWalk fuel (path ++ [e.1]) res e.2
          (copyNode path n.label.isArray e.1 (readData e.2 h) res h)) h

/-- `copy`, with the node it returns. -/
def copy (fuel tree : ℕ) (h : InfoTreeHeap) : InfoTreeHeap × ℕ :=
  let res := h.length
  let h' := h ++ [⟨emptyNode, []⟩]
  let value := readData tree h
  (copyWalk fuel [] res tree (if value ≠ .null then writeLabel (setData value) res h' else h'), res)

/-! ### What a copy is made of -/

variable {h₀ h : InfoTreeHeap} {R T : InfoTree} {res t fuel : ℕ}

/-- A copy is being made of new nodes, and the old ones are as they were. -/
structure Copying (h₀ h : InfoTreeHeap) (R : InfoTree) (res : ℕ) : Prop where
  valid : Valid h
  le : h₀.length ≤ h.length
  kept : ∀ y < h₀.length, h[y]? = h₀[y]?
  owns : ∃ F, Owns h R res F ∧ ∀ y ∈ F, h₀.length ≤ y

/-- Edits of the copy that write its nodes only go on with it. -/
theorem Copying.of_writes {h' : InfoTreeHeap} {R' : InfoTree} {leaves F : Set ℕ}
    (hc : Copying h₀ h R res) (hw : Writes h h' res leaves) (hleaves : ∀ l ∈ leaves, l < h.length)
    (howns : Owns h' R' res F) (hF : ∀ y ∈ F, h₀.length ≤ y) : Copying h₀ h' R' res where
  valid := hw.valid hc.valid hleaves
  le := Nat.le_trans hc.le hw.le
  kept y hy := by
    obtain ⟨G, hG, hnew⟩ := hc.owns
    rw [hw.kept y (Nat.lt_of_lt_of_le hy hc.le), hc.kept y hy]
    exact fun hreach => absurd (hnew y (hG.mem_of_reach hreach)) (Nat.not_le.2 hy)
  owns := ⟨F, howns, hF⟩

/-- Writing the node at a path is what it is for trees that are values. -/
theorem writes_modifyBranch (f : NodeData → NodeData) (path : String) (x : ℕ) (leaves : Set ℕ) :
    Writes h (modifyBranch f path x h) x leaves := by
  unfold modifyBranch
  split_ifs
  · exact writes_writeLabel f x leaves
  · exact Writes.refl h x leaves
  · exact writes_modifyLabel f _ x leaves

theorem Copying.tagAsArray (hc : Copying h₀ h R res) (path : String) (b : Bool) :
    Copying h₀ (tagAsArray path b res h) (R.tagAsArray path b) res := by
  obtain ⟨F, hF, hnew⟩ := hc.owns
  have hwrites := writes_modifyBranch (h := h) (setIsArray b) path res ∅
  refine hc.of_writes hwrites (fun l hl => absurd hl (Set.notMem_empty l)) (F := F) ?_ hnew
  unfold InfoTreeHeap.tagAsArray modifyBranch InfoTree.tagAsArray
  split_ifs
  · exact hF.modifyLabel (setIsArray b) []
  · exact hF
  · exact hF.modifyLabel (setIsArray b) (components path)

/-- Grafting a new node. -/
theorem Copying.graftValue (hc : Copying h₀ h R res) (path : String) (v : Any) :
    Copying h₀ (graft path h.length res (h ++ [⟨⟨v, false⟩, []⟩]))
      (InfoTree.graft path (makeValue v) R) res := by
  obtain ⟨F, hF, hnew⟩ := hc.owns
  have hlt : ∀ y ∈ F, y < h.length := fun y hy => ((Owns.closed R hF).2 y hy).1
  have hlength : (h ++ [(⟨⟨v, false⟩, []⟩ : TreeCell String NodeData)]).length = h.length + 1 := by
    rw [List.length_append, List.length_singleton]
  have hleaf : (h ++ [(⟨⟨v, false⟩, []⟩ : TreeCell String NodeData)])[h.length]? =
      some ⟨⟨v, false⟩, []⟩ := by simp
  have hF₁ : Owns (h ++ [(⟨⟨v, false⟩, []⟩ : TreeCell String NodeData)]) R res F :=
    Owns.congr R (fun y hy => List.getElem?_append_left (hlt y hy)) hF
  have hc₁ : Copying h₀ (h ++ [⟨⟨v, false⟩, []⟩]) R res :=
    hc.of_writes (writes_append (⟨v, false⟩ : NodeData) res ∅) (fun l hl => absurd hl (Set.notMem_empty l))
      hF₁ hnew
  generalize (h ++ [(⟨⟨v, false⟩, []⟩ : TreeCell String NodeData)]) = h₁ at hlength hleaf hF₁ hc₁
  unfold InfoTreeHeap.graft InfoTree.graft
  split_ifs with hpath
  · rw [hpath]
    exact hc₁
  · have hdisj : Disjoint F {h.length} := Set.disjoint_singleton_right.2 fun hmem =>
      Nat.lt_irrefl _ (hlt _ hmem)
    obtain ⟨F', hF', hmem⟩ := hF₁.graft hpath hc₁.valid (owns_leaf hleaf) hdisj emptyNode
    have hres : res < h₁.length := ((Owns.closed R hF₁).2 res (Owns.closed R hF₁).1).1
    refine hc₁.of_writes (writes_graft hc₁.valid hres emptyNode _ h.length) ?_ hF' fun y hy => ?_
    · intro l hl
      rw [Set.mem_singleton_iff.1 hl, hlength]
      exact Nat.lt_succ_self _
    · rcases hmem y hy with hy' | hy' | hy'
      · exact hnew y hy'
      · exact Set.mem_singleton_iff.1 hy' ▸ hc.le
      · exact Nat.le_trans hc₁.le hy'

theorem Copying.copyNode (hc : Copying h₀ h R res) (path : List String) (isArray : Bool)
    (name : String) (v : Any) : Copying h₀ (copyNode path isArray name v res h)
      (InfoTree.copyNode path isArray name v R) res := by
  unfold InfoTreeHeap.copyNode InfoTree.copyNode
  cases isArray with
  | false => exact hc.graftValue _ v
  | true => exact (hc.tagAsArray (keyPath path) true).graftValue _ v

theorem copyWalk_succ {n : TreeCell String NodeData} {path : List String} (hn : h[t]? = some n) :
    copyWalk (fuel + 1) path res t h = n.children.foldl (fun h e =>
      copyWalk fuel (path ++ [e.1]) res e.2
        (copyNode path n.label.isArray e.1 (readData e.2 h) res h)) h := by
  rw [copyWalk, hn]

/-- The value of a node of a tree. -/
theorem readData_of_unfolds (hT : Unfolds h T t) : readData t h = T.data := by
  obtain ⟨d, cs⟩ := T
  obtain ⟨es, hx, -⟩ := unfolds_node.1 hT
  rw [readData, hx]
  rfl

mutual

/-- The walk through the nodes of a tree makes of the copy what the walk through the tree does. -/
theorem Copying.copyWalk : (T : InfoTree) → {t fuel : ℕ} → {path : List String} →
    {h : InfoTreeHeap} → {R : InfoTree} → Unfolds h₀ T t → T.height ≤ fuel →
    Copying h₀ h R res → Copying h₀ (copyWalk fuel path res t h) (InfoTree.copyWalk path T R) res
  | .node d cs, t, 0, _, _, _, _, hfuel, _ => by
      rw [KeyTree.height] at hfuel
      exact absurd hfuel (Nat.not_succ_le_zero _)
  | .node d cs, t, fuel + 1, path, h, R, hT, hfuel, hc => by
      obtain ⟨es, hx, hcs⟩ := unfolds_node.1 hT
      have hlt : t < h₀.length := (List.getElem?_eq_some_iff.1 hx).1
      rw [KeyTree.height] at hfuel
      rw [copyWalk_succ ((hc.kept t hlt).trans hx), InfoTree.copyWalk]
      exact Copying.copyChildren d.isArray cs hcs (Nat.le_of_succ_le_succ hfuel) hc

/-- The loop over the children. -/
theorem Copying.copyChildren (isArray : Bool) : (cs : List (String × InfoTree)) →
    {es : List (String × ℕ)} → {fuel : ℕ} → {path : List String} → {h : InfoTreeHeap} →
    {R : InfoTree} → UnfoldsAll h₀ cs es → KeyTree.heightAll cs ≤ fuel → Copying h₀ h R res →
    Copying h₀ (es.foldl (fun h e => InfoTreeHeap.copyWalk fuel (path ++ [e.1]) res e.2
      (InfoTreeHeap.copyNode path isArray e.1 (readData e.2 h) res h)) h)
        (InfoTree.copyChildren path isArray cs R) res
  | [], _, _, _, _, _, hcs, _, hc => by
      rw [unfoldsAll_nil.1 hcs, InfoTree.copyChildren]
      exact hc
  | (name, c) :: cs, _, fuel, path, h, R, hcs, hfuel, hc => by
      obtain ⟨x, es, rfl, hx, hrest⟩ := unfoldsAll_cons.1 hcs
      rw [KeyTree.heightAll, Nat.max_le] at hfuel
      have hdata : readData x h = c.data := by
        obtain ⟨d, ds⟩ := c
        obtain ⟨es', hcell, -⟩ := unfolds_node.1 hx
        rw [readData, hc.kept x (List.getElem?_eq_some_iff.1 hcell).1, hcell]
        rfl
      rw [List.foldl_cons, InfoTree.copyChildren, hdata]
      exact Copying.copyChildren isArray cs hrest hfuel.2
        (Copying.copyWalk c hx hfuel.1 (hc.copyNode path isArray name c.data))

end

/-- **What `copy` makes** is the copy of the tree, of new nodes. -/
theorem copying_copy (hv : Valid h) (hT : Unfolds h T t) (hfuel : T.height ≤ fuel) :
    Copying h (copy fuel t h).1 (InfoTree.copy T) (copy fuel t h).2 := by
  have hcell : (h ++ [(⟨emptyNode, []⟩ : TreeCell String NodeData)])[h.length]? =
      some ⟨emptyNode, []⟩ := by simp
  have hwrites := writes_append (h := h) emptyNode h.length ∅
  have hmake : Copying h (h ++ [⟨emptyNode, []⟩]) make h.length :=
    ⟨hwrites.valid hv fun l hl => absurd hl (Set.notMem_empty l), hwrites.le,
      fun y hy => List.getElem?_append_left hy, {h.length}, owns_leaf hcell,
      fun y hy => Nat.le_of_eq (Set.mem_singleton_iff.1 hy).symm⟩
  rw [copy, InfoTree.copy, readData_of_unfolds hT]
  refine Copying.copyWalk T hT hfuel ?_
  split_ifs
  · obtain ⟨F, hF, hnew⟩ := hmake.owns
    exact hmake.of_writes (writes_writeLabel _ _ ∅) (fun l hl => absurd hl (Set.notMem_empty l))
      (hF.modifyLabel (setData T.data) []) hnew
  · exact hmake

/-- The new nodes and the old ones. -/
theorem Copying.apart (hc : Copying h₀ h R res) (hv : Valid h₀) (ht : t < h₀.length) :
    Apart h t res := fun x htx hresx => by
  obtain ⟨F, hF, hnew⟩ := hc.owns
  have hold : Reach h₀ t x := by
    rwa [reach_congr fun y hy => hc.kept y (hv.lt_of_reach ht hy)] at htx
  exact Nat.not_lt.2 (hnew x (hF.mem_of_reach hresx)) (hv.lt_of_reach ht hold)

/-! ### The heaps that the functions make -/

/-- The heaps that the functions make from the empty one. -/
inductive Made : InfoTreeHeap → Prop
  | nil : Made []
  | make (v : Any) {h : InfoTreeHeap} (hh : Made h) : Made (h ++ [⟨⟨v, false⟩, []⟩])
  | graft (path : String) {tree x : ℕ} {h : InfoTreeHeap} (hh : Made h) (hx : x < h.length)
      (htree : tree < h.length) : Made (graft path tree x h)
  | prune (path : String) (x : ℕ) {h : InfoTreeHeap} (hh : Made h) : Made (prune path x h)
  | branchSetValue (path : String) (v : Any) (x : ℕ) {h : InfoTreeHeap} (hh : Made h) :
      Made (branchSetValue path v x h)
  | tagAsArray (path : String) (b : Bool) (x : ℕ) {h : InfoTreeHeap} (hh : Made h) :
      Made (tagAsArray path b x h)

theorem Made.valid (hh : Made h) : Valid h := by
  have hnone : ∀ {n : ℕ}, ∀ l ∈ (∅ : Set ℕ), l < n := fun l hl => absurd hl (Set.notMem_empty l)
  induction hh with
  | nil => rintro x y ⟨n, k, hn, -⟩; cases hn
  | make v _ ih => exact (writes_append (⟨v, false⟩ : NodeData) 0 ∅).valid ih hnone
  | graft path _ hx htree ih =>
      exact (writes_graft ih hx emptyNode _ _).valid ih fun l hl =>
        Set.mem_singleton_iff.1 hl ▸ htree
  | prune path x _ ih => exact (writes_prune _ x ∅).valid ih hnone
  | branchSetValue path v x _ ih => exact (writes_modifyBranch _ path x ∅).valid ih hnone
  | tagAsArray path b x _ ih => exact (writes_modifyBranch _ path x ∅).valid ih hnone

theorem keyed_modifyBranch {P : String → Prop} (hk : Keyed P h) (f : NodeData → NodeData)
    (path : String) (x : ℕ) : Keyed P (modifyBranch f path x h) := by
  unfold modifyBranch
  split_ifs
  · exact hk.writeLabel f x
  · exact hk
  · exact hk.modifyLabel f _ x

theorem Made.keyed (hh : Made h) : Keyed (Components.Plain '.') h := by
  induction hh with
  | nil => exact fun n hn => absurd hn List.not_mem_nil
  | make v _ ih => exact ih.append _
  | graft path _ _ _ ih => exact ih.graft (fun k hk => plain_of_mem_components hk) _ _ _
  | prune path x _ ih => exact ih.prune _ x
  | branchSetValue path v x _ ih => exact keyed_modifyBranch ih _ path x
  | tagAsArray path b x _ ih => exact keyed_modifyBranch ih _ path x

/-! ### Later edits -/

/-- An edit of a tree, or a new one. -/
inductive Edit
  | make (v : Any)
  | graft (path : String) (tree : ℕ)
  | prune (path : String)
  | branchSetValue (path : String) (v : Any)

/-- What an edit of the tree of a node does. -/
def edit (x : ℕ) (h : InfoTreeHeap) : Edit → Option (InfoTreeHeap × Unit)
  | .make v => some (h ++ [⟨⟨v, false⟩, []⟩], ())
  | .graft path tree => some (graft path tree x h, ())
  | .prune path => some (prune path x h, ())
  | .branchSetValue path v => some (branchSetValue path v x h, ())

/-- What is grafted has no node in common with the tree of `b`. -/
def Foreign (b : ℕ) (h : InfoTreeHeap) : Edit → Prop
  | .graft _ tree => tree < h.length ∧ Apart h tree b
  | _ => True

/-- Edits of the tree of `a` leave the tree of `b` as it is. -/
def Isolated (h : InfoTreeHeap) (a b : ℕ) : Prop := ∀ T es, Unfolds h T b →
  Machine.Admits (edit a) (Foreign b) h es → Machine.Always (edit a) (fun h' => Unfolds h' T b) h es

variable {a b : ℕ}

/-- What an edit writes. -/
theorem writes_edit {e : Edit} {r : InfoTreeHeap × Unit} (hv : Valid h) (ha : a < h.length)
    (he : Foreign b h e) (hr : edit a h e = some r) :
    ∃ leaves, Writes h r.1 a leaves ∧ ∀ l ∈ leaves, l < h.length ∧ Apart h l b := by
  cases e with
  | make v =>
      obtain rfl := Option.some.inj hr
      exact ⟨∅, writes_append _ a ∅, fun l hl => absurd hl (Set.notMem_empty l)⟩
  | graft path tree =>
      obtain rfl := Option.some.inj hr
      exact ⟨{tree}, writes_graft hv ha emptyNode _ tree, fun l hl =>
        Set.mem_singleton_iff.1 hl ▸ he⟩
  | prune path =>
      obtain rfl := Option.some.inj hr
      exact ⟨∅, writes_prune _ a ∅, fun l hl => absurd hl (Set.notMem_empty l)⟩
  | branchSetValue path v =>
      obtain rfl := Option.some.inj hr
      exact ⟨∅, writes_modifyBranch _ path a ∅, fun l hl => absurd hl (Set.notMem_empty l)⟩

/-- Trees without a common node. -/
theorem isolated_of_apart (hv : Valid h) (ha : a < h.length) (hb : b < h.length)
    (hab : Apart h a b) : Isolated h a b := by
  intro T es hT hes
  refine hes.always (I := fun h' => Valid h' ∧ a < h'.length ∧ b < h'.length ∧ Apart h' a b ∧
    Unfolds h' T b) (fun h' hh' => hh'.2.2.2.2) ?_ ⟨hv, ha, hb, hab, hT⟩
  rintro h₁ e r ⟨hv₁, ha₁, hb₁, hab₁, hT₁⟩ he hr
  obtain ⟨leaves, hw, hleaves⟩ := writes_edit hv₁ ha₁ he hr
  obtain ⟨hapart, hsame⟩ := hw.apart hv₁ hb₁ hab₁ fun l hl => (hleaves l hl).2
  exact ⟨hw.valid hv₁ fun l hl => (hleaves l hl).1, Nat.lt_of_lt_of_le ha₁ hw.le,
    Nat.lt_of_lt_of_le hb₁ hw.le, hapart, unfolds_congr T hsame hT₁⟩

/-! ### Exact copies -/

mutual

/-- The nodes that are tagged as arrays have children. -/
def Settled : InfoTree → Prop
  | .node d cs => (d.isArray = true → cs ≠ []) ∧ SettledAll cs

/-- The trees of the children are settled. -/
def SettledAll : List (String × InfoTree) → Prop
  | [] => True
  | (_, c) :: cs => Settled c ∧ SettledAll cs

end

mutual

/-- The trees that keep all their tags. -/
theorem settle_eq_self_iff : (T : InfoTree) → (settle T = T ↔ Settled T)
  | .node d cs => by
      rw [settle, Settled, KeyTree.node.injEq, settleChildren_eq_self_iff cs]
      refine and_congr_left' ?_
      obtain ⟨v, b⟩ := d
      cases b <;> cases cs <;> simp

theorem settleChildren_eq_self_iff :
    (cs : List (String × InfoTree)) → (settleChildren cs = cs ↔ SettledAll cs)
  | [] => by rw [settleChildren, SettledAll]; exact iff_of_true rfl trivial
  | (name, c) :: cs => by
      rw [settleChildren, SettledAll, List.cons.injEq, Prod.mk.injEq, settle_eq_self_iff c,
        settleChildren_eq_self_iff cs]
      exact and_congr_left' (and_iff_right rfl)

end

/-- A copy of the tree `T` of the node `t`: the same tree, without a common node, so that edits of
one of them leave the other one as it is. -/
structure Exact (T : InfoTree) (t : ℕ) (r : InfoTreeHeap × ℕ) : Prop where
  equal : Unfolds r.1 T r.2
  source : Unfolds r.1 T t
  apart : Apart r.1 t r.2
  copyIsolated : Isolated r.1 t r.2
  sourceIsolated : Isolated r.1 r.2 t

/-- **A copy is exact** when every node that is tagged as an array has a child, and then only:
`copy` tags a node when it meets a child of it. -/
theorem copy_exact_iff (hh : Made h) (hT : Unfolds h T t) (hfuel : T.height ≤ fuel) :
    Exact T t (copy fuel t h) ↔ Settled T := by
  have hc := copying_copy hh.valid hT hfuel
  obtain ⟨F, hF, -⟩ := hc.owns
  have hcopy := Owns.unfolds _ hF
  have ht : t < h.length := by
    obtain ⟨d, cs⟩ := T
    obtain ⟨es, hx, -⟩ := unfolds_node.1 hT
    exact (List.getElem?_eq_some_iff.1 hx).1
  rw [copy_eq_settle (hh.keyed.wellKeyed T hT)] at hcopy
  rw [← settle_eq_self_iff]
  constructor
  · intro hexact
    exact unfolds_unique _ hcopy hexact.equal
  · intro heq
    rw [heq] at hcopy
    have hapart := hc.apart hh.valid ht
    have htlt := Nat.lt_of_lt_of_le ht hc.le
    have hreslt := ((Owns.closed _ hF).2 _ (Owns.closed _ hF).1).1
    exact ⟨hcopy, unfolds_congr T (fun y hy => hc.kept y (hh.valid.lt_of_reach ht hy)) hT, hapart,
      isolated_of_apart hc.valid htlt hreslt hapart,
      isolated_of_apart hc.valid hreslt htlt hapart.symm⟩

/-- A tree with an array of one element. -/
def oneElement : InfoTreeHeap :=
  tagAsArray "." true 0 (graft "only" 1 0 [⟨emptyNode, []⟩, ⟨⟨.bool true, false⟩, []⟩])

/-- A tree with an array of no element. -/
def noElement : InfoTreeHeap := tagAsArray "." true 0 [⟨emptyNode, []⟩]

theorem made_oneElement : Made oneElement :=
  .tagAsArray _ true 0 (.graft _ (.make _ (.make .null .nil)) (by decide) (by decide))

theorem unfolds_oneElement :
    Unfolds oneElement (.node ⟨.null, true⟩ [("only", .node ⟨.bool true, false⟩ [])]) 0 := by
  have hheap : oneElement =
      [⟨⟨.null, true⟩, [("only", 1)]⟩, ⟨⟨.bool true, false⟩, []⟩] := by decide
  rw [hheap]
  refine unfolds_node.2 ⟨_, rfl, unfoldsAll_cons.2 ⟨1, [], rfl, ?_, unfoldsAll_nil.2 rfl⟩⟩
  exact unfolds_node.2 ⟨[], rfl, unfoldsAll_nil.2 rfl⟩

theorem copy_exact_oneElement :
    Exact (.node ⟨.null, true⟩ [("only", .node ⟨.bool true, false⟩ [])]) 0
      (copy 2 0 oneElement) :=
  (copy_exact_iff made_oneElement unfolds_oneElement (by decide)).2
    ⟨fun _ => List.cons_ne_nil _ _, ⟨fun h => (Bool.noConfusion h), trivial⟩, trivial⟩

/-- The tag of an array without element is not copied. -/
theorem not_copy_exact_noElement : Made noElement ∧ Unfolds noElement (.node ⟨.null, true⟩ []) 0 ∧
    ¬Exact (.node ⟨.null, true⟩ []) 0 (copy 1 0 noElement) := by
  refine ⟨.tagAsArray _ true 0 (.make .null .nil), ?_, fun hexact => ?_⟩
  · exact unfolds_node.2 ⟨[], rfl, unfoldsAll_nil.2 rfl⟩
  · obtain ⟨es, hcell, -⟩ := unfolds_node.1 hexact.equal
    have hcopy : (copy 1 0 noElement).1[(copy 1 0 noElement).2]? = some ⟨emptyNode, []⟩ := by decide
    have hlabel : emptyNode = ⟨.null, true⟩ :=
      congrArg TreeCell.label (Option.some.inj (hcopy.symm.trans hcell))
    exact absurd hlabel (by decide)

end InfoTreeHeap
end LibSwitcher
