/-
# Trees in a heap

A program that holds its trees by pointers can hold one node in several places.  A heap here is a
list of cells, a node is known by its place, and a cell has a label and the nodes of its children
under their keys.  `graft`, `prune` and `modifyLabel` follow a path from a node and write the cell
at its end; they are the functions on values of `KeyTree` where nothing is shared (`Owns`).

What they write is reached from the node they start at (`Writes`), so that two nodes that reach no
common one stay so, and a tree stays as it is when the other one is edited (`Writes.apart`).
-/

import LibSwitcher.Lib.TreeEdits
import Mathlib.Data.Set.Basic
import Mathlib.Logic.Relation

/-- A cell of a heap: a label, and the children under their keys. -/
structure TreeCell (κ α : Type*) where
  label : α
  children : List (κ × ℕ)
  deriving DecidableEq

/-- A heap of trees: the cells in the order they are made. -/
abbrev TreeHeap (κ α : Type*) := List (TreeCell κ α)

namespace TreeHeap

variable {κ α : Type*}

/-! ### Nodes and edges -/

/-- One node is a child of another one. -/
def Edge (h : TreeHeap κ α) (x y : ℕ) : Prop :=
  ∃ n k, h[x]? = some n ∧ (k, y) ∈ n.children

/-- A node is below another one, or is the same. -/
abbrev Reach (h : TreeHeap κ α) : ℕ → ℕ → Prop := Relation.ReflTransGen (Edge h)

/-- The children are nodes of the heap. -/
def Valid (h : TreeHeap κ α) : Prop := ∀ x y, Edge h x y → y < h.length

/-- Two nodes have no common node below them. -/
def Apart (h : TreeHeap κ α) (a b : ℕ) : Prop := ∀ x, Reach h a x → ¬Reach h b x

variable {h h' h'' : TreeHeap κ α} {a b x y z leaf : ℕ}

theorem Apart.symm (hab : Apart h a b) : Apart h b a := fun x hb ha => hab x ha hb

theorem Edge.lt (he : Edge h x y) : x < h.length := by
  obtain ⟨n, k, hn, -⟩ := he
  exact (List.getElem?_eq_some_iff.1 hn).1

theorem Valid.lt_of_reach (hv : Valid h) (ha : a < h.length) (hx : Reach h a x) :
    x < h.length := by
  induction hx with
  | refl => exact ha
  | tail _ hedge _ => exact hv _ _ hedge

/-- Where the cells below a node are the same, so is what is below it. -/
theorem reach_congr (hsame : ∀ y, Reach h x y → h'[y]? = h[y]?) :
    Reach h' x y ↔ Reach h x y := by
  constructor
  · intro hy
    induction hy with
    | refl => exact Relation.ReflTransGen.refl
    | tail _ hedge ih =>
        obtain ⟨n, k, hn, hmem⟩ := hedge
        exact ih.tail ⟨n, k, hsame _ ih ▸ hn, hmem⟩
  · intro hy
    induction hy with
    | refl => exact Relation.ReflTransGen.refl
    | tail hbefore hedge ih =>
        obtain ⟨n, k, hn, hmem⟩ := hedge
        exact ih.tail ⟨n, k, (hsame _ hbefore).trans hn, hmem⟩

/-! ### The tree of a node -/

mutual

/-- The tree that a node is the root of. -/
def Unfolds (h : TreeHeap κ α) : KeyTree κ α → ℕ → Prop
  | .node a cs, x => ∃ es, h[x]? = some ⟨a, es⟩ ∧ UnfoldsAll h cs es

/-- The trees of the children of a node. -/
def UnfoldsAll (h : TreeHeap κ α) : List (κ × KeyTree κ α) → List (κ × ℕ) → Prop
  | [], es => es = []
  | (k, c) :: cs, es => ∃ x es', es = (k, x) :: es' ∧ Unfolds h c x ∧ UnfoldsAll h cs es'

end

theorem unfolds_node {l : α} {cs : List (κ × KeyTree κ α)} : Unfolds h (.node l cs) x ↔
    ∃ es, h[x]? = some ⟨l, es⟩ ∧ UnfoldsAll h cs es := by
  rw [Unfolds]

theorem unfoldsAll_nil {es : List (κ × ℕ)} : UnfoldsAll h [] es ↔ es = [] := by
  rw [UnfoldsAll]

theorem unfoldsAll_cons {k : κ} {c : KeyTree κ α} {cs : List (κ × KeyTree κ α)}
    {es : List (κ × ℕ)} : UnfoldsAll h ((k, c) :: cs) es ↔
      ∃ x es', es = (k, x) :: es' ∧ Unfolds h c x ∧ UnfoldsAll h cs es' := by
  rw [UnfoldsAll]

mutual

/-- A node has one tree. -/
theorem unfolds_unique : (t : KeyTree κ α) → {t' : KeyTree κ α} → {x : ℕ} → Unfolds h t x →
    Unfolds h t' x → t = t'
  | .node a cs, .node a' cs', x, ht, ht' => by
      obtain ⟨es, hx, hcs⟩ := unfolds_node.1 ht
      obtain ⟨es', hx', hcs'⟩ := unfolds_node.1 ht'
      obtain ⟨rfl, rfl⟩ := TreeCell.mk.inj (Option.some.inj (hx.symm.trans hx'))
      rw [unfoldsAll_unique cs hcs hcs']

theorem unfoldsAll_unique : (cs : List (κ × KeyTree κ α)) → {cs' : List (κ × KeyTree κ α)} →
    {es : List (κ × ℕ)} → UnfoldsAll h cs es → UnfoldsAll h cs' es → cs = cs'
  | [], [], _, _, _ => rfl
  | [], (k, c) :: cs', es, hcs, hcs' => by
      obtain ⟨x, es', hes, -⟩ := unfoldsAll_cons.1 hcs'
      cases (unfoldsAll_nil.1 hcs).symm.trans hes
  | (k, c) :: cs, [], es, hcs, hcs' => by
      obtain ⟨x, es', hes, -⟩ := unfoldsAll_cons.1 hcs
      cases (unfoldsAll_nil.1 hcs').symm.trans hes
  | (k, c) :: cs, (k', c') :: cs', es, hcs, hcs' => by
      obtain ⟨x, es₁, rfl, hc, hrest⟩ := unfoldsAll_cons.1 hcs
      obtain ⟨x', es₂, hes, hc', hrest'⟩ := unfoldsAll_cons.1 hcs'
      obtain ⟨heq, rfl⟩ := List.cons.inj hes
      obtain ⟨rfl, rfl⟩ := Prod.mk.inj heq
      rw [unfolds_unique c hc hc', unfoldsAll_unique cs hrest hrest']

end

mutual

/-- The tree of a node is made of the cells below it. -/
theorem unfolds_congr : (t : KeyTree κ α) → {x : ℕ} →
    (∀ y, Reach h x y → h'[y]? = h[y]?) → Unfolds h t x → Unfolds h' t x
  | .node a cs, x, hsame, ht => by
      obtain ⟨es, hx, hcs⟩ := unfolds_node.1 ht
      refine unfolds_node.2 ⟨es, (hsame x Relation.ReflTransGen.refl).trans hx,
        unfoldsAll_congr cs ?_ hcs⟩
      intro e he y hy
      exact hsame y (Relation.ReflTransGen.head ⟨_, e.1, hx, he⟩ hy)

theorem unfoldsAll_congr : (cs : List (κ × KeyTree κ α)) → {es : List (κ × ℕ)} →
    (∀ e ∈ es, ∀ y, Reach h e.2 y → h'[y]? = h[y]?) → UnfoldsAll h cs es → UnfoldsAll h' cs es
  | [], _, _, hcs => unfoldsAll_nil.2 (unfoldsAll_nil.1 hcs)
  | (k, c) :: cs, _, hsame, hcs => by
      obtain ⟨x, es', rfl, hc, hrest⟩ := unfoldsAll_cons.1 hcs
      rw [List.forall_mem_cons] at hsame
      exact unfoldsAll_cons.2
        ⟨x, es', rfl, unfolds_congr c hsame.1 hc, unfoldsAll_congr cs hsame.2 hrest⟩

end

end TreeHeap

namespace KeyTree

variable {κ α : Type*}

mutual

/-- The number of nodes on the longest way down. -/
def height : KeyTree κ α → ℕ
  | node _ cs => heightAll cs + 1

def heightAll : List (κ × KeyTree κ α) → ℕ
  | [] => 0
  | (_, c) :: cs => max (height c) (heightAll cs)

end

end KeyTree

namespace TreeHeap

variable {κ α : Type*} {h h' h'' : TreeHeap κ α} {a b x y z leaf : ℕ}

/-! ### Writing cells -/

/-- Write the label of a node. -/
def writeLabel (f : α → α) (x : ℕ) (h : TreeHeap κ α) : TreeHeap κ α :=
  h.modify x fun n => { n with label := f n.label }

/-- Write the children of a node. -/
def writeChildren (f : List (κ × ℕ) → List (κ × ℕ)) (x : ℕ) (h : TreeHeap κ α) : TreeHeap κ α :=
  h.modify x fun n => { n with children := f n.children }

section Paths

variable [DecidableEq κ]

/-- The node of a child. -/
def child (h : TreeHeap κ α) (x : ℕ) (k : κ) : Option ℕ := h[x]?.bind fun n => n.children.lookup k

/-- The node at a path. -/
def get (h : TreeHeap κ α) : List κ → ℕ → Option ℕ
  | [], x => some x
  | k :: ks, x => (child h x k).bind (get h ks)

/-- Put a node at a path; the nodes missing on the way are made with the label `fresh`. -/
def graft (fresh : α) : List κ → ℕ → ℕ → TreeHeap κ α → TreeHeap κ α
  | [], _, _, h => h
  | [k], x, leaf, h => writeChildren (KeyTree.setKey k leaf) x h
  | k :: k' :: ks, x, leaf, h =>
      match child h x k with
      | some c => graft fresh (k' :: ks) c leaf h
      | none => graft fresh (k' :: ks) h.length leaf
          (writeChildren (KeyTree.setKey k h.length) x (h ++ [⟨fresh, []⟩]))

/-- Take out the node at a path, if there is one. -/
def prune : List κ → ℕ → TreeHeap κ α → TreeHeap κ α
  | [], _, h => h
  | [k], x, h => writeChildren (KeyTree.eraseKey k) x h
  | k :: k' :: ks, x, h =>
      match child h x k with
      | none => h
      | some c => prune (k' :: ks) c h

/-- Write the label of the node at a path, if there is one. -/
def modifyLabel (f : α → α) (p : List κ) (x : ℕ) (h : TreeHeap κ α) : TreeHeap κ α :=
  match get h p x with
  | none => h
  | some y => writeLabel f y h

end Paths

/-! ### What is written -/

variable {p : List κ} {k : κ} {fresh : α} {f : α → α} {leaves : Set ℕ}

/-- What an edit from a node may do: cells that are not below it stay, and new children are new
nodes, or among those that are given. -/
structure Writes (h h' : TreeHeap κ α) (x : ℕ) (leaves : Set ℕ) : Prop where
  le : h.length ≤ h'.length
  kept : ∀ y < h.length, ¬Reach h x y → h'[y]? = h[y]?
  edge : ∀ y z, Edge h' y z → Edge h y z ∨ z ∈ leaves ∨ h.length ≤ z ∧ z < h'.length

theorem Writes.refl (h : TreeHeap κ α) (x : ℕ) (leaves : Set ℕ) : Writes h h x leaves where
  le := Nat.le_refl _
  kept _ _ _ := rfl
  edge _ _ he := Or.inl he

theorem writes_writeLabel (f : α → α) (x : ℕ) (leaves : Set ℕ) :
    Writes h (writeLabel f x h) x leaves where
  le := by rw [writeLabel, List.length_modify]
  kept y _ hy := by
    rw [writeLabel, List.getElem?_modify_ne]
    rintro rfl
    exact hy Relation.ReflTransGen.refl
  edge y z he := by
    obtain ⟨n, k, hn, hmem⟩ := he
    rw [writeLabel, List.getElem?_modify] at hn
    obtain ⟨n', hn', rfl⟩ := Option.map_eq_some_iff.1 hn
    refine Or.inl ⟨n', k, hn', ?_⟩
    split_ifs at hmem <;> exact hmem

/-- A new cell without children. -/
theorem writes_append (l : α) (x : ℕ) (leaves : Set ℕ) :
    Writes h (h ++ [⟨l, []⟩]) x leaves where
  le := by rw [List.length_append]; exact Nat.le_add_right _ _
  kept y hy _ := List.getElem?_append_left hy
  edge y z he := by
    obtain ⟨n, k, hn, hmem⟩ := he
    rcases List.mem_append.1 (List.mem_of_getElem? hn) with hold | hnew
    · have hlt : y < h.length := by
        by_contra hle
        rw [List.getElem?_append_right (Nat.le_of_not_lt hle)] at hn
        obtain rfl := List.mem_singleton.1 (List.mem_of_getElem? hn)
        cases hmem
      exact Or.inl ⟨n, k, (List.getElem?_append_left hlt).symm.trans hn, hmem⟩
    · obtain rfl := List.mem_singleton.1 hnew
      cases hmem

/-- Where the new children are old ones or given ones, so are the new edges. -/
theorem writes_writeChildren {f : List (κ × ℕ) → List (κ × ℕ)}
    (hf : ∀ es, ∀ e ∈ f es, e ∈ es ∨ e.2 ∈ leaves) (x : ℕ) :
    Writes h (writeChildren f x h) x leaves where
  le := by rw [writeChildren, List.length_modify]
  kept y _ hy := by
    rw [writeChildren, List.getElem?_modify_ne]
    rintro rfl
    exact hy Relation.ReflTransGen.refl
  edge y z he := by
    obtain ⟨n, k, hn, hmem⟩ := he
    rw [writeChildren, List.getElem?_modify] at hn
    obtain ⟨n', hn', rfl⟩ := Option.map_eq_some_iff.1 hn
    split_ifs at hmem
    · rcases hf n'.children (k, z) hmem with hold | hleaf
      · exact Or.inl ⟨n', k, hn', hold⟩
      · exact Or.inr (Or.inl hleaf)
    · exact Or.inl ⟨n', k, hn', hmem⟩

theorem Writes.valid (hw : Writes h h' x leaves) (hv : Valid h)
    (hleaves : ∀ l ∈ leaves, l < h.length) : Valid h' := fun y z he => by
  rcases hw.edge y z he with he | hz | ⟨-, hz⟩
  · exact Nat.lt_of_lt_of_le (hv y z he) hw.le
  · exact Nat.lt_of_lt_of_le (hleaves z hz) hw.le
  · exact hz

/-- **Trees that are apart stay apart**, and the other one stays as it is, when one is edited and
what is put into it is apart from the other one too. -/
theorem Writes.apart (hw : Writes h h' a leaves) (hv : Valid h) (hb : b < h.length)
    (hab : Apart h a b) (hleaves : ∀ l ∈ leaves, Apart h l b) :
    Apart h' a b ∧ ∀ y, Reach h b y → h'[y]? = h[y]? := by
  have hsame : ∀ y, Reach h b y → h'[y]? = h[y]? := fun y hy =>
    hw.kept y (hv.lt_of_reach hb hy) fun hay => hab y hay hy
  refine ⟨fun x ha hbx => ?_, hsame⟩
  rw [reach_congr hsame] at hbx
  -- what is below the node now was below it, or below what was put there, or is new
  have hbelow : Reach h a x ∨ (∃ l ∈ leaves, Reach h l x) ∨ h.length ≤ x := by
    clear hbx
    induction ha with
    | refl => exact Or.inl Relation.ReflTransGen.refl
    | tail _ hedge ih =>
        rcases hw.edge _ _ hedge with hedge | hleaf | ⟨hle, -⟩
        · rcases ih with ih | ⟨l, hl, ih⟩ | hle
          · exact Or.inl (ih.tail hedge)
          · exact Or.inr (Or.inl ⟨l, hl, ih.tail hedge⟩)
          · exact absurd hedge.lt (Nat.not_lt.2 hle)
        · exact Or.inr (Or.inl ⟨_, hleaf, Relation.ReflTransGen.refl⟩)
        · exact Or.inr (Or.inr hle)
  rcases hbelow with ha | ⟨l, hl, hlx⟩ | hle
  · exact hab x ha hbx
  · exact hleaves l hl x hlx hbx
  · exact absurd (hv.lt_of_reach hb hbx) (Nat.not_lt.2 hle)

variable [DecidableEq κ]

theorem mem_of_mem_eraseKey {e : κ × ℕ} {l : List (κ × ℕ)} (he : e ∈ KeyTree.eraseKey k l) :
    e ∈ l := by
  induction l with
  | nil => exact he
  | cons e' l ih =>
      rw [KeyTree.eraseKey] at he
      split_ifs at he
      · exact List.mem_cons_of_mem _ he
      · rcases List.mem_cons.1 he with rfl | he
        · exact List.mem_cons_self
        · exact List.mem_cons_of_mem _ (ih he)

/-- The child under a key is a child. -/
theorem edge_of_child (hc : child h x k = some y) : Edge h x y := by
  obtain ⟨n, hn, hlookup⟩ := Option.bind_eq_some_iff.1 hc
  exact ⟨n, k, hn, KeyTree.mem_of_lookup hlookup⟩

theorem reach_of_get (hp : get h p x = some y) : Reach h x y := by
  induction p generalizing x with
  | nil =>
      obtain rfl := Option.some.inj hp
      exact Relation.ReflTransGen.refl
  | cons k p ih =>
      obtain ⟨c, hc, hrest⟩ := Option.bind_eq_some_iff.1 hp
      exact (ih hrest).head (edge_of_child hc)

theorem writes_modifyLabel (f : α → α) (p : List κ) (x : ℕ) (leaves : Set ℕ) :
    Writes h (modifyLabel f p x h) x leaves := by
  rw [modifyLabel]
  cases hp : get h p x with
  | none => exact Writes.refl h x leaves
  | some y =>
      have hy := writes_writeLabel (h := h) f y leaves
      exact ⟨hy.le, fun z hz hnot => hy.kept z hz fun hyz => hnot ((reach_of_get hp).trans hyz),
        hy.edge⟩

theorem writes_prune (p : List κ) (x : ℕ) (leaves : Set ℕ) :
    Writes h (prune p x h) x leaves := by
  induction p generalizing x with
  | nil => exact Writes.refl h x leaves
  | cons k p ih =>
      cases p with
      | nil => exact writes_writeChildren (fun es e he => Or.inl (mem_of_mem_eraseKey he)) x
      | cons k' p =>
          rw [prune]
          cases hc : child h x k with
          | none => exact Writes.refl h x leaves
          | some c =>
              have hwrites := ih c
              exact ⟨hwrites.le, fun y hy hnot => hwrites.kept y hy fun hcy =>
                hnot (hcy.head (edge_of_child hc)), hwrites.edge⟩

/-- A new child without children, below a node. -/
theorem writes_newChild (hx : x < h.length) (k : κ) (l : α) :
    Writes h (writeChildren (KeyTree.setKey k h.length) x (h ++ [⟨l, []⟩])) x ∅ ∧
      (writeChildren (KeyTree.setKey k h.length) x (h ++ [⟨l, []⟩]))[h.length]? = some ⟨l, []⟩ := by
  have hlength : (writeChildren (KeyTree.setKey k h.length) x (h ++ [⟨l, []⟩])).length =
      h.length + 1 := by
    rw [writeChildren, List.length_modify, List.length_append, List.length_singleton]
  have hnew : (h ++ [(⟨l, []⟩ : TreeCell κ α)])[h.length]? = some ⟨l, []⟩ := by simp
  refine ⟨⟨by omega, fun y hy hnot => ?_, ?_⟩, ?_⟩
  · rw [writeChildren, List.getElem?_modify_ne, List.getElem?_append_left hy]
    rintro rfl
    exact hnot Relation.ReflTransGen.refl
  · rintro y z ⟨n, k', hn, hmem⟩
    rw [writeChildren, List.getElem?_modify] at hn
    obtain ⟨n', hn', rfl⟩ := Option.map_eq_some_iff.1 hn
    have hold : (k', z) ∈ n'.children → Edge h y z := fun hz => by
      rcases Nat.lt_or_ge y h.length with hy | hy
      · exact ⟨n', k', (List.getElem?_append_left hy).symm.trans hn', hz⟩
      · have hle := (List.getElem?_eq_some_iff.1 hn').1
        rw [List.length_append, List.length_singleton] at hle
        obtain rfl : y = h.length := by omega
        obtain rfl := Option.some.inj (hnew.symm.trans hn')
        exact absurd hz List.not_mem_nil
    split_ifs at hmem
    · rcases KeyTree.mem_setKey hmem with heq | hmem
      · obtain ⟨-, rfl⟩ := Prod.mk.inj heq
        exact Or.inr (Or.inr ⟨Nat.le_refl _, by omega⟩)
      · exact Or.inl (hold hmem)
    · exact Or.inl (hold hmem)
  · rw [writeChildren, List.getElem?_modify_ne, hnew]
    omega

theorem writes_graft (hv : Valid h) (hx : x < h.length) (fresh : α) (p : List κ) (leaf : ℕ) :
    Writes h (graft fresh p x leaf h) x {leaf} := by
  induction p generalizing x h with
  | nil => exact Writes.refl h x {leaf}
  | cons k p ih =>
      cases p with
      | nil =>
          refine writes_writeChildren (fun es e he => ?_) x
          exact (KeyTree.mem_setKey he).symm.imp_right fun heq => by rw [heq]; rfl
      | cons k' p =>
          rw [graft]
          cases hc : child h x k with
          | some c =>
              have hedge := edge_of_child hc
              have hwrites := ih hv (hv _ _ hedge)
              exact ⟨hwrites.le, fun y hy hnot => hwrites.kept y hy fun hcy =>
                hnot (hcy.head hedge), hwrites.edge⟩
          | none =>
              dsimp only
              obtain ⟨hnew, hcell⟩ := writes_newChild hx k fresh
              have hlt := (List.getElem?_eq_some_iff.1 hcell).1
              generalize writeChildren (KeyTree.setKey k h.length) x (h ++ [⟨fresh, []⟩]) = h₁
                at hnew hcell hlt
              have hwrites := ih (hnew.valid hv fun l hl => absurd hl (Set.notMem_empty l)) hlt
              refine ⟨Nat.le_trans hnew.le hwrites.le, fun y hy hnot => ?_, fun y z he => ?_⟩
              · rw [hwrites.kept y (Nat.lt_of_lt_of_le hy hnew.le), hnew.kept y hy hnot]
                intro hreach
                rcases Relation.ReflTransGen.cases_head hreach with rfl | ⟨z, ⟨n, k'', hn, hmem⟩, -⟩
                · exact Nat.lt_irrefl _ hy
                · obtain rfl := Option.some.inj (hcell.symm.trans hn)
                  cases hmem
              · rcases hwrites.edge y z he with he | hz | ⟨hle, hz⟩
                · rcases hnew.edge y z he with he | hz | ⟨hle, hz⟩
                  · exact Or.inl he
                  · exact absurd hz (Set.notMem_empty z)
                  · exact Or.inr (Or.inr ⟨hle, Nat.lt_of_lt_of_le hz hwrites.le⟩)
                · exact Or.inr (Or.inl hz)
                · exact Or.inr (Or.inr ⟨Nat.le_trans hnew.le hle, hz⟩)

/-! ### Keys -/

variable {P : κ → Prop}

/-- The keys of children meet a property, and siblings have different ones. -/
def Keyed (P : κ → Prop) (h : TreeHeap κ α) : Prop :=
  ∀ n ∈ h, (∀ e ∈ n.children, P e.1) ∧ (n.children.map Prod.fst).Nodup

theorem Keyed.append (hk : Keyed P h) (l : α) : Keyed P (h ++ [⟨l, []⟩]) := fun n hn => by
  rcases List.mem_append.1 hn with hn | hn
  · exact hk n hn
  · obtain rfl := List.mem_singleton.1 hn
    exact ⟨fun e he => absurd he List.not_mem_nil, List.nodup_nil⟩

/-- A cell is written to one with such keys. -/
theorem Keyed.modifyCell {g : TreeCell κ α → TreeCell κ α} (hk : Keyed P h)
    (hg : ∀ n ∈ h, (∀ e ∈ (g n).children, P e.1) ∧ ((g n).children.map Prod.fst).Nodup) (x : ℕ) :
    Keyed P (h.modify x g) := fun n hn => by
  obtain ⟨i, hi⟩ := List.mem_iff_getElem?.1 hn
  rw [List.getElem?_modify] at hi
  obtain ⟨n', hn', rfl⟩ := Option.map_eq_some_iff.1 hi
  split_ifs
  · exact hg n' (List.mem_of_getElem? hn')
  · exact hk n' (List.mem_of_getElem? hn')

theorem Keyed.writeLabel (hk : Keyed P h) (f : α → α) (x : ℕ) : Keyed P (writeLabel f x h) :=
  hk.modifyCell (g := fun n => { n with label := f n.label }) hk x

theorem Keyed.setChild (hk : Keyed P h) (hP : P k) (c x : ℕ) :
    Keyed P (writeChildren (KeyTree.setKey k c) x h) := by
  refine hk.modifyCell (fun n hn => ⟨fun e he => ?_, KeyTree.nodup_setKey (hk n hn).2⟩) x
  rcases KeyTree.mem_setKey he with rfl | he
  · exact hP
  · exact (hk n hn).1 e he

theorem Keyed.eraseChild (hk : Keyed P h) (k : κ) (x : ℕ) :
    Keyed P (writeChildren (KeyTree.eraseKey k) x h) :=
  hk.modifyCell (fun n hn => ⟨fun e he => (hk n hn).1 e (mem_of_mem_eraseKey he),
    KeyTree.nodup_eraseKey (hk n hn).2⟩) x

theorem Keyed.modifyLabel (hk : Keyed P h) (f : α → α) (p : List κ) (x : ℕ) :
    Keyed P (modifyLabel f p x h) := by
  rw [TreeHeap.modifyLabel]
  cases get h p x with
  | none => exact hk
  | some y => exact hk.writeLabel f y

theorem Keyed.prune (hk : Keyed P h) (p : List κ) (x : ℕ) : Keyed P (prune p x h) := by
  induction p generalizing x with
  | nil => exact hk
  | cons k p ih =>
      cases p with
      | nil => exact hk.eraseChild k x
      | cons k' p =>
          rw [TreeHeap.prune]
          cases child h x k with
          | none => exact hk
          | some c => exact ih c

theorem Keyed.graft (hk : Keyed P h) (hp : ∀ k ∈ p, P k) (fresh : α) (x leaf : ℕ) :
    Keyed P (graft fresh p x leaf h) := by
  induction p generalizing x h with
  | nil => exact hk
  | cons k p ih =>
      rw [List.forall_mem_cons] at hp
      cases p with
      | nil => exact hk.setChild hp.1 leaf x
      | cons k' p =>
          rw [TreeHeap.graft]
          cases child h x k with
          | some c => exact ih hk hp.2 c
          | none => exact ih ((hk.append fresh).setChild hp.1 _ x) hp.2 _

mutual

/-- The trees of such a heap. -/
theorem Keyed.wellKeyed (hk : Keyed P h) : (t : KeyTree κ α) → {x : ℕ} → Unfolds h t x →
    t.WellKeyed P
  | .node l cs, x, ht => by
      obtain ⟨es, hx, hcs⟩ := unfolds_node.1 ht
      obtain ⟨hkeys, hnodup⟩ := hk _ (List.mem_of_getElem? hx)
      obtain ⟨hmap, htrees⟩ := Keyed.wellKeyedAll hk cs hcs
      refine .node l cs (fun e he => ?_) (hmap ▸ hnodup) htrees
      have hmem : e.1 ∈ es.map Prod.fst := hmap ▸ List.mem_map_of_mem he
      obtain ⟨e', he', heq⟩ := List.mem_map.1 hmem
      exact heq ▸ hkeys e' he'

theorem Keyed.wellKeyedAll (hk : Keyed P h) : (cs : List (κ × KeyTree κ α)) →
    {es : List (κ × ℕ)} → UnfoldsAll h cs es →
    cs.map Prod.fst = es.map Prod.fst ∧ ∀ e ∈ cs, e.2.WellKeyed P
  | [], _, hcs => by
      obtain rfl := unfoldsAll_nil.1 hcs
      exact ⟨rfl, fun e he => absurd he List.not_mem_nil⟩
  | (k, c) :: cs, _, hcs => by
      obtain ⟨x, es', rfl, hc, hrest⟩ := unfoldsAll_cons.1 hcs
      obtain ⟨hmap, htrees⟩ := Keyed.wellKeyedAll hk cs hrest
      exact ⟨by rw [List.map_cons, List.map_cons, hmap],
        List.forall_mem_cons.2 ⟨Keyed.wellKeyed hk c hc, htrees⟩⟩

end

end TreeHeap
