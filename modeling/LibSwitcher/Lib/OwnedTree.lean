/-
# Trees that own their nodes

A node of a heap owns a set of nodes when it is the root of a tree made of them, each in one
place (`Owns`).  Putting a tree into another one, or writing a label, is then what `KeyTree` says
it is (`Owns.graft`, `Owns.modifyLabel`): a node that is in one place is written for that place.
-/

import LibSwitcher.Lib.TreeHeap
import Mathlib

namespace TreeHeap

variable {κ α : Type*} {h h' : TreeHeap κ α}

mutual

/-- A node is the root of a tree made of a set of nodes, each in one place. -/
def Owns (h : TreeHeap κ α) : KeyTree κ α → ℕ → Set ℕ → Prop
  | .node l cs, x, F => ∃ es G, h[x]? = some ⟨l, es⟩ ∧ OwnsAll h cs es G ∧ x ∉ G ∧ F = insert x G

/-- The children of a node are the roots of trees without a common node. -/
def OwnsAll (h : TreeHeap κ α) : List (κ × KeyTree κ α) → List (κ × ℕ) → Set ℕ → Prop
  | [], es, G => es = [] ∧ G = ∅
  | (k, c) :: cs, es, G => ∃ x es' F G', es = (k, x) :: es' ∧ Owns h c x F ∧ OwnsAll h cs es' G' ∧
      Disjoint F G' ∧ G = F ∪ G'

end

variable {x y : ℕ} {F G : Set ℕ} {l : α} {k : κ} {c t : KeyTree κ α} {cs : List (κ × KeyTree κ α)}
  {es : List (κ × ℕ)}

theorem owns_node : Owns h (.node l cs) x F ↔
    ∃ es G, h[x]? = some ⟨l, es⟩ ∧ OwnsAll h cs es G ∧ x ∉ G ∧ F = insert x G := by
  rw [Owns]

theorem ownsAll_nil : OwnsAll h [] es G ↔ es = [] ∧ G = ∅ := by
  rw [OwnsAll]

theorem ownsAll_cons : OwnsAll h ((k, c) :: cs) es G ↔ ∃ x es' F G', es = (k, x) :: es' ∧
    Owns h c x F ∧ OwnsAll h cs es' G' ∧ Disjoint F G' ∧ G = F ∪ G' := by
  rw [OwnsAll]

/-- A cell without children. -/
theorem owns_leaf (hx : h[x]? = some ⟨l, []⟩) : Owns h (.node l []) x {x} :=
  owns_node.2 ⟨[], ∅, hx, ownsAll_nil.2 ⟨rfl, rfl⟩, Set.notMem_empty x, (insert_empty_eq x).symm⟩

mutual

/-- What a node owns depends on the cells of its nodes. -/
theorem Owns.congr : (t : KeyTree κ α) → {x : ℕ} → {F : Set ℕ} →
    (∀ y ∈ F, h'[y]? = h[y]?) → Owns h t x F → Owns h' t x F
  | .node l cs, x, F, hsame, ht => by
      obtain ⟨es, G, hx, hcs, hnot, rfl⟩ := owns_node.1 ht
      refine owns_node.2 ⟨es, G, (hsame x (Set.mem_insert x G)).trans hx, ?_, hnot, rfl⟩
      exact OwnsAll.congr cs (fun y hy => hsame y (Set.mem_insert_of_mem x hy)) hcs

theorem OwnsAll.congr : (cs : List (κ × KeyTree κ α)) → {es : List (κ × ℕ)} → {G : Set ℕ} →
    (∀ y ∈ G, h'[y]? = h[y]?) → OwnsAll h cs es G → OwnsAll h' cs es G
  | [], _, _, _, hcs => ownsAll_nil.2 (ownsAll_nil.1 hcs)
  | (k, c) :: cs, _, _, hsame, hcs => by
      obtain ⟨x, es', F, G', rfl, hc, hrest, hdisj, rfl⟩ := ownsAll_cons.1 hcs
      exact ownsAll_cons.2 ⟨x, es', F, G', rfl,
        Owns.congr c (fun y hy => hsame y (Or.inl hy)) hc,
        OwnsAll.congr cs (fun y hy => hsame y (Or.inr hy)) hrest, hdisj, rfl⟩

end

mutual

/-- The tree of a node that owns it is the one it unfolds to. -/
theorem Owns.unfolds : (t : KeyTree κ α) → {x : ℕ} → {F : Set ℕ} → Owns h t x F → Unfolds h t x
  | .node l cs, x, F, ht => by
      obtain ⟨es, G, hx, hcs, -⟩ := owns_node.1 ht
      exact unfolds_node.2 ⟨es, hx, OwnsAll.unfolds cs hcs⟩

theorem OwnsAll.unfolds : (cs : List (κ × KeyTree κ α)) → {es : List (κ × ℕ)} → {G : Set ℕ} →
    OwnsAll h cs es G → UnfoldsAll h cs es
  | [], _, _, hcs => unfoldsAll_nil.2 (ownsAll_nil.1 hcs).1
  | (k, c) :: cs, _, _, hcs => by
      obtain ⟨x, es', F, G', rfl, hc, hrest, -⟩ := ownsAll_cons.1 hcs
      exact unfoldsAll_cons.2 ⟨x, es', rfl, Owns.unfolds c hc, OwnsAll.unfolds cs hrest⟩

end

mutual

/-- The nodes of a tree are in the heap, and so are their children in the tree. -/
theorem Owns.closed : (t : KeyTree κ α) → {x : ℕ} → {F : Set ℕ} → Owns h t x F →
    x ∈ F ∧ ∀ y ∈ F, y < h.length ∧ ∀ z, Edge h y z → z ∈ F
  | .node l cs, x, F, ht => by
      obtain ⟨es, G, hx, hcs, -, rfl⟩ := owns_node.1 ht
      obtain ⟨hroots, hclosed⟩ := OwnsAll.closed cs hcs
      refine ⟨Set.mem_insert x G, fun y hy => ?_⟩
      rcases hy with rfl | hy
      · refine ⟨(List.getElem?_eq_some_iff.1 hx).1, ?_⟩
        rintro z ⟨n, k, hn, hmem⟩
        obtain rfl := Option.some.inj (hx.symm.trans hn)
        exact Set.mem_insert_of_mem y (hroots _ hmem)
      · exact ⟨(hclosed y hy).1, fun z he => Set.mem_insert_of_mem x ((hclosed y hy).2 z he)⟩

theorem OwnsAll.closed : (cs : List (κ × KeyTree κ α)) → {es : List (κ × ℕ)} → {G : Set ℕ} →
    OwnsAll h cs es G → (∀ e ∈ es, e.2 ∈ G) ∧ ∀ y ∈ G, y < h.length ∧ ∀ z, Edge h y z → z ∈ G
  | [], _, _, hcs => by
      obtain ⟨rfl, rfl⟩ := ownsAll_nil.1 hcs
      exact ⟨fun e he => absurd he List.not_mem_nil, fun y hy => absurd hy (Set.notMem_empty y)⟩
  | (k, c) :: cs, _, _, hcs => by
      obtain ⟨x, es', F, G', rfl, hc, hrest, -, rfl⟩ := ownsAll_cons.1 hcs
      obtain ⟨hx, hF⟩ := Owns.closed c hc
      obtain ⟨hroots, hG⟩ := OwnsAll.closed cs hrest
      refine ⟨List.forall_mem_cons.2 ⟨Or.inl hx, fun e he => Or.inr (hroots e he)⟩, ?_⟩
      rintro y (hy | hy)
      · exact ⟨(hF y hy).1, fun z he => Or.inl ((hF y hy).2 z he)⟩
      · exact ⟨(hG y hy).1, fun z he => Or.inr ((hG y hy).2 z he)⟩

end

/-- What is below a node is among what it owns. -/
theorem Owns.mem_of_reach (ht : Owns h t x F) (hy : Reach h x y) : y ∈ F := by
  obtain ⟨hx, hclosed⟩ := Owns.closed t ht
  induction hy with
  | refl => exact hx
  | tail _ hedge ih => exact (hclosed _ ih).2 _ hedge

variable [DecidableEq κ]

/-- A child of a node, and what becomes of the children when it is replaced. -/
theorem OwnsAll.lookup : (cs : List (κ × KeyTree κ α)) → {es : List (κ × ℕ)} → {G : Set ℕ} →
    OwnsAll h cs es G → cs.lookup k = some c → ∃ x F, es.lookup k = some x ∧ Owns h c x F ∧
      F ⊆ G ∧ ∀ (h' : TreeHeap κ α) c' x' F', Owns h' c' x' F' →
        (∀ y ∈ G, y ∉ F → h'[y]? = h[y]?) → Disjoint F' (G \ F) →
          OwnsAll h' (KeyTree.setKey k c' cs) (KeyTree.setKey k x' es) (F' ∪ G \ F)
  | [], _, _, _, hlookup => by cases hlookup
  | (k', d) :: cs, _, _, hcs, hlookup => by
      obtain ⟨x, es', F, G', rfl, hd, hrest, hdisj, rfl⟩ := ownsAll_cons.1 hcs
      rw [List.lookup_cons] at hlookup
      by_cases hk : k' = k
      · subst hk
        simp only [beq_self_eq_true] at hlookup
        obtain rfl := Option.some.inj hlookup
        refine ⟨x, F, by simp, hd, Set.subset_union_left, fun h' c' x' F' hc' hsame hdisj' => ?_⟩
        have hdiff : (F ∪ G') \ F = G' := by
          rw [Set.union_sdiff_left]
          exact hdisj.symm.sdiff_eq_left
        rw [hdiff] at hdisj' ⊢
        rw [KeyTree.setKey, if_pos rfl, KeyTree.setKey, if_pos rfl]
        refine ownsAll_cons.2 ⟨x', es', F', G', rfl, hc', OwnsAll.congr cs (fun y hy => ?_) hrest,
          hdisj', rfl⟩
        exact hsame y (Or.inr hy) fun hF => Set.disjoint_left.1 hdisj hF hy
      · have hne : (k == k') = false := by simpa using Ne.symm hk
        rw [hne] at hlookup
        obtain ⟨y, F₁, hy, hc, hsub, hreplace⟩ := OwnsAll.lookup cs hrest hlookup
        refine ⟨y, F₁, by rw [List.lookup_cons, hne]; exact hy, hc,
          hsub.trans Set.subset_union_right, fun h' c' x' F' hc' hsame hdisj' => ?_⟩
        have hdiff : (F ∪ G') \ F₁ = F ∪ G' \ F₁ := by
          rw [Set.union_sdiff_distrib, (hdisj.mono_right hsub).sdiff_eq_left]
        rw [hdiff] at hdisj' ⊢
        rw [KeyTree.setKey, if_neg hk, KeyTree.setKey, if_neg hk]
        have hrest' := hreplace h' c' x' F' hc' (fun z hz => hsame z (Or.inr hz))
          (hdisj'.mono_right Set.subset_union_right)
        refine ownsAll_cons.2 ⟨x, _, F, _, rfl, Owns.congr d (fun z hz => ?_) hd, hrest', ?_, ?_⟩
        · exact hsame z (Or.inl hz) fun hF₁ => Set.disjoint_left.1 hdisj hz (hsub hF₁)
        · exact Set.disjoint_union_right.2
            ⟨(hdisj'.mono_right Set.subset_union_left).symm, hdisj.mono_right Set.sdiff_subset⟩
        · rw [← Set.union_assoc, Set.union_comm F' F, Set.union_assoc]

/-- A child under a new key. -/
theorem OwnsAll.setKey_of_not_mem : (cs : List (κ × KeyTree κ α)) → {es : List (κ × ℕ)} →
    {G : Set ℕ} → OwnsAll h cs es G → cs.lookup k = none → es.lookup k = none ∧
      ∀ c' x' F', Owns h c' x' F' → Disjoint F' G →
        OwnsAll h (KeyTree.setKey k c' cs) (KeyTree.setKey k x' es) (F' ∪ G)
  | [], _, _, hcs, _ => by
      obtain ⟨rfl, rfl⟩ := ownsAll_nil.1 hcs
      refine ⟨rfl, fun c' x' F' hc' _ => ?_⟩
      exact ownsAll_cons.2 ⟨x', [], F', ∅, rfl, hc', ownsAll_nil.2 ⟨rfl, rfl⟩,
        Set.disjoint_empty F', rfl⟩
  | (k', d) :: cs, _, _, hcs, hlookup => by
      obtain ⟨x, es', F, G', rfl, hd, hrest, hdisj, rfl⟩ := ownsAll_cons.1 hcs
      rw [List.lookup_cons] at hlookup
      have hk : k' ≠ k := by
        rintro rfl
        simp at hlookup
      have hne : (k == k') = false := by simpa using hk.symm
      rw [hne] at hlookup
      obtain ⟨hnone, hadd⟩ := OwnsAll.setKey_of_not_mem cs hrest hlookup
      refine ⟨by rw [List.lookup_cons, hne]; exact hnone, fun c' x' F' hc' hdisj' => ?_⟩
      rw [KeyTree.setKey, if_neg hk, KeyTree.setKey, if_neg hk]
      refine ownsAll_cons.2 ⟨x, _, F, _, rfl, hd,
        hadd c' x' F' hc' (hdisj'.mono_right Set.subset_union_right), ?_, ?_⟩
      · exact Set.disjoint_union_right.2 ⟨(hdisj'.mono_right Set.subset_union_left).symm, hdisj⟩
      · rw [← Set.union_assoc, Set.union_comm F' F, Set.union_assoc]

/-- The node that a key stands for, with what it owns, and what becomes of the children when
another node is put there: they own what this one does instead. -/
theorem OwnsAll.exists_old (hcs : OwnsAll h cs es G) (k : κ) : ∃ old, old ⊆ G ∧
    (∀ c, cs.lookup k = some c → ∃ y, es.lookup k = some y ∧ Owns h c y old) ∧
      (cs.lookup k = none → es.lookup k = none) ∧
        ∀ (h' : TreeHeap κ α) c' x' F', Owns h' c' x' F' →
          (∀ y ∈ G, y ∉ old → h'[y]? = h[y]?) → Disjoint F' (G \ old) →
            OwnsAll h' (KeyTree.setKey k c' cs) (KeyTree.setKey k x' es) (F' ∪ G \ old) := by
  cases hlookup : cs.lookup k with
  | some c =>
      obtain ⟨y, old, hy, hc, hsub, hreplace⟩ := OwnsAll.lookup cs hcs hlookup
      exact ⟨old, hsub, fun c' hc' => ⟨y, hy, Option.some.inj hc' ▸ hc⟩,
        (fun hnone => by cases hnone), hreplace⟩
  | none =>
      refine ⟨∅, Set.empty_subset G, (fun c hc => by cases hc),
        fun _ => (OwnsAll.setKey_of_not_mem cs hcs hlookup).1, fun h' c' x' F' hc' hsame hdisj => ?_⟩
      rw [Set.sdiff_empty] at hdisj ⊢
      have hcs' := OwnsAll.congr cs (fun y hy => hsame y hy (Set.notMem_empty y)) hcs
      exact (OwnsAll.setKey_of_not_mem cs hcs' hlookup).2 c' x' F' hc' hdisj

/-! ### Edits of trees that own their nodes -/

/-- What a node does not own stays as it is. -/
theorem Owns.graft_kept (hv : Valid h) (ht : Owns h t x F) (fresh : α) (p : List κ) (leaf : ℕ)
    (hy : y < h.length) (hnot : y ∉ F) : (graft fresh p x leaf h)[y]? = h[y]? := by
  obtain ⟨hx, hclosed⟩ := Owns.closed t ht
  exact (writes_graft hv (hclosed x hx).1 fresh p leaf).kept y hy fun hreach =>
    hnot (ht.mem_of_reach hreach)

/-- Putting a tree into another one, where neither has a node of the other one. -/
theorem Owns.graft {leafTree : KeyTree κ α} {leaf : ℕ} {L : Set ℕ} {p : List κ} (hp : p ≠ [])
    (hv : Valid h) (ht : Owns h t x F) (hleaf : Owns h leafTree leaf L) (hdisj : Disjoint F L)
    (fresh : α) : ∃ F', Owns (graft fresh p x leaf h) (t.graft fresh p leafTree) x F' ∧
      ∀ y ∈ F', y ∈ F ∨ y ∈ L ∨ h.length ≤ y := by
  induction p generalizing h t x F with
  | nil => exact absurd rfl hp
  | cons k p ih =>
      obtain ⟨l, cs⟩ := t
      obtain ⟨es, G, hx, hcs, hnot, rfl⟩ := owns_node.1 ht
      obtain ⟨old, hold, hsome, hnone, hreplace⟩ := hcs.exists_old k
      have hxlt := (List.getElem?_eq_some_iff.1 hx).1
      have hlt : ∀ y ∈ G, y < h.length := fun y hy => ((OwnsAll.closed cs hcs).2 y hy).1
      have hltL : ∀ y ∈ L, y < h.length := fun y hy => ((Owns.closed leafTree hleaf).2 y hy).1
      have hxL : x ∉ L := Set.disjoint_left.1 hdisj (Set.mem_insert x G)
      have hGL : Disjoint G L := hdisj.mono_left (Set.subset_insert x G)
      -- the tree with another child under the key, made of given nodes and of new ones
      have hput : ∀ (h' : TreeHeap κ α) c' x' F', Owns h' c' x' F' →
          h'[x]? = some ⟨l, KeyTree.setKey k x' es⟩ → (∀ y ∈ G, y ∉ old → h'[y]? = h[y]?) →
          (∀ y ∈ F', y ∈ old ∨ y ∈ L ∨ h.length ≤ y) → ∃ F'',
            Owns h' (.node l (KeyTree.setKey k c' cs)) x F'' ∧
              ∀ y ∈ F'', y ∈ insert x G ∨ y ∈ L ∨ h.length ≤ y := by
        intro h' c' x' F' hc' hx' hsame hmem
        have hdisj' : Disjoint F' (G \ old) := Set.disjoint_left.2 fun y hy hG => by
          rcases hmem y hy with hy' | hy' | hy'
          · exact hG.2 hy'
          · exact Set.disjoint_left.1 hGL hG.1 hy'
          · exact absurd (hlt y hG.1) (Nat.not_lt.2 hy')
        refine ⟨insert x (F' ∪ G \ old), owns_node.2
          ⟨_, _, hx', hreplace h' c' x' F' hc' hsame hdisj', ?_, rfl⟩, ?_⟩
        · rintro (hF | hG)
          · rcases hmem x hF with hx' | hx' | hx'
            · exact hnot (hold hx')
            · exact hxL hx'
            · exact absurd hxlt (Nat.not_lt.2 hx')
          · exact hnot hG.1
        · rintro y (rfl | hy | hy)
          · exact Or.inl (Set.mem_insert y G)
          · exact (hmem y hy).imp_left fun hy' => Set.mem_insert_of_mem x (hold hy')
          · exact Or.inl (Set.mem_insert_of_mem x hy.1)
      have hgraft : (KeyTree.node l cs).graft fresh (k :: p) leafTree = .node l (KeyTree.setKey k
          (((cs.lookup k).getD (.node fresh [])).graft fresh p leafTree) cs) := rfl
      rw [hgraft]
      cases p with
      | nil =>
          have hne : ∀ y, y ≠ x → (writeChildren (KeyTree.setKey k leaf) x h)[y]? = h[y]? :=
            fun y hy => List.getElem?_modify_ne _ _ hy.symm
          refine hput _ leafTree leaf L ?_ ?_ (fun y hy _ => hne y fun heq => hnot (heq ▸ hy))
            fun y hy => Or.inr (Or.inl hy)
          · exact Owns.congr leafTree (fun y hy => hne y fun heq => hxL (heq ▸ hy)) hleaf
          · exact (List.getElem?_modify_eq _ _ _).trans (by rw [hx]; rfl)
      | cons k' p =>
          have hchild : child h x k = es.lookup k := by
            rw [child, hx]
            rfl
          rw [TreeHeap.graft, hchild]
          cases hlookup : cs.lookup k with
          | some c =>
              obtain ⟨y, hy, hc⟩ := hsome c hlookup
              obtain ⟨F₁, hF₁, hmem⟩ := ih (List.cons_ne_nil _ _) hv hc hleaf (hGL.mono_left hold)
              have hkept := fun z => hc.graft_kept hv fresh (k' :: p) leaf (y := z)
              rw [hy]
              refine hput _ _ y F₁ hF₁ ?_ (fun z hz => hkept z (hlt z hz)) hmem
              rw [KeyTree.setKey_self hy, ← hx]
              exact hkept x hxlt fun hmem => hnot (hold hmem)
          | none =>
              rw [hnone hlookup]
              dsimp only
              obtain ⟨hnew, hcell⟩ := writes_newChild hxlt k fresh
              have hx₁ : (writeChildren (KeyTree.setKey k h.length) x (h ++ [⟨fresh, []⟩]))[x]? =
                  some ⟨l, KeyTree.setKey k h.length es⟩ :=
                (List.getElem?_modify_eq _ _ _).trans (by rw [List.getElem?_append_left hxlt, hx]; rfl)
              have hne : ∀ y < h.length, y ≠ x →
                  (writeChildren (KeyTree.setKey k h.length) x (h ++ [⟨fresh, []⟩]))[y]? = h[y]? :=
                fun y hy hyx => (List.getElem?_modify_ne _ _ hyx.symm).trans
                  (List.getElem?_append_left hy)
              generalize writeChildren (KeyTree.setKey k h.length) x (h ++ [⟨fresh, []⟩]) = h₁
                at hnew hcell hx₁ hne
              have hv₁ := hnew.valid hv fun y hy => absurd hy (Set.notMem_empty y)
              have hleaf₁ : Owns h₁ leafTree leaf L := Owns.congr leafTree
                (fun y hy => hne y (hltL y hy) fun heq => hxL (heq ▸ hy)) hleaf
              have hdisj₁ : Disjoint {h.length} L := Set.disjoint_left.2 fun y hy hL =>
                absurd (hltL y hL) (by rw [Set.mem_singleton_iff.1 hy]; exact Nat.lt_irrefl _)
              obtain ⟨F₁, hF₁, hmem⟩ := ih (List.cons_ne_nil _ _) hv₁ (owns_leaf hcell) hleaf₁ hdisj₁
              have hkept : ∀ y < h.length, (TreeHeap.graft fresh (k' :: p) h.length leaf h₁)[y]? =
                  h₁[y]? := fun y hy => (owns_leaf hcell).graft_kept hv₁ fresh (k' :: p) leaf
                (Nat.lt_of_lt_of_le hy hnew.le) (Nat.ne_of_lt hy)
              refine hput _ _ h.length F₁ hF₁ ((hkept x hxlt).trans hx₁) (fun y hy _ => ?_)
                fun y hy => ?_
              · rw [hkept y (hlt y hy), hne y (hlt y hy) fun heq => hnot (heq ▸ hy)]
              · rcases hmem y hy with hy' | hy' | hy'
                · exact Or.inr (Or.inr (Nat.le_of_eq (Set.mem_singleton_iff.1 hy').symm))
                · exact Or.inr (Or.inl hy')
                · exact Or.inr (Or.inr (Nat.le_trans hnew.le hy'))

/-- Following a path from a child. -/
theorem modifyLabel_cons (f : α → α) (k : κ) (p : List κ) (hx : h[x]? = some ⟨l, es⟩) :
    modifyLabel f (k :: p) x h = match es.lookup k with
      | none => h
      | some y => modifyLabel f p y h := by
  have hchild : child h x k = es.lookup k := by
    rw [child, hx]
    rfl
  rw [modifyLabel, get, hchild]
  cases es.lookup k <;> rfl

/-- Writing the label of a node of a tree. -/
theorem Owns.modifyLabel (ht : Owns h t x F) (f : α → α) (p : List κ) :
    Owns (modifyLabel f p x h) (t.modify (fun n => n.setLabel (f n.label)) p) x F := by
  induction p generalizing t x F with
  | nil =>
      obtain ⟨l, cs⟩ := t
      obtain ⟨es, G, hx, hcs, hnot, rfl⟩ := owns_node.1 ht
      refine owns_node.2 ⟨es, G, ?_, OwnsAll.congr cs (fun y hy => ?_) hcs, hnot, rfl⟩
      · exact (List.getElem?_modify_eq _ _ _).trans (by rw [hx]; rfl)
      · exact List.getElem?_modify_ne _ _ fun heq => hnot (heq ▸ hy)
  | cons k p ih =>
      obtain ⟨l, cs⟩ := t
      obtain ⟨es, G, hx, hcs, hnot, rfl⟩ := owns_node.1 ht
      obtain ⟨old, hold, hsome, hnone, hreplace⟩ := hcs.exists_old k
      rw [modifyLabel_cons f k p hx, KeyTree.modify, KeyTree.child, KeyTree.children_node]
      cases hlookup : cs.lookup k with
      | none =>
          rw [hnone hlookup]
          exact ht
      | some c =>
          obtain ⟨y, hy, hc⟩ := hsome c hlookup
          have hkept : ∀ z < h.length, z ∉ old → (TreeHeap.modifyLabel f p y h)[z]? = h[z]? :=
            fun z hz hnot => (writes_modifyLabel f p y ∅).kept z hz fun hyz =>
              hnot (hc.mem_of_reach hyz)
          have hcs' := hreplace _ _ y old (ih hc)
            (fun z hz => hkept z ((OwnsAll.closed cs hcs).2 z hz).1) Set.disjoint_sdiff_right
          rw [KeyTree.setKey_self hy, Set.union_sdiff_cancel hold] at hcs'
          rw [hy]
          exact owns_node.2 ⟨es, G, (hkept x (List.getElem?_eq_some_iff.1 hx).1
            fun hmem => hnot (hold hmem)).trans hx, hcs', hnot, rfl⟩

end TreeHeap
