/-
# Merging a tree with its copy

A configuration is updated by merging it with a changed copy of itself.  A merge makes the
nodes of the second tree again where a value stands above them, and what it makes may lack
nodes without any value, and tags.  `remade` says that a node is made again as it is, and
`kept` that it stays as it is when it is merged with its copy (`mergeInto_self`).
-/

import LibSwitcher.InfoTree.Merge

namespace LibSwitcher
namespace InfoTree

mutual

/-- A merge makes the node as it is where it finds none: there is a value at each leaf, and
an array has a child, or two where it has no value. -/
def remade : InfoTree → Bool
  | .node d cs =>
      (d.data ≠ .null || !cs.isEmpty) &&
        (!d.isArray || !(if d.data ≠ .null then cs else cs.dropLast).isEmpty) && allRemade cs

/-- All the children are made as they are. -/
def allRemade : List (String × InfoTree) → Bool
  | [] => true
  | (_, c) :: cs => remade c && allRemade cs

end

mutual

/-- A merge with its copy leaves the node as it is: an array has a child, and what is below
a value is made again. -/
def kept : InfoTree → Bool
  | .node d cs =>
      (!d.isArray || !cs.isEmpty) && if d.data ≠ .null then allRemade cs else allKept cs

/-- All the children stay as they are. -/
def allKept : List (String × InfoTree) → Bool
  | [] => true
  | (_, c) :: cs => kept c && allKept cs

end

variable {t n c : InfoTree} {d : NodeData} {cs : List (String × InfoTree)} {k : String}

theorem allRemade_iff : allRemade cs = true ↔ ∀ e ∈ cs, remade e.2 = true := by
  induction cs with
  | nil => simp [allRemade]
  | cons e cs ih => rw [allRemade, Bool.and_eq_true, ih, List.forall_mem_cons]

theorem allKept_iff : allKept cs = true ↔ ∀ e ∈ cs, kept e.2 = true := by
  induction cs with
  | nil => simp [allKept]
  | cons e cs ih => rw [allKept, Bool.and_eq_true, ih, List.forall_mem_cons]

theorem remade_node : remade (.node d cs) = true ↔ (d.data ≠ .null ∨ cs ≠ []) ∧
    (d.isArray = true → (if d.data ≠ .null then cs else cs.dropLast) ≠ []) ∧
      ∀ e ∈ cs, remade e.2 = true := by
  rw [remade, Bool.and_eq_true, Bool.and_eq_true, allRemade_iff, and_assoc]
  refine and_congr (by simp) (and_congr_left fun _ => ?_)
  cases d.isArray <;> simp

theorem kept_node : kept (.node d cs) = true ↔ (d.isArray = true → cs ≠ []) ∧
    if d.data ≠ .null then ∀ e ∈ cs, remade e.2 = true else ∀ e ∈ cs, kept e.2 = true := by
  rw [kept, Bool.and_eq_true]
  refine and_congr (by cases d.isArray <;> simp) ?_
  split_ifs
  · exact allRemade_iff
  · exact allKept_iff

/-! ### Nothing to settle -/

theorem settle_node_of_all (htag : d.isArray = true → cs ≠ [])
    (hcs : ∀ e ∈ cs, settle e.2 = e.2) : settle (.node d cs) = .node d cs := by
  have hmap : cs.map (fun e => (e.1, settle e.2)) = cs := by
    refine (List.map_congr_left fun e he => ?_).trans (List.map_id cs)
    rw [hcs e he]
    rfl
  have hflag : (d.isArray && !cs.isEmpty) = d.isArray := by
    cases htagged : d.isArray with
    | false => rfl
    | true => simpa using htag htagged
  rw [settle, settleChildren_eq_map, hmap, hflag]

mutual

theorem settle_of_remade : (c : InfoTree) → remade c = true → settle c = c
  | .node d cs, h => by
      obtain ⟨-, htag, hcs⟩ := remade_node.1 h
      refine settle_node_of_all (fun hd hnil => htag hd ?_) (settle_of_allRemade cs hcs)
      subst hnil
      split_ifs <;> rfl

theorem settle_of_allRemade : (cs : List (String × InfoTree)) →
    (∀ e ∈ cs, remade e.2 = true) → ∀ e ∈ cs, settle e.2 = e.2
  | [], _, e, he => by cases he
  | (k, c) :: cs, h, e, he => by
      rcases List.mem_cons.1 he with rfl | he
      · exact settle_of_remade c (h (k, c) List.mem_cons_self)
      · exact settle_of_allRemade cs (fun e he => h e (List.mem_cons_of_mem _ he)) e he

end

mutual

theorem settle_of_kept : (c : InfoTree) → kept c = true → settle c = c
  | .node d cs, h => by
      obtain ⟨htag, hcs⟩ := kept_node.1 h
      refine settle_node_of_all htag ?_
      split_ifs at hcs
      · exact settle_of_allRemade cs hcs
      · exact settle_of_allKept cs hcs

theorem settle_of_allKept : (cs : List (String × InfoTree)) →
    (∀ e ∈ cs, kept e.2 = true) → ∀ e ∈ cs, settle e.2 = e.2
  | [], _, e, he => by cases he
  | (k, c) :: cs, h, e, he => by
      rcases List.mem_cons.1 he with rfl | he
      · exact settle_of_kept c (h (k, c) List.mem_cons_self)
      · exact settle_of_allKept cs (fun e he => h e (List.mem_cons_of_mem _ he)) e he

end

/-! ### What is made again -/

/-- Children that are made where there are none of their keys. -/
theorem mergeKids_new (isArray : Bool) {cs : List (String × InfoTree)} {n : InfoTree}
    (hnodup : ((n.children ++ cs).map Prod.fst).Nodup)
    (hcs : ∀ e ∈ cs, mergeInto e.2 none = some e.2) : mergeKids isArray cs (some n) =
      some (.node ⟨n.data, n.isArray || isArray && !cs.isEmpty⟩ (n.children ++ cs)) := by
  induction cs generalizing n with
  | nil =>
      obtain ⟨d, ns⟩ := n
      simp [mergeKids, data, InfoTree.isArray]
  | cons e cs ih =>
      obtain ⟨k, c⟩ := e
      rw [List.map_append, List.map_cons] at hnodup
      have hnew : k ∉ n.children.map Prod.fst := fun hmem =>
        (List.nodup_append.1 hnodup).2.2 k hmem k List.mem_cons_self rfl
      have hchild : n.child k = none := KeyTree.child_eq_none_iff.2 hnew
      have hput : putChild k (some c) (if isArray then (some n).map (makeArray true) else some n) =
          some (.node ⟨n.data, n.isArray || isArray⟩ (n.children ++ [(k, c)])) := by
        obtain ⟨d, ns⟩ := n
        cases isArray
        · rw [if_neg Bool.false_ne_true, putChild, Option.getD_some,
            KeyTree.graft_singleton_of_not_mem hnew, Bool.or_false]
          rfl
        · rw [if_pos rfl, putChild, Option.map_some, Option.getD_some,
            KeyTree.graft_singleton_of_not_mem (t := makeArray true _) hnew, Bool.or_true]
          rfl
      rw [mergeKids, Option.bind_some, hchild, hcs (k, c) List.mem_cons_self, hput, ih]
      · simp only [data, InfoTree.isArray, KeyTree.label_node, KeyTree.children_node,
          List.append_assoc, List.singleton_append, List.isEmpty_cons, Bool.not_false,
          Bool.and_true, Option.some.injEq, KeyTree.node.injEq, NodeData.mk.injEq, true_and,
          and_true]
        cases n.label.isArray <;> cases isArray <;> simp
      · simpa using hnodup
      · exact fun e he => hcs e (List.mem_cons_of_mem _ he)

mutual

/-- A node that is made again is the same. -/
theorem mergeInto_none : (c : InfoTree) → c.WellKeyed → remade c = true →
    mergeInto c none = some c
  | .node d cs, hc, h => by
      obtain ⟨hvalue, htag, hcs⟩ := remade_node.1 h
      have hnodup : (cs.map Prod.fst).Nodup := hc.nodup
      have hmade := mergeInto_none_of_all cs hc.children hcs
      rw [mergeInto]
      by_cases hd : d.data = .null
      · rw [if_neg (not_not.2 hd)] at htag ⊢
        obtain ⟨⟨k, c⟩, cs', rfl⟩ := List.exists_cons_of_ne_nil
          (hvalue.resolve_left (not_not.2 hd))
        -- the first child makes the node, and the next one tags it
        have hfirst : mergeKids d.isArray ((k, c) :: cs') none =
            mergeKids d.isArray cs' (some (.node emptyNode [(k, c)])) := by
          have hnone : (if d.isArray then (none : Option InfoTree).map (makeArray true)
              else none) = none := by
            split_ifs <;> rfl
          rw [mergeKids, Option.bind_none, hmade (k, c) List.mem_cons_self, hnone]
          rfl
        rw [hfirst, mergeKids_new d.isArray (n := .node emptyNode [(k, c)]) hnodup
          fun e he => hmade e (List.mem_cons_of_mem _ he)]
        have hflag : (d.isArray && !cs'.isEmpty) = d.isArray := by
          cases htagged : d.isArray with
          | false => rfl
          | true =>
              cases cs' with
              | nil => exact absurd rfl (htag htagged)
              | cons e cs' => rfl
        obtain ⟨v, tag⟩ := d
        obtain rfl : v = .null := hd
        simp only [data, InfoTree.isArray, KeyTree.label_node, KeyTree.children_node, emptyNode,
          Bool.false_or, hflag, List.singleton_append]
      · rw [if_pos hd] at htag ⊢
        rw [mergeKids_new d.isArray (n := makeValue d.data) hnodup hmade]
        have hflag : (d.isArray && !cs.isEmpty) = d.isArray := by
          cases htagged : d.isArray with
          | false => rfl
          | true => simpa using htag htagged
        simp only [data, InfoTree.isArray, makeValue, KeyTree.label_node, KeyTree.children_node,
          Bool.false_or, hflag, List.nil_append]

theorem mergeInto_none_of_all : (cs : List (String × InfoTree)) → (∀ e ∈ cs, WellKeyed e.2) →
    (∀ e ∈ cs, remade e.2 = true) → ∀ e ∈ cs, mergeInto e.2 none = some e.2
  | [], _, _, e, he => by cases he
  | (k, c) :: cs, hcs, h, e, he => by
      rcases List.mem_cons.1 he with rfl | he
      · exact mergeInto_none c (hcs (k, c) List.mem_cons_self) (h (k, c) List.mem_cons_self)
      · exact mergeInto_none_of_all cs (fun e he => hcs e (List.mem_cons_of_mem _ he))
          (fun e he => h e (List.mem_cons_of_mem _ he)) e he

end

/-! ### What stays -/

/-- Children that stay as they are. -/
theorem mergeKids_self (isArray : Bool) {cs : List (String × InfoTree)} {n : InfoTree}
    (htag : isArray = true → n.isArray = true) (hchild : ∀ e ∈ cs, n.child e.1 = some e.2)
    (hcs : ∀ e ∈ cs, mergeInto e.2 (some e.2) = some e.2) :
    mergeKids isArray cs (some n) = some n := by
  induction cs with
  | nil => rfl
  | cons e cs ih =>
      obtain ⟨k, c⟩ := e
      have hc : n.child k = some c := hchild (k, c) List.mem_cons_self
      have htagged : (if isArray then (some n).map (makeArray true) else some n) = some n := by
        split_ifs with h
        · obtain ⟨⟨v, tag⟩, ns⟩ := n
          obtain rfl : tag = true := htag h
          rfl
        · rfl
      rw [mergeKids, Option.bind_some, hc, hcs (k, c) List.mem_cons_self, htagged, putChild,
        Option.getD_some, KeyTree.graft_get (by rw [KeyTree.get_singleton, hc])]
      exact ih (fun e he => hchild e (List.mem_cons_of_mem _ he))
        fun e he => hcs e (List.mem_cons_of_mem _ he)

mutual

/-- A merge with itself leaves the node as it is. -/
theorem mergeInto_self : (c : InfoTree) → c.WellKeyed → kept c = true →
    mergeInto c (some c) = some c
  | .node d cs, hc, h => by
      obtain ⟨htag, hcs⟩ := kept_node.1 h
      have hnodup : (cs.map Prod.fst).Nodup := hc.nodup
      rw [mergeInto]
      by_cases hd : d.data = .null
      · rw [if_neg (not_not.2 hd)] at hcs ⊢
        exact mergeKids_self d.isArray (fun h => h)
          (fun e he => KeyTree.lookup_of_mem hnodup he) (mergeInto_self_of_all cs hc.children hcs)
      · rw [if_pos hd] at hcs ⊢
        rw [mergeKids_new d.isArray (n := makeValue d.data) hnodup
          (mergeInto_none_of_all cs hc.children hcs)]
        have hflag : (d.isArray && !cs.isEmpty) = d.isArray := by
          cases htagged : d.isArray with
          | false => rfl
          | true => simpa using htag htagged
        simp only [data, InfoTree.isArray, makeValue, KeyTree.label_node, KeyTree.children_node,
          Bool.false_or, hflag, List.nil_append]

theorem mergeInto_self_of_all : (cs : List (String × InfoTree)) → (∀ e ∈ cs, WellKeyed e.2) →
    (∀ e ∈ cs, kept e.2 = true) → ∀ e ∈ cs, mergeInto e.2 (some e.2) = some e.2
  | [], _, _, e, he => by cases he
  | (k, c) :: cs, hcs, h, e, he => by
      rcases List.mem_cons.1 he with rfl | he
      · exact mergeInto_self c (hcs (k, c) List.mem_cons_self) (h (k, c) List.mem_cons_self)
      · exact mergeInto_self_of_all cs (fun e he => hcs e (List.mem_cons_of_mem _ he))
          (fun e he => h e (List.mem_cons_of_mem _ he)) e he

end

/-! ### Under a key -/

variable {a b : InfoTree}

/-- What a merge has under a key. -/
theorem child_merge (ha : a.WellKeyed) (hb : b.WellKeyed) (k : String) : (merge a b).child k =
    match b.child k with
    | none => (a.child k).map settle
    | some c => mergeInto c ((a.child k).map settle) := by
  have h := child_mergeKids false hb.nodup (some (settle a)) k
  rw [← merge_eq ha hb, Option.bind_some, Option.bind_some, child_settle] at h
  exact h

/-- A node stays as it is where the second tree has its copy. -/
theorem child_merge_of_kept (ha : a.WellKeyed) (hb : b.WellKeyed)
    (hcopy : b.child k = (a.child k).map settle) (hkept : ∀ n ∈ a.child k, kept n = true) :
    (merge a b).child k = a.child k := by
  rw [child_merge ha hb, hcopy]
  cases hn : a.child k with
  | none => rfl
  | some n =>
      have hkept := hkept n hn
      have hsettle := settle_of_kept n hkept
      rw [Option.map_some, hsettle]
      exact mergeInto_self n (ha.child hn) hkept

/-- What a merge has below a node that the second tree has. -/
theorem child_mergeInto (hc : c.WellKeyed) (o : Option InfoTree) (k : String) :
    ((mergeInto c o).bind fun n => n.child k) =
      match c.child k with
      | none => (if data c ≠ .null then some (makeValue (data c)) else o).bind fun n => n.child k
      | some e => mergeInto e
          ((if data c ≠ .null then some (makeValue (data c)) else o).bind fun n => n.child k) := by
  obtain ⟨d, cs⟩ := c
  rw [mergeInto]
  exact child_mergeKids d.isArray hc.nodup _ k

/-- A child of a node that stays is made as it is. -/
theorem mergeInto_child_of_kept (hn : n.WellKeyed) (hkept : kept n = true)
    (hc : n.child k = some c) :
    mergeInto c ((if data n ≠ .null then some (makeValue (data n)) else some n).bind
      fun n => n.child k) = some c := by
  have h := child_mergeInto hn (some n) k
  rw [mergeInto_self n hn hkept, Option.bind_some, hc] at h
  exact h.symm

mutual

theorem hasValue_settle : (c : InfoTree) → hasValue (settle c) = hasValue c
  | .node d cs => by rw [settle, hasValue, hasValue, hasValueBelow_settleChildren cs]

theorem hasValueBelow_settleChildren : (cs : List (String × InfoTree)) →
    hasValueBelow (settleChildren cs) = hasValueBelow cs
  | [] => rfl
  | (k, c) :: cs => by
      rw [settleChildren, hasValueBelow, hasValueBelow, hasValue_settle c,
        hasValueBelow_settleChildren cs]

end

end InfoTree
end LibSwitcher
