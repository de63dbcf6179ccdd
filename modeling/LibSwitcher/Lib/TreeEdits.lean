/-
# Edits of a tree, seen from a path

A tree may be the product of many edits, grafts and changes of labels, each at a
path of its own.  What stands at a path `p` in the end depends on the edits whose
path continues `p` (`get_applyAll`); those whose path parts from `p` do not count.
Pruning takes out what stands at its path and leaves the rest.

`WellKeyed P` says that every key of a tree meets `P` and that siblings have
different keys; edits at paths of such keys keep it.
-/

import LibSwitcher.Lib.KeyTree

namespace KeyTree

variable {κ α : Type*}

/-! ### Keys and paths -/

/-- Every key of the tree meets `P`, and siblings have different keys. -/
inductive WellKeyed (P : κ → Prop) : KeyTree κ α → Prop
  | node (a : α) (cs : List (κ × KeyTree κ α)) (keys : ∀ e ∈ cs, P e.1)
      (nodup : (cs.map Prod.fst).Nodup) (children : ∀ e ∈ cs, WellKeyed P e.2) :
      WellKeyed P (.node a cs)

variable {t : KeyTree κ α} {P : κ → Prop}

theorem WellKeyed.keys (h : t.WellKeyed P) : ∀ e ∈ t.children, P e.1 := by
  cases h with
  | node a cs hkeys _ _ => exact hkeys

theorem WellKeyed.nodup (h : t.WellKeyed P) : (t.children.map Prod.fst).Nodup := by
  cases h with
  | node a cs _ hnodup _ => exact hnodup

theorem WellKeyed.children (h : t.WellKeyed P) : ∀ e ∈ t.children, WellKeyed P e.2 := by
  cases h with
  | node a cs _ _ hcs => exact hcs

/-- A new node. -/
theorem wellKeyed_nil (a : α) : (node a ([] : List (κ × KeyTree κ α))).WellKeyed P :=
  .node a [] (fun e he => by cases he) List.nodup_nil fun e he => by cases he

theorem WellKeyed.mono {Q : κ → Prop} (h : t.WellKeyed P) (hPQ : ∀ k, P k → Q k) :
    t.WellKeyed Q := by
  induction h with
  | node a cs keys nodup children ih =>
      exact .node a cs (fun e he => hPQ e.1 (keys e he)) nodup ih

theorem WellKeyed.setLabel (h : t.WellKeyed P) (a : α) : (t.setLabel a).WellKeyed P :=
  .node a t.children h.keys h.nodup h.children

/-- Two paths have different keys at some position. -/
def Parted : List κ → List κ → Prop
  | k :: ks, k' :: ks' => k ≠ k' ∨ Parted ks ks'
  | _, _ => False

/-- Paths that part are not prefixes of each other. -/
theorem Parted.not_isPrefix {p q : List κ} (h : Parted p q) : ¬p <+: q := by
  induction p generalizing q with
  | nil => exact h.elim
  | cons k ks ih =>
      cases q with
      | nil => exact h.elim
      | cons k' ks' =>
          rw [List.cons_prefix_cons]
          rintro ⟨rfl, hks⟩
          exact ih (h.resolve_left fun hne => hne rfl) hks

theorem Parted.symm {p q : List κ} (h : Parted p q) : Parted q p := by
  induction p generalizing q with
  | nil => exact h.elim
  | cons k ks ih =>
      cases q with
      | nil => exact h.elim
      | cons k' ks' => exact h.imp Ne.symm ih

/-- Two paths part, or one continues the other. -/
theorem parted_or_prefix (p q : List κ) : Parted p q ∨ p <+: q ∨ q <+: p := by
  induction p generalizing q with
  | nil => exact Or.inr (Or.inl (List.nil_prefix))
  | cons k ks ih =>
      cases q with
      | nil => exact Or.inr (Or.inr (List.nil_prefix))
      | cons k' ks' =>
          by_cases hk : k = k'
          · subst hk
            simp only [List.cons_prefix_cons, true_and]
            exact (ih ks').imp_left Or.inr
          · exact Or.inl (Or.inl hk)

variable [DecidableEq κ] {fresh : α} {leaf c : KeyTree κ α} {k : κ} {p q r ks : List κ}
  {f : KeyTree κ α → KeyTree κ α}

theorem get_append (p q : List κ) (t : KeyTree κ α) : t.get (p ++ q) = (t.get p).bind (get q) := by
  induction p generalizing t with
  | nil => rfl
  | cons k ks ih =>
      rw [List.cons_append, get_cons, get_cons]
      cases t.child k with
      | none => rfl
      | some c => exact ih c

/-- Nothing is found in a node without children. -/
theorem get_node_nil (hp : p ≠ []) : (node fresh ([] : List (κ × KeyTree κ α))).get p = none := by
  obtain ⟨k, ks, rfl⟩ := List.exists_cons_of_ne_nil hp
  rw [get_cons]
  rfl

/-- A missing child may be taken for a new node. -/
theorem get_getD (o : Option (KeyTree κ α)) (hp : p ≠ []) :
    (o.getD (node fresh [])).get p = o.bind (get p) := by
  cases o with
  | none => exact get_node_nil hp
  | some t => rfl

/-- The tree at a path, after a graft further down. -/
theorem get_graft_append (p r : List κ) (t leaf : KeyTree κ α) :
    (graft fresh (p ++ r) t leaf).get p =
      some (graft fresh r ((t.get p).getD (node fresh [])) leaf) := by
  induction p generalizing t with
  | nil => simp
  | cons k ks ih =>
      rw [List.cons_append, get_cons, child_graft_self, Option.bind_some, ih, get_cons]
      cases hks : ks with
      | nil =>
          cases t.child k with
          | none => rfl
          | some c => rfl
      | cons k' ks' => rw [get_getD _ (by simp)]

/-- A graft leaves what stands at a path that parts from its own. -/
theorem get_graft_of_parted (h : Parted p q) : (graft fresh q t leaf).get p = t.get p := by
  induction p generalizing t q with
  | nil => exact h.elim
  | cons k ks ih =>
      cases q with
      | nil => exact h.elim
      | cons k' ks' =>
          rw [get_cons, get_cons]
          by_cases hk : k = k'
          · subst hk
            have h := h.resolve_left fun hne => hne rfl
            have hks : ks ≠ [] := by
              rintro rfl
              exact h
            rw [child_graft_self, Option.bind_some, ih h, get_getD _ hks]
          · rw [child_graft_ne hk]

/-- The tree at a path, after a change further down. -/
theorem get_modify_append (p r : List κ) (t : KeyTree κ α) :
    (modify f (p ++ r) t).get p = (t.get p).map (modify f r) := by
  induction p generalizing t with
  | nil => rfl
  | cons k ks ih =>
      rw [List.cons_append, get_cons, get_cons]
      cases hc : t.child k with
      | none => rw [modify, hc]; simp [hc]
      | some c => rw [modify_cons_of_child hc, child_setKey_self, Option.bind_some, ih,
          Option.bind_some]

/-- A change leaves what stands at a path that parts from its own. -/
theorem get_modify_of_parted (h : Parted p q) : (modify f q t).get p = t.get p := by
  induction p generalizing t q with
  | nil => exact h.elim
  | cons k ks ih =>
      cases q with
      | nil => exact h.elim
      | cons k' ks' =>
          cases hc : t.child k' with
          | none => rw [modify, hc]
          | some c =>
              rw [modify_cons_of_child hc, get_cons, get_cons]
              by_cases hk : k = k'
              · subst hk
                rw [child_setKey_self, Option.bind_some, ih (h.resolve_left fun hne => hne rfl), hc,
                  Option.bind_some]
              · rw [child_setKey_ne hk]

/-! ### Grafts of grafts -/

theorem get_graft_self (p : List κ) (t leaf : KeyTree κ α) :
    (graft fresh p t leaf).get p = some leaf := by
  have h : (graft fresh (p ++ []) t leaf).get p = _ := get_graft_append p [] t leaf
  rwa [List.append_nil] at h

/-- Grafting what is there changes nothing. -/
theorem graft_get (h : t.get p = some c) : graft fresh p t c = t := by
  induction p generalizing t with
  | nil => exact (Option.some.inj h).symm
  | cons k ks ih =>
      obtain ⟨c', hc', h⟩ := Option.bind_eq_some_iff.1 ((get_cons k ks t).symm.trans h)
      rw [graft, hc', Option.getD_some, ih h, setKey_self hc', setChildren_children]

/-- Of two grafts at a path the second one counts. -/
theorem graft_graft (p : List κ) (t c leaf : KeyTree κ α) :
    graft fresh p (graft fresh p t c) leaf = graft fresh p t leaf := by
  induction p generalizing t with
  | nil => rfl
  | cons k ks ih =>
      rw [graft, child_graft_self, Option.getD_some, ih, graft, graft, children_setChildren,
        setChildren_setChildren, setKey_setKey]

/-- A graft further down is one at the path, of what it makes of the tree there. -/
theorem graft_append (p q : List κ) (t leaf : KeyTree κ α) :
    graft fresh (p ++ q) t leaf =
      graft fresh p t (graft fresh q ((t.get p).getD (node fresh [])) leaf) := by
  induction p generalizing t with
  | nil => rfl
  | cons k ks ih =>
      have hget : (((t.child k).getD (node fresh [])).get ks).getD (node fresh []) =
          ((t.child k).bind (get ks)).getD (node fresh []) := by
        cases t.child k with
        | some c => rfl
        | none =>
            cases ks with
            | nil => rfl
            | cons k' ks => rw [Option.getD_none, get_node_nil (by simp), Option.bind_none]
      rw [List.cons_append, graft, ih, hget, graft, get_cons]

/-- A change is a graft of the changed tree. -/
theorem modify_eq_graft (h : t.get p = some c) : modify f p t = graft fresh p t (f c) := by
  induction p generalizing t with
  | nil =>
      obtain rfl := Option.some.inj h
      rfl
  | cons k ks ih =>
      obtain ⟨c', hc', h⟩ := Option.bind_eq_some_iff.1 ((get_cons k ks t).symm.trans h)
      rw [modify_cons_of_child hc', ih h, graft, hc', Option.getD_some]

/-- A change at a missing path. -/
theorem modify_of_get_eq_none (h : t.get p = none) : modify f p t = t := by
  induction p generalizing t with
  | nil => cases h
  | cons k ks ih =>
      cases hc : t.child k with
      | none => rw [modify, hc]
      | some c =>
          rw [get_cons, hc, Option.bind_some] at h
          rw [modify_cons_of_child hc, ih h, setKey_self hc, setChildren_children]

/-! ### Pruning -/

/-- A path that starts with a missing child. -/
theorem prune_of_child_eq_none (h : t.child k = none) : t.prune (k :: ks) = t := by
  cases ks with
  | nil => rw [prune, eraseKey_of_not_mem (child_eq_none_iff.1 h), setChildren_children]
  | cons k' ks => rw [prune, h]

theorem label_prune (p : List κ) (t : KeyTree κ α) : (t.prune p).label = t.label := by
  cases p with
  | nil => rfl
  | cons k ks =>
      cases hc : t.child k with
      | none => rw [prune_of_child_eq_none hc]
      | some c =>
          cases ks with
          | nil => rfl
          | cons k' ks => rw [prune_cons_of_child hc (by simp), label_setChildren]

/-- The tree at a path, after pruning further down. -/
theorem get_prune_append (hr : r ≠ []) (p : List κ) (t : KeyTree κ α) :
    (t.prune (p ++ r)).get p = (t.get p).map (prune r) := by
  induction p generalizing t with
  | nil => rfl
  | cons k ks ih =>
      rw [List.cons_append, get_cons, get_cons]
      cases hc : t.child k with
      | none => rw [prune_of_child_eq_none hc, hc, Option.bind_none, Option.map_none]
      | some c => rw [prune_cons_of_child hc (by simp [hr]), child_setKey_self, Option.bind_some, ih,
          Option.bind_some]

/-- Pruning leaves what stands at a path that parts from its own. -/
theorem get_prune_of_parted (h : Parted p q) : (t.prune q).get p = t.get p := by
  induction p generalizing t q with
  | nil => exact h.elim
  | cons k ks ih =>
      cases q with
      | nil => exact h.elim
      | cons k' ks' =>
          cases hc : t.child k' with
          | none => rw [prune_of_child_eq_none hc]
          | some c =>
              rw [get_cons, get_cons]
              cases ks' with
              | nil =>
                  have hk : k ≠ k' := h.resolve_right fun h => by cases ks <;> exact h
                  rw [prune, child, children_setChildren, lookup_eraseKey_ne hk, child]
              | cons k'' ks' =>
                  rw [prune_cons_of_child hc (by simp)]
                  by_cases hk : k = k'
                  · subst hk
                    rw [child_setKey_self, Option.bind_some,
                      ih (h.resolve_left fun hne => hne rfl), hc, Option.bind_some]
                  · rw [child_setKey_ne hk]

/-- Pruning leaves the labels elsewhere. -/
theorem label_get_prune (h : ¬p <+: q) : ((t.prune p).get q).map label = (t.get q).map label := by
  rcases parted_or_prefix q p with hparted | ⟨r, rfl⟩ | hpq
  · rw [get_prune_of_parted hparted]
  · have hr : r ≠ [] := by
      rintro rfl
      exact h (by simp)
    rw [get_prune_append hr, Option.map_map]
    exact congrArg (fun f => (t.get q).map f) (funext fun c => label_prune r c)
  · exact absurd hpq h

/-- Nothing is left at the path, since siblings have different keys. -/
theorem get_prune_self (h : t.WellKeyed P) (hp : p ≠ []) : (t.prune p).get p = none := by
  induction p generalizing t with
  | nil => exact absurd rfl hp
  | cons k ks ih =>
      cases hc : t.child k with
      | none => rw [prune_of_child_eq_none hc, get_cons, hc, Option.bind_none]
      | some c =>
          cases ks with
          | nil =>
              rw [get_singleton, child_eq_none_iff, prune, children_setChildren,
                mem_keys_eraseKey h.nodup]
              exact fun hmem => hmem.1 rfl
          | cons k' ks =>
              rw [prune_cons_of_child hc (by simp), get_cons, child_setKey_self, Option.bind_some]
              exact ih (h.children _ (mem_of_lookup hc)) (by simp)

/-! ### Edits -/

/-- An edit of a tree: a graft, or a change of the label at a path. -/
inductive Edit (κ α : Type*)
  | graft (path : List κ) (leaf : KeyTree κ α)
  | relabel (path : List κ) (f : α → α)

namespace Edit

/-- Where an edit takes place. -/
def path : Edit κ α → List κ
  | graft p _ => p
  | relabel p _ => p

/-- The same edit at another place. -/
def setPath (q : List κ) : Edit κ α → Edit κ α
  | graft _ leaf => graft q leaf
  | relabel _ f => relabel q f

/-- Perform an edit. -/
def apply (fresh : α) : Edit κ α → KeyTree κ α → KeyTree κ α
  | graft p leaf, t => KeyTree.graft fresh p t leaf
  | relabel p f, t => modify (fun t => t.setLabel (f t.label)) p t

/-- Perform an edit where there may be no tree yet. -/
def applyAt (fresh : α) : Edit κ α → Option (KeyTree κ α) → Option (KeyTree κ α)
  | graft p leaf, o => some (KeyTree.graft fresh p (o.getD (node fresh [])) leaf)
  | relabel p f, o => o.map (modify (fun t => t.setLabel (f t.label)) p)

/-- The edit as seen from a path that its own one continues. -/
def below (p : List κ) (e : Edit κ α) : Option (Edit κ α) :=
  if p <+: e.path then some (e.setPath (e.path.drop p.length)) else none

theorem below_of_append {e : Edit κ α} (h : e.path = p ++ r) :
    e.below p = some (e.setPath r) := by
  rw [below, h, if_pos (List.prefix_append p r), List.drop_left]

theorem below_of_parted {e : Edit κ α} (h : Parted p e.path) : e.below p = none :=
  if_neg h.not_isPrefix

theorem get_apply_append {e : Edit κ α} (h : e.path = p ++ r) :
    (e.apply fresh t).get p = (e.setPath r).applyAt fresh (t.get p) := by
  cases e with
  | graft q leaf =>
      obtain rfl : q = p ++ r := h
      exact get_graft_append p r t leaf
  | relabel q f =>
      obtain rfl : q = p ++ r := h
      exact get_modify_append p r t

theorem get_apply_of_parted {e : Edit κ α} (h : Parted p e.path) :
    (e.apply fresh t).get p = t.get p := by
  cases e with
  | graft q leaf => exact get_graft_of_parted h
  | relabel q f => exact get_modify_of_parted h

end Edit

/-- Perform a list of edits. -/
def applyAll (fresh : α) (es : List (Edit κ α)) (t : KeyTree κ α) : KeyTree κ α :=
  es.foldl (fun t e => e.apply fresh t) t

/-- Perform a list of edits where there may be no tree yet. -/
def applyAllAt (fresh : α) (es : List (Edit κ α)) (o : Option (KeyTree κ α)) :
    Option (KeyTree κ α) :=
  es.foldl (fun o e => e.applyAt fresh o) o

/-- What stands at a path is the product of the edits whose path continues it. -/
theorem get_applyAll {es : List (Edit κ α)}
    (h : ∀ e ∈ es, (∃ r, e.path = p ++ r) ∨ Parted p e.path) :
    (applyAll fresh es t).get p = applyAllAt fresh (es.filterMap (Edit.below p)) (t.get p) := by
  induction es generalizing t with
  | nil => rfl
  | cons e es ih =>
      have ih := ih (t := e.apply fresh t) fun e' he' => h e' (List.mem_cons_of_mem _ he')
      rw [applyAll, List.foldl_cons]
      rcases h e (by simp) with ⟨r, hr⟩ | hparted
      · rw [List.filterMap_cons_some (Edit.below_of_append hr), applyAllAt, List.foldl_cons]
        rw [Edit.get_apply_append hr] at ih
        exact ih
      · rw [List.filterMap_cons_none (Edit.below_of_parted hparted)]
        rw [Edit.get_apply_of_parted hparted] at ih
        exact ih

/-- Grafts of new children, one after the other. -/
theorem applyAllAt_graft_some {a : α} (cs : List (κ × KeyTree κ α)) {l : List (κ × KeyTree κ α)}
    (h : ((cs ++ l).map Prod.fst).Nodup) :
    applyAllAt fresh (l.map fun e => Edit.graft [e.1] e.2) (some (node a cs)) =
      some (node a (cs ++ l)) := by
  induction l generalizing cs with
  | nil => simp [applyAllAt]
  | cons e l ih =>
      have hnot : e.1 ∉ cs.map Prod.fst := by
        rw [List.map_append, List.map_cons] at h
        intro hmem
        exact (List.nodup_append.1 h).2.2 _ hmem _ List.mem_cons_self rfl
      rw [List.map_cons, applyAllAt, List.foldl_cons, Edit.applyAt, Option.getD_some,
        graft_singleton_of_not_mem (t := node a cs) hnot,
        List.append_cons cs e l]
      rw [List.append_cons] at h
      exact ih _ h

/-- Grafts of different children where there is no tree make a new node, if there
are any. -/
theorem applyAllAt_graft_none {l : List (κ × KeyTree κ α)} (h : (l.map Prod.fst).Nodup) :
    applyAllAt fresh (l.map fun e => Edit.graft [e.1] e.2) none =
      if l = [] then none else some (node fresh l) := by
  cases l with
  | nil => rfl
  | cons e l =>
      rw [if_neg (by simp), List.map_cons, applyAllAt, List.foldl_cons, Edit.applyAt,
        Option.getD_none, graft_singleton_of_not_mem (t := node fresh []) (by simp)]
      exact applyAllAt_graft_some [e] (by simpa using h)

/-- The children of a node after a leaf is grafted somewhere below it. -/
theorem child_graft_leaf {a : α} (h : (graft fresh p t (node a [])).child k = some c) :
    (t.child k = some c ∧ p.head? ≠ some k) ∨ ∃ ks, p = k :: ks ∧
      (ks = [] ∧ c.label = a ∨ c.label = ((t.child k).getD (node fresh [])).label) := by
  cases p with
  | nil => cases h
  | cons k' ks =>
      by_cases hk : k = k'
      · subst hk
        rw [child_graft_self] at h
        obtain rfl := Option.some.inj h
        refine Or.inr ⟨ks, rfl, ?_⟩
        cases ks with
        | nil => exact Or.inl ⟨rfl, rfl⟩
        | cons k' ks => exact Or.inr rfl
      · rw [child_graft_ne hk] at h
        exact Or.inl ⟨h, by simpa using Ne.symm hk⟩

/-- Where leaves have been grafted, a key is one that a path starts with, and a label is that
of a leaf grafted there. -/
theorem child_applyAllAt_leaves {ι : Type*} {path : ι → List κ} {leaf : ι → α} (l : List ι)
    {o : Option (KeyTree κ α)} {A : κ → Prop} {B : κ → α → Prop}
    (hA : ∀ i ∈ l, ∀ k ks, path i = k :: ks → A k) (hB : ∀ i ∈ l, ∀ k, path i = [k] → B k (leaf i))
    (ho : ∀ t ∈ o, ∀ k c, t.child k = some c → A k ∧ (c.label = fresh ∨ B k c.label)) :
    ∀ t ∈ applyAllAt fresh (l.map fun i => .graft (path i) (node (leaf i) [])) o,
      ∀ k c, t.child k = some c → A k ∧ (c.label = fresh ∨ B k c.label) := by
  induction l generalizing o with
  | nil => exact ho
  | cons i l ih =>
      rw [List.map_cons, applyAllAt, List.foldl_cons]
      refine ih (fun j hj => hA j (List.mem_cons_of_mem _ hj))
        (fun j hj => hB j (List.mem_cons_of_mem _ hj)) ?_
      intro t ht k c hc
      obtain rfl := Option.some.inj ht
      have hchild : ∀ c', (o.getD (node fresh [])).child k = some c' →
          A k ∧ (c'.label = fresh ∨ B k c'.label) := fun c' hc' => by
        cases o with
        | none => cases hc'
        | some t => exact ho t rfl k c' hc'
      rcases child_graft_leaf hc with ⟨hc, -⟩ | ⟨ks, hpath, hlabel⟩
      · exact hchild c hc
      · refine ⟨hA i List.mem_cons_self k ks hpath, ?_⟩
        rcases hlabel with ⟨rfl, hlabel⟩ | hlabel
        · exact Or.inr (hlabel ▸ hB i List.mem_cons_self k hpath)
        · rw [hlabel]
          cases hc' : (o.getD (node fresh [])).child k with
          | none => exact Or.inl rfl
          | some c' => exact (hchild c' hc').2

/-! ### Edits keep the keys -/

theorem WellKeyed.child (h : t.WellKeyed P) (hc : t.child k = some c) : c.WellKeyed P :=
  h.children _ (mem_of_lookup hc)

theorem WellKeyed.get (h : t.WellKeyed P) (hc : t.get p = some c) : c.WellKeyed P := by
  induction p generalizing t with
  | nil =>
      obtain rfl := Option.some.inj hc
      exact h
  | cons k ks ih =>
      obtain ⟨t', ht', hc⟩ := Option.bind_eq_some_iff.1 ((get_cons k ks t).symm.trans hc)
      exact ih (h.child ht') hc

/-- The keys on the way to a node. -/
theorem WellKeyed.mem_path (h : t.WellKeyed P) (hc : t.get p = some c) : ∀ k ∈ p, P k := by
  induction p generalizing t with
  | nil => exact List.forall_mem_nil _
  | cons k ks ih =>
      obtain ⟨t', ht', hc⟩ := Option.bind_eq_some_iff.1 ((get_cons k ks t).symm.trans hc)
      exact List.forall_mem_cons.2 ⟨h.keys _ (mem_of_lookup ht'), ih (h.child ht') hc⟩

/-- A child is set under a key that meets `P`. -/
theorem WellKeyed.setChild (h : t.WellKeyed P) (hk : P k) (hc : c.WellKeyed P) :
    (t.setChildren (setKey k c t.children)).WellKeyed P := by
  refine .node _ _ (fun e he => ?_) (nodup_setKey h.nodup) fun e he => ?_
  · rcases mem_setKey he with rfl | he
    · exact hk
    · exact h.keys e he
  · rcases mem_setKey he with rfl | he
    · exact hc
    · exact h.children e he

theorem WellKeyed.graft (h : t.WellKeyed P) (hp : ∀ k ∈ p, P k) (hleaf : leaf.WellKeyed P) :
    (graft fresh p t leaf).WellKeyed P := by
  induction p generalizing t with
  | nil => exact hleaf
  | cons k ks ih =>
      refine h.setChild (hp k (by simp)) (ih ?_ fun k' hk' => hp k' (List.mem_cons_of_mem _ hk'))
      cases hc : t.child k with
      | none => exact wellKeyed_nil fresh
      | some c => exact h.child hc

theorem WellKeyed.modify (h : t.WellKeyed P) (hf : ∀ t, t.WellKeyed P → (f t).WellKeyed P)
    (hp : ∀ k ∈ p, P k) : (modify f p t).WellKeyed P := by
  induction p generalizing t with
  | nil => exact hf t h
  | cons k ks ih =>
      cases hc : t.child k with
      | none => rwa [KeyTree.modify, hc]
      | some c =>
          rw [modify_cons_of_child hc]
          exact h.setChild (hp k (by simp))
            (ih (h.child hc) fun k' hk' => hp k' (List.mem_cons_of_mem _ hk'))

theorem WellKeyed.prune (h : t.WellKeyed P) (p : List κ) : (t.prune p).WellKeyed P := by
  induction p generalizing t with
  | nil => exact h
  | cons k ks ih =>
      cases hc : t.child k with
      | none => rwa [prune_of_child_eq_none hc]
      | some c =>
          cases ks with
          | nil =>
              have hsub := eraseKey_sublist k t.children
              exact .node _ _ (fun e he => h.keys e (hsub.subset he)) (nodup_eraseKey h.nodup)
                fun e he => h.children e (hsub.subset he)
          | cons k' ks =>
              rw [prune_cons_of_child hc (by simp)]
              exact h.setChild (h.keys _ (mem_of_lookup hc)) (ih (h.child hc))

/-- What an edit puts in the tree is well keyed. -/
def Edit.WellKeyed (P : κ → Prop) : Edit κ α → Prop
  | .graft p leaf => (∀ k ∈ p, P k) ∧ leaf.WellKeyed P
  | .relabel p _ => ∀ k ∈ p, P k

theorem WellKeyed.apply {e : Edit κ α} (h : t.WellKeyed P) (he : e.WellKeyed P) :
    (e.apply fresh t).WellKeyed P := by
  cases e with
  | graft p leaf => exact h.graft he.1 he.2
  | relabel p f => exact h.modify (fun t ht => ht.setLabel _) he

theorem WellKeyed.applyAll {es : List (Edit κ α)} (h : t.WellKeyed P)
    (hes : ∀ e ∈ es, e.WellKeyed P) : (applyAll fresh es t).WellKeyed P := by
  induction es generalizing t with
  | nil => exact h
  | cons e es ih =>
      exact ih (h.apply (hes e (by simp))) fun e' he' => hes e' (List.mem_cons_of_mem _ he')

end KeyTree
