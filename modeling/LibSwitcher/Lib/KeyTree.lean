/-
# Ordered trees addressed by keys

Every node of a `KeyTree κ α` has a label and an ordered list of children, each
under a key.  A path is a list of keys; where a key occurs more than once the
first child is meant.  `graft` puts a tree at a path, in the place of the one that
was there or as a last child, with new nodes on the way where there are none;
`prune` takes it out again, and undoes a graft that added a child
(`prune_graft_append`).

Lists of keyed values come first: `setKey` and `eraseKey` are what grafting and
pruning do to a list of children.
-/

import Mathlib.Data.List.Basic
import Mathlib.Data.List.Forall2
import Mathlib.Data.List.Nodup
import Mathlib.Tactic.Common

namespace KeyTree

variable {κ α β σ : Type*} [DecidableEq κ]

/-! ### Keyed lists -/

/-- Replace the first value of a key, or add one at the end. -/
def setKey (k : κ) (v : β) : List (κ × β) → List (κ × β)
  | [] => [(k, v)]
  | (k', v') :: l => if k' = k then (k, v) :: l else (k', v') :: setKey k v l

/-- Remove the first value of a key. -/
def eraseKey (k : κ) : List (κ × β) → List (κ × β)
  | [] => []
  | (k', v') :: l => if k' = k then l else (k', v') :: eraseKey k l

theorem lookup_eq_none_iff {k : κ} {l : List (κ × β)} : l.lookup k = none ↔ k ∉ l.map Prod.fst := by
  induction l with
  | nil => simp
  | cons e l ih =>
      obtain ⟨k', v⟩ := e
      rw [List.lookup_cons, List.map_cons, List.mem_cons, not_or, ← ih]
      by_cases h : k = k'
      · simp [h]
      · have hne : (k == k') = false := by simpa using h
        simp [h, hne]

theorem mem_of_lookup {k : κ} {v : β} {l : List (κ × β)} (h : l.lookup k = some v) : (k, v) ∈ l := by
  obtain ⟨l₁, l₂, rfl, -⟩ := List.lookup_eq_some_iff.1 h
  simp

/-- Where keys are different, a value is found under its key. -/
theorem lookup_of_mem {k : κ} {v : β} {l : List (κ × β)} (hnodup : (l.map Prod.fst).Nodup)
    (h : (k, v) ∈ l) : l.lookup k = some v := by
  induction l with
  | nil => cases h
  | cons e l ih =>
      rw [List.map_cons, List.nodup_cons] at hnodup
      rcases List.mem_cons.1 h with rfl | h
      · simp
      · have hne : (k == e.1) = false := by
          refine beq_eq_false_iff_ne.2 fun heq => hnodup.1 ?_
          rw [← heq]
          exact List.mem_map_of_mem (f := Prod.fst) h
        rw [List.lookup_cons, hne]
        exact ih hnodup.2 h

@[simp] theorem lookup_setKey_self (k : κ) (v : β) (l : List (κ × β)) :
    (setKey k v l).lookup k = some v := by
  induction l with
  | nil => simp [setKey]
  | cons e l ih =>
      obtain ⟨k', v'⟩ := e
      rw [setKey]
      split_ifs with h
      · simp
      · have hne : (k == k') = false := by simpa using Ne.symm h
        rw [List.lookup_cons, hne]
        exact ih

theorem lookup_setKey_ne {k k' : κ} (h : k' ≠ k) (v : β) (l : List (κ × β)) :
    (setKey k v l).lookup k' = l.lookup k' := by
  induction l with
  | nil =>
      have hne : (k' == k) = false := by simpa using h
      rw [setKey, List.lookup_cons, hne]
  | cons e l ih =>
      obtain ⟨k'', v''⟩ := e
      rw [setKey]
      split_ifs with hk
      · subst hk
        have hne : (k' == k'') = false := by simpa using h
        rw [List.lookup_cons, List.lookup_cons, hne]
      · rw [List.lookup_cons, List.lookup_cons, ih]

/-- A new key is added at the end. -/
theorem setKey_of_not_mem {k : κ} {l : List (κ × β)} (h : k ∉ l.map Prod.fst) (v : β) :
    setKey k v l = l ++ [(k, v)] := by
  induction l with
  | nil => rfl
  | cons e l ih =>
      rw [List.map_cons, List.mem_cons, not_or] at h
      rw [setKey, if_neg (Ne.symm h.1), ih h.2, List.cons_append]

theorem mem_setKey {k : κ} {v : β} {l : List (κ × β)} {e : κ × β} (h : e ∈ setKey k v l) :
    e = (k, v) ∨ e ∈ l := by
  induction l with
  | nil => exact Or.inl (List.mem_singleton.1 h)
  | cons e' l ih =>
      rw [setKey] at h
      split_ifs at h with hk
      · rcases List.mem_cons.1 h with rfl | h
        · exact Or.inl rfl
        · exact Or.inr (List.mem_cons_of_mem _ h)
      · rcases List.mem_cons.1 h with rfl | h
        · exact Or.inr List.mem_cons_self
        · exact (ih h).imp_right (List.mem_cons_of_mem _)

/-- The keys after a key is set. -/
theorem keys_setKey (k : κ) (v : β) (l : List (κ × β)) : (setKey k v l).map Prod.fst =
    if k ∈ l.map Prod.fst then l.map Prod.fst else l.map Prod.fst ++ [k] := by
  by_cases h : k ∈ l.map Prod.fst
  · rw [if_pos h]
    induction l with
    | nil => cases h
    | cons e l ih =>
        rw [setKey]
        split_ifs with hk
        · rw [List.map_cons, List.map_cons, hk]
        · rw [List.map_cons, List.map_cons, ih ((List.mem_cons.1 h).resolve_left (Ne.symm hk))]
  · rw [if_neg h, setKey_of_not_mem h, List.map_append, List.map_singleton]

theorem nodup_setKey {k : κ} {v : β} {l : List (κ × β)} (h : (l.map Prod.fst).Nodup) :
    ((setKey k v l).map Prod.fst).Nodup := by
  rw [keys_setKey]
  split_ifs with hk
  · exact h
  · exact List.nodup_append.2 ⟨h, List.nodup_singleton _, fun a ha b hb hab =>
      hk (by rwa [← List.mem_singleton.1 hb, ← hab])⟩

/-- Setting a key twice sets it to the second value. -/
theorem setKey_setKey (k : κ) (v w : β) (l : List (κ × β)) :
    setKey k w (setKey k v l) = setKey k w l := by
  induction l with
  | nil => simp [setKey]
  | cons e l ih =>
      rw [setKey]
      split_ifs with h
      · rw [setKey, setKey, if_pos rfl, if_pos h]
      · rw [setKey, setKey, if_neg h, if_neg h, ih]

/-- Setting a key to the value it has changes nothing. -/
theorem setKey_self {k : κ} {v : β} {l : List (κ × β)} (h : l.lookup k = some v) :
    setKey k v l = l := by
  induction l with
  | nil => simp at h
  | cons e l ih =>
      obtain ⟨k', v'⟩ := e
      rw [List.lookup_cons] at h
      rw [setKey]
      split_ifs with hk
      · subst hk
        simp only [BEq.rfl, Option.some.injEq] at h
        rw [h]
      · have hne : (k == k') = false := by simpa using Ne.symm hk
        rw [hne] at h
        rw [ih h]

/-- Erasing a key that is not among the first entries. -/
theorem eraseKey_append_of_not_mem {k : κ} {l : List (κ × β)} (h : k ∉ l.map Prod.fst)
    (l' : List (κ × β)) : eraseKey k (l ++ l') = l ++ eraseKey k l' := by
  induction l with
  | nil => rfl
  | cons e l ih =>
      rw [List.map_cons, List.mem_cons, not_or] at h
      rw [List.cons_append, eraseKey, if_neg (Ne.symm h.1), ih h.2, List.cons_append]

/-- Erasing the key that was added at the end. -/
theorem eraseKey_append {k : κ} {l : List (κ × β)} (h : k ∉ l.map Prod.fst) (v : β) :
    eraseKey k (l ++ [(k, v)]) = l := by
  rw [eraseKey_append_of_not_mem h, eraseKey, if_pos rfl, List.append_nil]

/-- Erasing a key that is not there. -/
theorem eraseKey_of_not_mem {k : κ} {l : List (κ × β)} (h : k ∉ l.map Prod.fst) :
    eraseKey k l = l := by
  induction l with
  | nil => rfl
  | cons e l ih =>
      rw [List.map_cons, List.mem_cons, not_or] at h
      rw [eraseKey, if_neg (Ne.symm h.1), ih h.2]

theorem eraseKey_sublist (k : κ) (l : List (κ × β)) : (eraseKey k l).Sublist l := by
  induction l with
  | nil => exact List.Sublist.refl _
  | cons e l ih =>
      rw [eraseKey]
      split_ifs
      · exact List.sublist_cons_self _ _
      · exact ih.cons_cons _

theorem nodup_eraseKey {k : κ} {l : List (κ × β)} (h : (l.map Prod.fst).Nodup) :
    ((eraseKey k l).map Prod.fst).Nodup :=
  h.sublist ((eraseKey_sublist k l).map Prod.fst)

theorem lookup_eraseKey_ne {k k' : κ} (h : k' ≠ k) (l : List (κ × β)) :
    (eraseKey k l).lookup k' = l.lookup k' := by
  induction l with
  | nil => rfl
  | cons e l ih =>
      obtain ⟨k'', v⟩ := e
      rw [eraseKey]
      split_ifs with hk
      · subst hk
        have hne : (k' == k'') = false := by simpa using h
        rw [List.lookup_cons, hne]
      · rw [List.lookup_cons, List.lookup_cons, ih]

/-- The keys after a key is erased. -/
theorem mem_keys_eraseKey {k k' : κ} {l : List (κ × β)} (h : (l.map Prod.fst).Nodup) :
    k' ∈ (eraseKey k l).map Prod.fst ↔ k' ≠ k ∧ k' ∈ l.map Prod.fst := by
  induction l with
  | nil => simp [eraseKey]
  | cons e l ih =>
      obtain ⟨k'', v⟩ := e
      rw [List.map_cons, List.nodup_cons] at h
      rw [eraseKey]
      split_ifs with hk
      · subst hk
        rw [List.map_cons, List.mem_cons]
        exact ⟨fun hmem => ⟨fun heq => h.1 (heq ▸ hmem), Or.inr hmem⟩,
          fun hmem => hmem.2.resolve_left hmem.1⟩
      · rw [List.map_cons, List.map_cons, List.mem_cons, List.mem_cons, ih h.2]
        constructor
        · rintro (rfl | ⟨hne, hmem⟩)
          · exact ⟨hk, Or.inl rfl⟩
          · exact ⟨hne, Or.inr hmem⟩
        · rintro ⟨hne, rfl | hmem⟩
          · exact Or.inl rfl
          · exact Or.inr ⟨hne, hmem⟩

/-- The keys after a key is set. -/
theorem mem_keys_setKey {k k' : κ} {v : β} {l : List (κ × β)} :
    k' ∈ (setKey k v l).map Prod.fst ↔ k' = k ∨ k' ∈ l.map Prod.fst := by
  rw [keys_setKey]
  split_ifs with h
  · exact ⟨Or.inr, fun hk => hk.elim (fun heq => heq ▸ h) id⟩
  · rw [List.mem_append, List.mem_singleton, or_comm]

/-- Changing the values of a keyed list. -/
theorem lookup_map_snd {γ : Type*} (f : β → γ) (k : κ) (l : List (κ × β)) :
    (l.map fun e => (e.1, f e.2)).lookup k = (l.lookup k).map f := by
  induction l with
  | nil => rfl
  | cons e l ih =>
      rw [List.map_cons, List.lookup_cons, List.lookup_cons, ih]
      cases k == e.1 <;> rfl

/-- Every element on the right is related to one on the left. -/
theorem exists_of_forall₂_of_mem {R : α → β → Prop} {as : List α} {bs : List β}
    (h : List.Forall₂ R as bs) {b : β} (hb : b ∈ bs) : ∃ a ∈ as, R a b := by
  induction h with
  | nil => cases hb
  | @cons a b' as bs hab hrest ih =>
      rcases List.mem_cons.1 hb with rfl | hb
      · exact ⟨a, by simp, hab⟩
      · obtain ⟨a', ha', hR⟩ := ih hb
        exact ⟨a', List.mem_cons_of_mem _ ha', hR⟩

/-- A relation between lists may be weakened on the elements of the left one. -/
theorem forall₂_imp_of_mem {R S : α → β → Prop} {as : List α} {bs : List β}
    (h : List.Forall₂ R as bs) (himp : ∀ a ∈ as, ∀ b, R a b → S a b) : List.Forall₂ S as bs :=
  ((List.forall₂_and_left as bs).2 ⟨fun _ ha => ha, h⟩).imp fun a b hab => himp a hab.1 b hab.2

/-- Related lists stay so when the value of a key is erased on one side and what it
is related to on the other. -/
theorem forall₂_erase_eraseKey [DecidableEq α] {R : α → κ × β → Prop} {a : α} {k : κ} {as : List α}
    {l : List (κ × β)} (h : List.Forall₂ R as l)
    (hkey : ∀ b ∈ as, ∀ e, R b e → (e.1 = k ↔ b = a)) :
    List.Forall₂ R (as.erase a) (eraseKey k l) := by
  induction h with
  | nil => exact List.Forall₂.nil
  | @cons b e as l hbe hrest ih =>
      have hiff := hkey b (by simp) e hbe
      obtain ⟨k', v⟩ := e
      rw [eraseKey]
      by_cases hb : b = a
      · rw [if_pos (hiff.2 hb), hb, List.erase_cons_head]
        exact hrest
      · rw [if_neg (hiff.not.2 hb), List.erase_cons_tail (by simpa using hb)]
        exact List.Forall₂.cons hbe (ih fun b hmem => hkey b (List.mem_cons_of_mem _ hmem))

end KeyTree

/-- A node with its label and its keyed children. -/
inductive KeyTree (κ α : Type*)
  | node (label : α) (children : List (κ × KeyTree κ α))

namespace KeyTree

variable {κ α : Type*}

/-- The label of the root. -/
def label : KeyTree κ α → α
  | node a _ => a

/-- The children of the root. -/
def children : KeyTree κ α → List (κ × KeyTree κ α)
  | node _ cs => cs

/-- Replace the label of the root. -/
def setLabel (a : α) (t : KeyTree κ α) : KeyTree κ α := node a t.children

/-- Replace the children of the root. -/
def setChildren (cs : List (κ × KeyTree κ α)) (t : KeyTree κ α) : KeyTree κ α := node t.label cs

@[simp] theorem label_node (a : α) (cs : List (κ × KeyTree κ α)) : (node a cs).label = a := rfl

@[simp] theorem children_node (a : α) (cs : List (κ × KeyTree κ α)) :
    (node a cs).children = cs := rfl

@[simp] theorem label_setLabel (a : α) (t : KeyTree κ α) : (t.setLabel a).label = a := rfl

@[simp] theorem children_setLabel (a : α) (t : KeyTree κ α) :
    (t.setLabel a).children = t.children := rfl

@[simp] theorem label_setChildren (cs : List (κ × KeyTree κ α)) (t : KeyTree κ α) :
    (t.setChildren cs).label = t.label := rfl

@[simp] theorem children_setChildren (cs : List (κ × KeyTree κ α)) (t : KeyTree κ α) :
    (t.setChildren cs).children = cs := rfl

@[simp] theorem setChildren_setChildren (cs cs' : List (κ × KeyTree κ α)) (t : KeyTree κ α) :
    (t.setChildren cs).setChildren cs' = t.setChildren cs' := rfl

@[simp] theorem setChildren_children (t : KeyTree κ α) : t.setChildren t.children = t := by
  cases t
  rfl

/-! ### Paths -/

variable [DecidableEq κ]

/-- The child under a key. -/
def child (t : KeyTree κ α) (k : κ) : Option (KeyTree κ α) := t.children.lookup k

/-- The tree at a path. -/
def get : List κ → KeyTree κ α → Option (KeyTree κ α)
  | [], t => some t
  | k :: ks, t => (t.child k).bind (get ks)

/-- Put a tree at a path; the nodes missing on the way are made with the label
`fresh`. -/
def graft (fresh : α) : List κ → KeyTree κ α → KeyTree κ α → KeyTree κ α
  | [], _, leaf => leaf
  | k :: ks, t, leaf =>
      t.setChildren (setKey k (graft fresh ks ((t.child k).getD (node fresh [])) leaf) t.children)

/-- Apply a function to the tree at a path, if there is one. -/
def modify (f : KeyTree κ α → KeyTree κ α) : List κ → KeyTree κ α → KeyTree κ α
  | [], t => f t
  | k :: ks, t =>
      match t.child k with
      | none => t
      | some c => t.setChildren (setKey k (modify f ks c) t.children)

/-- Take out the tree at a path, if there is one. -/
def prune : List κ → KeyTree κ α → KeyTree κ α
  | [], t => t
  | [k], t => t.setChildren (eraseKey k t.children)
  | k :: k' :: ks, t =>
      match t.child k with
      | none => t
      | some c => t.setChildren (setKey k (prune (k' :: ks) c) t.children)

variable {fresh : α} {t leaf c : KeyTree κ α} {k k' : κ} {ks p : List κ}
  {f : KeyTree κ α → KeyTree κ α}

theorem child_eq_none_iff : t.child k = none ↔ k ∉ t.children.map Prod.fst := lookup_eq_none_iff

@[simp] theorem get_nil (t : KeyTree κ α) : t.get [] = some t := rfl

theorem get_cons (k : κ) (ks : List κ) (t : KeyTree κ α) :
    t.get (k :: ks) = (t.child k).bind (get ks) := rfl

@[simp] theorem get_singleton (k : κ) (t : KeyTree κ α) : t.get [k] = t.child k := by
  rw [get_cons]
  cases t.child k <;> rfl

/-- A graft leaves the children under other keys. -/
theorem child_graft_ne (h : k' ≠ k) : (t.graft fresh (k :: ks) leaf).child k' = t.child k' :=
  lookup_setKey_ne h _ _

theorem child_graft_self : (t.graft fresh (k :: ks) leaf).child k =
    some (graft fresh ks ((t.child k).getD (node fresh [])) leaf) :=
  lookup_setKey_self _ _ _

/-- A graft under a new key adds a last child. -/
theorem graft_singleton_of_not_mem (h : k ∉ t.children.map Prod.fst) :
    t.graft fresh [k] leaf = t.setChildren (t.children ++ [(k, leaf)]) :=
  congrArg t.setChildren (setKey_of_not_mem h _)

theorem prune_cons_of_child (h : t.child k = some c) (hks : ks ≠ []) :
    t.prune (k :: ks) = t.setChildren (setKey k (c.prune ks) t.children) := by
  obtain ⟨k', ks, rfl⟩ := List.exists_cons_of_ne_nil hks
  rw [prune, h]

theorem modify_cons_of_child (h : t.child k = some c) :
    t.modify f (k :: ks) = t.setChildren (setKey k (c.modify f ks) t.children) := by
  rw [modify, h]

theorem child_setKey_ne (h : k' ≠ k) (c : KeyTree κ α) :
    (t.setChildren (setKey k c t.children)).child k' = t.child k' :=
  lookup_setKey_ne h _ _

theorem child_setKey_self (k : κ) (c t : KeyTree κ α) :
    (t.setChildren (setKey k c t.children)).child k = some c :=
  lookup_setKey_self _ _ _

/-- Pruning what a graft added under a new key of an existing node gives the tree
back. -/
theorem prune_graft_append (hc : t.get p = some c) (hk : k ∉ c.children.map Prod.fst) :
    (t.graft fresh (p ++ [k]) leaf).prune (p ++ [k]) = t := by
  induction p generalizing t with
  | nil =>
      obtain rfl := Option.some.inj hc
      rw [List.nil_append, graft_singleton_of_not_mem hk, prune, children_setChildren,
        eraseKey_append hk, setChildren_setChildren, setChildren_children]
  | cons k' p ih =>
      rw [get_cons] at hc
      obtain ⟨c', hc', hc⟩ := Option.bind_eq_some_iff.1 hc
      have hchild : (t.graft fresh (k' :: (p ++ [k])) leaf).child k' = _ := child_graft_self
      rw [hc', Option.getD_some] at hchild
      rw [List.cons_append, prune_cons_of_child hchild (by simp), ih hc, graft,
        children_setChildren, setChildren_setChildren, setKey_setKey, setKey_self hc',
        setChildren_children]

end KeyTree
