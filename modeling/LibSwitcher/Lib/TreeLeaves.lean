/-
# Leaves of keyed trees

The leaves below a node, with their paths, from the first child to the last one (`leaves`).  Where
siblings have different keys a leaf is what stands at its path (`mem_leaves_iff`), and no two
leaves have the same path (`nodup_leaves`).  So a property that leaves have at one
path only is one of one leaf at most (`countP_leaves_le_one`).

Setting the value of a key in a list changes how many values have a property by the
old value and the new one (`countP_setKey`).
-/

import LibSwitcher.Lib.TreeEdits

namespace KeyTree

/-- How many values have a property, after one was set. -/
theorem countP_setKey {κ β : Type*} [DecidableEq κ] (f : β → Bool) (k : κ) (v : β)
    (l : List (κ × β)) :
    (setKey k v l).countP (fun e => f e.2) + (((l.lookup k).map f).getD false).toNat =
      l.countP (fun e => f e.2) + (f v).toNat := by
  induction l with
  | nil => cases hv : f v <;> simp [setKey, hv]
  | cons e l ih =>
      obtain ⟨k', w⟩ := e
      rw [setKey]
      by_cases hk : k' = k
      · subst hk
        rw [if_pos rfl, List.lookup_cons_self, Option.map_some, Option.getD_some]
        cases hv : f v <;> cases hw : f w <;> simp [hv, hw]
      · have hne : (k == k') = false := by simpa using Ne.symm hk
        rw [if_neg hk, List.lookup_cons, hne]
        dsimp only
        rw [List.countP_cons, List.countP_cons]
        omega

variable {κ α : Type*}

mutual

/-- The leaves of a tree with their paths, the root included. -/
def leaves : KeyTree κ α → List (List κ × α)
  | node a [] => [([], a)]
  | node _ (e :: cs) => leavesOf (e :: cs)

/-- The leaves of some children. -/
def leavesOf : List (κ × KeyTree κ α) → List (List κ × α)
  | [] => []
  | (k, c) :: cs => (leaves c).map (fun l => (k :: l.1, l.2)) ++ leavesOf cs

end

variable {P : κ → Prop} {t : KeyTree κ α} {cs : List (κ × KeyTree κ α)} {ks : List κ} {a : α}

/-- The leaves of children are those of each of them. -/
theorem mem_leavesOf_iff : (ks, a) ∈ leavesOf cs ↔
    ∃ e ∈ cs, ∃ ks', ks = e.1 :: ks' ∧ (ks', a) ∈ e.2.leaves := by
  induction cs with
  | nil => simp [leavesOf]
  | cons e cs ih =>
      rw [leavesOf, List.mem_append, ih, List.exists_mem_cons_iff]
      refine or_congr_left ⟨fun h => ?_, fun h => ?_⟩
      · obtain ⟨l, hl, heq⟩ := List.mem_map.1 h
        obtain ⟨rfl, rfl⟩ := Prod.mk.inj heq
        exact ⟨l.1, rfl, hl⟩
      · obtain ⟨ks', rfl, hl⟩ := h
        exact List.mem_map.2 ⟨_, hl, rfl⟩

/-- The leaves of children with different keys have different paths, if those of each have. -/
theorem nodup_leavesOf (hkeys : (cs.map Prod.fst).Nodup)
    (h : ∀ e ∈ cs, (e.2.leaves.map Prod.fst).Nodup) : ((leavesOf cs).map Prod.fst).Nodup := by
  induction cs with
  | nil => exact List.nodup_nil
  | cons e cs ih =>
      rw [List.forall_mem_cons] at h
      rw [List.map_cons, List.nodup_cons] at hkeys
      have hfirst : ((e.2.leaves.map fun l => (e.1 :: l.1, l.2)).map Prod.fst).Nodup := by
        have hmap : (e.2.leaves.map fun l => (e.1 :: l.1, l.2)).map Prod.fst =
            (e.2.leaves.map Prod.fst).map (e.1 :: ·) := by
          rw [List.map_map, List.map_map]
          rfl
        rw [hmap]
        exact h.1.map fun _ _ heq => (List.cons.inj heq).2
      rw [leavesOf, List.map_append, List.nodup_append]
      refine ⟨hfirst, ih hkeys.2 h.2, ?_⟩
      rintro ks hks ks' hks' rfl
      obtain ⟨l, hl, rfl⟩ := List.mem_map.1 hks
      obtain ⟨l₀, -, rfl⟩ := List.mem_map.1 hl
      obtain ⟨l', hl', heq⟩ := List.mem_map.1 hks'
      obtain ⟨e', he', ks', hks', -⟩ := mem_leavesOf_iff.1 hl'
      rw [hks'] at heq
      exact hkeys.1 ((List.cons.inj heq).1 ▸ List.mem_map_of_mem he')

/-- The leaves of a tree have different paths. -/
theorem nodup_leaves (h : t.WellKeyed P) : (t.leaves.map Prod.fst).Nodup := by
  induction h with
  | node b cs keys nodup _ ih =>
      cases cs with
      | nil => exact List.nodup_singleton _
      | cons e cs => exact nodup_leavesOf nodup ih

/-- What leaves at one path only can be is what one leaf at most is. -/
theorem countP_leaves_le_one (h : t.WellKeyed P) {f : α → Bool} {p : List κ}
    (hf : ∀ l ∈ t.leaves, f l.2 = true → l.1 = p) : t.leaves.countP (fun l => f l.2) ≤ 1 := by
  have hsub : ((t.leaves.filter fun l => f l.2).map Prod.fst).Nodup :=
    (nodup_leaves h).sublist (List.filter_sublist.map _)
  have hpath : ∀ q ∈ (t.leaves.filter fun l => f l.2).map Prod.fst, q = p := by
    intro q hq
    obtain ⟨l, hl, rfl⟩ := List.mem_map.1 hq
    obtain ⟨hl, hfl⟩ := List.mem_filter.1 hl
    exact hf l hl hfl
  rw [List.eq_replicate_of_mem hpath, List.nodup_replicate, List.length_map] at hsub
  rwa [List.countP_eq_length_filter]

variable [DecidableEq κ]

/-- A leaf is what stands at its path. -/
theorem mem_leaves_iff (h : t.WellKeyed P) :
    (ks, a) ∈ t.leaves ↔ ∃ c, t.get ks = some c ∧ c.children = [] ∧ c.label = a := by
  induction h generalizing ks with
  | node b cs keys nodup _ ih =>
      cases ks with
      | nil =>
          cases hcs : cs with
          | nil => simp [leaves, eq_comm]
          | cons e cs' =>
              rw [leaves, mem_leavesOf_iff]
              simp
      | cons k ks =>
          have hchild : ∀ c, (k, c) ∈ cs ↔ (node b cs).child k = some c := fun c =>
            ⟨fun hc => lookup_of_mem nodup hc, mem_of_lookup⟩
          have hleaves : (k :: ks, a) ∈ leaves (node b cs) ↔
              ∃ c, (k, c) ∈ cs ∧ (ks, a) ∈ c.leaves := by
            cases hcs : cs with
            | nil => simp [leaves]
            | cons e' cs' =>
                rw [leaves, mem_leavesOf_iff, ← hcs]
                constructor
                · rintro ⟨e, he, ks', heq, hl⟩
                  obtain ⟨rfl, rfl⟩ := List.cons.inj heq
                  exact ⟨e.2, he, hl⟩
                · rintro ⟨c, hc, hl⟩
                  exact ⟨(k, c), hc, ks, rfl, hl⟩
          rw [hleaves, get_cons]
          constructor
          · rintro ⟨c, hc, hl⟩
            rw [(hchild c).1 hc]
            exact (ih _ hc).1 hl
          · rintro ⟨c', hget, hrest⟩
            obtain ⟨c, hc, hget⟩ := Option.bind_eq_some_iff.1 hget
            exact ⟨c, (hchild c).2 hc, (ih _ ((hchild c).2 hc)).2 ⟨c', hget, hrest⟩⟩

end KeyTree
