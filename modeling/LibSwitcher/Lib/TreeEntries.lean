/-
# Entries of keyed trees

The labels below the root of a tree, with their paths, each before those further down
(`entries`).  Where siblings have different keys an entry is what stands at its path
(`mem_entries_iff`).  No entry stands on the way to one before it (`pairwise_entries`), so that
the entries grafted as leaves, one after the other, all stay: a tree made so has
the labels of the list (`label_graftAll_of_mem`).
-/

import LibSwitcher.Lib.TreeEdits
import Mathlib.Data.List.Induction

namespace KeyTree

variable {κ α : Type*}

mutual

/-- The labels below the root, with their paths. -/
def entries : KeyTree κ α → List (List κ × α)
  | node _ cs => entriesOf cs

/-- The labels of some children and below them. -/
def entriesOf : List (κ × KeyTree κ α) → List (List κ × α)
  | [] => []
  | (k, c) :: cs => ([k], c.label) :: ((entries c).map fun e => (k :: e.1, e.2)) ++ entriesOf cs

end

variable {P : κ → Prop} {t : KeyTree κ α} {cs : List (κ × KeyTree κ α)} {p ks : List κ} {a : α}

/-- The entries of children are those of each of them, under its key. -/
theorem mem_entriesOf_iff : (p, a) ∈ entriesOf cs ↔
    ∃ e ∈ cs, ∃ ks, p = e.1 :: ks ∧ (ks = [] ∧ a = e.2.label ∨ (ks, a) ∈ e.2.entries) := by
  induction cs with
  | nil => simp [entriesOf]
  | cons e cs ih =>
      rw [entriesOf, List.mem_append, ih, List.exists_mem_cons_iff]
      refine or_congr_left ⟨fun h => ?_, fun h => ?_⟩
      · obtain heq | h := List.mem_cons.1 h
        · obtain ⟨rfl, rfl⟩ := Prod.mk.inj heq
          exact ⟨[], rfl, .inl ⟨rfl, rfl⟩⟩
        · obtain ⟨e', he', heq⟩ := List.mem_map.1 h
          obtain ⟨rfl, rfl⟩ := Prod.mk.inj heq
          exact ⟨e'.1, rfl, .inr he'⟩
      · obtain ⟨ks, rfl, ⟨rfl, rfl⟩ | h⟩ := h
        · exact List.mem_cons_self
        · exact List.mem_cons_of_mem _ (List.mem_map.2 ⟨_, h, rfl⟩)

theorem ne_nil_of_mem_entries (h : (p, a) ∈ t.entries) : p ≠ [] := by
  obtain ⟨b, cs⟩ := t
  obtain ⟨e, -, ks, rfl, -⟩ := mem_entriesOf_iff.1 h
  exact List.cons_ne_nil _ _

/-- No entry stands on the way to one before it. -/
theorem pairwise_entries (h : t.WellKeyed P) :
    t.entries.Pairwise fun e e' => ¬e'.1 <+: e.1 := by
  induction h with
  | node b cs keys nodup children ih =>
      rw [entries]
      clear keys children
      induction cs with
      | nil => exact List.Pairwise.nil
      | cons e cs ihcs =>
          obtain ⟨k, c⟩ := e
          rw [List.map_cons, List.nodup_cons] at nodup
          have hbelow : ((entries c).map fun e => (k :: e.1, e.2)).Pairwise
              fun e e' => ¬e'.1 <+: e.1 := by
            refine List.pairwise_map.2 ((ih (k, c) List.mem_cons_self).imp fun hne hpre => ?_)
            exact hne (List.cons_prefix_cons.1 hpre).2
          have hfirst : (([k], c.label) :: (entries c).map fun e => (k :: e.1, e.2)).Pairwise
              fun e e' => ¬e'.1 <+: e.1 := by
            refine List.pairwise_cons.2 ⟨fun e he hpre => ?_, hbelow⟩
            obtain ⟨e', he', rfl⟩ := List.mem_map.1 he
            exact ne_nil_of_mem_entries he' (List.prefix_nil.1 (List.cons_prefix_cons.1 hpre).2)
          rw [entriesOf]
          refine List.pairwise_append.2 ⟨hfirst, ihcs nodup.2 fun e he =>
            ih e (List.mem_cons_of_mem _ he), fun e he e' he' hpre => ?_⟩
          -- the entries of other children have another first key
          obtain ⟨p', a'⟩ := e'
          obtain ⟨child, hchild, ks', rfl, -⟩ := mem_entriesOf_iff.1 he'
          have hk : ∃ ks, e.1 = k :: ks := by
            obtain rfl | he := List.mem_cons.1 he
            · exact ⟨[], rfl⟩
            · obtain ⟨e, -, rfl⟩ := List.mem_map.1 he
              exact ⟨e.1, rfl⟩
          obtain ⟨ks, hks⟩ := hk
          rw [hks] at hpre
          exact nodup.1 (List.mem_map.2 ⟨child, hchild, (List.cons_prefix_cons.1 hpre).1⟩)

variable [DecidableEq κ] {fresh : α}

/-- An entry is the label of what stands at its path. -/
theorem mem_entries_iff (h : t.WellKeyed P) :
    (p, a) ∈ t.entries ↔ p ≠ [] ∧ (t.get p).map label = some a := by
  induction h generalizing p with
  | node b cs keys nodup _ ih =>
      rw [entries, mem_entriesOf_iff]
      cases p with
      | nil => exact iff_of_false (by simp) fun h => h.1 rfl
      | cons k ks =>
          have hchild : ∀ c, (k, c) ∈ cs ↔ (node b cs).child k = some c := fun c =>
            ⟨fun hc => lookup_of_mem nodup hc, mem_of_lookup⟩
          have hbelow : ∀ c, (k, c) ∈ cs → (ks = [] ∧ a = c.label ∨ (ks, a) ∈ c.entries ↔
              (c.get ks).map label = some a) := by
            intro c hc
            rw [ih (k, c) hc]
            cases ks with
            | nil => simp [eq_comm]
            | cons k' ks => simp
          rw [and_iff_right (List.cons_ne_nil k ks), get_cons]
          constructor
          · rintro ⟨⟨k', c⟩, hc, ks', heq, h⟩
            obtain ⟨rfl, rfl⟩ := List.cons.inj heq
            rw [(hchild c).1 hc]
            exact (hbelow c hc).1 h
          · intro h
            obtain ⟨n, hn, -⟩ := Option.map_eq_some_iff.1 h
            obtain ⟨c, hc, -⟩ := Option.bind_eq_some_iff.1 hn
            rw [hc, Option.bind_some] at h
            have hmem := (hchild c).2 hc
            exact ⟨(k, c), hmem, ks, rfl, (hbelow c hmem).2 h⟩

/-! ### Grafting leaves -/

variable (fresh) in
/-- The labels of a tree in which a leaf is grafted: what was below the leaf is gone. -/
theorem label_graft_leaf (p q : List κ) (t : KeyTree κ α) (a : α) :
    (((graft fresh q t (node a [])).get p).map label).getD fresh =
      if q <+: p then (if p = q then a else fresh) else ((t.get p).map label).getD fresh := by
  rcases parted_or_prefix p q with hparted | ⟨r, rfl⟩ | ⟨r, rfl⟩
  · rw [if_neg hparted.symm.not_isPrefix, get_graft_of_parted hparted]
  · rw [get_graft_append]
    cases r with
    | nil =>
        rw [List.append_nil, if_pos (List.prefix_rfl), if_pos rfl]
        rfl
    | cons k r =>
        have hne : ¬p ++ k :: r <+: p := fun h => by
          have := h.length_le
          rw [List.length_append, List.length_cons] at this
          omega
        rw [if_neg hne]
        cases t.get p <;> rfl
  · rw [if_pos (List.prefix_append q r), get_append, get_graft_self, Option.bind_some]
    cases r with
    | nil => simp
    | cons k r =>
        rw [get_node_nil (List.cons_ne_nil _ _), if_neg (by simp)]
        rfl

/-- Graft leaves, one after the other. -/
def graftAll (fresh : α) (es : List (List κ × α)) (t : KeyTree κ α) : KeyTree κ α :=
  es.foldl (fun t e => graft fresh e.1 t (node e.2 [])) t

theorem graftAll_concat (es : List (List κ × α)) (e : List κ × α) (t : KeyTree κ α) :
    graftAll fresh (es ++ [e]) t = graft fresh e.1 (graftAll fresh es t) (node e.2 []) := by
  rw [graftAll, List.foldl_append]
  rfl

variable (fresh) in
/-- Where no leaf is grafted on the way to one before it, all of them stay. -/
theorem label_graftAll_of_mem {es : List (List κ × α)}
    (h : es.Pairwise fun e e' => ¬e'.1 <+: e.1) (hp : (p, a) ∈ es) (t : KeyTree κ α) :
    (((graftAll fresh es t).get p).map label).getD fresh = a := by
  induction es using List.reverseRecOn with
  | nil => exact absurd hp List.not_mem_nil
  | append_singleton es e ih =>
      obtain ⟨hes, -, hlast⟩ := List.pairwise_append.1 h
      rw [graftAll_concat, label_graft_leaf]
      obtain hp | hp := List.mem_append.1 hp
      · rw [if_neg (hlast _ hp e (List.mem_singleton.2 rfl)), ih hes hp]
      · rw [← List.mem_singleton.1 hp, if_pos List.prefix_rfl, if_pos rfl]

variable (fresh) in
/-- At other paths there is nothing, or a node on the way. -/
theorem label_graftAll_of_not_mem {es : List (List κ × α)} (hp : p ∉ es.map Prod.fst) :
    (((graftAll fresh es (node fresh [])).get p).map label).getD fresh = fresh := by
  induction es using List.reverseRecOn with
  | nil =>
      cases p with
      | nil => rfl
      | cons k ks => rw [graftAll, List.foldl_nil, get_node_nil (List.cons_ne_nil k ks)]; rfl
  | append_singleton es e ih =>
      rw [List.map_append, List.mem_append, not_or] at hp
      have hne : p ≠ e.1 := fun heq => hp.2 (List.mem_singleton.2 heq)
      rw [graftAll_concat, label_graft_leaf, if_neg hne, ih hp.1, ite_self]

end KeyTree
