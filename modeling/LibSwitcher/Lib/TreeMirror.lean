/-
# A tree edited by several threads, and its mirror

Threads graft and prune at paths of one tree.  An edit reaches the mirror of the tree when its
thread announces it: announcing a graft copies what the tree has at the path by then, announcing
a prune takes out what the mirror has there.  An edit and its announcement are separate steps,
between which any other thread may act, and what a thread does may depend on the trees it has
taken out.

A tree *reads* at a path the label of the node there, and the label of a new node where there is
none: the nodes that a graft makes on its way to a path change no reading.  A thread *covers* a
path if each of its edits that can change the reading there is announced later.  Where all
threads do, a difference between the tree and its mirror is owed by some thread, and there is none
once they have ended (`Mirrored.agrees_of_covers`).

After a prune, what is at its path in the end is what other threads graft there later
(`Mirrored.get_eq_none_iff_of_prune`).
-/

import LibSwitcher.Lib.Machine
import LibSwitcher.Lib.TreeEdits
import Mathlib.Logic.Function.Basic

namespace KeyTree

variable {κ α ι : Type*} [DecidableEq κ] {P : κ → Prop} {fresh : α} {t leaf c : KeyTree κ α}
  {p q r : List κ}

omit [DecidableEq κ] in
/-- Paths part from what continues them. -/
theorem Parted.mono (h : Parted p q) (hqr : q <+: r) : Parted p r := by
  induction p generalizing q r with
  | nil => exact h.elim
  | cons k ks ih =>
      cases q with
      | nil => exact h.elim
      | cons k' ks' =>
          obtain ⟨l, rfl⟩ := hqr
          exact h.imp id fun hks => ih hks (List.prefix_append ks' l)

/-! ### Readings -/

/-- What the tree reads at a path. -/
def read (fresh : α) (q : List κ) (t : KeyTree κ α) : α := ((t.get q).map label).getD fresh

theorem read_node_nil (q : List κ) :
    (node fresh ([] : List (κ × KeyTree κ α))).read fresh q = fresh := by
  cases q with
  | nil => rfl
  | cons k ks => rw [read, get_node_nil (by simp), Option.map_none, Option.getD_none]

/-- The reading below a path is one of the tree there. -/
theorem read_append (p r : List κ) (t : KeyTree κ α) :
    t.read fresh (p ++ r) = ((t.get p).getD (node fresh [])).read fresh r := by
  rw [read, get_append]
  cases t.get p with
  | none =>
      rw [Option.getD_none, read_node_nil, Option.bind_none, Option.map_none, Option.getD_none]
  | some c => rfl

theorem read_of_get_eq_none (h : t.get p = none) (r : List κ) :
    t.read fresh (p ++ r) = fresh := by
  rw [read_append, h, Option.getD_none, read_node_nil]

theorem read_graft_append (p r : List κ) (t leaf : KeyTree κ α) :
    (graft fresh p t leaf).read fresh (p ++ r) = leaf.read fresh r := by
  rw [read_append, get_graft_self, Option.getD_some]

/-- A graft changes no reading elsewhere. -/
theorem read_graft_of_apart (h : ¬p <+: q) :
    (graft fresh p t leaf).read fresh q = t.read fresh q := by
  rcases parted_or_prefix q p with hparted | ⟨r, rfl⟩ | hpq
  · rw [read, get_graft_of_parted hparted, read]
  · have hr : r ≠ [] := by
      rintro rfl
      exact h (by simp)
    obtain ⟨k, ks, rfl⟩ := List.exists_cons_of_ne_nil hr
    rw [read, get_graft_append, read, Option.map_some, Option.getD_some]
    cases t.get q <;> rfl
  · exact absurd hpq h

/-- Pruning changes no reading elsewhere. -/
theorem read_prune_of_apart (h : ¬p <+: q) : (t.prune p).read fresh q = t.read fresh q := by
  rw [read, label_get_prune h, read]

theorem read_prune_append (ht : t.WellKeyed P) (hp : p ≠ []) (r : List κ) :
    (t.prune p).read fresh (p ++ r) = fresh :=
  read_of_get_eq_none (get_prune_self ht hp) r

/-- Nothing is pruned where there is nothing. -/
theorem prune_of_get_eq_none (h : t.get p = none) : t.prune p = t := by
  induction p generalizing t with
  | nil => cases h
  | cons k ks ih =>
      cases hc : t.child k with
      | none => exact prune_of_child_eq_none hc
      | some c =>
          rw [get_cons, hc, Option.bind_some] at h
          have hks : ks ≠ [] := by
            rintro rfl
            cases h
          rw [prune_cons_of_child hc hks, ih h, setKey_self hc, setChildren_children]

/-! ### Programs -/

/-- What a thread is about to do. -/
inductive Program (κ α : Type*)
  | done
  /-- Put a tree at a path. -/
  | graft (p : List κ) (leaf : KeyTree κ α) (next : Program κ α)
  /-- Take out the tree at a path; what follows may depend on it. -/
  | prune (p : List κ) (next : Option (KeyTree κ α) → Program κ α)
  /-- Announce a graft. -/
  | grafted (p : List κ) (next : Program κ α)
  /-- Announce a prune. -/
  | pruned (p : List κ) (next : Program κ α)

namespace Program

/-- The thread will announce an edit at the path or above, whatever it takes out. -/
def Owes (q : List κ) : Program κ α → Prop
  | done => False
  | graft _ _ next => Owes q next
  | prune _ next => ∀ o, Owes q (next o)
  | grafted p next => p <+: q ∨ Owes q next
  | pruned p next => p <+: q ∨ Owes q next

/-- The thread announces each edit that may change the reading at the path. -/
def Covers (q : List κ) : Program κ α → Prop
  | done => True
  | graft p _ next => (p <+: q → Owes q next) ∧ Covers q next
  | prune p next => ∀ o, (p <+: q → o ≠ none → Owes q (next o)) ∧ Covers q (next o)
  | grafted _ next => Covers q next
  | pruned _ next => Covers q next

/-- The thread grafts trees whose siblings have different keys, if it takes out such trees. -/
def Tidy (P : κ → Prop) : Program κ α → Prop
  | done => True
  | graft p leaf next => (∀ k ∈ p, P k) ∧ leaf.WellKeyed P ∧ Tidy P next
  | prune _ next => ∀ o, (∀ c ∈ o, WellKeyed P c) → Tidy P (next o)
  | grafted p next => (∀ k ∈ p, P k) ∧ Tidy P next
  | pruned _ next => Tidy P next

/-- The thread grafts nothing at the path, above it or below it. -/
def Avoids (p : List κ) : Program κ α → Prop
  | done => True
  | graft p' _ next => Parted p p' ∧ Avoids p next
  | prune _ next => ∀ o, Avoids p (next o)
  | grafted _ next => Avoids p next
  | pruned _ next => Avoids p next

/-- The thread will graft something at the path or below it, whatever it takes out. -/
def Fills (p : List κ) : Program κ α → Prop
  | done => False
  | graft p' _ next => p <+: p' ∨ Fills p next
  | prune _ next => ∀ o, Fills p (next o)
  | grafted _ next => Fills p next
  | pruned _ next => Fills p next

/-- The thread takes out nothing at the path or above it, nor grafts anything above it. -/
def Spares (p : List κ) : Program κ α → Prop
  | done => True
  | graft p' _ next => (Parted p p' ∨ p <+: p') ∧ Spares p next
  | prune p' next => ¬p' <+: p ∧ ∀ o, Spares p (next o)
  | grafted _ next => Spares p next
  | pruned _ next => Spares p next

/-- The thread edits at paths of a set only. -/
def Within (S : List κ → Prop) : Program κ α → Prop
  | done => True
  | graft p _ next => S p ∧ Within S next
  | prune p next => S p ∧ ∀ o, Within S (next o)
  | grafted _ next => Within S next
  | pruned _ next => Within S next

/-- The thread edits by grafts at the path or below it only. -/
def GraftsAt (p : List κ) : Program κ α → Prop
  | done => True
  | graft p' _ next => p <+: p' ∧ GraftsAt p next
  | prune _ _ => False
  | grafted _ next => GraftsAt p next
  | pruned _ next => GraftsAt p next

/-- What may be left of a program after one step. -/
inductive Next : Program κ α → Program κ α → Prop
  | graft (p : List κ) (leaf : KeyTree κ α) (next : Program κ α) : Next (.graft p leaf next) next
  | prune (p : List κ) (next : Option (KeyTree κ α) → Program κ α) (o : Option (KeyTree κ α)) :
      Next (.prune p next) (next o)
  | grafted (p : List κ) (next : Program κ α) : Next (.grafted p next) next
  | pruned (p : List κ) (next : Program κ α) : Next (.pruned p next) next

omit [DecidableEq κ]

variable {S : List κ → Prop} {prog prog' : Program κ α}

theorem Within.mono {S' : List κ → Prop} (h : prog.Within S) (hS : ∀ q, S q → S' q) :
    prog.Within S' := by
  induction prog with
  | done => trivial
  | graft p leaf next ih => exact ⟨hS p h.1, ih h.2⟩
  | prune p next ih => exact ⟨hS p h.1, fun o => ih o (h.2 o)⟩
  | grafted p next ih => exact ih h
  | pruned p next ih => exact ih h

theorem Within.avoids (h : prog.Within (Parted p)) : prog.Avoids p := by
  induction prog with
  | done => trivial
  | graft p' leaf next ih => exact ⟨h.1, ih h.2⟩
  | prune p' next ih => exact fun o => ih o (h.2 o)
  | grafted p' next ih => exact ih h
  | pruned p' next ih => exact ih h

theorem Within.spares (h : prog.Within (Parted p)) : prog.Spares p := by
  induction prog with
  | done => trivial
  | graft p' leaf next ih => exact ⟨Or.inl h.1, ih h.2⟩
  | prune p' next ih => exact ⟨h.1.symm.not_isPrefix, fun o => ih o (h.2 o)⟩
  | grafted p' next ih => exact ih h
  | pruned p' next ih => exact ih h

theorem Within.next (h : prog.Within S) (hnext : Next prog prog') : prog'.Within S := by
  cases hnext with
  | graft p leaf next => exact h.2
  | prune p next o => exact h.2 o
  | grafted p next => exact h
  | pruned p next => exact h

theorem GraftsAt.spares (h : prog.GraftsAt p) : prog.Spares p := by
  induction prog with
  | done => trivial
  | graft p' leaf next ih => exact ⟨Or.inr h.1, ih h.2⟩
  | prune p' next ih => exact h.elim
  | grafted p' next ih => exact ih h
  | pruned p' next ih => exact ih h

/-- Such a thread grafts something at the path if it grafts at all. -/
theorem GraftsAt.avoids_or_fills (h : prog.GraftsAt p) : prog.Avoids p ∨ prog.Fills p := by
  induction prog with
  | done => exact Or.inl trivial
  | graft p' leaf next ih => exact Or.inr (Or.inl h.1)
  | prune p' next ih => exact h.elim
  | grafted p' next ih => exact ih h
  | pruned p' next ih => exact ih h

theorem Avoids.not_fills (h : prog.Avoids p) : ¬prog.Fills p := by
  intro hfills
  induction prog with
  | done => exact hfills
  | graft p' leaf next ih => exact hfills.elim h.1.not_isPrefix (ih h.2)
  | prune p' next ih => exact ih none (h none) (hfills none)
  | grafted p' next ih => exact ih h hfills
  | pruned p' next ih => exact ih h hfills

theorem GraftsAt.next (h : prog.GraftsAt p) (hnext : Next prog prog') : prog'.GraftsAt p := by
  cases hnext with
  | graft p leaf next => exact h.2
  | prune p next o => exact h.elim
  | grafted p next => exact h
  | pruned p next => exact h

end Program

/-! ### Threads -/

/-- A tree, its mirror and the threads that edit it. -/
structure Mirrored (κ α ι : Type*) where
  tree : KeyTree κ α
  mirror : KeyTree κ α
  programs : ι → Program κ α

namespace Mirrored

variable [DecidableEq ι] {s s' : Mirrored κ α ι}

/-- Let a thread go on to a program. -/
def goOn (s : Mirrored κ α ι) (i : ι) (next : Program κ α) : Mirrored κ α ι :=
  { s with programs := Function.update s.programs i next }

/-- The next step of a thread; one that has ended takes none. -/
def step (fresh : α) (s : Mirrored κ α ι) (i : ι) : Option (Mirrored κ α ι × Unit) :=
  match s.programs i with
  | .done => none
  | .graft p leaf next => some ({ s.goOn i next with tree := s.tree.graft fresh p leaf }, ())
  | .prune p next => some ({ s.goOn i (next (s.tree.get p)) with tree := s.tree.prune p }, ())
  | .grafted p next =>
      some ({ s.goOn i next with
        mirror := s.mirror.graft fresh p ((s.tree.get p).getD (node fresh [])) }, ())
  | .pruned p next => some ({ s.goOn i next with mirror := s.mirror.prune p }, ())

/-- A prune that is announced has not been overtaken by a graft at the same path. -/
def NotOvertaken (s : Mirrored κ α ι) (i : ι) : Prop :=
  ∀ p next, s.programs i = .pruned p next → s.tree.get p = none

/-- No thread has anything left to do. -/
def Ended (s : Mirrored κ α ι) : Prop := ∀ i, s.programs i = .done

instance decidableNotOvertaken (s : Mirrored κ α ι) (i : ι) : Decidable (s.NotOvertaken i) :=
  match hprog : s.programs i with
  | .pruned p next => decidable_of_iff ((s.tree.get p).isNone = true)
      ⟨fun h p' next' hprog' => by
        obtain ⟨rfl, rfl⟩ := Program.pruned.inj (hprog.symm.trans hprog')
        exact Option.isNone_iff_eq_none.1 h,
      fun h => Option.isNone_iff_eq_none.2 (h p next hprog)⟩
  | .done => isTrue fun _ _ h => by rw [hprog] at h; cases h
  | .graft _ _ _ => isTrue fun _ _ h => by rw [hprog] at h; cases h
  | .prune _ _ => isTrue fun _ _ h => by rw [hprog] at h; cases h
  | .grafted _ _ => isTrue fun _ _ h => by rw [hprog] at h; cases h

instance decidableDone (prog : Program κ α) : Decidable (prog = .done) :=
  match prog with
  | .done => isTrue rfl
  | .graft _ _ _ => isFalse fun h => by cases h
  | .prune _ _ => isFalse fun h => by cases h
  | .grafted _ _ => isFalse fun h => by cases h
  | .pruned _ _ => isFalse fun h => by cases h

/-- The trees have different keys for siblings, and the threads keep it so. -/
structure Tidy (P : κ → Prop) (s : Mirrored κ α ι) : Prop where
  tree : s.tree.WellKeyed P
  mirror : s.mirror.WellKeyed P
  programs : ∀ i, (s.programs i).Tidy P

/-- Some thread is going to announce an edit at the path or above. -/
def Owed (q : List κ) (s : Mirrored κ α ι) : Prop := ∃ i, (s.programs i).Owes q

/-- The mirror reads at the path as the tree. -/
def Agrees (fresh : α) (q : List κ) (s : Mirrored κ α ι) : Prop :=
  s.mirror.read fresh q = s.tree.read fresh q

/-- What the threads keep about a path that they cover. -/
structure Covered (P : κ → Prop) (fresh : α) (q : List κ) (s : Mirrored κ α ι) : Prop where
  tidy : s.Tidy P
  covers : ∀ i, (s.programs i).Covers q
  agrees : s.Agrees fresh q ∨ s.Owed q

/-! ### One step -/

/-- What a step of a thread may be. -/
inductive Stepped (fresh : α) (s : Mirrored κ α ι) (i : ι) : Mirrored κ α ι → Prop
  | graft {p leaf next} (h : s.programs i = .graft p leaf next) :
      Stepped fresh s i { s.goOn i next with tree := s.tree.graft fresh p leaf }
  | prune {p next} (h : s.programs i = .prune p next) :
      Stepped fresh s i { s.goOn i (next (s.tree.get p)) with tree := s.tree.prune p }
  | grafted {p next} (h : s.programs i = .grafted p next) :
      Stepped fresh s i { s.goOn i next with
        mirror := s.mirror.graft fresh p ((s.tree.get p).getD (node fresh [])) }
  | pruned {p next} (h : s.programs i = .pruned p next) :
      Stepped fresh s i { s.goOn i next with mirror := s.mirror.prune p }

theorem stepped_of_step {i : ι} {e : Mirrored κ α ι × Unit} (h : s.step fresh i = some e) :
    Stepped fresh s i e.1 := by
  unfold step at h
  cases hprog : s.programs i with
  | done => simp [hprog] at h
  | graft p leaf next =>
      simp only [hprog, Option.some.injEq] at h
      exact h ▸ Stepped.graft hprog
  | prune p next =>
      simp only [hprog, Option.some.injEq] at h
      exact h ▸ Stepped.prune hprog
  | grafted p next =>
      simp only [hprog, Option.some.injEq] at h
      exact h ▸ Stepped.grafted hprog
  | pruned p next =>
      simp only [hprog, Option.some.injEq] at h
      exact h ▸ Stepped.pruned hprog

/-- A step leaves a thread as it is or lets it do what comes next. -/
theorem programs_stepped {i : ι} (hstep : Stepped fresh s i s') (j : ι) :
    s'.programs j = s.programs j ∨ Program.Next (s.programs j) (s'.programs j) := by
  have hgoOn : ∀ next : Program κ α, Program.Next (s.programs i) next →
      (s.goOn i next).programs j = s.programs j ∨
        Program.Next (s.programs j) ((s.goOn i next).programs j) := by
    intro next hnext
    by_cases hj : j = i
    · subst hj
      exact Or.inr (by simpa [goOn] using hnext)
    · exact Or.inl (by simp [goOn, hj])
  cases hstep with
  | @graft p leaf next hprog => exact hgoOn next (hprog ▸ Program.Next.graft p leaf next)
  | @prune p next hprog => exact hgoOn _ (hprog ▸ Program.Next.prune p next _)
  | @grafted p next hprog => exact hgoOn next (hprog ▸ Program.Next.grafted p next)
  | @pruned p next hprog => exact hgoOn next (hprog ▸ Program.Next.pruned p next)

/-- What one step after another leaves of a program. -/
theorem programs_run {C : Program κ α → Prop}
    (hC : ∀ prog prog', C prog → Program.Next prog prog' → C prog') {is : List ι} {os : List Unit}
    {j : ι} (hj : C (s.programs j)) (hrun : Machine.run (step fresh) s is = some (s', os)) :
    C (s'.programs j) := by
  refine Machine.run_invariant (I := fun s => C (s.programs j)) (fun s i e hs hstep => ?_) hj hrun
  rcases programs_stepped (stepped_of_step hstep) j with heq | hnext
  · rwa [heq]
  · exact hC _ _ hs hnext

omit [DecidableEq κ] in
/-- What all threads satisfy they satisfy still, if the one that goes on does. -/
theorem forall_goOn {C : Program κ α → Prop} {i : ι} {next : Program κ α}
    (h : ∀ j, C (s.programs j)) (hnext : C next) : ∀ j, C ((s.goOn i next).programs j) := by
  intro j
  by_cases hj : j = i
  · subst hj
    simpa [goOn] using hnext
  · simpa [goOn, hj] using h j

omit [DecidableEq κ] in
/-- What is owed stays owed, unless the thread that goes on was the one to announce it. -/
theorem Owed.goOn {i : ι} {next : Program κ α} (h : s.Owed q)
    (hi : (s.programs i).Owes q → next.Owes q) : (s.goOn i next).Owed q := by
  obtain ⟨j, hj⟩ := h
  refine ⟨j, ?_⟩
  by_cases hij : j = i
  · subst hij
    simpa [Mirrored.goOn] using hi hj
  · simpa [Mirrored.goOn, hij] using hj

omit [DecidableEq κ] in
theorem owed_goOn_self {i : ι} {next : Program κ α} (h : next.Owes q) : (s.goOn i next).Owed q :=
  ⟨i, by simpa [goOn] using h⟩

theorem Tidy.stepped {i : ι} (h : s.Tidy P) (hstep : Stepped fresh s i s') : s'.Tidy P := by
  cases hstep with
  | @graft p leaf next hprog =>
      have hp : (Program.graft p leaf next).Tidy P := hprog ▸ h.programs i
      exact ⟨h.tree.graft hp.1 hp.2.1, h.mirror, forall_goOn h.programs hp.2.2⟩
  | @prune p next hprog =>
      have hp : (Program.prune p next).Tidy P := hprog ▸ h.programs i
      refine ⟨h.tree.prune p, h.mirror, forall_goOn h.programs (hp _ fun c hc => ?_)⟩
      exact h.tree.get hc
  | @grafted p next hprog =>
      have hp : (Program.grafted p next : Program κ α).Tidy P := hprog ▸ h.programs i
      refine ⟨h.tree, h.mirror.graft hp.1 ?_, forall_goOn h.programs hp.2⟩
      cases hc : s.tree.get p with
      | none => exact wellKeyed_nil fresh
      | some c => exact h.tree.get hc
  | @pruned p next hprog =>
      have hp : (Program.pruned p next : Program κ α).Tidy P := hprog ▸ h.programs i
      exact ⟨h.tree, h.mirror.prune p, forall_goOn h.programs hp⟩

theorem Tidy.run {is : List ι} {os : List Unit} (h : s.Tidy P)
    (hrun : Machine.run (step fresh) s is = some (s', os)) : s'.Tidy P :=
  Machine.run_invariant (I := Tidy P) (fun _ _ _ hs hstep => hs.stepped (stepped_of_step hstep)) h
    hrun

theorem covers_stepped {i : ι} (h : ∀ j, (s.programs j).Covers q) (hstep : Stepped fresh s i s') :
    ∀ j, (s'.programs j).Covers q := by
  cases hstep with
  | graft hprog =>
      have hc := h i
      rw [hprog] at hc
      exact forall_goOn h hc.2
  | prune hprog =>
      have hc := h i
      rw [hprog] at hc
      exact forall_goOn h (hc _).2
  | grafted hprog =>
      have hc := h i
      rw [hprog] at hc
      exact forall_goOn h hc
  | pruned hprog =>
      have hc := h i
      rw [hprog] at hc
      exact forall_goOn h hc

/-- An edit of the tree that the thread is going to announce, where the reading may change. -/
theorem agrees_or_owed_of_edit {i : ι} {next : Program κ α} {tree : KeyTree κ α}
    (h : s.Agrees fresh q ∨ s.Owed q) (hi : (s.programs i).Owes q → next.Owes q)
    (hread : tree.read fresh q = s.tree.read fresh q ∨ next.Owes q) :
    Agrees fresh q { s.goOn i next with tree := tree } ∨
      Owed q { s.goOn i next with tree := tree } := by
  rcases hread with hread | howes
  · rcases h with hagree | howed
    · exact Or.inl (hagree.trans hread.symm)
    · exact Or.inr (howed.goOn hi)
  · exact Or.inr (owed_goOn_self howes)

/-- An announcement at a path, which makes the mirror read as the tree at the path and below. -/
theorem agrees_or_owed_of_announcement {i : ι} {next : Program κ α} {mirror : KeyTree κ α}
    (h : s.Agrees fresh q ∨ s.Owed q) (hi : (s.programs i).Owes q → p <+: q ∨ next.Owes q)
    (habove : ¬p <+: q → mirror.read fresh q = s.mirror.read fresh q)
    (hbelow : p <+: q → mirror.read fresh q = s.tree.read fresh q) :
    Agrees fresh q { s.goOn i next with mirror := mirror } ∨
      Owed q { s.goOn i next with mirror := mirror } := by
  by_cases hpq : p <+: q
  · exact Or.inl (hbelow hpq)
  · rcases h with hagree | howed
    · exact Or.inl ((habove hpq).trans hagree)
    · exact Or.inr (howed.goOn fun howes => (hi howes).resolve_left hpq)

/-- A step that is not an overtaken announcement keeps what the threads keep. -/
theorem Covered.stepped {i : ι} (h : s.Covered P fresh q) (hstep : Stepped fresh s i s')
    (hok : s.NotOvertaken i) : s'.Covered P fresh q := by
  refine ⟨h.tidy.stepped hstep, covers_stepped h.covers hstep, ?_⟩
  have hcovers := h.covers i
  cases hstep with
  | @graft p leaf next hprog =>
      rw [hprog] at hcovers
      refine agrees_or_owed_of_edit h.agrees (fun howes => by rwa [hprog] at howes) ?_
      by_cases hpq : p <+: q
      · exact Or.inr (hcovers.1 hpq)
      · exact Or.inl (read_graft_of_apart hpq)
  | @prune p next hprog =>
      rw [hprog] at hcovers
      refine agrees_or_owed_of_edit h.agrees
        (fun howes => by rw [hprog] at howes; exact howes _) ?_
      by_cases hpq : p <+: q
      · by_cases hnone : s.tree.get p = none
        · exact Or.inl (by rw [prune_of_get_eq_none hnone])
        · exact Or.inr ((hcovers _).1 hpq hnone)
      · exact Or.inl (read_prune_of_apart hpq)
  | @grafted p next hprog =>
      refine agrees_or_owed_of_announcement h.agrees (fun howes => by rwa [hprog] at howes)
        read_graft_of_apart ?_
      rintro ⟨r, rfl⟩
      rw [read_graft_append, read_append]
  | @pruned p next hprog =>
      have hnone := hok p next hprog
      have hp : p ≠ [] := by
        rintro rfl
        cases hnone
      refine agrees_or_owed_of_announcement h.agrees (fun howes => by rwa [hprog] at howes)
        read_prune_of_apart ?_
      rintro ⟨r, rfl⟩
      rw [read_prune_append h.tidy.mirror hp, read_of_get_eq_none hnone]

/-! ### Runs -/

omit [DecidableEq κ] [DecidableEq ι] in
theorem Ended.not_owed (h : s.Ended) : ¬s.Owed q := by
  rintro ⟨i, hi⟩
  rw [h i] at hi
  exact hi

/-- In every state of a run, a path that all threads cover and that the mirror reads differently is
one about which some thread owes an announcement; when the threads have ended, the mirror reads as
the tree. -/
theorem agrees_of_covers {is : List ι} (htidy : s.Tidy P) (hcovers : ∀ i, (s.programs i).Covers q)
    (hagree : s.Agrees fresh q) (hok : Machine.Admits (step fresh) NotOvertaken s is) :
    Machine.Always (step fresh)
      (fun s => (s.Agrees fresh q ∨ s.Owed q) ∧ (s.Ended → s.Agrees fresh q)) s is :=
  hok.always (I := Covered P fresh q)
    (fun _ hs => ⟨hs.agrees, fun hended => hs.agrees.resolve_right hended.not_owed⟩)
    (fun _ _ _ hs hok hstep => hs.stepped (stepped_of_step hstep) hok)
    ⟨htidy, hcovers, Or.inl hagree⟩

/-! ### Grafts that come too late -/

theorem get_eq_none_iff_label : t.get p = none ↔ (t.get p).map label = none := by
  rw [Option.map_eq_none_iff]

/-- Pruning adds nothing. -/
theorem get_prune_eq_none (ht : t.WellKeyed P) (h : t.get p = none) : (t.prune q).get p = none := by
  by_cases hqp : q <+: p
  · obtain ⟨r, rfl⟩ := hqp
    by_cases hq : q = []
    · subst hq
      exact h
    · rw [get_append, get_prune_self ht hq, Option.bind_none]
  · rwa [get_eq_none_iff_label, label_get_prune hqp, ← get_eq_none_iff_label]

/-- Something is at the path or will be, as no thread takes it out. -/
structure Filled (p : List κ) (s : Mirrored κ α ι) : Prop where
  spares : ∀ i, (s.programs i).Spares p
  fills : s.tree.get p ≠ none ∨ ∃ i, (s.programs i).Fills p

omit [DecidableEq κ] in
theorem exists_fills_goOn {i : ι} {next : Program κ α} (h : ∃ j, (s.programs j).Fills p)
    (hi : (s.programs i).Fills p → next.Fills p) : ∃ j, ((s.goOn i next).programs j).Fills p := by
  obtain ⟨j, hj⟩ := h
  refine ⟨j, ?_⟩
  by_cases hij : j = i
  · subst hij
    simpa [goOn] using hi hj
  · simpa [goOn, hij] using hj

theorem Filled.stepped {i : ι} (h : s.Filled p) (hstep : Stepped fresh s i s') : s'.Filled p := by
  have hspares := h.spares i
  cases hstep with
  | @graft p' leaf next hprog =>
      rw [hprog] at hspares
      refine ⟨forall_goOn h.spares hspares.2, ?_⟩
      by_cases hpp : p <+: p'
      · obtain ⟨r, rfl⟩ := hpp
        exact Or.inl (by rw [get_graft_append]; exact Option.some_ne_none _)
      · refine h.fills.imp (fun hget => ?_) fun hfills => ?_
        · rwa [get_graft_of_parted (hspares.1.resolve_right hpp)]
        · exact exists_fills_goOn hfills fun hi => by
            rw [hprog] at hi
            exact hi.resolve_left hpp
  | @prune p' next hprog =>
      rw [hprog] at hspares
      refine ⟨forall_goOn h.spares (hspares.2 _), h.fills.imp (fun hget => ?_) fun hfills => ?_⟩
      · rwa [Ne, get_eq_none_iff_label, label_get_prune hspares.1, ← get_eq_none_iff_label]
      · exact exists_fills_goOn hfills fun hi => by
          rw [hprog] at hi
          exact hi _
  | @grafted p' next hprog =>
      rw [hprog] at hspares
      exact ⟨forall_goOn h.spares hspares,
        h.fills.imp id fun hfills => exists_fills_goOn hfills fun hi => by rwa [hprog] at hi⟩
  | @pruned p' next hprog =>
      rw [hprog] at hspares
      exact ⟨forall_goOn h.spares hspares,
        h.fills.imp id fun hfills => exists_fills_goOn hfills fun hi => by rwa [hprog] at hi⟩

/-- Nothing is at the path, and no thread will graft anything there. -/
structure Void (P : κ → Prop) (p : List κ) (s : Mirrored κ α ι) : Prop where
  tidy : s.Tidy P
  nothing : s.tree.get p = none
  avoids : ∀ i, (s.programs i).Avoids p

theorem Void.stepped {i : ι} (h : s.Void P p) (hstep : Stepped fresh s i s') : s'.Void P p := by
  have htidy := h.tidy.stepped hstep
  have havoids := h.avoids i
  cases hstep with
  | graft hprog =>
      rw [hprog] at havoids
      exact ⟨htidy, (get_graft_of_parted havoids.1).trans h.nothing, forall_goOn h.avoids havoids.2⟩
  | prune hprog =>
      rw [hprog] at havoids
      exact ⟨htidy, get_prune_eq_none h.tidy.tree h.nothing, forall_goOn h.avoids (havoids _)⟩
  | grafted hprog =>
      rw [hprog] at havoids
      exact ⟨htidy, h.nothing, forall_goOn h.avoids havoids⟩
  | pruned hprog =>
      rw [hprog] at havoids
      exact ⟨htidy, h.nothing, forall_goOn h.avoids havoids⟩

/-- Where nothing is at a path and no thread will take anything out there, nothing is there when the
threads have ended exactly if none of them grafts there. -/
theorem get_eq_none_iff_avoids {is : List ι} {os : List Unit} (htidy : s.Tidy P)
    (hnothing : s.tree.get p = none) (hspares : ∀ i, (s.programs i).Spares p)
    (hdecided : ∀ i, (s.programs i).Avoids p ∨ (s.programs i).Fills p)
    (hrun : Machine.run (step fresh) s is = some (s', os)) (hended : s'.Ended) :
    s'.tree.get p = none ↔ ∀ i, (s.programs i).Avoids p := by
  constructor
  · intro hnone i
    refine (hdecided i).resolve_right fun hfills => ?_
    have hfilled : s'.Filled p := Machine.run_invariant (I := Filled p)
      (fun _ _ _ hs hstep => hs.stepped (stepped_of_step hstep)) ⟨hspares, Or.inr ⟨i, hfills⟩⟩ hrun
    obtain ⟨j, hj⟩ := hfilled.fills.resolve_left fun hne => hne hnone
    rw [hended j] at hj
    exact hj
  · intro havoids
    exact (Machine.run_invariant (I := Void P p)
      (fun _ _ _ hs hstep => hs.stepped (stepped_of_step hstep)) ⟨htidy, hnothing, havoids⟩
      hrun).nothing

/-- When a thread prunes at a path and leaves the path alone afterwards, nothing is there when the
threads have ended exactly if no other thread grafts there later. -/
theorem get_eq_none_iff_of_prune {i : ι} {next : Option (KeyTree κ α) → Program κ α} {is : List ι}
    {os : List Unit} (htidy : s.Tidy P) (hp : p ≠ []) (hi : s.programs i = .prune p next)
    (hnext : ∀ o, (next o).Within (Parted p))
    (hothers : ∀ j, j ≠ i → (s.programs j).Spares p ∧
      ((s.programs j).Avoids p ∨ (s.programs j).Fills p))
    (hrun : Machine.run (step fresh) s (i :: is) = some (s', os)) (hended : s'.Ended) :
    s'.tree.get p = none ↔ ∀ j, j ≠ i → (s.programs j).Avoids p := by
  obtain ⟨e, os', hstep, hrest, -⟩ := Machine.run_cons_eq_some hrun
  have htidy' := htidy.stepped (stepped_of_step hstep)
  have he : e = ({ s.goOn i (next (s.tree.get p)) with tree := s.tree.prune p }, ()) := by
    unfold step at hstep
    rw [hi] at hstep
    exact (Option.some.inj hstep).symm
  rw [he] at hrest htidy'
  have hself : (s.goOn i (next (s.tree.get p))).programs i = next (s.tree.get p) := by simp [goOn]
  have hother : ∀ j, j ≠ i → (s.goOn i (next (s.tree.get p))).programs j = s.programs j :=
    fun j hj => by simp [goOn, hj]
  have hspares : ∀ j, ((s.goOn i (next (s.tree.get p))).programs j).Spares p := by
    intro j
    by_cases hj : j = i
    · rw [hj, hself]
      exact (hnext _).spares
    · rw [hother j hj]
      exact (hothers j hj).1
  have hdecided : ∀ j, ((s.goOn i (next (s.tree.get p))).programs j).Avoids p ∨
      ((s.goOn i (next (s.tree.get p))).programs j).Fills p := by
    intro j
    by_cases hj : j = i
    · rw [hj, hself]
      exact Or.inl (hnext _).avoids
    · rw [hother j hj]
      exact (hothers j hj).2
  rw [get_eq_none_iff_avoids htidy' (get_prune_self htidy.tree hp) hspares hdecided hrest hended]
  constructor
  · intro h j hj
    rw [← hother j hj]
    exact h j
  · intro h j
    by_cases hj : j = i
    · have havoids := (hnext (s.tree.get p)).avoids
      rw [← hself] at havoids
      exact hj ▸ havoids
    · have havoids := h j hj
      rw [← hother j hj] at havoids
      exact havoids

end Mirrored
end KeyTree
