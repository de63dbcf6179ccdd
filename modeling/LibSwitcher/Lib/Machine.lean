/-
# Machines whose steps may be undefined

A machine is a step function `σ → ι → Option (σ × ω)`: a state and an operation
give the next state and what the operation returns, and `none` stands for an
operation whose behaviour is undefined (an access outside an array, a missing
map entry).  `run` performs a list of operations; `Admits ok` says that every
operation of a list meets a condition in the state it is performed in.

Rules turn a fact about one step into a fact about every run.  `run_invariant`
carries an invariant along a run, and `Admits.defined` one that the steps meeting
the condition keep, together with their being defined.  `admits_iff_admits` and
`tracks_iff_admits` compare conditions and machines: where a condition decides of
each step whether it is correct, or agrees with the step of a total abstract
machine, it decides this of each run.  `always_iff_admits` and `keeps_iff_admits` do the same
for a property of states.  `exists_run_of_measure` finds a run to an end that every
state has a step towards.
-/

import Mathlib.Data.List.Basic
import Mathlib.Tactic.Common

namespace Machine

variable {σ τ ι ω : Type*}

/-- Perform a list of operations, collecting what they return. -/
def run (step : σ → ι → Option (σ × ω)) : σ → List ι → Option (σ × List ω)
  | s, [] => some (s, [])
  | s, i :: is =>
      (step s i).bind fun r => (run step r.1 is).map fun r' => (r'.1, r.2 :: r'.2)

/-- Perform a list of operations on a machine without undefined behaviour. -/
def runTotal (step : τ → ι → τ × ω) : τ → List ι → τ × List ω
  | t, [] => (t, [])
  | t, i :: is => ((runTotal step (step t i).1 is).1,
      (step t i).2 :: (runTotal step (step t i).1 is).2)

/-- Every operation of the list meets `ok` in the state it is performed in. -/
def Admits (step : σ → ι → Option (σ × ω)) (ok : σ → ι → Prop) : σ → List ι → Prop
  | _, [] => True
  | s, i :: is => ok s i ∧ ∀ r, step s i = some r → Admits step ok r.1 is

/-- The property holds in every state of the run, the first and the last included. -/
def Always (step : σ → ι → Option (σ × ω)) (P : σ → Prop) : σ → List ι → Prop
  | s, [] => P s
  | s, i :: is => P s ∧ ∀ r, step s i = some r → Always step P r.1 is

/-- Every operation of the list is defined, and the property holds in every state. -/
def Keeps (step : σ → ι → Option (σ × ω)) (P : σ → Prop) : σ → List ι → Prop
  | s, [] => P s
  | s, i :: is => P s ∧ ∃ r, step s i = some r ∧ Keeps step P r.1 is

/-- Every operation of the list is defined, and does what it should. -/
def Meets (step : σ → ι → Option (σ × ω)) (Q : σ → ι → σ × ω → Prop) : σ → List ι → Prop
  | _, [] => True
  | s, i :: is => ∃ r, step s i = some r ∧ Q s i r ∧ Meets step Q r.1 is

/-- The machine and the abstract machine agree all along the list: related
states throughout, defined steps, and equal results. -/
def Tracks (step : σ → ι → Option (σ × ω)) (abs : τ → ι → τ × ω) (R : σ → τ → Prop) :
    σ → τ → List ι → Prop
  | s, t, [] => R s t
  | s, t, i :: is => R s t ∧ ∃ s', step s i = some (s', (abs t i).2) ∧
      Tracks step abs R s' (abs t i).1 is

/-- The operations that are accepted, where a step says whether its operation is. -/
def accepted (step : σ → ι → Option (σ × Bool)) : σ → List ι → List ι
  | _, [] => []
  | s, i :: is =>
      match step s i with
      | none => []
      | some r => if r.2 then i :: accepted step r.1 is else accepted step r.1 is

variable {step : σ → ι → Option (σ × ω)} {ok : σ → ι → Prop}

/-- Whether a run meets a decidable condition is found by performing it. -/
instance decidableAdmits [∀ s i, Decidable (ok s i)] :
    ∀ s is, Decidable (Admits step ok s is)
  | _, [] => isTrue trivial
  | s, i :: is =>
      match h : step s i with
      | none => decidable_of_iff (ok s i)
          ⟨fun hok => ⟨hok, fun r hr => by rw [h] at hr; cases hr⟩, And.left⟩
      | some r =>
          have := decidableAdmits r.1 is
          decidable_of_iff (ok s i ∧ Admits step ok r.1 is)
            ⟨fun hok => ⟨hok.1, fun r' hr => by rw [h] at hr; cases hr; exact hok.2⟩,
              fun hok => ⟨hok.1, hok.2 r h⟩⟩

@[simp] theorem run_nil (s : σ) : run step s [] = some (s, []) := rfl

theorem run_cons (s : σ) (i : ι) (is : List ι) :
    run step s (i :: is) =
      (step s i).bind fun r => (run step r.1 is).map fun r' => (r'.1, r.2 :: r'.2) := rfl

/-- A run that ends starts with a defined step and a run that ends. -/
theorem run_cons_eq_some {s s' : σ} {i : ι} {is : List ι} {os : List ω}
    (h : run step s (i :: is) = some (s', os)) :
    ∃ r os', step s i = some r ∧ run step r.1 is = some (s', os') ∧ os = r.2 :: os' := by
  rw [run_cons] at h
  obtain ⟨r, hr, h⟩ := Option.bind_eq_some_iff.1 h
  obtain ⟨⟨t, os'⟩, hrun, h⟩ := Option.map_eq_some_iff.1 h
  obtain ⟨rfl, rfl⟩ := Prod.mk.inj h
  exact ⟨r, os', hr, hrun, rfl⟩

/-- An invariant that every step preserves holds after every run. -/
theorem run_invariant {I : σ → Prop} (hstep : ∀ s i r, I s → step s i = some r → I r.1)
    {s s' : σ} {is : List ι} {os : List ω} (hs : I s) (hrun : run step s is = some (s', os)) :
    I s' := by
  induction is generalizing s os with
  | nil =>
      obtain ⟨rfl, -⟩ := Prod.mk.inj (Option.some.inj hrun)
      exact hs
  | cons i is ih =>
      obtain ⟨r, os', hr, hrest, -⟩ := run_cons_eq_some hrun
      exact ih (hstep s i r hs hr) hrest

/-- Related values are continued to related ones. -/
theorem rel_bind {α β γ δ : Type*} {R : α → β → Prop} {S : γ → δ → Prop} {a : Option α}
    {b : Option β} {f : α → Option γ} {g : β → Option δ} (h : Option.Rel R a b)
    (hf : ∀ x y, R x y → Option.Rel S (f x) (g y)) : Option.Rel S (a.bind f) (b.bind g) := by
  cases h with
  | none => exact Option.Rel.none
  | some hab => exact hf _ _ hab

theorem rel_map {α β γ δ : Type*} {R : α → β → Prop} {S : γ → δ → Prop} {a : Option α}
    {b : Option β} {f : α → γ} {g : β → δ} (h : Option.Rel R a b)
    (hf : ∀ x y, R x y → S (f x) (g y)) : Option.Rel S (a.map f) (b.map g) := by
  cases h with
  | none => exact Option.Rel.none
  | some hab => exact Option.Rel.some (hf _ _ hab)

/-- Machines whose steps agree in related states, and relate the next ones, agree on every
run. -/
theorem run_rel {step' : τ → ι → Option (τ × ω)} {R : σ → τ → Prop}
    (hstep : ∀ s t i, R s t →
      Option.Rel (fun r r' => r.2 = r'.2 ∧ R r.1 r'.1) (step s i) (step' t i))
    {s : σ} {t : τ} (h : R s t) (is : List ι) :
    Option.Rel (fun r r' => r.2 = r'.2 ∧ R r.1 r'.1) (run step s is) (run step' t is) := by
  induction is generalizing s t with
  | nil => exact Option.Rel.some ⟨rfl, h⟩
  | cons i is ih =>
      rw [run_cons, run_cons]
      refine rel_bind (hstep s t i h) fun r r' hr => rel_map (ih hr.2) fun q q' hq => ?_
      exact ⟨by rw [hr.1, hq.1], hq.2⟩

/-- Conditions on two machines agree on runs if they agree where the states are related,
and the steps that meet them keep the states related. -/
theorem admits_iff_admits_of_rel {ω' : Type*} {step' : τ → ι → Option (τ × ω')}
    {ok' : τ → ι → Prop} {R : σ → τ → Prop} (hok : ∀ s t i, R s t → (ok s i ↔ ok' t i))
    (hstep : ∀ s t i, R s t → ok s i → Option.Rel (fun r r' => R r.1 r'.1) (step s i) (step' t i))
    {s : σ} {t : τ} (h : R s t) (is : List ι) : Admits step ok s is ↔ Admits step' ok' t is := by
  induction is generalizing s t with
  | nil => exact Iff.rfl
  | cons i is ih =>
      constructor
      · rintro ⟨hs, hrest⟩
        have hrel := hstep s t i h hs
        refine ⟨(hok s t i h).1 hs, fun r' hr' => ?_⟩
        cases hr : step s i with
        | none =>
            rw [hr, hr'] at hrel
            cases hrel
        | some r =>
            rw [hr, hr'] at hrel
            cases hrel with
            | some hR => exact (ih hR).1 (hrest r hr)
      · rintro ⟨ht, hrest⟩
        have hs := (hok s t i h).2 ht
        have hrel := hstep s t i h hs
        refine ⟨hs, fun r hr => ?_⟩
        cases hr' : step' t i with
        | none =>
            rw [hr, hr'] at hrel
            cases hrel
        | some r' =>
            rw [hr, hr'] at hrel
            cases hrel with
            | some hR => exact (ih hR).2 (hrest r' hr')

/-- Two conditions that agree where an invariant holds agree on runs, if the invariant
is kept by the steps that meet them. -/
theorem admits_iff_admits {I : σ → Prop} {ok' : σ → ι → Prop}
    (hok : ∀ s i, I s → (ok s i ↔ ok' s i))
    (hstep : ∀ s i r, I s → ok s i → step s i = some r → I r.1) {s : σ} (hs : I s) (is : List ι) :
    Admits step ok s is ↔ Admits step ok' s is := by
  refine admits_iff_admits_of_rel (R := fun s t => s = t ∧ I s) ?_ ?_ ⟨rfl, hs⟩ is
  · rintro s _ i ⟨rfl, hs⟩
    exact hok s i hs
  · rintro s _ i ⟨rfl, hs⟩ hi
    cases hr : step s i with
    | none => exact Option.Rel.none
    | some r => exact Option.Rel.some ⟨rfl, hstep s i r hs hi hr⟩

/-- A condition that implies another does so along a run. -/
theorem Admits.mono {ok' : σ → ι → Prop} (hok : ∀ s i, ok s i → ok' s i) {s : σ} {is : List ι}
    (h : Admits step ok s is) : Admits step ok' s is := by
  induction is generalizing s with
  | nil => exact trivial
  | cons i is ih => exact ⟨hok s i h.1, fun r hr => ih (h.2 r hr)⟩

/-- A run whose steps all meet a condition that makes them defined is defined. -/
theorem Admits.defined {I : σ → Prop}
    (hstep : ∀ s i, I s → ok s i → ∃ r, step s i = some r ∧ I r.1)
    {s : σ} {is : List ι} (hs : I s) (h : Admits step ok s is) :
    ∃ s' os, run step s is = some (s', os) ∧ I s' := by
  induction is generalizing s with
  | nil => exact ⟨s, [], rfl, hs⟩
  | cons i is ih =>
      obtain ⟨r, hr, hinv⟩ := hstep s i hs h.1
      obtain ⟨s', os, hrun, hs'⟩ := ih hinv (h.2 r hr)
      exact ⟨s', r.2 :: os, by rw [run_cons, hr, Option.bind_some, hrun, Option.map_some], hs'⟩

/-- A property that holds always holds at the start. -/
theorem Always.start {P : σ → Prop} {s : σ} {is : List ι} (h : Always step P s is) : P s := by
  cases is with
  | nil => exact h
  | cons i is => exact h.1

/-- What an invariant implies always holds. -/
theorem always_of_invariant {I P : σ → Prop} (hI : ∀ s, I s → P s)
    (hstep : ∀ s i r, I s → step s i = some r → I r.1) {s : σ} (hs : I s) (is : List ι) :
    Always step P s is := by
  induction is generalizing s with
  | nil => exact hI s hs
  | cons i is ih => exact ⟨hI s hs, fun r hr => ih (hstep s i r hs hr)⟩

/-- A property that always holds does at the end. -/
theorem Always.run {P : σ → Prop} {s s' : σ} {is : List ι} {os : List ω} (h : Always step P s is)
    (hrun : Machine.run step s is = some (s', os)) : P s' := by
  induction is generalizing s os with
  | nil =>
      obtain ⟨rfl, -⟩ := Prod.mk.inj (Option.some.inj hrun)
      exact h
  | cons i is ih =>
      obtain ⟨r, os', hr, hrest, -⟩ := run_cons_eq_some hrun
      exact ih (h.2 r hr) hrest

/-- What is implied by an invariant that the steps meeting a condition keep holds always in the
runs that meet it. -/
theorem Admits.always {I P : σ → Prop} (hI : ∀ s, I s → P s)
    (hstep : ∀ s i r, I s → ok s i → step s i = some r → I r.1) {s : σ} (hs : I s) {is : List ι}
    (h : Admits step ok s is) : Always step P s is := by
  induction is generalizing s with
  | nil => exact hI s hs
  | cons i is ih => exact ⟨hI s hs, fun r hr => ih (hstep s i r hs h.1 hr) (h.2 r hr)⟩

/-- Where the condition decides whether a step keeps a property, it decides whether the
property holds in every state of a run. -/
theorem always_iff_admits {P : σ → Prop}
    (hstep : ∀ s i, P s → (ok s i ↔ ∀ r, step s i = some r → P r.1)) {s : σ} (is : List ι) :
    Always step P s is ↔ P s ∧ Admits step ok s is := by
  induction is generalizing s with
  | nil => exact ⟨fun h => ⟨h, trivial⟩, And.left⟩
  | cons i is ih =>
      constructor
      · rintro ⟨hs, hrest⟩
        exact ⟨hs, (hstep s i hs).2 fun r hr => (hrest r hr).start,
          fun r hr => (ih.1 (hrest r hr)).2⟩
      · rintro ⟨hs, hok, hrest⟩
        exact ⟨hs, fun r hr => ih.2 ⟨(hstep s i hs).1 hok r hr, hrest r hr⟩⟩

/-- A property that is kept holds at the start. -/
theorem Keeps.start {P : σ → Prop} {s : σ} {is : List ι} (h : Keeps step P s is) : P s := by
  cases is with
  | nil => exact h
  | cons i is => exact h.1

/-- Where an invariant implies a property, and the condition decides whether a step is defined and
keeps them, it decides whether a run does. -/
theorem keeps_iff_admits {I P : σ → Prop} (hP : ∀ s, I s → P s)
    (hok : ∀ s i, I s → ok s i → ∃ r, step s i = some r ∧ I r.1)
    (hkeep : ∀ s i r, I s → step s i = some r → P r.1 → ok s i) {s : σ} (hs : I s)
    (is : List ι) : Keeps step P s is ↔ Admits step ok s is := by
  induction is generalizing s with
  | nil => exact ⟨fun _ => trivial, fun _ => hP s hs⟩
  | cons i is ih =>
      constructor
      · rintro ⟨-, r, hr, hrest⟩
        have hi := hkeep s i r hs hr hrest.start
        obtain ⟨r', hr', hinv⟩ := hok s i hs hi
        rw [Option.some.inj (hr'.symm.trans hr)] at hinv
        refine ⟨hi, fun r' hr' => ?_⟩
        rw [Option.some.inj (hr'.symm.trans hr)]
        exact (ih hinv).1 hrest
      · rintro ⟨hi, hrest⟩
        obtain ⟨r, hr, hinv⟩ := hok s i hs hi
        exact ⟨hP s hs, r, hr, (ih hinv).2 (hrest r hr)⟩

/-- A run whose steps all meet a condition does what it should, if the steps that meet it do and keep
an invariant. -/
theorem Admits.meets {I : σ → Prop} {Q : σ → ι → σ × ω → Prop}
    (hstep : ∀ s i, I s → ok s i → ∃ r, step s i = some r ∧ Q s i r ∧ I r.1)
    {s : σ} (hs : I s) {is : List ι} (h : Admits step ok s is) : Meets step Q s is := by
  induction is generalizing s with
  | nil => exact trivial
  | cons i is ih =>
      obtain ⟨r, hr, hQ, hinv⟩ := hstep s i hs h.1
      exact ⟨r, hr, hQ, ih hinv (h.2 r hr)⟩

/-- Every run does what it should, if every step does and keeps an invariant. -/
theorem meets_of_invariant {I : σ → Prop} {Q : σ → ι → σ × ω → Prop}
    (hstep : ∀ s i, I s → ∃ r, step s i = some r ∧ Q s i r ∧ I r.1) {s : σ} (hs : I s)
    (is : List ι) : Meets step Q s is := by
  induction is generalizing s with
  | nil => exact trivial
  | cons i is ih =>
      obtain ⟨r, hr, hQ, hinv⟩ := hstep s i hs
      exact ⟨r, hr, hQ, ih hinv⟩

/-- A run that does what it should gets to its middle, and goes on from there as it should. -/
theorem Meets.append {Q : σ → ι → σ × ω → Prop} {s : σ} {is is' : List ι}
    (h : Meets step Q s (is ++ is')) :
    ∃ s' os, run step s is = some (s', os) ∧ Meets step Q s' is' := by
  induction is generalizing s with
  | nil => exact ⟨s, [], rfl, h⟩
  | cons i is ih =>
      obtain ⟨r, hr, -, hrest⟩ := h
      obtain ⟨s', os, hrun, h'⟩ := ih hrest
      exact ⟨s', r.2 :: os, by rw [run_cons, hr, Option.bind_some, hrun, Option.map_some], h'⟩

/-- Where the condition decides, in the states of an invariant, whether a step is defined and does
what it should, and such steps keep the invariant, it decides this of a run. -/
theorem meets_iff_admits {I : σ → Prop} {Q : σ → ι → σ × ω → Prop}
    (hok : ∀ s i, I s → ok s i → ∃ r, step s i = some r ∧ Q s i r ∧ I r.1)
    (hkeep : ∀ s i r, I s → step s i = some r → Q s i r → ok s i) {s : σ} (hs : I s)
    (is : List ι) : Meets step Q s is ↔ Admits step ok s is := by
  refine ⟨fun h => ?_, Admits.meets hok hs⟩
  induction is generalizing s with
  | nil => exact trivial
  | cons i is ih =>
      obtain ⟨r, hr, hQ, hrest⟩ := h
      have hi := hkeep s i r hs hr hQ
      obtain ⟨r', hr', -, hinv⟩ := hok s i hs hi
      rw [Option.some.inj (hr'.symm.trans hr)] at hinv
      refine ⟨hi, fun r' hr' => ?_⟩
      rw [Option.some.inj (hr'.symm.trans hr)]
      exact ih hinv hrest

/-- Properties that an invariant makes the same hold along the same runs. -/
theorem always_congr {I P Q : σ → Prop} (hstep : ∀ s i r, I s → step s i = some r → I r.1)
    (h : ∀ s, I s → (P s ↔ Q s)) {s : σ} (hs : I s) (is : List ι) :
    Always step P s is ↔ Always step Q s is := by
  induction is generalizing s with
  | nil => exact h s hs
  | cons i is ih =>
      refine and_congr (h s hs) (forall_congr' fun r => ?_)
      exact forall_congr' fun hr => ih (hstep s i r hs hr)

/-- Where steps are defined, a condition on the operations alone is one on their list. -/
theorem admits_iff_forall {I : σ → Prop} (hstep : ∀ s i, I s → ∃ r, step s i = some r ∧ I r.1)
    {p : ι → Prop} {s : σ} (hs : I s) {is : List ι} :
    Admits step (fun _ i => p i) s is ↔ ∀ i ∈ is, p i := by
  induction is generalizing s with
  | nil => exact iff_of_true trivial fun i hi => absurd hi List.not_mem_nil
  | cons i is ih =>
      obtain ⟨r, hr, hinv⟩ := hstep s i hs
      rw [List.forall_mem_cons, ← ih hinv]
      refine and_congr_right fun _ => ⟨fun h => h r hr, fun h r' hr' => ?_⟩
      rwa [Option.some.inj (hr'.symm.trans hr)]

/-- Where every state of an invariant that is not yet the end has an allowed operation that brings
it closer, some run of allowed operations reaches the end. -/
theorem exists_run_of_measure {I Q : σ → Prop} (allowed : ι → Prop) (μ : σ → ℕ)
    (hstep : ∀ s, I s → Q s ∨ ∃ i r, allowed i ∧ step s i = some r ∧ I r.1 ∧ μ r.1 < μ s) {s : σ}
    (hs : I s) :
    ∃ is s' os, (∀ i ∈ is, allowed i) ∧ run step s is = some (s', os) ∧ Q s' := by
  generalize hd : μ s = d
  induction d using Nat.strongRecOn generalizing s with
  | _ d ih =>
      rcases hstep s hs with hQ | ⟨i, r, hi, hr, hI, hless⟩
      · exact ⟨[], s, [], fun _ hi => absurd hi List.not_mem_nil, rfl, hQ⟩
      · obtain ⟨is, s', os, his, hrun, hQ⟩ := ih (μ r.1) (hd ▸ hless) hI rfl
        exact ⟨i :: is, s', r.2 :: os, List.forall_mem_cons.2 ⟨hi, his⟩,
          by rw [run_cons, hr, Option.bind_some, hrun, Option.map_some], hQ⟩

variable {abs : τ → ι → τ × ω} {R : σ → τ → Prop}

/-- Machines that track each other have the same results, and related states
at the end. -/
theorem Tracks.run_eq {s : σ} {t : τ} {is : List ι} (h : Tracks step abs R s t is) :
    ∃ s', run step s is = some (s', (runTotal abs t is).2) ∧ R s' (runTotal abs t is).1 := by
  induction is generalizing s t with
  | nil => exact ⟨s, rfl, h⟩
  | cons i is ih =>
      obtain ⟨-, s₁, hstep, hrest⟩ := h
      obtain ⟨s', hrun, hR⟩ := ih hrest
      exact ⟨s', by rw [run_cons, hstep, Option.bind_some, hrun]; rfl, hR⟩

/-- Machines with different results do not track each other. -/
theorem not_tracks_of_results_ne {s : σ} {t : τ} {is : List ι}
    (h : (run step s is).map Prod.snd ≠ some (runTotal abs t is).2) :
    ¬Tracks step abs R s t is := by
  intro htracks
  obtain ⟨s', hrun, -⟩ := htracks.run_eq
  exact h (by rw [hrun, Option.map_some])

/-- Where the steps that meet a condition agree with the abstract ones, and keep an invariant
of both machines, the machines agree along every run that meets it. -/
theorem Admits.tracks {I : σ → τ → Prop}
    (hstep : ∀ s t i, I s t → ok s i → ∃ s', step s i = some (s', (abs t i).2) ∧ I s' (abs t i).1)
    (hR : ∀ s t, I s t → R s t) {s : σ} {t : τ} {is : List ι} (hs : I s t)
    (h : Admits step ok s is) : Tracks step abs R s t is := by
  induction is generalizing s t with
  | nil => exact hR s t hs
  | cons i is ih =>
      obtain ⟨s', hs', hinv⟩ := hstep s t i hs h.1
      exact ⟨hR s t hs, s', hs', ih hinv (h.2 _ hs')⟩

/-- Where the condition decides whether a step agrees with the abstract step,
it decides whether the machines agree along a whole run. -/
theorem tracks_iff_admits
    (hstep : ∀ s t i, R s t →
      (ok s i ↔ ∃ s', step s i = some (s', (abs t i).2) ∧ R s' (abs t i).1))
    {s : σ} {t : τ} (hs : R s t) (is : List ι) :
    Tracks step abs R s t is ↔ Admits step ok s is := by
  induction is generalizing s t with
  | nil => exact ⟨fun _ => trivial, fun _ => hs⟩
  | cons i is ih =>
      constructor
      · rintro ⟨-, s', hs', hrest⟩
        have hR : R s' (abs t i).1 := by
          cases is with
          | nil => exact hrest
          | cons j js => exact hrest.1
        refine ⟨(hstep s t i hs).2 ⟨s', hs', hR⟩, fun r hr => ?_⟩
        obtain rfl : (s', (abs t i).2) = r := Option.some.inj (hs'.symm.trans hr)
        exact (ih hR).1 hrest
      · rintro ⟨hok, hrest⟩
        obtain ⟨s', hs', hR⟩ := (hstep s t i hs).1 hok
        exact ⟨hs, s', hs', (ih hR).2 (hrest _ hs')⟩

end Machine
