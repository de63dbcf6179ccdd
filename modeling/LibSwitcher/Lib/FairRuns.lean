/-
# Runs that are fair to one participant

A machine without undefined behaviour follows a schedule, an infinite list of operations
(`follow`).  Where one kind of operation comes again and again, what this kind brings
closer is reached: `eventually_of_measure` asks for a measure that the operations of this kind
make smaller, and that no other operation makes larger.  Where several participants have to act
in turn, `eventually_of_helpful` lets the state say whose operations are to make it smaller.
-/

import Mathlib.Order.WellFounded

namespace Machine

variable {σ ι : Type*}

/-- The state after so many operations of a schedule. -/
def follow (step : σ → ι → σ) (s : σ) (schedule : ℕ → ι) : ℕ → σ
  | 0 => s
  | n + 1 => step (follow step s schedule n) (schedule n)

/-- Some operations come again and again. -/
def Recurs (chosen : ι → Prop) (schedule : ℕ → ι) : Prop := ∀ n, ∃ m, n ≤ m ∧ chosen (schedule m)

variable {step : σ → ι → σ} {chosen : ι → Prop} {schedule : ℕ → ι} {P Q : σ → Prop}

/-- What the chosen operations bring closer, and no operation takes further away, is reached by a
schedule in which they come again and again. -/
theorem eventually_of_measure {δ : Type*} {r : δ → δ → Prop} (hr : WellFounded r) (μ : σ → δ)
    (hstep : ∀ s i, P s → Q (step s i) ∨
      (P (step s i) ∧ (r (μ (step s i)) (μ s) ∨ (μ (step s i) = μ s ∧ ¬chosen i))))
    (hfair : Recurs chosen schedule) {s : σ} (hs : P s) :
    ∃ n, Q (follow step s schedule n) := by
  have key : ∀ d n, P (follow step s schedule n) → μ (follow step s schedule n) = d →
      ∃ m, Q (follow step s schedule m) := by
    intro d
    induction d using hr.induction with
    | _ d ihd =>
        intro n hn hd
        obtain ⟨m, hm, hchosen⟩ := hfair n
        obtain ⟨k, rfl⟩ := Nat.exists_eq_add_of_le hm
        induction k generalizing n with
        | zero =>
            rcases hstep _ (schedule n) hn with hQ | ⟨hP, hless | ⟨-, hnot⟩⟩
            · exact ⟨n + 1, hQ⟩
            · exact ihd _ (hd ▸ hless) (n + 1) hP rfl
            · exact absurd hchosen hnot
        | succ k ihk =>
            rcases hstep _ (schedule n) hn with hQ | ⟨hP, hless | ⟨hsame, -⟩⟩
            · exact ⟨n + 1, hQ⟩
            · exact ihd _ (hd ▸ hless) (n + 1) hP rfl
            · have heq : n + 1 + k = n + (k + 1) := by omega
              exact ihk (n + 1) hP (hsame.trans hd) (by omega) (by rw [heq]; exact hchosen)
  exact key _ 0 hs rfl

/-- Where in each state the operations of some participant bring the end closer, and other
operations either do so as well or change neither the measure nor the participant, the end is
reached by a schedule in which every participant comes again and again. -/
theorem eventually_of_helpful {κ δ : Type*} {r : δ → δ → Prop} (hr : WellFounded r) (μ : σ → δ)
    (helpful : σ → κ) (acts : κ → ι → Prop)
    (hstep : ∀ s i, P s → Q (step s i) ∨ (P (step s i) ∧ (r (μ (step s i)) (μ s) ∨
      (μ (step s i) = μ s ∧ helpful (step s i) = helpful s ∧ ¬acts (helpful s) i))))
    (hfair : ∀ k, Recurs (acts k) schedule) {s : σ} (hs : P s) :
    ∃ n, Q (follow step s schedule n) := by
  have key : ∀ d n, P (follow step s schedule n) → μ (follow step s schedule n) = d →
      ∃ m, Q (follow step s schedule m) := by
    intro d
    induction d using hr.induction with
    | _ d ihd =>
        intro n hn hd
        obtain ⟨m, hm, hacts⟩ := hfair (helpful (follow step s schedule n)) n
        obtain ⟨k, rfl⟩ := Nat.exists_eq_add_of_le hm
        induction k generalizing n with
        | zero =>
            rcases hstep _ (schedule n) hn with hQ | ⟨hP, hless | ⟨-, -, hnot⟩⟩
            · exact ⟨n + 1, hQ⟩
            · exact ihd _ (hd ▸ hless) (n + 1) hP rfl
            · exact absurd hacts hnot
        | succ k ihk =>
            rcases hstep _ (schedule n) hn with hQ | ⟨hP, hless | ⟨hsame, hhelpful, -⟩⟩
            · exact ⟨n + 1, hQ⟩
            · exact ihd _ (hd ▸ hless) (n + 1) hP rfl
            · have heq : n + 1 + k = n + (k + 1) := by omega
              refine ihk (n + 1) hP (hsame.trans hd) (by omega) ?_
              rw [heq]
              exact (congrArg (fun j => acts j (schedule (n + (k + 1)))) hhelpful).mpr hacts
  exact key _ 0 hs rfl

end Machine
