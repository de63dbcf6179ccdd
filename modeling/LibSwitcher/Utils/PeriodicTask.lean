/-
# Periodic tasks

`switcher/utils/periodic-task.hpp`: a thread of its own waits on a condition variable for a period
and runs a task, until the destructor cancels it and joins the thread.  The steps are those between
which another thread may act, and a timeout or a spurious wake-up may come at any time while the
thread sleeps; how long the period is does not matter.

The task runs under the mutex of the condition variable.  So no task is started once the destructor
has taken the mutex, and at most one once it has set the flag (`stops`).  The destructor notifies
under the mutex too, so that the notification cannot come between the test of the flag and the
sleep: the destructor returns in every fair run, even if no wait ever times out (`exists_gone`).
-/

import LibSwitcher.Lib.FairRuns
import Mathlib.Data.Nat.Notation
import Mathlib.Order.Basic
import Mathlib.Tactic.Common

namespace LibSwitcher
namespace PeriodicTask

/-- Where the thread is in `do_work`. -/
inductive WorkerPc
  /-- At the condition of the loop. -/
  | check
  /-- Before it has the mutex. -/
  | locking
  /-- In `wait_for`, with the mutex, at the test of the flag. -/
  | testing
  /-- In `wait_for`, without the mutex. -/
  | sleeping
  /-- Woken up by a notification or for no reason, before it has the mutex again. -/
  | woken
  /-- Woken up by the timeout, before it has the mutex again. -/
  | timedOut
  /-- In `wait_for`, with the mutex, at the test of the flag after the timeout. -/
  | expired
  /-- After `wait_for` has returned false. -/
  | starting
  /-- In the task. -/
  | running
  /-- At the end of the scope of the lock. -/
  | leaving
  | exited
  deriving DecidableEq

/-- Where the owner of the object is in the destructor. -/
inductive OwnerPc
  /-- Before the destructor. -/
  | alive
  /-- After `canceled_.store(true)`. -/
  | locking
  /-- With the mutex. -/
  | notifying
  /-- After `notify_one`. -/
  | unlocking
  /-- In the destructor of the future. -/
  | joining
  /-- After the destructor. -/
  | gone
  deriving DecidableEq

/-- The two threads. -/
inductive Party
  | worker
  | owner
  deriving DecidableEq

/-- The object and its threads; `started` counts the tasks that were started. -/
structure State where
  worker : WorkerPc
  owner : OwnerPc
  mtx : Option Party
  canceled : Bool
  started : ℕ
  deriving DecidableEq

/-- Who goes on, or what happens to a thread that sleeps. -/
inductive Event
  | step (p : Party)
  | timeout
  | spurious
  deriving DecidableEq

/-- A constructed object. -/
def start : State := ⟨.check, .alive, none, false, 0⟩

namespace State

/-- The worker takes the mutex if it is free. -/
def workerLocks (s : State) (pc : WorkerPc) : State :=
  match s.mtx with
  | none => { s with worker := pc, mtx := some .worker }
  | some _ => s

/-- A step of `do_work`. -/
def work (s : State) : State :=
  match s.worker with
  | .check => { s with worker := if s.canceled then .exited else .locking }
  | .locking => s.workerLocks .testing
  | .testing =>
      if s.canceled then { s with worker := .leaving }
      else { s with worker := .sleeping, mtx := none }
  | .sleeping => s
  | .woken => s.workerLocks .testing
  | .timedOut => s.workerLocks .expired
  | .expired => { s with worker := if s.canceled then .leaving else .starting }
  | .starting => { s with worker := .running, started := s.started + 1 }
  | .running => { s with worker := .leaving }
  | .leaving => { s with worker := .check, mtx := none }
  | .exited => s

/-- A step of the destructor. -/
def destroy (s : State) : State :=
  match s.owner with
  | .alive => { s with owner := .locking, canceled := true }
  | .locking =>
      match s.mtx with
      | none => { s with owner := .notifying, mtx := some .owner }
      | some _ => s
  | .notifying =>
      { s with owner := .unlocking, worker := if s.worker = .sleeping then .woken else s.worker }
  | .unlocking => { s with owner := .joining, mtx := none }
  | .joining => if s.worker = .exited then { s with owner := .gone } else s
  | .gone => s

/-- The thread that sleeps wakes up. -/
def wake (s : State) (pc : WorkerPc) : State :=
  if s.worker = .sleeping then { s with worker := pc } else s

/-- A step of a thread, or a wake-up. -/
def step (s : State) : Event → State
  | .step .worker => s.work
  | .step .owner => s.destroy
  | .timeout => s.wake .timedOut
  | .spurious => s.wake .woken

/-- The steps of a list, one after the other. -/
def run (s : State) (es : List Event) : State := es.foldl step s

end State

/-- The worker has the mutex. -/
def WorkerPc.holds : WorkerPc → Bool
  | .testing | .expired | .starting | .running | .leaving => true
  | _ => false

/-- The worker is about to run the task, or runs it. -/
def WorkerPc.inTask : WorkerPc → Bool
  | .starting | .running => true
  | _ => false

/-- The destructor has the mutex. -/
def OwnerPc.holds : OwnerPc → Bool
  | .notifying | .unlocking => true
  | _ => false

/-- The destructor has taken the mutex. -/
def OwnerPc.hasLocked : OwnerPc → Bool
  | .alive | .locking => false
  | _ => true

/-- The destructor has notified. -/
def OwnerPc.hasNotified : OwnerPc → Bool
  | .unlocking | .joining | .gone => true
  | _ => false

namespace State

variable {s s' : State}

/-- What holds in every state that is reached. -/
structure Inv (s : State) : Prop where
  worker : s.worker.holds = true ↔ s.mtx = some .worker
  owner : s.owner.holds = true ↔ s.mtx = some .owner
  canceled : s.canceled = true ↔ s.owner ≠ .alive
  locked : s.owner.hasLocked = true → s.worker.inTask = false
  notified : s.owner.hasNotified = true → s.worker ≠ .sleeping
  exited : s.worker = .exited → s.canceled = true
  gone : s.owner = .gone → s.worker = .exited

theorem inv_start : Inv start := by
  constructor <;> decide

theorem Inv.not_gone (h : s.Inv) (hworker : s.worker ≠ .exited) : s.owner ≠ .gone :=
  fun hgone => hworker (h.gone hgone)

/-- Who has the mutex is not the other party. -/
theorem Inv.owner_not_holds (h : s.Inv) (hholds : s.worker.holds = true) :
    s.owner.holds = false := by
  rw [Bool.eq_false_iff, Ne, h.owner, h.worker.1 hholds]
  decide

/-- The worker moves on, and has the mutex after it if it had it before. -/
theorem Inv.move (h : s.Inv) {pc : WorkerPc} (n : ℕ) (hholds : pc.holds = s.worker.holds)
    (hlocked : s.owner.hasLocked = true → pc.inTask = false)
    (hnotified : s.owner.hasNotified = true → pc ≠ .sleeping)
    (hexited : pc = .exited → s.canceled = true) (hgone : s.owner ≠ .gone) :
    Inv { s with worker := pc, started := n } where
  worker := by rw [hholds]; exact h.worker
  owner := h.owner
  canceled := h.canceled
  locked := hlocked
  notified := hnotified
  exited := hexited
  gone hg := absurd hg hgone

/-- The worker takes the mutex. -/
theorem Inv.workerLocks (h : s.Inv) {pc : WorkerPc} (hholds : pc.holds = true)
    (htask : pc.inTask = false) (hworker : s.worker ≠ .exited) : (s.workerLocks pc).Inv := by
  unfold State.workerLocks
  cases hmtx : s.mtx with
  | some p => exact h
  | none =>
      dsimp only
      exact {
        worker := ⟨fun _ => rfl, fun _ => hholds⟩
        owner := by
          have howner := h.owner
          rw [hmtx] at howner
          exact ⟨fun ho => (Option.some_ne_none _ (howner.1 ho).symm).elim,
            fun ho => by cases ho⟩
        canceled := h.canceled
        locked := fun _ => htask
        notified := fun _ (hpc : pc = .sleeping) => by rw [hpc] at hholds; cases hholds
        exited := fun (hpc : pc = .exited) => by rw [hpc] at hholds; cases hholds
        gone := fun hg => absurd hg (h.not_gone hworker) }

/-- The worker releases the mutex. -/
theorem Inv.workerReleases (h : s.Inv) {pc : WorkerPc} (hhad : s.worker.holds = true)
    (hholds : pc.holds = false) (hsleeping : pc = .sleeping → s.canceled = false)
    (hpc : pc ≠ .exited) (hgone : s.owner ≠ .gone) : Inv { s with worker := pc, mtx := none } where
  worker := by simp [hholds]
  owner := by simp [h.owner_not_holds hhad]
  canceled := h.canceled
  locked _ := by cases pc <;> first | rfl | cases hholds
  notified hn hs := by
    have hcanceled : s.canceled = true := by
      rw [h.canceled]
      intro halive
      rw [halive] at hn
      cases hn
    exact Bool.false_ne_true ((hsleeping hs).symm.trans hcanceled)
  exited he := absurd he hpc
  gone hg := absurd hg hgone

theorem Inv.work (h : s.Inv) : s.work.Inv := by
  have hlocked : s.owner.hasLocked = true → s.canceled = true := by
    intro hl
    rw [h.canceled]
    intro halive
    rw [halive] at hl
    cases hl
  unfold State.work
  cases hpc : s.worker with
  | check =>
      have hgone := h.not_gone (by rw [hpc]; decide)
      dsimp only
      split_ifs with hc
      · exact h.move s.started (by rw [hpc]; rfl) (fun _ => rfl) (fun _ he => by cases he)
          (fun _ => hc) hgone
      · exact h.move s.started (by rw [hpc]; rfl) (fun _ => rfl) (fun _ he => by cases he)
          (fun he => by cases he) hgone
  | locking => exact h.workerLocks rfl rfl (by rw [hpc]; decide)
  | testing =>
      have hgone := h.not_gone (by rw [hpc]; decide)
      dsimp only
      split_ifs with hc
      · exact h.move s.started (by rw [hpc]; rfl) (fun _ => rfl) (fun _ he => by cases he)
          (fun he => by cases he) hgone
      · exact h.workerReleases (by rw [hpc]; rfl) rfl (fun _ => Bool.eq_false_iff.2 hc) (by decide)
          hgone
  | sleeping => exact h
  | woken => exact h.workerLocks rfl rfl (by rw [hpc]; decide)
  | timedOut => exact h.workerLocks rfl rfl (by rw [hpc]; decide)
  | expired =>
      have hgone := h.not_gone (by rw [hpc]; decide)
      dsimp only
      split_ifs with hc
      · exact h.move s.started (by rw [hpc]; rfl) (fun _ => rfl) (fun _ he => by cases he)
          (fun he => by cases he) hgone
      · exact h.move s.started (by rw [hpc]; rfl) (fun hl => absurd (hlocked hl) hc)
          (fun _ he => by cases he) (fun he => by cases he) hgone
  | starting =>
      have hnot : ¬s.owner.hasLocked = true := fun hl => by
        have htask := h.locked hl
        rw [hpc] at htask
        cases htask
      exact h.move (s.started + 1) (by rw [hpc]; rfl) (fun hl => absurd hl hnot)
        (fun _ he => by cases he) (fun he => by cases he) (h.not_gone (by rw [hpc]; decide))
  | running =>
      exact h.move s.started (by rw [hpc]; rfl) (fun _ => rfl) (fun _ he => by cases he)
        (fun he => by cases he) (h.not_gone (by rw [hpc]; decide))
  | leaving =>
      exact h.workerReleases (by rw [hpc]; rfl) rfl (fun he => by cases he) (by decide)
        (h.not_gone (by rw [hpc]; decide))
  | exited => exact h

theorem Inv.wake (h : s.Inv) {pc : WorkerPc} (hholds : pc.holds = false)
    (hsleeping : pc ≠ .sleeping) (hexited : pc ≠ .exited) : (s.wake pc).Inv := by
  unfold State.wake
  split_ifs with hpc
  · refine h.move s.started (by rw [hpc]; exact hholds) (fun _ => ?_) (fun _ => hsleeping)
      (fun he => absurd he hexited) (h.not_gone (by rw [hpc]; decide))
    cases pc <;> first | rfl | cases hholds
  · exact h

theorem Inv.destroy (h : s.Inv) : s.destroy.Inv := by
  unfold State.destroy
  cases hpc : s.owner with
  | alive =>
      have howner := h.owner
      rw [hpc] at howner
      dsimp only
      exact {
        worker := h.worker
        owner := howner
        canceled := ⟨fun _ => by simp, fun _ => rfl⟩
        locked := fun hl => by cases hl
        notified := fun hn => by cases hn
        exited := fun _ => rfl
        gone := fun hg => by cases hg }
  | locking =>
      have hcanceled : s.canceled = true := h.canceled.2 (by rw [hpc]; decide)
      dsimp only
      cases hmtx : s.mtx with
      | some p => exact h
      | none =>
          have hholds : ¬s.worker.holds = true := by
            rw [h.worker, hmtx]
            decide
          dsimp only
          exact {
            worker := ⟨fun hw => absurd hw hholds, fun hw => by cases hw⟩
            owner := ⟨fun _ => rfl, fun _ => rfl⟩
            canceled := ⟨fun _ => by simp, fun _ => hcanceled⟩
            locked := fun _ => by
              cases hw : s.worker <;> rw [hw] at hholds <;> first | rfl | exact absurd rfl hholds
            notified := fun hn => by cases hn
            exited := h.exited
            gone := fun hg => by cases hg }
  | notifying =>
      have hcanceled : s.canceled = true := h.canceled.2 (by rw [hpc]; decide)
      have htask := h.locked (by rw [hpc]; rfl)
      have howner := h.owner
      rw [hpc] at howner
      dsimp only
      split_ifs with hsleeping
      · have hworker := h.worker
        rw [hsleeping] at hworker
        exact {
          worker := hworker
          owner := howner
          canceled := ⟨fun _ => by simp, fun _ => hcanceled⟩
          locked := fun _ => rfl
          notified := fun _ he => by cases he
          exited := fun he => by cases he
          gone := fun hg => by cases hg }
      · exact {
          worker := h.worker
          owner := howner
          canceled := ⟨fun _ => by simp, fun _ => hcanceled⟩
          locked := fun _ => htask
          notified := fun _ => hsleeping
          exited := h.exited
          gone := fun hg => by cases hg }
  | unlocking =>
      have hcanceled : s.canceled = true := h.canceled.2 (by rw [hpc]; decide)
      have hmtx : s.mtx = some .owner := h.owner.1 (by rw [hpc]; rfl)
      have hholds : ¬s.worker.holds = true := by
        rw [h.worker, hmtx]
        decide
      dsimp only
      exact {
        worker := ⟨fun hw => absurd hw hholds, fun hw => by cases hw⟩
        owner := ⟨fun ho => (by cases ho), fun ho => by cases ho⟩
        canceled := ⟨fun _ => by simp, fun _ => hcanceled⟩
        locked := fun _ => h.locked (by rw [hpc]; rfl)
        notified := fun _ => h.notified (by rw [hpc]; rfl)
        exited := h.exited
        gone := fun hg => by cases hg }
  | joining =>
      have howner := h.owner
      have hcanceled : s.canceled = true := h.canceled.2 (by rw [hpc]; decide)
      rw [hpc] at howner
      dsimp only
      split_ifs with hexited
      · exact {
          worker := h.worker
          owner := howner
          canceled := ⟨fun _ => by simp, fun _ => hcanceled⟩
          locked := fun _ => h.locked (by rw [hpc]; rfl)
          notified := fun _ => h.notified (by rw [hpc]; rfl)
          exited := h.exited
          gone := fun _ => hexited }
      · exact h
  | gone => exact h

theorem Inv.step (h : s.Inv) (e : Event) : (s.step e).Inv := by
  cases e with
  | step p =>
      cases p with
      | worker => exact h.work
      | owner => exact h.destroy
  | timeout => exact h.wake rfl (by decide) (by decide)
  | spurious => exact h.wake rfl (by decide) (by decide)

theorem Inv.run (h : s.Inv) (es : List Event) : (s.run es).Inv := by
  induction es generalizing s with
  | nil => exact h
  | cons e es ih => exact ih (h.step e)

/-! ### No task after the destructor -/

theorem workerLocks_frame (s : State) (pc : WorkerPc) : (s.workerLocks pc).owner = s.owner ∧
    (s.workerLocks pc).canceled = s.canceled ∧ s.started ≤ (s.workerLocks pc).started := by
  unfold State.workerLocks
  cases s.mtx <;> exact ⟨rfl, rfl, le_rfl⟩

/-- A step of the worker does not concern the destructor. -/
theorem work_frame (s : State) : s.work.owner = s.owner ∧ s.work.canceled = s.canceled ∧
    s.started ≤ s.work.started := by
  unfold State.work
  cases s.worker with
  | testing => dsimp only; split_ifs <;> exact ⟨rfl, rfl, le_rfl⟩
  | starting => exact ⟨rfl, rfl, Nat.le_succ _⟩
  | locking => exact workerLocks_frame s _
  | woken => exact workerLocks_frame s _
  | timedOut => exact workerLocks_frame s _
  | _ => exact ⟨rfl, rfl, le_rfl⟩

theorem wake_frame (s : State) (pc : WorkerPc) : (s.wake pc).owner = s.owner ∧
    (s.wake pc).canceled = s.canceled ∧ (s.wake pc).started = s.started := by
  unfold State.wake
  split_ifs <;> exact ⟨rfl, rfl, rfl⟩

/-- The destructor starts no task. -/
theorem destroy_frame (s : State) : s.destroy.started = s.started ∧
    (s.canceled = true → s.destroy.canceled = true) ∧
    (s.owner.hasLocked = true → s.destroy.owner.hasLocked = true) := by
  unfold State.destroy
  cases hpc : s.owner with
  | alive => exact ⟨rfl, fun _ => rfl, fun hl => by cases hl⟩
  | locking =>
      dsimp only
      split
      · exact ⟨rfl, id, fun _ => rfl⟩
      · exact ⟨rfl, id, fun hl => by cases hl⟩
  | notifying => exact ⟨rfl, id, fun _ => rfl⟩
  | unlocking => exact ⟨rfl, id, fun _ => rfl⟩
  | joining =>
      dsimp only
      split_ifs
      · exact ⟨rfl, id, fun _ => rfl⟩
      · exact ⟨rfl, id, fun _ => by rw [hpc]; rfl⟩
  | gone => exact ⟨rfl, id, fun _ => by rw [hpc]; rfl⟩

theorem canceled_step (e : Event) (h : s.canceled = true) : (s.step e).canceled = true := by
  cases e with
  | step p =>
      cases p with
      | worker => exact (work_frame s).2.1.trans h
      | owner => exact (destroy_frame s).2.1 h
  | timeout => exact (wake_frame s _).2.1.trans h
  | spurious => exact (wake_frame s _).2.1.trans h

theorem hasLocked_step (e : Event) (h : s.owner.hasLocked = true) :
    (s.step e).owner.hasLocked = true := by
  cases e with
  | step p =>
      cases p with
      | worker => rwa [State.step, (work_frame s).1]
      | owner => exact (destroy_frame s).2.2 h
  | timeout => rwa [State.step, (wake_frame s _).1]
  | spurious => rwa [State.step, (wake_frame s _).1]

/-- The tasks that were started, with the one about to be. -/
def committed (s : State) : ℕ := s.started + if s.worker = .starting then 1 else 0

theorem started_le_committed (s : State) : s.started ≤ s.committed := Nat.le_add_right _ _

theorem committed_le (s : State) : s.committed ≤ s.started + 1 := by
  unfold committed
  split_ifs <;> omega

/-- The worker decides on no other task once the flag is set. -/
theorem committed_work (h : s.canceled = true) : s.work.committed ≤ s.committed := by
  unfold committed State.work State.workerLocks
  cases hpc : s.worker with
  | starting => simp
  | check => simp [h]
  | testing => simp [h]
  | expired => simp [h]
  | locking => cases s.mtx <;> simp [hpc]
  | woken => cases s.mtx <;> simp [hpc]
  | timedOut => cases s.mtx <;> simp [hpc]
  | sleeping => simp [hpc]
  | running => simp
  | leaving => simp
  | exited => simp [hpc]

theorem committed_destroy (s : State) : s.destroy.committed ≤ s.committed := by
  unfold committed
  rw [(destroy_frame s).1]
  unfold State.destroy
  cases s.owner with
  | notifying =>
      dsimp only
      by_cases hsleeping : s.worker = .sleeping <;> simp [hsleeping]
  | locking => cases s.mtx <;> exact le_rfl
  | joining => dsimp only; split_ifs <;> exact le_rfl
  | _ => exact le_rfl

theorem committed_wake (s : State) {pc : WorkerPc} (hpc : pc ≠ .starting) :
    (s.wake pc).committed ≤ s.committed := by
  unfold committed State.wake
  split_ifs <;> simp_all

theorem committed_step (e : Event) (h : s.canceled = true) :
    (s.step e).committed ≤ s.committed := by
  cases e with
  | step p =>
      cases p with
      | worker => exact committed_work h
      | owner => exact committed_destroy s
  | timeout => exact committed_wake s (by decide)
  | spurious => exact committed_wake s (by decide)

theorem started_le_step (s : State) (e : Event) : s.started ≤ (s.step e).started := by
  cases e with
  | step p =>
      cases p with
      | worker => exact (work_frame s).2.2
      | owner => exact (destroy_frame s).1.ge
  | timeout => exact (wake_frame s _).2.2.ge
  | spurious => exact (wake_frame s _).2.2.ge

/-- What a run does after the flag was set, and after the destructor has taken the mutex. -/
theorem run_frame (s : State) (es : List Event) : s.started ≤ (s.run es).started ∧
    (s.canceled = true → (s.run es).committed ≤ s.committed) ∧
    (s.owner.hasLocked = true → (s.run es).owner.hasLocked = true) := by
  induction es generalizing s with
  | nil => exact ⟨le_rfl, fun _ => le_rfl, id⟩
  | cons e es ih =>
      obtain ⟨hstarted, hcommitted, hlocked⟩ := ih (s.step e)
      exact ⟨(started_le_step s e).trans hstarted,
        fun h => (hcommitted (canceled_step e h)).trans (committed_step e h),
        fun h => hlocked (hasLocked_step e h)⟩

/-- How the tasks stop between two states of a run: at most one is started after the flag is set and
none after the destructor has the mutex; a task runs under the mutex; and when the destructor
returns the thread has ended. -/
structure Stops (s s' : State) : Prop where
  canceled : s.canceled = true → s'.started ≤ s.started + 1
  locked : s.owner.hasLocked = true → s'.started = s.started ∧ s'.worker.inTask = false
  exclusive : s'.worker = .running → s'.mtx = some .worker
  gone : s'.owner = .gone → s'.worker = .exited

theorem Inv.committed_eq (h : s.Inv) (hlocked : s.owner.hasLocked = true) :
    s.committed = s.started := by
  have htask := h.locked hlocked
  unfold committed
  rw [if_neg, Nat.add_zero]
  intro hpc
  rw [hpc] at htask
  cases htask

/-- Two states that one run goes through. -/
theorem stops (es es' : List Event) : Stops (start.run es) ((start.run es).run es') := by
  have hinv : (start.run es).Inv := inv_start.run es
  have hinv' := hinv.run es'
  obtain ⟨hstarted, hcommitted, hlocked⟩ := run_frame (start.run es) es'
  constructor
  · intro h
    exact (started_le_committed _).trans ((hcommitted h).trans (committed_le _))
  · intro h
    have hcanceled : (start.run es).canceled = true := by
      rw [hinv.canceled]
      intro halive
      rw [halive] at h
      cases h
    refine ⟨le_antisymm ?_ hstarted, hinv'.locked (hlocked h)⟩
    calc ((start.run es).run es').started
        ≤ ((start.run es).run es').committed := started_le_committed _
      _ ≤ (start.run es).committed := hcommitted hcanceled
      _ = (start.run es).started := hinv.committed_eq h
  · intro h
    exact hinv'.worker.1 (by rw [h]; rfl)
  · exact hinv'.gone

/-! ### The destructor returns -/

/-- How far the worker is from the end, once the flag is set. -/
def workerRank : WorkerPc → ℕ
  | .exited => 0
  | .check => 1
  | .leaving => 2
  | .testing | .expired | .running => 3
  | .starting | .locking | .woken | .timedOut => 4
  | .sleeping => 5

/-- How far the destructor is from the end. -/
def ownerRank : OwnerPc → ℕ
  | .gone => 0
  | .joining => 1
  | .unlocking => 2
  | .notifying => 3
  | .locking => 4
  | .alive => 5

/-- The steps that are left. -/
def rank (s : State) : ℕ := workerRank s.worker + ownerRank s.owner

/-- The destructor can go on. -/
def ownerCan (s : State) : Bool :=
  match s.owner with
  | .locking => s.mtx.isNone
  | .joining => s.worker = .exited
  | .gone => false
  | _ => true

/-- Who is to go on. -/
def helpful (s : State) : Party := if s.ownerCan then .owner else .worker

/-- The destructor was called and has not returned. -/
structure Ending (s : State) : Prop where
  inv : s.Inv
  canceled : s.canceled = true
  owner : s.owner ≠ .gone

/-- A step of the worker leaves less to do, or it has to wait. -/
theorem rank_work (h : s.canceled = true) : s.work.rank < s.rank ∨ s.work = s ∧
    (s.worker = .sleeping ∨ s.worker = .exited ∨ s.worker.holds = false ∧ s.mtx.isSome = true) := by
  unfold rank
  rw [(work_frame s).1, Nat.add_lt_add_iff_right]
  unfold State.work State.workerLocks
  cases hpc : s.worker with
  | check => simp [h, workerRank]
  | testing => simp [h, workerRank]
  | expired => simp [h, workerRank]
  | starting => simp [workerRank]
  | running => simp [workerRank]
  | leaving => simp [workerRank]
  | sleeping => simp
  | exited => simp
  | locking => cases hmtx : s.mtx <;> simp [workerRank, WorkerPc.holds, hpc]
  | woken => cases hmtx : s.mtx <;> simp [workerRank, WorkerPc.holds, hpc]
  | timedOut => cases hmtx : s.mtx <;> simp [workerRank, WorkerPc.holds, hpc]

/-- A step of the destructor leaves less to do, or it has to wait. -/
theorem rank_destroy (s : State) :
    s.destroy.rank < s.rank ∨ s.destroy = s ∧ s.ownerCan = false := by
  unfold rank State.destroy ownerCan
  cases hpc : s.owner with
  | alive => dsimp only; exact Or.inl (Nat.add_lt_add_left (by decide) _)
  | locking =>
      cases s.mtx with
      | none => dsimp only; exact Or.inl (Nat.add_lt_add_left (by decide) _)
      | some p => exact Or.inr ⟨rfl, rfl⟩
  | notifying =>
      dsimp only
      split_ifs with hsleeping
      · rw [hsleeping]
        exact Or.inl (by decide)
      · exact Or.inl (Nat.add_lt_add_left (by decide) _)
  | unlocking => dsimp only; exact Or.inl (Nat.add_lt_add_left (by decide) _)
  | joining =>
      dsimp only
      split_ifs with hexited
      · dsimp only
        exact Or.inl (Nat.add_lt_add_left (by decide) _)
      · exact Or.inr ⟨rfl, by simp [hexited]⟩
  | gone => exact Or.inr ⟨rfl, rfl⟩

theorem rank_wake (s : State) {pc : WorkerPc} (hpc : workerRank pc < 5) :
    (s.wake pc).rank < s.rank ∨ s.wake pc = s := by
  unfold rank State.wake
  split_ifs with hsleeping
  · rw [hsleeping]
    exact Or.inl (Nat.add_lt_add_right hpc _)
  · exact Or.inr rfl

/-- Where the destructor has to wait, the worker has not. -/
theorem Ending.worker_can (h : s.Ending) (howner : s.ownerCan = false) :
    ¬(s.worker = .sleeping ∨ s.worker = .exited ∨
        s.worker.holds = false ∧ s.mtx.isSome = true) := by
  unfold ownerCan at howner
  cases hpc : s.owner with
  | alive => exact absurd hpc (h.inv.canceled.1 h.canceled)
  | notifying => rw [hpc] at howner; cases howner
  | unlocking => rw [hpc] at howner; cases howner
  | gone => exact absurd hpc h.owner
  | locking =>
      rw [hpc] at howner
      have hworker : s.worker.holds = true := by
        rw [h.inv.worker]
        cases hmtx : s.mtx with
        | none => rw [hmtx] at howner; cases howner
        | some p =>
            cases p with
            | worker => rfl
            | owner =>
                have hholds := h.inv.owner.2 hmtx
                rw [hpc] at hholds
                cases hholds
      rintro (hw | hw | ⟨hw, -⟩)
      · rw [hw] at hworker; cases hworker
      · rw [hw] at hworker; cases hworker
      · rw [hw] at hworker; cases hworker
  | joining =>
      rw [hpc] at howner
      rintro (hw | hw | ⟨hw, hsome⟩)
      · exact h.inv.notified (by rw [hpc]; rfl) hw
      · simp [hw] at howner
      · obtain ⟨p, hp⟩ := Option.isSome_iff_exists.1 hsome
        cases p with
        | worker => rw [h.inv.worker.2 hp] at hw; cases hw
        | owner =>
            have hholds := h.inv.owner.2 hp
            rw [hpc] at hholds
            cases hholds

/-- Every step leaves less to do, or changes nothing and is not the one of the thread that is to
go on. -/
theorem Ending.step (h : s.Ending) (e : Event) :
    (s.step e).rank < s.rank ∨ s.step e = s ∧ e ≠ .step s.helpful := by
  cases e with
  | step p =>
      cases p with
      | worker =>
          refine (rank_work h.canceled).imp id fun hstay => ⟨hstay.1, fun he => ?_⟩
          have howner : s.ownerCan = false := by
            by_contra hcan
            rw [helpful, if_pos (Bool.not_eq_false _ ▸ hcan)] at he
            cases he
          exact h.worker_can howner hstay.2
      | owner =>
          refine (rank_destroy s).imp id fun hstay => ⟨hstay.1, fun he => ?_⟩
          rw [helpful, hstay.2] at he
          cases he
  | timeout => exact (rank_wake s (by decide)).imp id fun hstay => ⟨hstay, fun he => by cases he⟩
  | spurious => exact (rank_wake s (by decide)).imp id fun hstay => ⟨hstay, fun he => by cases he⟩

/-- **The destructor returns** in every run in which both threads go on again and again, whether or
not a wait times out. -/
theorem exists_gone (es : List Event) (hcanceled : (start.run es).canceled = true)
    {schedule : ℕ → Event} (hfair : ∀ p, Machine.Recurs (· = .step p) schedule) :
    ∃ n, (Machine.follow step (start.run es) schedule n).owner = .gone := by
  by_cases hgone : (start.run es).owner = .gone
  · exact ⟨0, hgone⟩
  refine Machine.eventually_of_helpful (P := Ending) (Q := fun s => s.owner = .gone)
    wellFounded_lt rank helpful (fun p e => e = .step p) (fun s e hs => ?_) hfair
    ⟨inv_start.run es, hcanceled, hgone⟩
  by_cases hQ : (s.step e).owner = .gone
  · exact Or.inl hQ
  · refine Or.inr ⟨⟨hs.inv.step e, canceled_step e hs.canceled, hQ⟩, ?_⟩
    refine (hs.step e).imp id fun hstay => ?_
    rw [hstay.1]
    exact ⟨rfl, rfl, hstay.2⟩

theorem exists_gone_alternately : ∃ n, (Machine.follow step (start.run [.step .owner])
    (fun n => .step (if n % 2 = 0 then .worker else .owner)) n).owner = .gone := by
  refine exists_gone [.step .owner] rfl fun p n => ?_
  cases p with
  | worker => exact ⟨2 * n, by omega, by simp⟩
  | owner => exact ⟨2 * n + 1, by omega, by simp [Nat.add_mod]⟩

end State
end PeriodicTask
end LibSwitcher
