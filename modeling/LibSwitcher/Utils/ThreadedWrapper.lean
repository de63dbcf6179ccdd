/-
# Threaded wrappers

`switcher/utils/threaded-wrapper.hpp`: an object that is only used by one thread, the worker, to
which the other threads give tasks.  An asynchronous task (`invoke_async`, `run_async`) is put
into `async_tasks_`; a synchronous one (`invoke`, `run`, `wait_done`) goes through
`do_sync_task`, which waits until the worker has run it.  The constructor and the destructor
make and destroy the object by such tasks.

The threads proceed in turns, in any order (`Event`).  What a thread does under `async_mtx_` is one
step, and so is what a client does under `cv_m_`.  The worker holds `cv_m_` from the start of a
round until it waits (`WorkerPc.holds`), in as many steps as there are tasks.  It is woken
up at any moment, by a notification or because its time is over, and so are the clients.
-/

import Mathlib.Data.List.Nodup
import Mathlib.Logic.Function.Basic
import Mathlib.Tactic.Common

namespace LibSwitcher
namespace ThreadedWrapper

/-- A task: the thread that posts it, and how many it had posted. -/
structure Task (κ : Type) where
  client : κ
  number : ℕ
  deriving DecidableEq

/-- What `do_sync_task` is called with: the task of the constructor, that of a call, or that of the
destructor. -/
inductive SyncTask (κ : Type)
  | construct
  | call (t : Task κ)
  | destroy
  deriving DecidableEq

/-- Where a client is in `do_sync_task`: before it has `sync_mtx_`; with it, before it sets
`sync_task_`; waiting for `task_done_`; before it clears `task_done_`; before it gives
`sync_mtx_` back.  The destructor waits for the thread at last. -/
inductive ClientPc (κ : Type)
  | idle
  | entering (t : SyncTask κ)
  | owning (t : SyncTask κ)
  | waiting (t : SyncTask κ)
  | finishing (t : SyncTask κ)
  | leaving (t : SyncTask κ)
  | joining
  deriving DecidableEq

/-- Where the worker is in `threaded_wrap`: at the condition of the loop; before it has `cv_m_`;
before the exchange in `run_async_tasks`; at the asynchronous tasks; at `sync_task_`; at the
asynchronous tasks that the destructor runs; before it clears `sync_task_`; before it sets
`task_done_`; in `wait_for`; out of the loop. -/
inductive WorkerPc
  | check
  | locking
  | swapping
  | running
  | syncing
  | draining
  | clearing
  | notifying
  | waiting
  | exited
  deriving DecidableEq

/-- The worker has `cv_m_`. -/
def WorkerPc.holds : WorkerPc → Bool
  | .swapping | .running | .syncing | .draining | .clearing | .notifying => true
  | .check | .locking | .waiting | .exited => false

/-- `member_`: not made yet, made, or destroyed. -/
inductive Member
  | unset
  | set
  | reset
  deriving DecidableEq

/-- The members of a wrapper, where the threads are, and what has happened: whether the constructor
has returned, how many tasks each thread has posted, the tasks in the order in which they were
run, those that were posted, those of them that were so when the destructor was called, and
the synchronous ones whose calls have returned. -/
structure State (κ : Type) where
  asyncTasks : List (Task κ)
  tasksToDo : List (Task κ)
  syncTask : Option (SyncTask κ)
  taskDone : Bool
  canceled : Bool
  member : Member
  syncMtx : Option κ
  worker : WorkerPc
  clients : κ → ClientPc κ
  ready : Bool
  calls : κ → ℕ
  log : List (Task κ)
  posted : List (Task κ)
  before : Option (List (Task κ))
  returned : List (Task κ)

/-- The steps: a client calls `invoke_async` or `run_async`, one of the synchronous functions or the
destructor; a client goes on; the worker goes on. -/
inductive Event (κ : Type)
  | post (c : κ)
  | call (c : κ)
  | destroy (c : κ)
  | client (c : κ)
  | worker
  deriving DecidableEq

variable {κ : Type} [DecidableEq κ]

namespace State

/-- The thread is launched, and a client is in the constructor. -/
def make (maker : κ) : State κ where
  asyncTasks := []
  tasksToDo := []
  syncTask := none
  taskDone := false
  canceled := false
  member := .unset
  syncMtx := none
  worker := .check
  clients := Function.update (fun _ => .idle) maker (.entering .construct)
  ready := false
  calls := fun _ => 0
  log := []
  posted := []
  before := none
  returned := []

variable (s : State κ)

/-- A client is at another place. -/
def setClient (c : κ) (pc : ClientPc κ) : State κ :=
  { s with clients := Function.update s.clients c pc }

/-- The next task of a client. -/
def nextTask (c : κ) : Task κ := ⟨c, s.calls c⟩

/-- The client has posted one task more. -/
def count (c : κ) : State κ := { s with calls := Function.update s.calls c (s.calls c + 1) }

/-- A client may call a function. -/
def Free (c : κ) : Prop := s.ready = true ∧ s.clients c = .idle

instance decidableFree (c : κ) : Decidable (s.Free c) := inferInstanceAs (Decidable (_ ∧ _))

/-- `invoke_async` and `run_async`. -/
def post (c : κ) : State κ :=
  if s.Free c then
    { s.count c with
      asyncTasks := s.asyncTasks ++ [s.nextTask c]
      posted := s.posted ++ [s.nextTask c] }
  else s

/-- `invoke`, `run` and `wait_done`. -/
def call (c : κ) : State κ :=
  if s.Free c then (s.count c).setClient c (.entering (.call (s.nextTask c))) else s

/-- `~ThreadedWrapper`. -/
def destroy (c : κ) : State κ :=
  if s.Free c ∧ s.before = none then
    { s.setClient c (.entering .destroy) with before := some s.posted }
  else s

/-- The task of a call is posted when `sync_task_` is set. -/
def postedTask : SyncTask κ → List (Task κ)
  | .call t => [t]
  | _ => []

/-- The end of `do_sync_task`. -/
def leave (c : κ) : SyncTask κ → State κ
  | .construct => { s.setClient c .idle with syncMtx := none, ready := true }
  | .call t => { s.setClient c .idle with syncMtx := none, returned := s.returned ++ [t] }
  | .destroy => { s.setClient c .joining with syncMtx := none }

/-- `do_sync_task`, and what the destructor does after it. -/
def clientStep (c : κ) : State κ :=
  match s.clients c with
  | .idle => s
  | .entering t =>
      if s.syncMtx = none then { s.setClient c (.owning t) with syncMtx := some c } else s
  | .owning t =>
      if s.worker.holds then s
      else
        { s.setClient c (if s.taskDone then .finishing t else .waiting t) with
          syncTask := some t
          posted := s.posted ++ postedTask t }
  | .waiting t =>
      if s.worker.holds ∨ s.taskDone = false then s else s.setClient c (.finishing t)
  | .finishing t => { s.setClient c (.leaving t) with taskDone := false }
  | .leaving t => s.leave c t
  | .joining => if s.worker = .exited then s.setClient c .idle else s

/-- The exchange in `run_async_tasks`. -/
def swapTasks : State κ := { s with tasksToDo := s.asyncTasks, asyncTasks := [] }

/-- The loop of `run_async_tasks`, and where the worker is after it. -/
def runTask (next : State κ → State κ) : State κ :=
  match s.tasksToDo with
  | [] => next s
  | t :: ts => { s with tasksToDo := ts, log := s.log ++ [t] }

/-- `sync_task_` is run, if there is one. -/
def runSyncTask : State κ :=
  match s.syncTask with
  | none => { s with worker := .waiting }
  | some .construct => { s with member := .set, worker := .clearing }
  | some (.call t) => { s with log := s.log ++ [t], worker := .clearing }
  | some .destroy => { s.swapTasks with worker := .draining }

/-- `threaded_wrap`. -/
def workerStep : State κ :=
  match s.worker with
  | .check => if s.canceled then { s with worker := .exited } else { s with worker := .locking }
  | .locking => { s with worker := .swapping }
  | .swapping => { s.swapTasks with worker := .running }
  | .running => s.runTask fun s => { s with worker := .syncing }
  | .syncing => s.runSyncTask
  | .draining => s.runTask fun s => { s with member := .reset, canceled := true, worker := .clearing }
  | .clearing => { s with syncTask := none, worker := .notifying }
  | .notifying => { s with taskDone := true, worker := .waiting }
  | .waiting => { s with worker := .check }
  | .exited => s

/-- A step of one of the threads. -/
def step : Event κ → State κ
  | .post c => s.post c
  | .call c => s.call c
  | .destroy c => s.destroy c
  | .client c => s.clientStep c
  | .worker => s.workerStep

/-- The steps of the threads, one after the other. -/
def run : State κ → List (Event κ) → State κ := List.foldl step

end State
end ThreadedWrapper
end LibSwitcher
