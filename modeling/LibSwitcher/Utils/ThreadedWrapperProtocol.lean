/-
# The protocol of a synchronous task

One client at a time is in `do_sync_task` with `sync_mtx_` (`Protocol.owner`), and where it is says
where its task is (`Phase`): `sync_task_` and `task_done_` are clear unless the client waits for a
task that it has set and that the worker has not run, or has run and not reported, or has
reported.  So `task_done_`, which is cleared without `cv_m_`, is clear when the next task is
set, and no client leaves before its own task has run.
-/

import LibSwitcher.Utils.ThreadedWrapper

namespace LibSwitcher
namespace ThreadedWrapper

variable {κ : Type}

/-- A client has `sync_mtx_`. -/
def ClientPc.Owns : ClientPc κ → Prop
  | .owning _ | .waiting _ | .finishing _ | .leaving _ => True
  | _ => False

/-- The task that a client is in `do_sync_task` with. -/
def ClientPc.task? : ClientPc κ → Option (SyncTask κ)
  | .entering t | .owning t | .waiting t | .finishing t | .leaving t => some t
  | _ => none

/-- The worker reports a synchronous task that has run. -/
def WorkerPc.reports : WorkerPc → Bool
  | .clearing | .notifying => true
  | _ => false

/-- The worker runs the task of the destructor, or reports a task. -/
def WorkerPc.inTask : WorkerPc → Bool
  | .draining => true
  | pc => pc.reports

/-- Where the worker is after the task of the destructor. -/
def WorkerPc.ends : WorkerPc → Bool
  | .clearing | .notifying | .waiting | .check | .exited => true
  | _ => false

namespace State

/-- There is no synchronous task for the worker. -/
structure Quiet (s : State κ) : Prop where
  syncTask : s.syncTask = none
  worker : s.worker.inTask = false

/-- The worker has run a synchronous task. -/
def Ran (s : State κ) : SyncTask κ → Prop
  | .construct => True
  | .call t => t ∈ s.log
  | .destroy => s.canceled = true

/-- What happens while a client waits: its task is set, and is that of the destructor if the worker
runs what is left; then it has run; then `sync_task_` is clear; then `task_done_` is set. -/
inductive Awaited (s : State κ) (t : SyncTask κ) : Prop
  | due (hsync : s.syncTask = some t) (hdone : s.taskDone = false)
      (hworker : s.worker.reports = false) (hdrain : s.worker = .draining → t = .destroy)
  | cleared (hsync : s.syncTask = some t) (hdone : s.taskDone = false)
      (hworker : s.worker = .clearing) (hran : s.Ran t)
  | notified (hsync : s.syncTask = none) (hdone : s.taskDone = false)
      (hworker : s.worker = .notifying) (hran : s.Ran t)
  | done (hquiet : s.Quiet) (hdone : s.taskDone = true) (hran : s.Ran t)

/-- What holds of the task of a client that has `sync_mtx_`, by the place where it is. -/
def At (s : State κ) : ClientPc κ → Prop
  | .owning _ => s.Quiet ∧ s.taskDone = false
  | .waiting t => s.Awaited t
  | .finishing t => s.Quiet ∧ s.taskDone = true ∧ s.Ran t
  | .leaving t => s.Quiet ∧ s.taskDone = false ∧ s.Ran t
  | _ => False

/-- What holds of the worker: it has asynchronous tasks only in the loops, and it leaves them once the
object is destroyed. -/
structure Loop (s : State κ) : Prop where
  tasksToDo : s.worker ≠ .running → s.worker ≠ .draining → s.tasksToDo = []
  canceled : s.canceled = true → s.worker.ends = true
  exited : s.worker = .exited → s.canceled = true
  member : s.member = .reset → s.canceled = true

/-- The worker has not moved. -/
structure SameWorker (s' s : State κ) : Prop where
  worker : s'.worker = s.worker
  canceled : s'.canceled = s.canceled
  tasksToDo : s'.tasksToDo = s.tasksToDo
  member : s'.member = s.member
  log : s'.log = s.log

/-- What holds of the threads whatever the tasks are. -/
structure Protocol (s : State κ) : Prop where
  owner : ∀ c, (s.clients c).Owns → s.syncMtx = some c
  free : s.syncMtx = none → s.Quiet ∧ s.taskDone = false
  owned : ∀ c, s.syncMtx = some c → s.At (s.clients c)
  loop : s.Loop
  undestroyed : s.before = none → s.canceled = false ∧ ∀ c, (s.clients c).task? ≠ some .destroy

variable {s s' : State κ} {t : SyncTask κ} {c : κ} {pc : ClientPc κ}

/-! ### Steps that leave the task alone -/

/-- What has run stays so. -/
theorem Ran.mono (h : s.Ran t) (hlog : s.log ⊆ s'.log)
    (hcanceled : s.canceled = true → s'.canceled = true) : s'.Ran t := by
  cases t with
  | construct => trivial
  | call t => exact hlog h
  | destroy => exact hcanceled h

theorem Quiet.congr (h : s.Quiet) (hsync : s'.syncTask = s.syncTask)
    (hworker : s'.worker = s.worker) : s'.Quiet :=
  ⟨hsync.trans h.syncTask, hworker ▸ h.worker⟩

theorem Loop.congr (h : s.Loop) (hsame : s'.SameWorker s) : s'.Loop where
  tasksToDo := by
    rw [hsame.worker, hsame.tasksToDo]
    exact h.tasksToDo
  canceled := by
    rw [hsame.worker, hsame.canceled]
    exact h.canceled
  exited := by
    rw [hsame.worker, hsame.canceled]
    exact h.exited
  member := by
    rw [hsame.member, hsame.canceled]
    exact h.member

theorem At.congr (h : s.At pc) (hsync : s'.syncTask = s.syncTask)
    (hdone : s'.taskDone = s.taskDone) (hsame : s'.SameWorker s) : s'.At pc := by
  have hworker := hsame.worker
  have hran : ∀ {t}, s.Ran t → s'.Ran t := fun ht =>
    ht.mono (by rw [hsame.log]; exact List.Subset.refl _) fun hc => hsame.canceled.trans hc
  cases pc with
  | idle => exact h
  | entering t => exact h
  | owning t => exact ⟨h.1.congr hsync hworker, hdone.trans h.2⟩
  | waiting t =>
      cases h with
      | due hs hd hw hdrain =>
          exact .due (hsync.trans hs) (hdone.trans hd) (hworker ▸ hw) (hworker ▸ hdrain)
      | cleared hs hd hw hr =>
          exact .cleared (hsync.trans hs) (hdone.trans hd) (hworker.trans hw) (hran hr)
      | notified hs hd hw hr =>
          exact .notified (hsync.trans hs) (hdone.trans hd) (hworker.trans hw) (hran hr)
      | done hq hd hr => exact .done (hq.congr hsync hworker) (hdone.trans hd) (hran hr)
  | finishing t => exact ⟨h.1.congr hsync hworker, hdone.trans h.2.1, hran h.2.2⟩
  | leaving t => exact ⟨h.1.congr hsync hworker, hdone.trans h.2.1, hran h.2.2⟩
  | joining => exact h

variable [DecidableEq κ]

theorem update_clients (f : κ → ClientPc κ) (c d : κ) (pc : ClientPc κ) :
    Function.update f c pc d = if d = c then pc else f d :=
  Function.update_apply _ _ _ _

/-- A client that has no `sync_mtx_` goes elsewhere without it. -/
theorem Protocol.congr (h : s.Protocol) (pc : ClientPc κ) (hfrom : ¬(s.clients c).Owns) (hto : ¬pc.Owns)
    (hclients : s'.clients = Function.update s.clients c pc) (hmtx : s'.syncMtx = s.syncMtx)
    (hsync : s'.syncTask = s.syncTask) (hdone : s'.taskDone = s.taskDone)
    (hsame : s'.SameWorker s)
    (hbefore : s'.before = none → s.before = none ∧ pc.task? ≠ some .destroy) : s'.Protocol where
  owner d hd := by
    rw [hclients, update_clients] at hd
    split_ifs at hd with hdc
    · exact absurd hd hto
    · exact hmtx.trans (h.owner d hd)
  free hnone := by
    obtain ⟨hquiet, hfalse⟩ := h.free (hmtx.symm.trans hnone)
    exact ⟨hquiet.congr hsync hsame.worker, hdone.trans hfalse⟩
  owned d hd := by
    have hat := h.owned d (hmtx.symm.trans hd)
    have hdc : d ≠ c := by
      rintro rfl
      cases hpc : s.clients d <;> rw [hpc] at hat hfrom <;>
        first | exact hat.elim | exact hfrom trivial
    rw [hclients, update_clients, if_neg hdc]
    exact hat.congr hsync hdone hsame
  loop := h.loop.congr hsame
  undestroyed hnone := by
    obtain ⟨hnone, htask⟩ := hbefore hnone
    refine ⟨hsame.canceled.trans (h.undestroyed hnone).1, fun d => ?_⟩
    rw [hclients, update_clients]
    split_ifs
    · exact htask
    · exact (h.undestroyed hnone).2 d

omit [DecidableEq κ] in
theorem not_owns_of_free (h : s.Free c) : ¬(s.clients c).Owns := by
  rw [h.2]
  exact id

theorem Protocol.post (h : s.Protocol) (c : κ) : (s.post c).Protocol := by
  rw [State.post]
  split_ifs with hfree
  · refine h.congr .idle (not_owns_of_free hfree) id ?_ rfl rfl rfl ⟨rfl, rfl, rfl, rfl, rfl⟩
      fun hnone => ⟨hnone, fun htask => (Option.some_ne_none _ htask.symm).elim⟩
    exact (Function.update_eq_self_iff.2 hfree.2.symm).symm
  · exact h

theorem Protocol.call (h : s.Protocol) (c : κ) : (s.call c).Protocol := by
  rw [State.call]
  split_ifs with hfree
  · exact h.congr _ (not_owns_of_free hfree) id rfl rfl rfl rfl ⟨rfl, rfl, rfl, rfl, rfl⟩
      fun hnone => ⟨hnone, fun htask => by cases htask⟩
  · exact h

theorem Protocol.destroy (h : s.Protocol) (c : κ) : (s.destroy c).Protocol := by
  rw [State.destroy]
  split_ifs with hfree
  · exact h.congr _ (not_owns_of_free hfree.1) id rfl rfl rfl rfl ⟨rfl, rfl, rfl, rfl, rfl⟩
      fun hsome => (Option.some_ne_none _ hsome).elim
  · exact h

/-! ### Steps of a client -/

omit [DecidableEq κ] in
/-- What holds where a client is that has `sync_mtx_`. -/
theorem Protocol.at_of_owns (h : s.Protocol) (hpc : s.clients c = pc) (howns : pc.Owns) :
    s.At pc := by
  rw [← hpc] at howns ⊢
  exact h.owned c (h.owner c howns)

/-- The client with `sync_mtx_` goes on. -/
theorem Protocol.own (h : s.Protocol) (pc : ClientPc κ) (hmtx : s.syncMtx = some c ∨ s.syncMtx = none)
    (hclients : s'.clients = Function.update s.clients c pc) (hmtx' : s'.syncMtx = some c)
    (hat : s'.At pc) (htask : pc.task? = (s.clients c).task?)
    (hsame : s'.SameWorker s) (hbefore : s'.before = s.before) : s'.Protocol where
  owner d hd := by
    rw [hclients, update_clients] at hd
    split_ifs at hd with hdc
    · rw [hdc, hmtx']
    · have hsome := h.owner d hd
      rcases hmtx with hmtx | hmtx <;> rw [hmtx] at hsome
      · exact absurd (Option.some.inj hsome).symm hdc
      · exact absurd hsome.symm (Option.some_ne_none d)
  free hnone := absurd (hmtx'.symm.trans hnone) (Option.some_ne_none c)
  owned d hd := by
    rw [Option.some.inj (hd.symm.trans hmtx'), hclients, Function.update_self]
    exact hat
  loop := h.loop.congr hsame
  undestroyed hnone := by
    obtain ⟨hc, hall⟩ := h.undestroyed (hbefore.symm.trans hnone)
    refine ⟨hsame.canceled.trans hc, fun d => ?_⟩
    rw [hclients, update_clients]
    split_ifs
    · rw [htask]
      exact hall c
    · exact hall d

/-- The client gives `sync_mtx_` back. -/
theorem Protocol.leave (h : s.Protocol) (pc : ClientPc κ) (hpc : s.clients c = .leaving t)
    (hclients : s'.clients = Function.update s.clients c pc) (hto : ¬pc.Owns)
    (htask : pc.task? = none) (hmtx : s'.syncMtx = none) (hsync : s'.syncTask = s.syncTask)
    (hdone : s'.taskDone = s.taskDone)
    (hsame : s'.SameWorker s) (hbefore : s'.before = s.before) : s'.Protocol where
  owner d hd := by
    rw [hclients, update_clients] at hd
    split_ifs at hd with hdc
    · exact absurd hd hto
    · have hsome := h.owner c (by rw [hpc]; trivial)
      exact absurd (Option.some.inj ((h.owner d hd).symm.trans hsome)) hdc
  free _ := by
    obtain ⟨hquiet, hfalse, -⟩ := h.at_of_owns hpc trivial
    exact ⟨hquiet.congr hsync hsame.worker, hdone.trans hfalse⟩
  owned d hd := absurd (hd.symm.trans hmtx) (Option.some_ne_none d)
  loop := h.loop.congr hsame
  undestroyed hnone := by
    obtain ⟨hc, hall⟩ := h.undestroyed (hbefore.symm.trans hnone)
    refine ⟨hsame.canceled.trans hc, fun d => ?_⟩
    rw [hclients, update_clients]
    split_ifs
    · rw [htask]
      exact (Option.some_ne_none _).symm
    · exact hall d

theorem Protocol.clientStep (h : s.Protocol) (c : κ) : (s.clientStep c).Protocol := by
  rw [State.clientStep]
  cases hpc : s.clients c with
  | idle => exact h
  | entering t =>
      dsimp only
      split_ifs with hmtx
      · exact h.own (.owning t) (.inr hmtx) rfl rfl
          ⟨(h.free hmtx).1.congr rfl rfl, (h.free hmtx).2⟩ (by rw [hpc]; rfl)
          ⟨rfl, rfl, rfl, rfl, rfl⟩ rfl
      · exact h
  | owning t =>
      obtain ⟨hquiet, hdone⟩ := h.at_of_owns hpc trivial
      have hmtx := h.owner c (by rw [hpc]; trivial)
      dsimp only
      split_ifs with hholds
      · exact h
      · exact absurd hdone (by simpa using ‹s.taskDone = true›)
      · refine h.own (.waiting t) (.inl hmtx) rfl hmtx ?_ (by rw [hpc]; rfl)
          ⟨rfl, rfl, rfl, rfl, rfl⟩ rfl
        have hreports : s.worker.reports = false ∧ s.worker ≠ .draining := by
          cases hworker : s.worker <;> rw [hworker] at hholds <;>
            first | exact ⟨rfl, WorkerPc.noConfusion⟩ | exact absurd rfl hholds
        exact .due rfl hdone hreports.1 fun hdrain => absurd hdrain hreports.2
  | waiting t =>
      have hmtx := h.owner c (by rw [hpc]; trivial)
      dsimp only
      split_ifs with hwait
      · exact h
      · rw [not_or, Bool.not_eq_false] at hwait
        refine h.own (.finishing t) (.inl hmtx) rfl hmtx ?_ (by rw [hpc]; rfl)
          ⟨rfl, rfl, rfl, rfl, rfl⟩ rfl
        cases h.at_of_owns hpc trivial with
        | due _ hdone _ _ => exact absurd (hwait.2.symm.trans hdone) Bool.noConfusion
        | cleared _ hdone _ _ => exact absurd (hwait.2.symm.trans hdone) Bool.noConfusion
        | notified _ hdone _ _ => exact absurd (hwait.2.symm.trans hdone) Bool.noConfusion
        | done hquiet hdone hran =>
            exact ⟨hquiet.congr rfl rfl, hdone, hran.mono (List.Subset.refl _) id⟩
  | finishing t =>
      have hmtx := h.owner c (by rw [hpc]; trivial)
      obtain ⟨hquiet, -, hran⟩ := h.at_of_owns hpc trivial
      exact h.own (.leaving t) (.inl hmtx) rfl hmtx
        ⟨hquiet.congr rfl rfl, rfl, hran.mono (List.Subset.refl _) id⟩ (by rw [hpc]; rfl)
        ⟨rfl, rfl, rfl, rfl, rfl⟩ rfl
  | leaving t =>
      cases t with
      | construct =>
          exact h.leave .idle hpc rfl id rfl rfl rfl rfl ⟨rfl, rfl, rfl, rfl, rfl⟩ rfl
      | call t =>
          exact h.leave .idle hpc rfl id rfl rfl rfl rfl ⟨rfl, rfl, rfl, rfl, rfl⟩ rfl
      | destroy =>
          exact h.leave .joining hpc rfl id rfl rfl rfl rfl ⟨rfl, rfl, rfl, rfl, rfl⟩ rfl
  | joining =>
      dsimp only
      split_ifs
      · exact h.congr .idle (by rw [hpc]; exact id) id rfl rfl rfl rfl
          ⟨rfl, rfl, rfl, rfl, rfl⟩ fun hnone => ⟨hnone, fun htask => by cases htask⟩
      · exact h

/-! ### Steps of the worker -/

/-- What a step of the worker can do. -/
inductive Work (s : State κ) : State κ → Prop
  | exit (hpc : s.worker = .check) (hcanceled : s.canceled = true) :
      Work s { s with worker := .exited }
  | lock (hpc : s.worker = .check) (hcanceled : s.canceled = false) :
      Work s { s with worker := .locking }
  | enter (hpc : s.worker = .locking) : Work s { s with worker := .swapping }
  | swap (hpc : s.worker = .swapping) : Work s { s.swapTasks with worker := .running }
  | task (hpc : s.worker = .running ∨ s.worker = .draining) (t : Task κ) (ts : List (Task κ))
      (htodo : s.tasksToDo = t :: ts) : Work s { s with tasksToDo := ts, log := s.log ++ [t] }
  | ran (hpc : s.worker = .running) (htodo : s.tasksToDo = []) : Work s { s with worker := .syncing }
  | skip (hpc : s.worker = .syncing) (hsync : s.syncTask = none) :
      Work s { s with worker := .waiting }
  | construct (hpc : s.worker = .syncing) (hsync : s.syncTask = some .construct) :
      Work s { s with member := .set, worker := .clearing }
  | call (hpc : s.worker = .syncing) (t : Task κ) (hsync : s.syncTask = some (.call t)) :
      Work s { s with log := s.log ++ [t], worker := .clearing }
  | drain (hpc : s.worker = .syncing) (hsync : s.syncTask = some .destroy) :
      Work s { s.swapTasks with worker := .draining }
  | reset (hpc : s.worker = .draining) (htodo : s.tasksToDo = []) :
      Work s { s with member := .reset, canceled := true, worker := .clearing }
  | clear (hpc : s.worker = .clearing) : Work s { s with syncTask := none, worker := .notifying }
  | notify (hpc : s.worker = .notifying) : Work s { s with taskDone := true, worker := .waiting }
  | wake (hpc : s.worker = .waiting) : Work s { s with worker := .check }
  | stay (hpc : s.worker = .exited) : Work s s

omit [DecidableEq κ] in
theorem work (s : State κ) : Work s s.workerStep := by
  unfold workerStep
  cases hpc : s.worker with
  | check =>
      dsimp only
      split_ifs with hcanceled
      · exact .exit hpc hcanceled
      · exact .lock hpc (Bool.eq_false_iff.2 hcanceled)
  | locking => exact .enter hpc
  | swapping => exact .swap hpc
  | running =>
      dsimp only [runTask]
      split
      · exact .ran hpc ‹_›
      · exact .task (.inl hpc) _ _ ‹_›
  | syncing =>
      dsimp only [runSyncTask]
      split
      · exact .skip hpc ‹_›
      · exact .construct hpc ‹_›
      · exact .call hpc _ ‹_›
      · exact .drain hpc ‹_›
  | draining =>
      dsimp only [runTask]
      split
      · exact .reset hpc ‹_›
      · exact .task (.inr hpc) _ _ ‹_›
  | clearing => exact .clear hpc
  | notifying => exact .notify hpc
  | waiting => exact .wake hpc
  | exited => exact .stay hpc

/-- What the worker does not change. -/
structure SameClients (s' s : State κ) : Prop where
  clients : s'.clients = s.clients
  syncMtx : s'.syncMtx = s.syncMtx
  calls : s'.calls = s.calls
  posted : s'.posted = s.posted
  before : s'.before = s.before
  returned : s'.returned = s.returned

omit [DecidableEq κ] in
theorem Work.sameClients (h : Work s s') : s'.SameClients s := by
  cases h <;> exact ⟨rfl, rfl, rfl, rfl, rfl, rfl⟩

omit [DecidableEq κ] in
theorem Work.log_subset (h : Work s s') : s.log ⊆ s'.log := by
  cases h with
  | task => exact List.subset_append_left _ _
  | call => exact List.subset_append_left _ _
  | _ => exact List.Subset.refl _

omit [DecidableEq κ] in
theorem Ran.work (h : s.Ran t) (hwork : Work s s') : s'.Ran t := by
  refine h.mono hwork.log_subset fun hcanceled => ?_
  cases hwork with
  | reset => rfl
  | _ => exact hcanceled

omit [DecidableEq κ] in
/-- Without a synchronous task there is none after the step. -/
theorem Quiet.work (h : s.Quiet) (hwork : Work s s') : s'.Quiet ∧ s'.taskDone = s.taskDone := by
  obtain ⟨hsync, hworker⟩ := h
  cases hwork with
  | exit hpc => exact ⟨⟨hsync, rfl⟩, rfl⟩
  | lock hpc => exact ⟨⟨hsync, rfl⟩, rfl⟩
  | enter hpc => exact ⟨⟨hsync, rfl⟩, rfl⟩
  | swap hpc => exact ⟨⟨hsync, rfl⟩, rfl⟩
  | task hpc t ts htodo => exact ⟨⟨hsync, hworker⟩, rfl⟩
  | ran hpc htodo => exact ⟨⟨hsync, rfl⟩, rfl⟩
  | skip hpc hnone => exact ⟨⟨hsync, rfl⟩, rfl⟩
  | construct hpc hsome => exact absurd (hsync.symm.trans hsome) (Option.some_ne_none _).symm
  | call hpc t hsome => exact absurd (hsync.symm.trans hsome) (Option.some_ne_none _).symm
  | drain hpc hsome => exact absurd (hsync.symm.trans hsome) (Option.some_ne_none _).symm
  | reset hpc htodo => exact absurd (hpc ▸ hworker) Bool.noConfusion
  | clear hpc => exact absurd (hpc ▸ hworker) Bool.noConfusion
  | notify hpc => exact absurd (hpc ▸ hworker) Bool.noConfusion
  | wake hpc => exact ⟨⟨hsync, rfl⟩, rfl⟩
  | stay hpc => exact ⟨⟨hsync, hworker⟩, rfl⟩

omit [DecidableEq κ] in
/-- A task that is awaited is run, then reported. -/
theorem Awaited.work (h : s.Awaited t) (hwork : Work s s') : s'.Awaited t := by
  cases h with
  | due hsync hdone hworker hdrain =>
      cases hwork with
      | exit hpc => exact .due hsync hdone rfl (fun h => by cases h)
      | lock hpc => exact .due hsync hdone rfl (fun h => by cases h)
      | enter hpc => exact .due hsync hdone rfl (fun h => by cases h)
      | swap hpc => exact .due hsync hdone rfl (fun h => by cases h)
      | task hpc u ts htodo => exact .due hsync hdone hworker hdrain
      | ran hpc htodo => exact .due hsync hdone rfl (fun h => by cases h)
      | skip hpc hnone => exact absurd (hnone.symm.trans hsync) (Option.some_ne_none _).symm
      | construct hpc hsome =>
          obtain rfl := Option.some.inj (hsync.symm.trans hsome)
          exact .cleared hsync hdone rfl trivial
      | call hpc u hsome =>
          obtain rfl := Option.some.inj (hsync.symm.trans hsome)
          exact .cleared hsync hdone rfl (List.mem_append_right _ List.mem_cons_self)
      | drain hpc hsome =>
          obtain rfl := Option.some.inj (hsync.symm.trans hsome)
          exact .due hsync hdone rfl fun _ => rfl
      | reset hpc htodo =>
          obtain rfl := hdrain hpc
          exact .cleared hsync hdone rfl rfl
      | clear hpc => exact absurd (hpc ▸ hworker) Bool.noConfusion
      | notify hpc => exact absurd (hpc ▸ hworker) Bool.noConfusion
      | wake hpc => exact .due hsync hdone rfl (fun h => by cases h)
      | stay hpc => exact .due hsync hdone hworker hdrain
  | cleared hsync hdone hpc hran =>
      have hran' := hran.work hwork
      cases hwork with
      | clear => exact .notified rfl hdone rfl hran'
      | task hpc' => rcases hpc' with hpc' | hpc' <;> cases hpc.symm.trans hpc'
      | _ hpc' => cases hpc.symm.trans hpc'
  | notified hsync hdone hpc hran =>
      have hran' := hran.work hwork
      cases hwork with
      | notify => exact .done ⟨hsync, rfl⟩ rfl hran'
      | task hpc' => rcases hpc' with hpc' | hpc' <;> cases hpc.symm.trans hpc'
      | _ hpc' => cases hpc.symm.trans hpc'
  | done hquiet hdone hran =>
      obtain ⟨hquiet', hdone'⟩ := hquiet.work hwork
      exact .done hquiet' (hdone'.trans hdone) (hran.work hwork)

omit [DecidableEq κ] in
theorem At.work (h : s.At pc) (hwork : Work s s') : s'.At pc := by
  cases pc with
  | idle => exact h
  | entering t => exact h
  | owning t => exact ⟨(h.1.work hwork).1, (h.1.work hwork).2.trans h.2⟩
  | waiting t => exact Awaited.work h hwork
  | finishing t => exact ⟨(h.1.work hwork).1, (h.1.work hwork).2.trans h.2.1, h.2.2.work hwork⟩
  | leaving t => exact ⟨(h.1.work hwork).1, (h.1.work hwork).2.trans h.2.1, h.2.2.work hwork⟩
  | joining => exact h

omit [DecidableEq κ] in
theorem Loop.canceled_eq_false (h : s.Loop) (hpc : s.worker.ends = false) : s.canceled = false :=
  Bool.eq_false_iff.2 fun hcanceled => Bool.noConfusion (hpc.symm.trans (h.canceled hcanceled))

omit [DecidableEq κ] in
/-- Between the loops there are no tasks to do. -/
theorem Loop.work (h : s.Loop) (hwork : Work s s') : s'.Loop := by
  have hempty : ∀ {pc}, s.worker = pc → pc ≠ .running → pc ≠ .draining → s.tasksToDo = [] :=
    fun hpc hrunning hdraining => h.tasksToDo (hpc ▸ hrunning) (hpc ▸ hdraining)
  have hnot : ∀ {pc}, s.worker = pc → pc.ends = false → ∀ {P : Prop}, s.canceled = true → P :=
    fun hpc hends _ hc => by
      rw [h.canceled_eq_false (hpc ▸ hends)] at hc
      exact Bool.noConfusion hc
  cases hwork with
  | exit hpc hcanceled =>
      exact ⟨fun _ _ => hempty hpc (by decide) (by decide), fun _ => rfl, fun _ => hcanceled, h.member⟩
  | lock hpc hcanceled =>
      exact ⟨fun _ _ => hempty hpc (by decide) (by decide),
        fun hc => Bool.noConfusion (hcanceled.symm.trans hc), WorkerPc.noConfusion, h.member⟩
  | enter hpc =>
      exact ⟨fun _ _ => hempty hpc (by decide) (by decide), hnot hpc rfl, WorkerPc.noConfusion,
        h.member⟩
  | swap hpc =>
      exact ⟨fun hrunning _ => absurd rfl hrunning, hnot hpc rfl, WorkerPc.noConfusion, h.member⟩
  | task hpc t ts htodo =>
      refine ⟨fun hrunning hdraining => (hpc.elim hrunning hdraining).elim, h.canceled, h.exited,
        h.member⟩
  | ran hpc htodo => exact ⟨fun _ _ => htodo, hnot hpc rfl, WorkerPc.noConfusion, h.member⟩
  | skip hpc hsync =>
      exact ⟨fun _ _ => hempty hpc (by decide) (by decide), fun _ => rfl, WorkerPc.noConfusion,
        h.member⟩
  | construct hpc hsync =>
      exact ⟨fun _ _ => hempty hpc (by decide) (by decide), fun _ => rfl, WorkerPc.noConfusion,
        Member.noConfusion⟩
  | call hpc t hsync =>
      exact ⟨fun _ _ => hempty hpc (by decide) (by decide), fun _ => rfl, WorkerPc.noConfusion,
        h.member⟩
  | drain hpc hsync =>
      exact ⟨fun _ hdraining => absurd rfl hdraining, hnot hpc rfl, WorkerPc.noConfusion, h.member⟩
  | reset hpc htodo => exact ⟨fun _ _ => htodo, fun _ => rfl, WorkerPc.noConfusion, fun _ => rfl⟩
  | clear hpc =>
      exact ⟨fun _ _ => hempty hpc (by decide) (by decide), fun _ => rfl, WorkerPc.noConfusion,
        h.member⟩
  | notify hpc =>
      exact ⟨fun _ _ => hempty hpc (by decide) (by decide), fun _ => rfl, WorkerPc.noConfusion,
        h.member⟩
  | wake hpc =>
      exact ⟨fun _ _ => hempty hpc (by decide) (by decide), fun _ => rfl, WorkerPc.noConfusion,
        h.member⟩
  | stay hpc => exact h

omit [DecidableEq κ] in
/-- While there is a synchronous task, a client waits for it. -/
theorem Protocol.exists_waiting (h : s.Protocol)
    (hnot : s.worker.inTask = true ∨ s.syncTask ≠ none) :
    ∃ c t, s.syncMtx = some c ∧ s.clients c = .waiting t ∧ s.Awaited t := by
  have hquiet : ¬s.Quiet := by
    rintro ⟨hsync, hworker⟩
    rcases hnot with hnot | hnot
    · exact Bool.noConfusion (hworker.symm.trans hnot)
    · exact hnot hsync
  cases hmtx : s.syncMtx with
  | none => exact absurd (h.free hmtx).1 hquiet
  | some c =>
      have hat := h.owned c hmtx
      cases hpc : s.clients c with
      | waiting t =>
          rw [hpc] at hat
          exact ⟨c, t, rfl, hpc, hat⟩
      | idle => rw [hpc] at hat; exact hat.elim
      | entering t => rw [hpc] at hat; exact hat.elim
      | owning t => rw [hpc] at hat; exact absurd hat.1 hquiet
      | finishing t => rw [hpc] at hat; exact absurd hat.1 hquiet
      | leaving t => rw [hpc] at hat; exact absurd hat.1 hquiet
      | joining => rw [hpc] at hat; exact hat.elim

omit [DecidableEq κ] in
theorem Protocol.work (h : s.Protocol) (hwork : Work s s') : s'.Protocol where
  owner c hc := by
    rw [hwork.sameClients.clients] at hc
    rw [hwork.sameClients.syncMtx]
    exact h.owner c hc
  free hnone := by
    obtain ⟨hquiet, hdone⟩ := h.free (hwork.sameClients.syncMtx.symm.trans hnone)
    exact ⟨(hquiet.work hwork).1, (hquiet.work hwork).2.trans hdone⟩
  owned c hc := by
    rw [hwork.sameClients.clients]
    exact (h.owned c (hwork.sameClients.syncMtx.symm.trans hc)).work hwork
  loop := h.loop.work hwork
  undestroyed hnone := by
    rw [hwork.sameClients.clients]
    obtain ⟨hcanceled, htask⟩ := h.undestroyed (hwork.sameClients.before.symm.trans hnone)
    refine ⟨?_, htask⟩
    cases hwork with
    | reset hpc htodo =>
        obtain ⟨c, t, -, hwaiting, hawaited⟩ := h.exists_waiting (.inl (by rw [hpc]; rfl))
        have ht : t = .destroy := by
          cases hawaited with
          | due _ _ _ hdrain => exact hdrain hpc
          | cleared _ _ hpc' _ => cases hpc.symm.trans hpc'
          | notified _ _ hpc' _ => cases hpc.symm.trans hpc'
          | done hquiet _ _ => exact absurd (hpc ▸ hquiet.worker) Bool.noConfusion
        exact absurd (by rw [hwaiting, ht]; rfl) (htask c)
    | _ => exact hcanceled

theorem Protocol.step (h : s.Protocol) (e : Event κ) : (s.step e).Protocol := by
  cases e with
  | post c => exact h.post c
  | call c => exact h.call c
  | destroy c => exact h.destroy c
  | client c => exact h.clientStep c
  | worker => exact h.work (State.work s)

theorem clients_make (maker c : κ) :
    (make maker).clients c = if c = maker then .entering .construct else .idle :=
  Function.update_apply (fun _ => ClientPc.idle) maker (.entering .construct) c

theorem protocol_make (maker : κ) : (make maker).Protocol where
  owner c hc := by
    rw [clients_make] at hc
    split_ifs at hc <;> exact hc.elim
  free _ := ⟨⟨rfl, rfl⟩, rfl⟩
  owned c hc := absurd hc.symm (Option.some_ne_none c)
  loop := ⟨fun _ _ => rfl, Bool.noConfusion, WorkerPc.noConfusion, Member.noConfusion⟩
  undestroyed _ := by
    refine ⟨rfl, fun c => ?_⟩
    rw [clients_make]
    split_ifs <;> exact fun h => by cases h

end State
end ThreadedWrapper
end LibSwitcher
