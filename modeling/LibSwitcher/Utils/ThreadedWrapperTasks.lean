/-
# The tasks of a threaded wrapper

The tasks that were run, those that the worker has taken and those that wait are in one line
(`State.line`), in which the tasks of a thread stand in the order in which it posted them, and a
task that is posted is in the line or is the one of a synchronous call that is due
(`Tasks.located`).  So every task is run once, and those of a thread in their order; a
synchronous call returns after the tasks that its caller had posted; and the destructor lets
the worker run what was posted before (`Drains`).
-/

import LibSwitcher.Utils.ThreadedWrapperProtocol

namespace LibSwitcher
namespace ThreadedWrapper

variable {κ : Type}

/-- Tasks that may be run one after the other: two of one thread are in the order in which it posted
them. -/
def Task.Precedes (t u : Task κ) : Prop := t.client = u.client → t.number < u.number

namespace State

/-- The tasks that were run, that are to be run in this round, and that wait. -/
def line (s : State κ) : List (Task κ) := s.log ++ s.tasksToDo ++ s.asyncTasks

/-- The task of a synchronous call is set, and has not run. -/
def Due (s : State κ) (t : Task κ) : Prop := s.syncTask = some (.call t) ∧ s.worker ≠ .clearing

/-- A client is in a synchronous call whose task has not run. -/
def Unrun (s : State κ) (c : κ) (t : Task κ) : Prop :=
  s.clients c = .entering (.call t) ∨ s.clients c = .owning (.call t) ∨
    (s.clients c = .waiting (.call t) ∧ s.Due t)

/-- What the destructor has called for: no task that was posted before is left when it destroys the
object. -/
structure Drains (s : State κ) (tasks : List (Task κ)) : Prop where
  posted : tasks ⊆ s.posted
  draining : s.worker = .draining → ∀ t ∈ tasks, t ∈ s.log ∨ t ∈ s.tasksToDo
  canceled : s.canceled = true → ∀ t ∈ tasks, t ∈ s.log

/-- Where the tasks are. -/
structure Tasks (s : State κ) : Prop where
  numbered : ∀ t ∈ s.line, t.number < s.calls t.client
  ordered : s.line.Pairwise Task.Precedes
  unrun : ∀ c t, s.Unrun c t →
    t.client = c ∧ t.number + 1 = s.calls c ∧ ∀ u ∈ s.line, u.client = c → u.number < t.number
  fresh : ∀ t, s.syncTask = some (.call t) → s.worker = .running ∨ s.worker = .syncing →
    ∀ u ∈ s.asyncTasks, u.client ≠ t.client
  located : ∀ t ∈ s.posted, t ∈ s.line ∨ s.Due t
  posted : ∀ t ∈ s.line, t ∈ s.posted
  due : ∀ t, s.syncTask = some (.call t) → t ∈ s.posted
  returned : ∀ t ∈ s.returned, t ∈ s.log
  before : ∀ tasks ∈ s.before, s.Drains tasks

variable {s s' : State κ} {c : κ} {t : Task κ}

/-! ### The task that is due -/

/-- The client of a task that is due waits for it. -/
theorem Protocol.waiting_of_due (h : s.Protocol) (hdue : s.syncTask = some (.call t)) :
    ∃ c, s.syncMtx = some c ∧ s.clients c = .waiting (.call t) := by
  obtain ⟨c, u, hmtx, hpc, hawaited⟩ := h.exists_waiting
    (.inr (by rw [hdue]; exact Option.some_ne_none _))
  have hu : u = .call t := by
    cases hawaited with
    | due hsync => exact Option.some.inj (hsync.symm.trans hdue)
    | cleared hsync => exact Option.some.inj (hsync.symm.trans hdue)
    | notified hsync => exact absurd (hsync.symm.trans hdue) (Option.some_ne_none _).symm
    | done hquiet => exact absurd (hquiet.syncTask.symm.trans hdue) (Option.some_ne_none _).symm
  exact ⟨c, hmtx, hpc.trans (by rw [hu])⟩

/-- The worker runs what is left in the task of the destructor. -/
theorem Protocol.draining (h : s.Protocol) (hpc : s.worker = .draining) :
    s.syncTask = some .destroy ∧ ∃ c, s.clients c = .waiting .destroy := by
  obtain ⟨c, t, -, hwaiting, hawaited⟩ := h.exists_waiting (.inl (by rw [hpc]; rfl))
  cases hawaited with
  | due hsync _ _ hdrain =>
      obtain rfl := hdrain hpc
      exact ⟨hsync, c, hwaiting⟩
  | cleared _ _ hpc' _ => cases hpc.symm.trans hpc'
  | notified _ _ hpc' _ => cases hpc.symm.trans hpc'
  | done hquiet _ _ => exact absurd (hpc ▸ hquiet.worker) Bool.noConfusion

/-- A task that is due is the last one of its client. -/
theorem Tasks.of_due (h : s.Tasks) (hprotocol : s.Protocol) (hdue : s.Due t) :
    t.number + 1 = s.calls t.client ∧ (∀ u ∈ s.line, u.client = t.client → u.number < t.number) ∧
      s.syncMtx = some t.client := by
  obtain ⟨c, hmtx, hpc⟩ := hprotocol.waiting_of_due hdue.1
  obtain ⟨rfl, hnumber, hline⟩ := h.unrun c t (.inr (.inr ⟨hpc, hdue⟩))
  exact ⟨hnumber, hline, hmtx⟩

/-! ### Steps of the worker -/

/-- A step that leaves the line as it is. -/
theorem Tasks.of_line (h : s.Tasks) (hsame : s'.SameClients s) (hline : s'.line = s.line)
    (hlog : s.log ⊆ s'.log) (hsync : s'.syncTask = s.syncTask ∨ s'.syncTask = none)
    (hdue : ∀ t, s'.Due t ↔ s.Due t)
    (hfresh : ∀ t, s.syncTask = some (.call t) → s'.worker = .running ∨ s'.worker = .syncing →
      ∀ u ∈ s'.asyncTasks, u.client ≠ t.client)
    (hdrains : ∀ tasks ∈ s.before, s'.Drains tasks) : s'.Tasks where
  numbered := by
    rw [hline, hsame.calls]
    exact h.numbered
  ordered := by
    rw [hline]
    exact h.ordered
  unrun c t hunrun := by
    unfold Unrun at hunrun
    rw [hsame.clients, hdue] at hunrun
    rw [hline, hsame.calls]
    exact h.unrun c t hunrun
  fresh t ht := by
    rcases hsync with hsync | hsync
    · exact hfresh t (hsync.symm.trans ht)
    · exact absurd (hsync.symm.trans ht) (Option.some_ne_none _).symm
  located t ht := by
    rw [hline, hdue]
    exact h.located t (hsame.posted ▸ ht)
  posted t ht := by
    rw [hsame.posted]
    exact h.posted t (hline ▸ ht)
  due t ht := by
    rw [hsame.posted]
    rcases hsync with hsync | hsync
    · exact h.due t (hsync.symm.trans ht)
    · exact absurd (hsync.symm.trans ht) (Option.some_ne_none _).symm
  returned t ht := hlog (h.returned t (hsame.returned ▸ ht))
  before tasks htasks := hdrains tasks (hsame.before ▸ htasks)

/-- The worker only moves. -/
theorem Drains.move {tasks : List (Task κ)} (h : s.Drains tasks) (hposted : s'.posted = s.posted)
    (hlog : s'.log = s.log) (hcanceled : s'.canceled = s.canceled)
    (hworker : s'.worker ≠ .draining) : s'.Drains tasks where
  posted := hposted ▸ h.posted
  draining hpc := absurd hpc hworker
  canceled := by
    rw [hlog, hcanceled]
    exact h.canceled

theorem due_iff (hsync : s'.syncTask = s.syncTask) (hpc : s.worker ≠ .clearing)
    (hpc' : s'.worker ≠ .clearing) (t : Task κ) : s'.Due t ↔ s.Due t := by
  rw [Due, Due, hsync]
  exact and_congr_right fun _ => iff_of_true hpc' hpc

/-- No task is due while the synchronous task is another one. -/
theorem due_iff_of_ne (hsync : ∀ t, s.syncTask ≠ some (.call t))
    (hsync' : s'.syncTask = s.syncTask) (t : Task κ) : s'.Due t ↔ s.Due t :=
  iff_of_false (fun h => hsync t (hsync'.symm.trans h.1)) fun h => hsync t h.1

/-- The worker moves, in or between its rounds. -/
theorem Tasks.move (h : s.Tasks) (hsame : s'.SameClients s) (hline : s'.line = s.line)
    (hlog : s'.log = s.log) (hsync : s'.syncTask = s.syncTask)
    (hcanceled : s'.canceled = s.canceled) (hdue : ∀ t, s'.Due t ↔ s.Due t)
    (hfresh : ∀ t, s.syncTask = some (.call t) → s'.worker = .running ∨ s'.worker = .syncing →
      ∀ u ∈ s'.asyncTasks, u.client ≠ t.client) (hworker : s'.worker ≠ .draining) : s'.Tasks :=
  h.of_line hsame hline (by rw [hlog]; exact List.Subset.refl _) (.inl hsync) hdue hfresh
    fun tasks htasks => (h.before tasks htasks).move hsame.posted hlog hcanceled hworker

/-- The task of a synchronous call is run after the tasks that its caller had posted. -/
theorem Tasks.call (h : s.Tasks) (hprotocol : s.Protocol) (hpc : s.worker = .syncing)
    (hsync : s.syncTask = some (.call t)) :
    ({ s with log := s.log ++ [t], worker := .clearing } : State κ).Tasks := by
  have hdue : s.Due t := ⟨hsync, by rw [hpc]; decide⟩
  obtain ⟨hnumber, hlast, hmtx⟩ := h.of_due hprotocol hdue
  have htodo := hprotocol.loop.tasksToDo (by rw [hpc]; decide) (by rw [hpc]; decide)
  have hfresh := h.fresh t hsync (.inr hpc)
  have hline : s.line = s.log ++ s.asyncTasks := by rw [line, htodo, List.append_nil]
  have hline' : ({ s with log := s.log ++ [t], worker := .clearing } : State κ).line =
      s.log ++ t :: s.asyncTasks := by
    rw [line]
    dsimp only
    rw [htodo, List.append_nil, List.append_assoc, List.singleton_append]
  have hmem : ∀ {u}, u ∈ s.log ++ t :: s.asyncTasks ↔ u = t ∨ u ∈ s.line := by
    intro u
    rw [hline, List.mem_append, List.mem_append, List.mem_cons]
    exact or_left_comm
  refine ⟨?_, ?_, ?_, ?_, ?_, ?_, ?_, ?_, ?_⟩
  · rw [hline']
    intro u hu
    rcases hmem.1 hu with rfl | hu
    · exact Nat.lt_of_succ_le (Nat.le_of_eq hnumber)
    · exact h.numbered u hu
  · rw [hline', List.pairwise_append, List.pairwise_cons]
    have hordered := h.ordered
    rw [hline, List.pairwise_append] at hordered
    refine ⟨hordered.1, ⟨fun u hu heq => absurd heq.symm (hfresh u hu), hordered.2.1⟩, ?_⟩
    intro u hu v hv
    rcases List.mem_cons.1 hv with rfl | hv
    · exact hlast u (hline ▸ List.mem_append_left _ hu)
    · exact hordered.2.2 u hu v hv
  · rintro d u (hunrun | hunrun | ⟨-, -, hclearing⟩)
    · obtain ⟨rfl, hnumber', hline''⟩ := h.unrun d u (.inl hunrun)
      refine ⟨rfl, hnumber', fun v hv hclient => ?_⟩
      rw [hline'] at hv
      rcases hmem.1 hv with rfl | hv
      · have hpc' := hprotocol.owned _ hmtx
        rw [hclient, hunrun] at hpc'
        exact hpc'.elim
      · exact hline'' v hv hclient
    · obtain ⟨rfl, hnumber', hline''⟩ := h.unrun d u (.inr (.inl hunrun))
      refine ⟨rfl, hnumber', fun v hv hclient => ?_⟩
      rw [hline'] at hv
      rcases hmem.1 hv with rfl | hv
      · have hpc' := hprotocol.owned _ hmtx
        rw [hclient, hunrun] at hpc'
        exact absurd (hpc'.1.syncTask.symm.trans hsync) (Option.some_ne_none _).symm
      · exact hline'' v hv hclient
    · exact absurd rfl hclearing
  · rintro u - (hpc' | hpc') <;> exact WorkerPc.noConfusion hpc'
  · intro u hu
    rw [hline']
    refine .inl (hmem.2 ?_)
    rcases h.located u hu with hu | hu
    · exact .inr hu
    · exact .inl (SyncTask.call.inj (Option.some.inj (hu.1.symm.trans hsync)))
  · rw [hline']
    intro u hu
    rcases hmem.1 hu with rfl | hu
    · exact h.due u hsync
    · exact h.posted u hu
  · exact h.due
  · exact fun u hu => List.mem_append_left _ (h.returned u hu)
  · intro tasks htasks
    have hdrains := h.before tasks htasks
    exact ⟨hdrains.posted, WorkerPc.noConfusion,
      fun hc u hu => List.mem_append_left _ (hdrains.canceled hc u hu)⟩

theorem Tasks.work (h : s.Tasks) (hprotocol : s.Protocol) (hwork : Work s s') : s'.Tasks := by
  have hsame := hwork.sameClients
  have hempty : ∀ {pc}, s.worker = pc → pc ≠ .running → pc ≠ .draining → s.tasksToDo = [] :=
    fun hpc hr hd => hprotocol.loop.tasksToDo (hpc ▸ hr) (hpc ▸ hd)
  cases hwork with
  | exit hpc hcanceled =>
      exact h.move hsame rfl rfl rfl rfl (due_iff rfl (by rw [hpc]; decide) WorkerPc.noConfusion)
        (fun _ _ hpc' => by rcases hpc' with hpc' | hpc' <;> cases hpc') WorkerPc.noConfusion
  | lock hpc hcanceled =>
      exact h.move hsame rfl rfl rfl rfl (due_iff rfl (by rw [hpc]; decide) WorkerPc.noConfusion)
        (fun _ _ hpc' => by rcases hpc' with hpc' | hpc' <;> cases hpc') WorkerPc.noConfusion
  | enter hpc =>
      exact h.move hsame rfl rfl rfl rfl (due_iff rfl (by rw [hpc]; decide) WorkerPc.noConfusion)
        (fun _ _ hpc' => by rcases hpc' with hpc' | hpc' <;> cases hpc') WorkerPc.noConfusion
  | swap hpc =>
      refine h.move hsame ?_ rfl rfl rfl (due_iff rfl (by rw [hpc]; decide) WorkerPc.noConfusion)
        (fun _ _ _ u hu => absurd hu List.not_mem_nil) WorkerPc.noConfusion
      rw [line, line, hempty hpc (by decide) (by decide), List.append_nil]
      exact List.append_nil _
  | task hpc t ts htodo =>
      refine h.of_line hsame ?_ (List.subset_append_left _ _) (.inl rfl) (fun _ => Iff.rfl) ?_ ?_
      · rw [line, line, htodo]
        simp only [List.append_assoc, List.cons_append, List.nil_append]
      · exact h.fresh
      · intro tasks htasks
        obtain ⟨hposted, hdraining, hcanceled⟩ := h.before tasks htasks
        refine ⟨hposted, fun hpc' u hu => ?_, fun hc u hu => ?_⟩
        · rcases hdraining hpc' u hu with hu | hu
          · exact .inl (List.mem_append_left _ hu)
          · rw [htodo] at hu
            rcases List.mem_cons.1 hu with rfl | hu
            · exact .inl (List.mem_append_right _ List.mem_cons_self)
            · exact .inr hu
        · exact List.mem_append_left _ (hcanceled hc u hu)
  | ran hpc htodo =>
      exact h.move hsame rfl rfl rfl rfl (due_iff rfl (by rw [hpc]; decide) WorkerPc.noConfusion)
        (fun t ht _ => h.fresh t ht (.inl hpc)) WorkerPc.noConfusion
  | skip hpc hsync =>
      exact h.move hsame rfl rfl rfl rfl (due_iff rfl (by rw [hpc]; decide) WorkerPc.noConfusion)
        (fun _ _ hpc' => by rcases hpc' with hpc' | hpc' <;> cases hpc') WorkerPc.noConfusion
  | construct hpc hsync =>
      exact h.move hsame rfl rfl rfl rfl
        (due_iff_of_ne (fun t ht => by cases hsync.symm.trans ht) rfl)
        (fun _ _ hpc' => by rcases hpc' with hpc' | hpc' <;> cases hpc') WorkerPc.noConfusion
  | call hpc t hsync => exact h.call hprotocol hpc hsync
  | drain hpc hsync =>
      have htodo := hempty hpc (by decide) (by decide)
      have hnot : ∀ t, s.syncTask ≠ some (.call t) := fun t ht => by cases hsync.symm.trans ht
      refine h.of_line hsame ?_ (List.Subset.refl _) (.inl rfl) (due_iff_of_ne hnot rfl)
        (fun t ht => absurd ht (hnot t)) ?_
      · rw [line, line, htodo, List.append_nil]
        exact List.append_nil _
      · intro tasks htasks
        obtain ⟨hposted, -, hcanceled⟩ := h.before tasks htasks
        refine ⟨hposted, fun _ u hu => ?_, hcanceled⟩
        rcases h.located u (hposted hu) with hu | hu
        · rw [line, htodo, List.append_nil] at hu
          exact List.mem_append.1 hu
        · exact absurd hu.1 (hnot u)
  | reset hpc htodo =>
      have hnot : ∀ t, s.syncTask ≠ some (.call t) := fun t ht => by
        cases (hprotocol.draining hpc).1.symm.trans ht
      refine h.of_line hsame rfl (List.Subset.refl _) (.inl rfl) (due_iff_of_ne hnot rfl)
        (fun t ht => absurd ht (hnot t)) ?_
      intro tasks htasks
      obtain ⟨hposted, hdraining, -⟩ := h.before tasks htasks
      refine ⟨hposted, WorkerPc.noConfusion, fun _ u hu => ?_⟩
      refine (hdraining hpc u hu).resolve_right fun hu => ?_
      rw [htodo] at hu
      exact List.not_mem_nil hu
  | clear hpc =>
      refine h.of_line hsame rfl (List.Subset.refl _) (.inr rfl) (fun t => ?_)
        (fun _ _ hpc' => by rcases hpc' with hpc' | hpc' <;> cases hpc') ?_
      · exact iff_of_false (fun hdue => (Option.some_ne_none _ hdue.1.symm).elim)
          fun hdue => hdue.2 hpc
      · exact fun tasks htasks => (h.before tasks htasks).move rfl rfl rfl WorkerPc.noConfusion
  | notify hpc =>
      exact h.move hsame rfl rfl rfl rfl (due_iff rfl (by rw [hpc]; decide) WorkerPc.noConfusion)
        (fun _ _ hpc' => by rcases hpc' with hpc' | hpc' <;> cases hpc') WorkerPc.noConfusion
  | wake hpc =>
      exact h.move hsame rfl rfl rfl rfl (due_iff rfl (by rw [hpc]; decide) WorkerPc.noConfusion)
        (fun _ _ hpc' => by rcases hpc' with hpc' | hpc' <;> cases hpc') WorkerPc.noConfusion
  | stay hpc => exact h

/-! ### Steps of the clients -/

/-- A step of a client that leaves the line and the tasks of the calls as they are. -/
theorem Tasks.of_clients (h : s.Tasks) (hline : s'.line = s.line)
    (hasync : s'.asyncTasks = s.asyncTasks) (hcalls : s'.calls = s.calls)
    (hsync : s'.syncTask = s.syncTask) (hworker : s'.worker = s.worker)
    (hunrun : ∀ c t, s'.Unrun c t → s.Unrun c t) (hposted : s'.posted = s.posted)
    (hreturned : ∀ t ∈ s'.returned, t ∈ s'.log) (hbefore : ∀ tasks ∈ s'.before, s'.Drains tasks) :
    s'.Tasks where
  numbered := by
    rw [hline, hcalls]
    exact h.numbered
  ordered := by
    rw [hline]
    exact h.ordered
  unrun c t ht := by
    rw [hline, hcalls]
    exact h.unrun c t (hunrun c t ht)
  fresh := by
    rw [hsync, hworker, hasync]
    exact h.fresh
  located t ht := by
    rw [hline, Due, hsync, hworker]
    exact h.located t (hposted ▸ ht)
  posted t ht := by
    rw [hposted]
    exact h.posted t (hline ▸ ht)
  due := by
    rw [hsync, hposted]
    exact h.due
  returned := hreturned
  before := hbefore

/-- The worker has not moved, and no posted task was lost. -/
theorem Drains.of_sameWorker {tasks : List (Task κ)} (h : s.Drains tasks)
    (hsame : s'.SameWorker s) (hposted : s.posted ⊆ s'.posted) : s'.Drains tasks where
  posted := List.Subset.trans h.posted hposted
  draining := by
    rw [hsame.worker, hsame.log, hsame.tasksToDo]
    exact h.draining
  canceled := by
    rw [hsame.canceled, hsame.log]
    exact h.canceled

variable [DecidableEq κ]

omit [DecidableEq κ] in
/-- A client in a call is not free. -/
theorem not_unrun_of_free (h : s.Free c) (t : Task κ) : ¬s.Unrun c t := by
  rintro (hpc | hpc | ⟨hpc, -⟩) <;> cases h.2.symm.trans hpc

theorem count_calls (s : State κ) (c d : κ) :
    (s.count c).calls d = if d = c then s.calls c + 1 else s.calls d :=
  Function.update_apply _ _ _ _

theorem calls_le_count (s : State κ) (c d : κ) : s.calls d ≤ (s.count c).calls d := by
  rw [count_calls]
  split_ifs with hdc
  · rw [hdc]
    exact Nat.le_succ _
  · exact Nat.le_refl _

theorem Tasks.post (h : s.Tasks) (hprotocol : s.Protocol) (c : κ) : (s.post c).Tasks := by
  rw [State.post]
  split_ifs with hfree
  swap
  · exact h
  have hline : ({ s.count c with
      asyncTasks := s.asyncTasks ++ [s.nextTask c]
      posted := s.posted ++ [s.nextTask c] } : State κ).line = s.line ++ [s.nextTask c] :=
    (List.append_assoc _ _ _).symm
  have hmem : ∀ {t}, t ∈ s.line ++ [s.nextTask c] ↔ t ∈ s.line ∨ t = s.nextTask c := by
    intro t
    rw [List.mem_append, List.mem_singleton]
  have hother : ∀ d t, s.Unrun d t → d ≠ c := by
    rintro d t hunrun rfl
    exact not_unrun_of_free hfree t hunrun
  refine ⟨?_, ?_, ?_, ?_, ?_, ?_, ?_, h.returned, ?_⟩
  · rw [hline]
    intro t ht
    rcases hmem.1 ht with ht | rfl
    · exact Nat.lt_of_lt_of_le (h.numbered t ht) (calls_le_count s c t.client)
    · change s.calls c < (s.count c).calls c
      rw [count_calls, if_pos rfl]
      exact Nat.lt_succ_self _
  · rw [hline, List.pairwise_append]
    refine ⟨h.ordered, List.pairwise_singleton _ _, fun t ht u hu hclient => ?_⟩
    rw [List.mem_singleton.1 hu] at hclient ⊢
    have hnumber := h.numbered t ht
    rwa [hclient] at hnumber
  · intro d t hunrun
    have hdc := hother d t hunrun
    obtain ⟨rfl, hnumber, hlast⟩ := h.unrun d t hunrun
    refine ⟨rfl, hnumber.trans ?_, fun u hu hclient => ?_⟩
    · change _ = (s.count c).calls t.client
      rw [count_calls, if_neg hdc]
    · rw [hline] at hu
      rcases hmem.1 hu with hu | rfl
      · exact hlast u hu hclient
      · exact absurd hclient.symm hdc
  · intro t hsync hpc u hu
    rcases List.mem_append.1 hu with hu | hu
    · exact h.fresh t hsync hpc u hu
    · rw [List.mem_singleton.1 hu]
      have hdue : s.Due t := by
        refine ⟨hsync, fun hclearing => ?_⟩
        rcases hpc with hpc | hpc <;> cases hclearing.symm.trans hpc
      obtain ⟨d, -, hwaiting⟩ := hprotocol.waiting_of_due hsync
      have hunrun : s.Unrun d t := .inr (.inr ⟨hwaiting, hdue⟩)
      rw [(h.unrun d t hunrun).1]
      exact (hother d t hunrun).symm
  · rw [hline]
    intro t ht
    rcases List.mem_append.1 ht with ht | ht
    · exact (h.located t ht).imp_left fun ht => hmem.2 (.inl ht)
    · exact .inl (hmem.2 (.inr (List.mem_singleton.1 ht)))
  · rw [hline]
    intro t ht
    rcases hmem.1 ht with ht | rfl
    · exact List.mem_append_left _ (h.posted t ht)
    · exact List.mem_append_right _ List.mem_cons_self
  · exact fun t hsync => List.mem_append_left _ (h.due t hsync)
  · exact fun tasks htasks => (h.before tasks htasks).of_sameWorker ⟨rfl, rfl, rfl, rfl, rfl⟩
      (List.subset_append_left _ _)

theorem Tasks.callStep (h : s.Tasks) (c : κ) : (s.call c).Tasks := by
  rw [State.call]
  split_ifs with hfree
  swap
  · exact h
  have hclients : ∀ d, ((s.count c).setClient c (.entering (.call (s.nextTask c)))).clients d =
      if d = c then .entering (.call (s.nextTask c)) else s.clients d := fun d =>
    Function.update_apply _ _ _ _
  refine ⟨fun t ht => ?_, h.ordered, fun d t hunrun => ?_, h.fresh, h.located, h.posted, h.due,
    h.returned, fun tasks htasks => ?_⟩
  · exact Nat.lt_of_lt_of_le (h.numbered t ht) (calls_le_count s c t.client)
  · change _ ∧ _ = (s.count c).calls d ∧ _
    unfold Unrun at hunrun
    rw [hclients] at hunrun
    rw [count_calls]
    by_cases hdc : d = c
    · rw [if_pos hdc] at hunrun ⊢
      have ht : t = s.nextTask c := by
        rcases hunrun with hpc | hpc | ⟨hpc, -⟩
        · exact (SyncTask.call.inj (ClientPc.entering.inj hpc)).symm
        · cases hpc
        · cases hpc
      rw [ht, hdc]
      refine ⟨rfl, rfl, fun u hu hclient => ?_⟩
      have hnumber := h.numbered u hu
      rwa [hclient] at hnumber
    · rw [if_neg hdc] at hunrun ⊢
      exact h.unrun d t hunrun
  · exact (h.before tasks htasks).of_sameWorker ⟨rfl, rfl, rfl, rfl, rfl⟩ (List.Subset.refl _)

theorem Tasks.destroy (h : s.Tasks) (hprotocol : s.Protocol) (c : κ) : (s.destroy c).Tasks := by
  rw [State.destroy]
  split_ifs with hfree
  swap
  · exact h
  obtain ⟨hcanceled, htask⟩ := hprotocol.undestroyed hfree.2
  refine h.of_clients rfl rfl rfl rfl rfl (fun d t hunrun => ?_) rfl h.returned ?_
  · unfold Unrun at hunrun
    change Function.update s.clients c (ClientPc.entering .destroy) d = _ ∨
      Function.update s.clients c (ClientPc.entering .destroy) d = _ ∨
        Function.update s.clients c (ClientPc.entering .destroy) d = _ ∧ _ at hunrun
    rw [update_clients] at hunrun
    split_ifs at hunrun with hdc
    · rcases hunrun with hpc | hpc | ⟨hpc, -⟩ <;> cases hpc
    · exact hunrun
  · intro tasks htasks
    obtain rfl := Option.some.inj htasks
    refine ⟨List.Subset.refl _, fun hpc => ?_, fun hc => ?_⟩
    · obtain ⟨-, d, hd⟩ := hprotocol.draining hpc
      exact absurd (by rw [hd]; rfl) (htask d)
    · exact Bool.noConfusion (hcanceled.symm.trans hc)

/-- A client goes on, and its task stays as it is. -/
theorem Tasks.setClient (h : s.Tasks) (pc : ClientPc κ)
    (hclients : s'.clients = Function.update s.clients c pc) (hline : s'.line = s.line)
    (hasync : s'.asyncTasks = s.asyncTasks) (hcalls : s'.calls = s.calls)
    (hsync : s'.syncTask = s.syncTask) (hsame : s'.SameWorker s) (hposted : s'.posted = s.posted)
    (hbefore : s'.before = s.before) (hreturned : ∀ t ∈ s'.returned, t ∈ s.log)
    (hpc : ∀ t, pc = .entering (.call t) ∨ pc = .owning (.call t) ∨ pc = .waiting (.call t) →
      s.clients c = .entering (.call t)) : s'.Tasks := by
  refine h.of_clients hline hasync hcalls hsync hsame.worker (fun d t hunrun => ?_) hposted ?_ ?_
  · unfold Unrun at hunrun
    rw [hclients, update_clients, Due, hsync, hsame.worker] at hunrun
    split_ifs at hunrun with hdc
    · rw [hdc]
      exact .inl (hpc t (hunrun.imp_right (Or.imp_right And.left)))
    · exact hunrun
  · intro t ht
    rw [hsame.log]
    exact hreturned t ht
  · intro tasks htasks
    refine (h.before tasks (hbefore ▸ htasks)).of_sameWorker hsame ?_
    rw [hposted]
    exact List.Subset.refl _

/-- The client sets its task. -/
theorem Tasks.setTask (h : s.Tasks) (hprotocol : s.Protocol) {t : SyncTask κ}
    (hpc : s.clients c = .owning t) (hholds : s.worker.holds = false) :
    ({ s.setClient c (.waiting t) with
      syncTask := some t
      posted := s.posted ++ postedTask t } : State κ).Tasks := by
  obtain ⟨hquiet, -⟩ := hprotocol.at_of_owns hpc trivial
  have hmtx := hprotocol.owner c (by rw [hpc]; trivial)
  have hnot : ∀ {pc : WorkerPc}, pc.holds = true → s.worker ≠ pc := by
    rintro pc hpc' rfl
    exact Bool.noConfusion (hholds.symm.trans hpc')
  have hmem : ∀ {u}, u ∈ s.posted ++ postedTask t ↔ u ∈ s.posted ∨ t = .call u := by
    intro u
    rw [List.mem_append]
    refine or_congr_right ?_
    cases t with
    | call v => exact List.mem_singleton.trans ⟨fun huv => by rw [huv], fun huv => by cases huv; rfl⟩
    | construct => exact iff_of_false List.not_mem_nil fun heq => by cases heq
    | destroy => exact iff_of_false List.not_mem_nil fun heq => by cases heq
  refine ⟨h.numbered, h.ordered, fun d u hunrun => ?_, fun u _ hrunning => ?_, fun u hu => ?_,
    fun u hu => hmem.2 (.inl (h.posted u hu)), fun u hu => hmem.2 (.inr (Option.some.inj hu)),
    h.returned, fun tasks htasks => ?_⟩
  · unfold Unrun at hunrun
    change Function.update s.clients c (.waiting t) d = _ ∨
      Function.update s.clients c (.waiting t) d = _ ∨
        Function.update s.clients c (.waiting t) d = _ ∧ _ at hunrun
    rw [update_clients] at hunrun
    split_ifs at hunrun with hdc
    · rcases hunrun with hpc' | hpc' | ⟨hpc', -⟩
      · cases hpc'
      · cases hpc'
      · rw [hdc]
        exact h.unrun c u (.inr (.inl (hpc.trans (by rw [ClientPc.waiting.inj hpc']))))
    · refine h.unrun d u ?_
      rcases hunrun with hpc' | hpc' | ⟨hpc', -⟩
      · exact .inl hpc'
      · exact .inr (.inl hpc')
      · have hmtx' := hprotocol.owner d (by rw [hpc']; trivial)
        exact absurd (Option.some.inj (hmtx'.symm.trans hmtx)) hdc
  · rcases hrunning with hrunning | hrunning
    · exact absurd hrunning (hnot rfl)
    · exact absurd hrunning (hnot rfl)
  · rcases hmem.1 hu with hu | hu
    · refine (h.located u hu).imp_right fun hdue => ?_
      exact absurd (hquiet.syncTask.symm.trans hdue.1) (Option.some_ne_none _).symm
    · exact .inr ⟨congrArg some hu, hnot rfl⟩
  · exact (h.before tasks htasks).of_sameWorker ⟨rfl, rfl, rfl, rfl, rfl⟩
      (List.subset_append_left _ _)

theorem Tasks.clientStep (h : s.Tasks) (hprotocol : s.Protocol) (c : κ) :
    (s.clientStep c).Tasks := by
  rw [State.clientStep]
  cases hpc : s.clients c with
  | idle => exact h
  | entering t =>
      dsimp only
      split_ifs
      · refine h.setClient (.owning t) rfl rfl rfl rfl rfl ⟨rfl, rfl, rfl, rfl, rfl⟩ rfl rfl
          h.returned fun u hu => ?_
        rcases hu with hu | hu | hu
        · cases hu
        · rw [hpc, ClientPc.owning.inj hu]
        · cases hu
      · exact h
  | owning t =>
      obtain ⟨-, hdone⟩ := hprotocol.at_of_owns hpc trivial
      dsimp only
      split_ifs with hholds hdone'
      · exact h
      · exact absurd hdone' (by rw [hdone]; decide)
      · exact h.setTask hprotocol hpc (Bool.eq_false_iff.2 hholds)
  | waiting t =>
      dsimp only
      split_ifs
      · exact h
      · exact h.setClient (.finishing t) rfl rfl rfl rfl rfl ⟨rfl, rfl, rfl, rfl, rfl⟩ rfl rfl
          h.returned fun u hu => by rcases hu with hu | hu | hu <;> cases hu
  | finishing t =>
      exact h.setClient (.leaving t) rfl rfl rfl rfl rfl ⟨rfl, rfl, rfl, rfl, rfl⟩ rfl rfl
        h.returned fun u hu => by rcases hu with hu | hu | hu <;> cases hu
  | leaving t =>
      have hran := (hprotocol.at_of_owns hpc trivial).2.2
      cases t with
      | construct =>
          exact h.setClient .idle rfl rfl rfl rfl rfl ⟨rfl, rfl, rfl, rfl, rfl⟩ rfl rfl
            h.returned fun u hu => by rcases hu with hu | hu | hu <;> cases hu
      | call t =>
          refine h.setClient .idle rfl rfl rfl rfl rfl ⟨rfl, rfl, rfl, rfl, rfl⟩ rfl rfl
            (fun u hu => ?_) fun u hu => by rcases hu with hu | hu | hu <;> cases hu
          rcases List.mem_append.1 hu with hu | hu
          · exact h.returned u hu
          · rw [List.mem_singleton.1 hu]
            exact hran
      | destroy =>
          exact h.setClient .joining rfl rfl rfl rfl rfl ⟨rfl, rfl, rfl, rfl, rfl⟩ rfl rfl
            h.returned fun u hu => by rcases hu with hu | hu | hu <;> cases hu
  | joining =>
      dsimp only
      split_ifs
      · exact h.setClient .idle rfl rfl rfl rfl rfl ⟨rfl, rfl, rfl, rfl, rfl⟩ rfl rfl
          h.returned fun u hu => by rcases hu with hu | hu | hu <;> cases hu
      · exact h

/-! ### Runs -/

/-- What holds after every run. -/
structure Inv (s : State κ) : Prop where
  protocol : s.Protocol
  tasks : s.Tasks

theorem Inv.step (h : s.Inv) (e : Event κ) : (s.step e).Inv := by
  refine ⟨h.protocol.step e, ?_⟩
  cases e with
  | post c => exact h.tasks.post h.protocol c
  | call c => exact h.tasks.callStep c
  | destroy c => exact h.tasks.destroy h.protocol c
  | client c => exact h.tasks.clientStep h.protocol c
  | worker => exact h.tasks.work h.protocol (State.work s)

theorem inv_make (maker : κ) : (make maker).Inv := by
  refine ⟨protocol_make maker, ?_⟩
  have hnil : ∀ {t : Task κ} {P : Prop}, t ∈ [] → P := fun ht => (List.not_mem_nil ht).elim
  refine ⟨fun _ => hnil, List.Pairwise.nil, fun c t hunrun => ?_, fun _ ht => ?_, fun _ => hnil,
    fun _ => hnil, fun _ ht => ?_, fun _ => hnil, fun _ ht => ?_⟩
  · unfold Unrun at hunrun
    rw [clients_make] at hunrun
    split_ifs at hunrun <;> rcases hunrun with hpc | hpc | ⟨hpc, -⟩ <;> cases hpc
  · cases ht
  · cases ht
  · cases ht

theorem Inv.run (h : s.Inv) (es : List (Event κ)) : (s.run es).Inv := by
  induction es generalizing s with
  | nil => exact h
  | cons e es ih => exact ih (h.step e)

end State
end ThreadedWrapper
end LibSwitcher
