/-
# Every task of a threaded wrapper is run

A task that is posted before the destructor is called has a distance from being run: how far
the worker is from the next exchange of the tasks, or how many tasks it has to run before
(`State.delay`).  Every step of the worker makes it smaller, and no step of a client changes it.
So the task is run in every run in which the worker goes on again and again, as it does because
its waits are timed (`exists_mem_log`).  With what holds in every state that is reached this is
what a wrapper is for (`serves`).
-/

import LibSwitcher.Lib.FairRuns
import LibSwitcher.Utils.ThreadedWrapperTasks
import Mathlib.Data.Prod.Lex

namespace LibSwitcher
namespace ThreadedWrapper

variable {κ : Type}

/-- How far the worker is from the next exchange. -/
def WorkerPc.distance : WorkerPc → ℕ
  | .running => 8
  | .syncing => 7
  | .clearing => 6
  | .notifying => 5
  | .waiting => 4
  | .check => 3
  | .locking => 2
  | .swapping => 1
  | .draining | .exited => 0

namespace State

variable [DecidableEq κ] {s s' : State κ} {t : Task κ}

instance decidableDue (s : State κ) (t : Task κ) : Decidable (s.Due t) :=
  inferInstanceAs (Decidable (_ ∧ _))

/-- How far a task is from being run: a synchronous one that the worker comes to in this round, one
that it has taken, or another one. -/
def delay (t : Task κ) (s : State κ) : ℕ × ℕ :=
  if s.Due t ∧ s.worker = .running then (0, s.tasksToDo.length + 1)
  else if s.Due t ∧ s.worker = .syncing then (0, 0)
  else if t ∈ s.tasksToDo then (0, s.tasksToDo.length)
  else (s.worker.distance, s.tasksToDo.length)

/-- A task that the worker is to run: it was posted, before the destructor was called, and was not
run. -/
structure Pending (t : Task κ) (s : State κ) : Prop where
  inv : s.Inv
  posted : t ∈ s.posted
  before : ∀ tasks ∈ s.before, t ∈ tasks
  log : t ∉ s.log

/-! ### Steps of the clients -/

/-- What a step of a client leaves as it is. -/
structure ClientStep (s s' : State κ) : Prop where
  worker : s'.SameWorker s
  posted : s.posted ⊆ s'.posted
  before : ∀ tasks ∈ s'.before, tasks ∈ s.before ∨ tasks = s.posted
  syncTask : s.worker.holds = true → s'.syncTask = s.syncTask

omit [DecidableEq κ] in
theorem ClientStep.refl (s : State κ) : ClientStep s s :=
  ⟨⟨rfl, rfl, rfl, rfl, rfl⟩, List.Subset.refl _, fun _ => .inl, fun _ => rfl⟩

theorem clientStep_step (s : State κ) {e : Event κ} (he : e ≠ .worker) : ClientStep s (s.step e) := by
  have hsame : ∀ {s'}, s'.SameWorker s → s'.posted = s.posted → s'.before = s.before →
      s'.syncTask = s.syncTask → ClientStep s s' := fun hworker hposted hbefore hsync =>
    ⟨hworker, hposted ▸ List.Subset.refl _, fun _ htasks => .inl (hbefore ▸ htasks), fun _ => hsync⟩
  cases e with
  | worker => exact absurd rfl he
  | post c =>
      rw [step, State.post]
      split_ifs
      · exact ⟨⟨rfl, rfl, rfl, rfl, rfl⟩, List.subset_append_left _ _, fun _ => .inl, fun _ => rfl⟩
      · exact .refl s
  | call c =>
      rw [step, State.call]
      split_ifs
      · exact hsame ⟨rfl, rfl, rfl, rfl, rfl⟩ rfl rfl rfl
      · exact .refl s
  | destroy c =>
      rw [step, State.destroy]
      split_ifs
      · exact ⟨⟨rfl, rfl, rfl, rfl, rfl⟩, List.Subset.refl _,
          fun _ htasks => .inr (Option.some.inj htasks).symm, fun _ => rfl⟩
      · exact .refl s
  | client c =>
      rw [step, State.clientStep]
      cases s.clients c with
      | idle => exact .refl s
      | entering t =>
          dsimp only
          split_ifs
          · exact hsame ⟨rfl, rfl, rfl, rfl, rfl⟩ rfl rfl rfl
          · exact .refl s
      | owning t =>
          dsimp only
          split_ifs with hholds
          · exact .refl s
          all_goals
            exact ⟨⟨rfl, rfl, rfl, rfl, rfl⟩, List.subset_append_left _ _, fun _ => .inl,
              fun hholds' => absurd hholds' hholds⟩
      | waiting t =>
          dsimp only
          split_ifs
          · exact .refl s
          · exact hsame ⟨rfl, rfl, rfl, rfl, rfl⟩ rfl rfl rfl
      | finishing t => exact hsame ⟨rfl, rfl, rfl, rfl, rfl⟩ rfl rfl rfl
      | leaving t => cases t <;> exact hsame ⟨rfl, rfl, rfl, rfl, rfl⟩ rfl rfl rfl
      | joining =>
          dsimp only
          split_ifs
          · exact hsame ⟨rfl, rfl, rfl, rfl, rfl⟩ rfl rfl rfl
          · exact .refl s

/-- A step of a client leaves the distance as it is. -/
theorem ClientStep.delay_eq (h : ClientStep s s') (t : Task κ) : delay t s' = delay t s := by
  have hdue : ∀ {pc : WorkerPc}, pc.holds = true →
      (s'.Due t ∧ s.worker = pc ↔ s.Due t ∧ s.worker = pc) := by
    intro pc hpc
    rw [Due, Due, h.worker.worker]
    refine and_congr_left fun hworker => ?_
    rw [h.syncTask (hworker ▸ hpc)]
  have hrunning := hdue (show WorkerPc.running.holds = true from rfl)
  have hsyncing := hdue (show WorkerPc.syncing.holds = true from rfl)
  simp only [delay, h.worker.worker, h.worker.tasksToDo, hrunning, hsyncing]

theorem Pending.clientStep (h : Pending t s) {e : Event κ} (he : e ≠ .worker) :
    Pending t (s.step e) := by
  have heffect := clientStep_step s he
  refine ⟨h.inv.step e, heffect.posted h.posted, fun tasks htasks => ?_, ?_⟩
  · rcases heffect.before tasks htasks with htasks | rfl
    · exact h.before tasks htasks
    · exact h.posted
  · rw [heffect.worker.log]
    exact h.log

/-! ### Steps of the worker -/

/-- The distance while the worker has no tasks. -/
theorem delay_of_empty (hdue : ¬s.Due t ∨ (s.worker ≠ .running ∧ s.worker ≠ .syncing))
    (htodo : s.tasksToDo = []) : delay t s = (s.worker.distance, 0) := by
  have hrunning : ¬(s.Due t ∧ s.worker = .running) := fun h =>
    hdue.elim (fun hdue => hdue h.1) fun hpc => hpc.1 h.2
  have hsyncing : ¬(s.Due t ∧ s.worker = .syncing) := fun h =>
    hdue.elim (fun hdue => hdue h.1) fun hpc => hpc.2 h.2
  rw [delay, if_neg hrunning, if_neg hsyncing, htodo, if_neg List.not_mem_nil]
  rfl

/-- A task that the worker has in this round is not far. -/
theorem delay_of_taken (h : s.Due t ∧ s.worker = .running ∨ t ∈ s.tasksToDo) :
    (delay t s).1 = 0 := by
  rw [delay]
  split_ifs with hrunning hsyncing htodo
  · rfl
  · rfl
  · rfl
  · exact absurd h (not_or.2 ⟨hrunning, htodo⟩)

omit [DecidableEq κ] in
/-- The worker has not come to the end while a task is pending. -/
theorem Pending.canceled (h : Pending t s) : s.canceled = false := by
  cases hbefore : s.before with
  | none => exact (h.inv.protocol.undestroyed hbefore).1
  | some tasks =>
      refine Bool.eq_false_iff.2 fun hcanceled => h.log ?_
      exact (h.inv.tasks.before tasks hbefore).canceled hcanceled t (h.before tasks hbefore)

omit [DecidableEq κ] in
/-- A pending task is due, or the worker has it, or it waits. -/
theorem Pending.cases (h : Pending t s) : s.Due t ∨ t ∈ s.tasksToDo ∨ t ∈ s.asyncTasks := by
  rcases h.inv.tasks.located t h.posted with hline | hdue
  · rw [line, List.append_assoc, List.mem_append, List.mem_append] at hline
    exact .inr (hline.resolve_left h.log)
  · exact .inl hdue

omit [DecidableEq κ] in
/-- Either the task is run in a step, or it is still pending. -/
theorem Pending.work (h : Pending t s) (hwork : Work s s') (hlog : t ∉ s'.log) : Pending t s' where
  inv := ⟨h.inv.protocol.work hwork, h.inv.tasks.work h.inv.protocol hwork⟩
  posted := by
    rw [hwork.sameClients.posted]
    exact h.posted
  before tasks htasks := h.before tasks (hwork.sameClients.before ▸ htasks)
  log := hlog

/-- The worker comes closer to a pending task with every step. -/
theorem Pending.delay_lt (h : Pending t s) (hwork : Work s s') (hlog : t ∉ s'.log) :
    Prod.Lex (· < ·) (· < ·) (delay t s') (delay t s) := by
  have hcanceled := h.canceled
  have hempty : ∀ {pc}, s.worker = pc → pc ≠ .running → pc ≠ .draining → s.tasksToDo = [] :=
    fun hpc hr hd => h.inv.protocol.loop.tasksToDo (hpc ▸ hr) (hpc ▸ hd)
  have hmoves : ∀ pc pc' : WorkerPc, s.worker = pc → s'.worker = pc' →
      (¬s.Due t ∨ pc ≠ .running ∧ pc ≠ .syncing) → pc' ≠ .running ∧ pc' ≠ .syncing →
      s.tasksToDo = [] → s'.tasksToDo = [] → pc'.distance < pc.distance →
      Prod.Lex (· < ·) (· < ·) (delay t s') (delay t s) := by
    rintro pc pc' rfl rfl hdue hdue' htodo htodo' hlt
    rw [delay_of_empty hdue htodo, delay_of_empty (.inr hdue') htodo']
    exact Prod.Lex.left _ _ hlt
  cases hwork with
  | exit hpc hc => exact Bool.noConfusion (hcanceled.symm.trans hc)
  | lock hpc hc =>
      have htodo := hempty hpc (by decide) (by decide)
      exact hmoves .check .locking hpc rfl (.inr (by decide)) (by decide) htodo htodo (by decide)
  | enter hpc =>
      have htodo := hempty hpc (by decide) (by decide)
      exact hmoves .locking .swapping hpc rfl (.inr (by decide)) (by decide) htodo htodo (by decide)
  | swap hpc =>
      have htodo := hempty hpc (by decide) (by decide)
      have htaken : (delay t { s.swapTasks with worker := .running }).1 = 0 := by
        refine delay_of_taken ?_
        rcases h.cases with hdue | hmem | hmem
        · exact .inl ⟨⟨hdue.1, WorkerPc.noConfusion⟩, rfl⟩
        · rw [htodo] at hmem
          exact absurd hmem List.not_mem_nil
        · exact .inr hmem
      rw [delay_of_empty (.inr (by rw [hpc]; decide)) htodo, hpc]
      exact Prod.lex_def.2 (.inl (by rw [htaken]; decide))
  | task hpc u ts htodo =>
      have hlog' : t ≠ u := fun heq => hlog (List.mem_append_right _ (List.mem_singleton.2 heq))
      have hmem : t ∈ s.tasksToDo ↔ t ∈ ts := by
        rw [htodo, List.mem_cons]
        exact or_iff_right hlog'
      have hsyncing : s.worker ≠ .syncing := by
        rcases hpc with hpc | hpc <;> rw [hpc] <;> decide
      have hlen : ts.length < s.tasksToDo.length := by
        rw [htodo, List.length_cons]
        exact Nat.lt_succ_self _
      have hdelay : delay t { s with tasksToDo := ts, log := s.log ++ [u] } =
          if s.Due t ∧ s.worker = .running then (0, ts.length + 1)
          else if s.Due t ∧ s.worker = .syncing then (0, 0)
          else if t ∈ ts then (0, ts.length)
          else (s.worker.distance, ts.length) := rfl
      rw [hdelay, delay]
      by_cases hrunning : s.Due t ∧ s.worker = .running
      · rw [if_pos hrunning, if_pos hrunning]
        exact Prod.Lex.right _ (Nat.succ_lt_succ hlen)
      · have hnot : ¬(s.Due t ∧ s.worker = .syncing) := fun hdue => hsyncing hdue.2
        rw [if_neg hrunning, if_neg hrunning, if_neg hnot, if_neg hnot]
        by_cases hts : t ∈ ts
        · rw [if_pos hts, if_pos (hmem.2 hts)]
          exact Prod.Lex.right _ hlen
        · rw [if_neg hts, if_neg (fun hin => hts (hmem.1 hin))]
          exact Prod.Lex.right _ hlen
  | ran hpc htodo =>
      by_cases hdue : s.Due t
      · rw [delay, if_neg (fun h => WorkerPc.noConfusion h.2),
          if_pos ⟨⟨hdue.1, WorkerPc.noConfusion⟩, rfl⟩, delay, if_pos ⟨hdue, hpc⟩]
        exact Prod.Lex.right _ (Nat.succ_pos _)
      · have hdue' : ¬({ s with worker := .syncing } : State κ).Due t := fun h' =>
          hdue ⟨h'.1, by rw [hpc]; decide⟩
        rw [delay_of_empty (.inl hdue) htodo, delay_of_empty (.inl hdue') htodo, hpc]
        exact Prod.Lex.left _ _ (show WorkerPc.syncing.distance < _ by decide)
  | skip hpc hsync =>
      have htodo := hempty hpc (by decide) (by decide)
      have hdue : ¬s.Due t := fun hdue => by cases hsync.symm.trans hdue.1
      exact hmoves .syncing .waiting hpc rfl (.inl hdue) (by decide) htodo htodo (by decide)
  | construct hpc hsync =>
      have htodo := hempty hpc (by decide) (by decide)
      have hdue : ¬s.Due t := fun hdue => by cases hsync.symm.trans hdue.1
      exact hmoves .syncing .clearing hpc rfl (.inl hdue) (by decide) htodo htodo (by decide)
  | call hpc u hsync =>
      have htodo := hempty hpc (by decide) (by decide)
      have hdue : ¬s.Due t := by
        rintro ⟨hsync', -⟩
        refine hlog (List.mem_append_right _ (List.mem_singleton.2 ?_))
        exact SyncTask.call.inj (Option.some.inj (hsync'.symm.trans hsync))
      exact hmoves .syncing .clearing hpc rfl (.inl hdue) (by decide) htodo htodo (by decide)
  | drain hpc hsync =>
      have htodo := hempty hpc (by decide) (by decide)
      have hdue : ¬s.Due t := fun hdue => by cases hsync.symm.trans hdue.1
      have htaken : (delay t { s.swapTasks with worker := .draining }).1 = 0 := by
        refine delay_of_taken (.inr ?_)
        rcases h.cases with hdue' | hmem | hmem
        · exact absurd hdue' hdue
        · rw [htodo] at hmem
          exact absurd hmem List.not_mem_nil
        · exact hmem
      rw [delay_of_empty (.inl hdue) htodo, hpc]
      exact Prod.lex_def.2 (.inl (by rw [htaken]; decide))
  | reset hpc htodo =>
      obtain ⟨-, c, hwaiting⟩ := h.inv.protocol.draining hpc
      cases hbefore : s.before with
      | none => exact absurd (by rw [hwaiting]; rfl) ((h.inv.protocol.undestroyed hbefore).2 c)
      | some tasks =>
          have hmem := (h.inv.tasks.before tasks hbefore).draining hpc t (h.before tasks hbefore)
          rw [htodo] at hmem
          exact absurd (hmem.resolve_left h.log) List.not_mem_nil
  | clear hpc =>
      have htodo := hempty hpc (by decide) (by decide)
      exact hmoves .clearing .notifying hpc rfl (.inr (by decide)) (by decide) htodo htodo
        (by decide)
  | notify hpc =>
      have htodo := hempty hpc (by decide) (by decide)
      exact hmoves .notifying .waiting hpc rfl (.inr (by decide)) (by decide) htodo htodo (by decide)
  | wake hpc =>
      have htodo := hempty hpc (by decide) (by decide)
      exact hmoves .waiting .check hpc rfl (.inr (by decide)) (by decide) htodo htodo (by decide)
  | stay hpc =>
      exact Bool.noConfusion (hcanceled.symm.trans (h.inv.protocol.loop.exited hpc))

/-! ### Runs -/

/-- **A task that is posted before the destructor is called is run** in every run in which the worker
goes on again and again. -/
theorem Pending.exists_mem_log (h : Pending t s) {schedule : ℕ → Event κ}
    (hfair : Machine.Recurs (· = .worker) schedule) :
    ∃ n, t ∈ (Machine.follow step s schedule n).log := by
  refine Machine.eventually_of_measure (P := Pending t) (Q := fun s => t ∈ s.log)
    (WellFounded.prod_lex wellFounded_lt wellFounded_lt) (delay t) (fun s e hs => ?_) hfair h
  by_cases he : e = .worker
  · rw [he]
    by_cases hlog : t ∈ (s.step .worker).log
    · exact .inl hlog
    · exact .inr ⟨hs.work (State.work s) hlog, .inl (hs.delay_lt (State.work s) hlog)⟩
  · exact .inr ⟨hs.clientStep he, .inr ⟨(clientStep_step s he).delay_eq t, he⟩⟩

/-- What a wrapper is for, in a state that is reached: no task was run twice, and only tasks that were
posted; those of a thread in the order in which it posted them; the task of a synchronous call
that has returned, and what its caller had posted before; and at the end everything that was
posted before the destructor was called. -/
structure Serves (s : State κ) : Prop where
  once : s.log.Nodup
  posted : s.log ⊆ s.posted
  ordered : s.log.Pairwise Task.Precedes
  returned : ∀ t ∈ s.returned, t ∈ s.log ∧
    ∀ u ∈ s.posted, u.client = t.client → u.number < t.number → u ∈ s.log
  ended : s.worker = .exited → ∀ tasks ∈ s.before, tasks ⊆ s.log

omit [DecidableEq κ] in
theorem log_subset_line (s : State κ) : s.log ⊆ s.line := by
  rw [line, List.append_assoc]
  exact List.subset_append_left _ _

omit [DecidableEq κ] in
/-- A task before one that was run was run too. -/
theorem Tasks.mem_log_of_lt (h : s.Tasks) (hprotocol : s.Protocol) (ht : t ∈ s.log) {u : Task κ}
    (hu : u ∈ s.posted) (hclient : u.client = t.client) (hlt : u.number < t.number) :
    u ∈ s.log := by
  have hnot : ¬t.number < u.number := Nat.not_lt_of_lt hlt
  have hordered := h.ordered
  rw [line, List.append_assoc, List.pairwise_append] at hordered
  rcases h.located u hu with hline | hdue
  · rw [line, List.append_assoc] at hline
    rcases List.mem_append.1 hline with hlog | hlater
    · exact hlog
    · exact absurd (hordered.2.2 t ht u hlater hclient.symm) hnot
  · obtain ⟨-, hlast, -⟩ := h.of_due hprotocol hdue
    exact absurd (hlast t (log_subset_line s ht) hclient.symm) hnot

omit [DecidableEq κ] in
/-- The tasks that were run are in order. -/
theorem Tasks.ordered_log (h : s.Tasks) : s.log.Pairwise Task.Precedes := by
  have hordered := h.ordered
  rw [line, List.append_assoc, List.pairwise_append] at hordered
  exact hordered.1

omit [DecidableEq κ] in
theorem Inv.servesState (h : s.Inv) : s.Serves where
  once := h.tasks.ordered_log.imp fun {t u} hprecedes heq => by
    rw [heq] at hprecedes
    exact Nat.lt_irrefl _ (hprecedes rfl)
  posted t ht := h.tasks.posted t (log_subset_line s ht)
  ordered := h.tasks.ordered_log
  returned t ht := ⟨h.tasks.returned t ht, fun u hu hclient hlt =>
    h.tasks.mem_log_of_lt h.protocol (h.tasks.returned t ht) hu hclient hlt⟩
  ended hpc tasks htasks t ht :=
    (h.tasks.before tasks htasks).canceled (h.protocol.loop.exited hpc) t ht

omit [DecidableEq κ] in
/-- After the object is destroyed the worker only goes to its end. -/
theorem Loop.log_work (h : s.Loop) (hcanceled : s.canceled = true) (hwork : Work s s') :
    s'.canceled = true ∧ s'.log = s.log := by
  have hnot : ∀ {pc : WorkerPc}, s.worker = pc → pc.ends = false → False := fun hpc hpc' =>
    Bool.noConfusion ((hpc ▸ hpc').symm.trans (h.canceled hcanceled))
  cases hwork with
  | exit => exact ⟨hcanceled, rfl⟩
  | lock hpc hc => exact Bool.noConfusion (hcanceled.symm.trans hc)
  | enter hpc => exact (hnot hpc rfl).elim
  | swap hpc => exact (hnot hpc rfl).elim
  | task hpc => exact (hpc.elim (hnot · rfl) (hnot · rfl)).elim
  | ran hpc => exact (hnot hpc rfl).elim
  | skip hpc => exact (hnot hpc rfl).elim
  | construct hpc => exact (hnot hpc rfl).elim
  | call hpc => exact (hnot hpc rfl).elim
  | drain hpc => exact (hnot hpc rfl).elim
  | reset hpc => exact (hnot hpc rfl).elim
  | clear => exact ⟨hcanceled, rfl⟩
  | notify => exact ⟨hcanceled, rfl⟩
  | wake => exact ⟨hcanceled, rfl⟩
  | stay => exact ⟨hcanceled, rfl⟩

/-- After the object is destroyed nothing is run. -/
theorem Inv.log_step (h : s.Inv) (hcanceled : s.canceled = true) (e : Event κ) :
    (s.step e).canceled = true ∧ (s.step e).log = s.log := by
  by_cases he : e = .worker
  · rw [he]
    exact h.protocol.loop.log_work hcanceled (State.work s)
  · have hsame := (clientStep_step s he).worker
    exact ⟨hsame.canceled.trans hcanceled, hsame.log⟩

theorem Inv.log_run (h : s.Inv) (hreset : s.member = .reset) (es : List (Event κ)) :
    (s.run es).log = s.log := by
  have hcanceled := h.protocol.loop.member hreset
  clear hreset
  induction es generalizing s with
  | nil => rfl
  | cons e es ih =>
      obtain ⟨hcanceled', hlog⟩ := h.log_step hcanceled e
      exact (ih (h.step e) hcanceled').trans hlog

/-- **A wrapper runs everything once and in order**, in any order of the steps of its clients and of
its worker: every state that is reached is as it should be, nothing is run after the object
was destroyed, and every task that was posted, before the destructor was called if it was, is run
if the worker goes on again and again. -/
theorem serves (maker : κ) (es : List (Event κ)) :
    ((make maker).run es).Serves ∧
      (((make maker).run es).member = .reset →
        ∀ es', (((make maker).run es).run es').log = ((make maker).run es).log) ∧
      ∀ t ∈ ((make maker).run es).posted, (∀ tasks ∈ ((make maker).run es).before, t ∈ tasks) →
        ∀ schedule, Machine.Recurs (· = .worker) schedule →
          t ∈ ((make maker).run es).log ∨
            ∃ n, t ∈ (Machine.follow step ((make maker).run es) schedule n).log := by
  have hinv := (inv_make maker).run es
  refine ⟨hinv.servesState, hinv.log_run, fun t ht hbefore schedule hfair => ?_⟩
  by_cases hlog : t ∈ ((make maker).run es).log
  · exact .inl hlog
  · exact .inr (Pending.exists_mem_log ⟨hinv, ht, hbefore, hlog⟩ hfair)

end State
end ThreadedWrapper
end LibSwitcher
