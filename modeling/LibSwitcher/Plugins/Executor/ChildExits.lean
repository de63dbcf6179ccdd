/-
# Exits of the children of several executors

The handler of `SIGCHLD` sets one flag for all the executors of a process, and the executor that
reaps its child first clears it.  An exit is noticed while the flag is set (`Noticed`): the
task of the executor then reaps the child, and starts the command line again or sets `started`.  In a
run of any number of executors every exit is always noticed if and only if a child is only
reaped while no child of another executor has exited (`noticed_iff`).
-/

import LibSwitcher.Plugins.Executor.Executor
import Mathlib.Logic.Function.Basic
import Mathlib.Tactic.SplitIfs

namespace LibSwitcher
namespace Executor

/-- A child has exited and is not reaped. -/
def HasExited (e : Executor) : Prop := ∃ c ∈ e.children, c.exited = true

/-- An executor has one child at most, of which it knows the number. -/
def Tracked (e : Executor) : Prop :=
  e.children = [] ∨ ∃ c, e.children = [c] ∧ c.pid = e.childPid ∧ 0 < e.childPid

variable {e e' e'' : Executor} {p : Platform}

/-! ### What the functions do with the children -/

/-- The effect of a function on the children: they are kept with their numbers, or, where there
is none, the number becomes another one, or a child is launched. -/
inductive Moves (e e' : Executor) : Prop
  | kept (g : Child → Child) (hg : ∀ c, (g c).pid = c.pid ∧ (g c).exited = c.exited)
      (hpid : e'.childPid = e.childPid) (hchildren : e'.children = e.children.map g)
  | left (hpid : e.childPid = 0) (hchildren : e'.children = e.children)
  | launched (pid : ℕ) (hpos : 0 < pid) (hpid : e.childPid = 0) (hpid' : e'.childPid = pid)
      (hchildren : e'.children = ⟨pid, false, false⟩ :: e.children)

/-- Only the number and the children count. -/
theorem Moves.congr (h : Moves e e') (hpid : e''.childPid = e'.childPid)
    (hchildren : e''.children = e'.children) : Moves e e'' := by
  cases h with
  | kept g hg hpid' hchildren' =>
      exact .kept g hg (hpid.trans hpid') (hchildren.trans hchildren')
  | left hzero hchildren' => exact .left hzero (hchildren.trans hchildren')
  | launched pid hpos hzero hpid' hchildren' =>
      exact .launched pid hpos hzero (hpid.trans hpid') (hchildren.trans hchildren')

theorem moves_of_eq (hpid : e'.childPid = e.childPid) (hchildren : e'.children = e.children) :
    Moves e e' :=
  .kept id (fun _ => ⟨rfl, rfl⟩) hpid (by rw [hchildren, List.map_id])

theorem moves_start (p : Platform) (e : Executor) : Moves e (e.start p).1 := by
  unfold start
  split_ifs with hcan
  · cases p.spawn with
    | none => exact .left hcan.1 rfl
    | some pid => exact .launched pid pid.2 hcan.1 rfl rfl
  · exact moves_of_eq rfl rfl

theorem moves_stop (e : Executor) : Moves e e.stop := by
  unfold stop
  split_ifs
  · refine .kept _ (fun c => ?_) rfl rfl
    split_ifs <;> exact ⟨rfl, rfl⟩
  · exact moves_of_eq rfl rfl

theorem moves_setStarted (p : Platform) (val : Bool) (e : Executor) :
    Moves e (e.setStarted p val).1 := by
  unfold setStarted
  split_ifs
  · exact moves_of_eq rfl rfl
  · exact (moves_start p e).congr rfl rfl
  · exact moves_start p e
  · exact (moves_stop e).congr rfl rfl

theorem moves_onChange (e : Executor) : Moves e e.onChange := by
  unfold onChange
  split_ifs
  · exact (moves_stop e).congr rfl rfl
  · exact moves_of_eq rfl rfl

/-- The paths do not matter. -/
theorem childPid_setShmpath (sfidLabel path : String) (e : Executor) :
    (e.setShmpath sfidLabel path).childPid = e.childPid ∧
      (e.setShmpath sfidLabel path).children = e.children := by
  unfold setShmpath
  split_ifs <;> exact ⟨rfl, rfl⟩

theorem moves_of_setShmpath {sfidLabel path : String} (h : Moves (e.setShmpath sfidLabel path) e') :
    Moves e e' := by
  obtain ⟨hpid, hchildren⟩ := childPid_setShmpath sfidLabel path e
  cases h with
  | kept g hg hpid' hchildren' =>
      exact .kept g hg (hpid'.trans hpid) (by rw [hchildren', hchildren])
  | left hzero hchildren' => exact .left (hpid ▸ hzero) (hchildren'.trans hchildren)
  | launched pid hpos hzero hpid' hchildren' =>
      exact .launched pid hpos (hpid ▸ hzero) hpid' (by rw [hchildren', hchildren])

theorem moves_onShmdataConnect (p : Platform) (sfidLabel path : String) (e : Executor) :
    Moves e (e.onShmdataConnect p sfidLabel path).1 := by
  unfold onShmdataConnect
  dsimp only
  split_ifs
  · exact moves_of_setShmpath (moves_onChange _)
  · exact moves_of_setShmpath (moves_start p _)
  · exact moves_of_setShmpath (moves_of_eq rfl rfl)

theorem moves_onShmdataDisconnect (sfidLabel : String) (e : Executor) :
    Moves e (e.onShmdataDisconnect sfidLabel) := by
  unfold onShmdataDisconnect
  dsimp only
  split_ifs
  · exact moves_of_setShmpath (moves_onChange _)
  · exact moves_of_setShmpath (moves_stop _)
  · exact moves_of_setShmpath (moves_of_eq rfl rfl)

theorem moves_afterReap (p : Platform) (e : Executor) : Moves e (e.afterReap p) := by
  unfold afterReap
  split_ifs
  · exact (moves_start p e).congr rfl rfl
  · exact moves_setStarted p false e

/-- The only child stays the only one. -/
theorem Tracked.of_moves (h : e.Tracked) (hmoves : Moves e e') : e'.Tracked := by
  cases hmoves with
  | kept g hg hpid hchildren =>
      rcases h with hnil | ⟨c, hc, hcpid, hpos⟩
      · exact Or.inl (by rw [hchildren, hnil, List.map_nil])
      · exact Or.inr ⟨g c, by rw [hchildren, hc, List.map_singleton],
          ((hg c).1.trans hcpid).trans hpid.symm, hpid ▸ hpos⟩
  | left hzero hchildren =>
      rcases h with hnil | ⟨c, hc, hcpid, hpos⟩
      · exact Or.inl (hchildren.trans hnil)
      · omega
  | launched pid hpos hzero hpid hchildren =>
      rcases h with hnil | ⟨c, hc, hcpid, hpos'⟩
      · exact Or.inr ⟨_, by rw [hchildren, hnil], hpid.symm, hpid ▸ hpos⟩
      · omega

/-- No child exits by itself. -/
theorem HasExited.of_moves (h : e'.HasExited) (hmoves : Moves e e') : e.HasExited := by
  obtain ⟨c, hc, hexited⟩ := h
  cases hmoves with
  | kept g hg hpid hchildren =>
      rw [hchildren] at hc
      obtain ⟨d, hd, rfl⟩ := List.mem_map.1 hc
      exact ⟨d, hd, (hg d).2.symm.trans hexited⟩
  | left hzero hchildren => exact ⟨c, hchildren ▸ hc, hexited⟩
  | launched pid hpos hzero hpid hchildren =>
      rw [hchildren] at hc
      rcases List.mem_cons.1 hc with rfl | hc
      · cases hexited
      · exact ⟨c, hc, hexited⟩

/-! ### The task -/

/-- The command line is started again, or `started` is updated. -/
theorem afterReap_cases (p : Platform) (e : Executor) :
    e.afterReap p = { (e.start p).1 with restart := false } ∨ (e.afterReap p).started = false := by
  unfold afterReap
  split_ifs
  · exact Or.inl rfl
  · refine Or.inr ?_
    unfold setStarted
    split_ifs with hstarted
    · exact hstarted
    · contradiction
    · contradiction
    · rfl

/-- The task reaps the child. -/
def Collects (e : Executor) (childDead : Bool) : Prop :=
  0 < e.childPid ∧ childDead = true ∧ e.Reaps e.childPid

/-- A child that has exited is one that the task reaps, while the flag is set. -/
theorem HasExited.collects (h : e.HasExited) (htracked : e.Tracked) : e.Collects true := by
  obtain ⟨c, hc, hexited⟩ := h
  rcases htracked with hnil | ⟨d, hd, hpid, hpos⟩
  · rw [hnil] at hc
    cases hc
  · rw [hd] at hc
    obtain rfl := List.mem_singleton.1 hc
    exact ⟨hpos, rfl, c, hd ▸ List.mem_singleton_self c, hpid, hexited⟩

/-- No child is left once it was reaped. -/
theorem Tracked.children_reap (h : e.Tracked) : e.reap.children = [] := by
  rcases h with hnil | ⟨c, hc, hpid, -⟩
  · rw [reap, hnil, List.filter_nil]
  · rw [reap, hc]
    simp [hpid]

/-- After the task has reaped the child, none has exited. -/
theorem Tracked.afterReap (h : e.Tracked) (p : Platform) :
    (e.reap.afterReap p).Tracked ∧ ¬(e.reap.afterReap p).HasExited := by
  have hmoves := moves_afterReap p e.reap
  refine ⟨Tracked.of_moves (Or.inl h.children_reap) hmoves, fun hexited => ?_⟩
  obtain ⟨c, hc, -⟩ := hexited.of_moves hmoves
  rw [h.children_reap] at hc
  cases hc

/-- A step in which the task does not reap a child: the flag stays set, and no child has exited
anew without it. -/
structure Harmless (s s' : Executor × Bool) : Prop where
  tracked : s'.1.Tracked
  flag : s.2 = true → s'.2 = true
  exited : s'.1.HasExited → s.1.HasExited ∨ s'.2 = true

theorem harmless_of_moves {s s' : Executor × Bool} (h : s.1.Tracked) (hmoves : Moves s.1 s'.1)
    (hflag : s.2 = true → s'.2 = true) : Harmless s s' :=
  ⟨h.of_moves hmoves, hflag, fun hexited => Or.inl (hexited.of_moves hmoves)⟩

theorem Tracked.exits (h : e.Tracked) (pid : ℕ) : (e.exits pid).Tracked := by
  rcases h with hnil | ⟨c, hc, hpid, hpos⟩
  · exact Or.inl (by rw [Executor.exits, hnil, List.map_nil])
  · refine Or.inr ⟨_, by rw [Executor.exits, hc, List.map_singleton], ?_, hpos⟩
    split_ifs <;> exact hpid

/-- What a step does: one case for each event. -/
theorem step_cases {s : Executor × Bool} {i : Event} {r : (Executor × Bool) × Bool}
    (ht : s.1.Tracked) (hi : i ≠ .childDead false) (h : Executor.step s i = some r) :
    (∃ p, i = .monitorProcess p ∧ s.1.Collects s.2 ∧ r.1 = (s.1.reap.afterReap p, false)) ∨
      (¬((∃ p, i = .monitorProcess p) ∧ s.1.Collects s.2) ∧ Harmless s r.1) := by
  have hother : (∀ p, i ≠ .monitorProcess p) → Harmless s r.1 →
      ¬((∃ p, i = .monitorProcess p) ∧ s.1.Collects s.2) ∧ Harmless s r.1 :=
    fun hne hs => ⟨fun hcollects => hcollects.1.elim fun p hp => hne p hp, hs⟩
  cases i with
  | setCommandLine val | setAutostart val | setRestartOnChange val | setPeriodic val =>
      obtain rfl := Option.some.inj h
      exact Or.inr (hother nofun (harmless_of_moves ht (moves_of_eq rfl rfl) id))
  | setStarted val p =>
      obtain rfl := Option.some.inj h
      exact Or.inr (hother nofun (harmless_of_moves ht (moves_setStarted p val _) id))
  | connect sfidLabel shmpath p =>
      obtain rfl := Option.some.inj h
      exact Or.inr (hother nofun (harmless_of_moves ht (moves_onShmdataConnect p _ _ _) id))
  | disconnect sfidLabel =>
      obtain rfl := Option.some.inj h
      exact Or.inr (hother nofun (harmless_of_moves ht (moves_onShmdataDisconnect _ _) id))
  | exits pid =>
      rw [Executor.step] at h
      split_ifs at h
      obtain rfl := Option.some.inj h
      exact Or.inr (hother nofun ⟨ht.exits pid, fun _ => rfl, fun _ => Or.inr rfl⟩)
  | childDead val =>
      obtain rfl := Option.some.inj h
      cases val with
      | false => exact absurd rfl hi
      | true => exact Or.inr (hother nofun ⟨ht, fun _ => rfl, Or.inl⟩)
  | monitorProcess p =>
      obtain rfl := Option.some.inj h
      dsimp only [Executor.monitorProcess]
      by_cases hcollects : s.1.Collects s.2
      · exact Or.inl ⟨p, rfl, hcollects, if_pos hcollects⟩
      · refine Or.inr ⟨fun hc => hcollects hc.2, ?_⟩
        have heq : (if 0 < s.1.childPid ∧ s.2 = true ∧ s.1.Reaps s.1.childPid then
            (s.1.reap.afterReap p, false) else (s.1, s.2)) = s := if_neg hcollects
        rw [heq]
        exact ⟨ht, id, Or.inl⟩

/-! ### Several executors -/

/-- The executors of a process, and the flag `child_dead`. -/
structure System (ι : Type) where
  executors : ι → Executor
  childDead : Bool

namespace System

variable {ι : Type} [DecidableEq ι]

/-- New executors. -/
def make : System ι := ⟨fun _ => Executor.make, false⟩

/-- What a step of an executor leaves. -/
def write (s : System ι) (i : ι) (r : (Executor × Bool) × Bool) : System ι × Bool :=
  (⟨Function.update s.executors i r.1.1, r.1.2⟩, r.2)

/-- The machine of the executors, which step one at a time.  The flag is cleared by their tasks
only. -/
def step (s : System ι) : ι × Event → Option (System ι × Bool)
  | (_, .childDead false) => none
  | (i, event) => (Executor.step (s.executors i, s.childDead) event).map (s.write i)

/-- Whenever a child has exited, the flag is set, so that the next run of the task of its executor
reaps it, and starts the command line again or updates `started`. -/
structure Noticed (s : System ι) : Prop where
  flag : ∀ i, (s.executors i).HasExited → s.childDead = true
  reaped : ∀ i, (s.executors i).HasExited → ∀ p,
    ¬((s.executors i).monitorProcess p s.childDead).1.HasExited ∧
      (((s.executors i).monitorProcess p s.childDead).1 =
          { ((s.executors i).reap.start p).1 with restart := false } ∨
        ((s.executors i).monitorProcess p s.childDead).1.started = false)

/-- The task reaps a child only while no child of another executor has exited. -/
def Spares (s : System ι) : ι × Event → Prop
  | (i, .monitorProcess _) => (s.executors i).Collects s.childDead →
      ∀ j, j ≠ i → ¬(s.executors j).HasExited
  | _ => True

/-- Each executor knows its child. -/
def AllTracked (s : System ι) : Prop := ∀ i, (s.executors i).Tracked

variable {s s' : System ι} {i : ι} {event : Event} {r : System ι × Bool}

/-- An exit is noticed where the flag is set. -/
theorem noticed_iff_flag (h : s.AllTracked) :
    s.Noticed ↔ ∀ i, (s.executors i).HasExited → s.childDead = true := by
  refine ⟨Noticed.flag, fun hflag => ⟨hflag, fun i hi p => ?_⟩⟩
  have hmonitor : (s.executors i).monitorProcess p s.childDead =
      ((s.executors i).reap.afterReap p, false) := by
    rw [hflag i hi]
    exact if_pos (hi.collects (h i))
  rw [hmonitor]
  exact ⟨((h i).afterReap p).2, afterReap_cases p _⟩

/-- A step is one of an executor. -/
theorem step_eq_some (h : s.step (i, event) = some r) : event ≠ .childDead false ∧
    ∃ r', Executor.step (s.executors i, s.childDead) event = some r' ∧
      r.1 = ⟨Function.update s.executors i r'.1.1, r'.1.2⟩ := by
  have hne : event ≠ .childDead false := by
    rintro rfl
    cases h
  have heq : s.step (i, event) =
      (Executor.step (s.executors i, s.childDead) event).map (s.write i) := by
    cases event with
    | childDead val =>
        cases val with
        | false => exact absurd rfl hne
        | true => rfl
    | _ => rfl
  rw [heq] at h
  obtain ⟨r', hr', rfl⟩ := Option.map_eq_some_iff.1 h
  exact ⟨hne, r', hr', rfl⟩

/-- The other executors are left by a step. -/
theorem forall_update (P : Executor → Prop) {e : Executor} (he : P e)
    (h : ∀ j, j ≠ i → P (s.executors j)) : ∀ j, P (Function.update s.executors i e j) := by
  intro j
  by_cases hj : j = i
  · subst hj
    rwa [Function.update_self]
  · rw [Function.update_of_ne hj]
    exact h j hj

/-- Every step keeps what the executors know of their children. -/
theorem AllTracked.step (h : s.AllTracked) {op : ι × Event} (hstep : s.step op = some r) :
    r.1.AllTracked := by
  obtain ⟨i, event⟩ := op
  obtain ⟨hne, r', hr', heq⟩ := step_eq_some hstep
  rw [heq]
  refine forall_update _ ?_ fun j _ => h j
  rcases step_cases (h i) hne hr' with ⟨p, -, -, heq'⟩ | ⟨-, hharmless⟩
  · rw [heq']
    exact ((h i).afterReap p).1
  · exact hharmless.tracked

/-- A step keeps the flag set for the children that have exited exactly when it spares them. -/
theorem spares_iff (h : s.AllTracked) (hflag : ∀ i, (s.executors i).HasExited → s.childDead = true)
    (op : ι × Event) : Spares s op ↔ ∀ r, s.step op = some r →
      ∀ i, (r.1.executors i).HasExited → r.1.childDead = true := by
  obtain ⟨i, event⟩ := op
  constructor
  · intro hok r hr
    obtain ⟨hne, r', hr', heq⟩ := step_eq_some hr
    rw [heq]
    rcases step_cases (h i) hne hr' with ⟨p, rfl, hcollects, heq'⟩ | ⟨-, hharmless⟩
    · rw [heq']
      exact forall_update (fun e => e.HasExited → false = true)
        (fun hexited => absurd hexited ((h i).afterReap p).2)
        fun j hj hexited => absurd hexited (hok hcollects j hj)
    · refine forall_update (fun e => e.HasExited → r'.1.2 = true) (fun hexited => ?_)
        fun j _ hexited => hharmless.flag (hflag j hexited)
      rcases hharmless.exited hexited with hbefore | hset
      · exact hharmless.flag (hflag i hbefore)
      · exact hset
  · intro hkeep
    cases event with
    | monitorProcess p =>
        intro hcollects j hj hexited
        have hmonitor : (s.executors i).monitorProcess p s.childDead =
            ((s.executors i).reap.afterReap p, false) := if_pos hcollects
        have hstep : s.step (i, .monitorProcess p) =
            some (s.write i (((s.executors i).reap.afterReap p, false), true)) :=
          congrArg (fun m => some (s.write i (m, true))) hmonitor
        have hother : (Function.update s.executors i ((s.executors i).reap.afterReap p) j).HasExited :=
          by rwa [Function.update_of_ne hj]
        have hset := hkeep _ hstep j hother
        cases hset
    | _ => trivial

/-- **No exit is lost in a run of several executors** exactly when each child is reaped while no
child of another executor has exited. -/
theorem noticed_iff (ops : List (ι × Event)) :
    Machine.Always step Noticed (make : System ι) ops ↔
      Machine.Admits step Spares (make : System ι) ops := by
  have hmake : (make : System ι).AllTracked := fun _ => Or.inl rfl
  have hcongr : Machine.Always step Noticed (make : System ι) ops ↔
      Machine.Always step (fun s : System ι => s.AllTracked ∧
        ∀ i, (s.executors i).HasExited → s.childDead = true) (make : System ι) ops :=
    Machine.always_congr (fun s op r h hr => h.step hr)
      (fun s h => by rw [noticed_iff_flag h, and_iff_right h]) hmake ops
  have hspares : ∀ (s : System ι) (op : ι × Event),
      (s.AllTracked ∧ ∀ i, (s.executors i).HasExited → s.childDead = true) →
      (Spares s op ↔ ∀ r, step s op = some r →
        r.1.AllTracked ∧ ∀ i, (r.1.executors i).HasExited → r.1.childDead = true) := by
    rintro s op ⟨h, hflag⟩
    rw [spares_iff h hflag op]
    exact forall_congr' fun r => forall_congr' fun hr => (and_iff_right (h.step hr)).symm
  rw [hcongr, Machine.always_iff_admits hspares]
  refine and_iff_right ⟨hmake, fun i hi => ?_⟩
  obtain ⟨c, hc, -⟩ := hi
  cases hc

/-- The children of two executors exit before the task of one of them runs. -/
def twoExits : List (Fin 2 × Event) :=
  [(0, .setCommandLine "vlc"), (1, .setCommandLine "vlc"),
    (0, .setStarted true ⟨true, some firstPid, 0⟩), (1, .setStarted true ⟨true, some secondPid, 0⟩),
    (0, .exits 7), (1, .exits 8), (0, .monitorProcess ⟨true, none, 0⟩)]

/-- The exit of the other child is lost. -/
theorem not_noticed_twoExits : ¬Machine.Always step Noticed (make : System (Fin 2)) twoExits := by
  intro h
  obtain ⟨r, hrun, hexited, hflag⟩ : ∃ r,
      Machine.run step (make : System (Fin 2)) twoExits = some r ∧
        (r.1.executors 1).children = [⟨8, true, false⟩] ∧ r.1.childDead = false :=
    ⟨_, rfl, rfl, rfl⟩
  have hset := (h.run hrun).flag 1 ⟨_, hexited ▸ List.mem_singleton_self _, rfl⟩
  rw [hflag] at hset
  cases hset

end System

end Executor
end LibSwitcher
