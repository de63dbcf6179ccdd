/-
# The lifecycle of an executor

An executor should know its child, should be started while a child runs that was not asked to
terminate, and should launch no child after the user has stopped it, or the last shmdata was
disconnected with `autostart` on, until the user starts it again or an `autostart` connection is
made (`Lawful`).

The first always holds where a failing `posix_spawnp` leaves no number.  The others fail in three ways:
`autostart` launches a child without setting `started`; a restart that was asked for is not
forgotten when the executor is stopped; and one can be asked for while a stopped child still
terminates.  In every run without these (`Orderly`) the laws hold (`lawful_of_orderly`).
-/

import LibSwitcher.Plugins.Executor.Executor
import Mathlib.Tactic.SplitIfs

namespace LibSwitcher
namespace Executor

/-- `start` launches a child. -/
def Launches (p : Platform) (e : Executor) : Prop := e.CanSpawn p ∧ p.spawn.isSome = true

instance decidableLaunches (p : Platform) (e : Executor) : Decidable (e.Launches p) :=
  inferInstanceAs (Decidable (_ ∧ _))

/-! ### The laws -/

/-- An executor and the flag, with what happened before: whether it is to launch no child, and
whether it kept to this. -/
structure Observed where
  executor : Executor
  childDead : Bool
  halted : Bool
  kept : Bool

/-- A user stop, or the disconnection of the last shmdata with `autostart` on. -/
def Halts (e : Executor) : Event → Prop
  | .setStarted val _ => val = false
  | .disconnect sfidLabel =>
      e.autostart = true ∧ e.Connected ∧ ¬(e.setShmpath sfidLabel "").Connected
  | _ => False

/-- A user start, or a connection with `autostart` on. -/
def Resumes (e : Executor) : Event → Prop
  | .setStarted val _ => val = true
  | .connect _ _ _ => e.autostart = true
  | _ => False

instance decidableHalts (e : Executor) : DecidablePred e.Halts := fun i => by
  cases i <;> unfold Halts <;> infer_instance

instance decidableResumes (e : Executor) : DecidablePred e.Resumes := fun i => by
  cases i <;> unfold Resumes <;> infer_instance

namespace Observed

/-- Whether no child is to be launched, from this event on. -/
def haltedBy (o : Observed) (i : Event) : Bool :=
  if o.executor.Halts i then true else if o.executor.Resumes i then false else o.halted

/-- A step that is observed. -/
def step (o : Observed) (i : Event) : Option (Observed × Bool) :=
  (Executor.step (o.executor, o.childDead) i).map fun r =>
    ({ executor := r.1.1
       childDead := r.1.2
       halted := o.haltedBy i
       kept := o.kept && (!o.haltedBy i || r.1.1.launched == o.executor.launched) }, r.2)

/-- A new executor. -/
def make : Observed where
  executor := Executor.make
  childDead := false
  halted := false
  kept := true

/-- The laws of the lifecycle. -/
structure Lawful (o : Observed) : Prop where
  known : o.executor.childPid ≠ 0 ↔ o.executor.children ≠ []
  one : o.executor.children.length ≤ 1
  started : ∀ c ∈ o.executor.children, c.exited = false → c.asked = false →
    o.executor.started = true
  kept : o.kept = true

end Observed

/-! ### When they hold -/

/-- A failing `posix_spawnp` leaves no number. -/
def Platform.Clean (p : Platform) : Prop := p.spawn = none → p.leftPid = 0

instance Platform.decidableClean (p : Platform) : Decidable p.Clean :=
  inferInstanceAs (Decidable (_ → _))

/-- The callbacks ask for a restart. -/
def AsksRestart (e : Executor) : Prop :=
  e.childPid ≠ 0 ∧ e.restartOnChange = true ∧ e.restart = false

instance decidableAsksRestart (e : Executor) : Decidable e.AsksRestart :=
  inferInstanceAs (Decidable (_ ∧ _ ∧ _))

/-- The executor is not stopped while a restart is asked for, is asked for one only while it is
started and not halted, and is connected to a shmdata that launches a child only where it is
started already. -/
def Orderly (o : Observed) : Event → Prop
  | .setStarted val p => p.Clean ∧ (val = false → o.executor.restart = false)
  | .connect _ _ p => p.Clean ∧
      (o.executor.autostart = true ∧ o.executor.Launches p → o.executor.started = true) ∧
      (o.executor.AsksRestart → o.executor.started = true ∧
        (o.halted = true → o.executor.autostart = true))
  | .disconnect sfidLabel =>
      (o.executor.Halts (.disconnect sfidLabel) → o.executor.restart = false) ∧
      (o.executor.AsksRestart ∧ (o.executor.setShmpath sfidLabel "").Connected →
        o.executor.started = true ∧ o.halted = false)
  | .monitorProcess p => p.Clean
  | _ => True

instance decidableOrderly (o : Observed) : DecidablePred (Orderly o) := fun i => by
  cases i <;> unfold Orderly <;> infer_instance

/-! ### The invariant -/

/-- The number is that of the only child, which is asked to terminate exactly when the user has
stopped it; a child that is not, or that is to be restarted, is one of a started executor. -/
structure Inv (e : Executor) : Prop where
  known : e.childPid = 0 ∧ e.children = [] ∨
    e.childPid ≠ 0 ∧ ∃ exited, e.children = [⟨e.childPid, exited, e.userStopped⟩]
  started : e.childPid ≠ 0 → e.userStopped = false → e.started = true
  restart : e.restart = true → e.childPid ≠ 0 ∧ e.started = true

/-- No child is going to be launched by the task. -/
structure Halted (e : Executor) : Prop where
  restart : e.restart = false
  stopped : e.childPid ≠ 0 → e.userStopped = true

variable {p : Platform} {e : Executor}

/-- What `start` does without a child: nothing, but for the user having stopped it, or a launch. -/
theorem start_cases (hp : p.Clean) (hpid : e.childPid = 0) :
    (¬e.Launches p ∧ ∃ userStopped, e.start p = ({ e with userStopped := userStopped }, false)) ∨
    (e.Launches p ∧ ∃ pid : ℕ+, e.start p = ({ e with
      userStopped := false, childPid := pid, children := ⟨pid, false, false⟩ :: e.children,
      launched := e.launched + 1 }, true)) := by
  unfold start Launches
  by_cases hcan : e.CanSpawn p
  · rw [if_pos hcan]
    cases hspawn : p.spawn with
    | none =>
        refine Or.inl ⟨by simp, false, ?_⟩
        rw [hp hspawn]
        exact congrArg (fun n => ({ e with userStopped := false, childPid := n }, false)) hpid.symm
    | some pid => exact Or.inr ⟨⟨hcan, rfl⟩, pid, rfl⟩
  · rw [if_neg hcan]
    exact Or.inl ⟨fun h => hcan h.1, e.userStopped, rfl⟩

/-- With a child, `start` fails. -/
theorem start_of_child (hpid : e.childPid ≠ 0) : e.start p = (e, false) :=
  if_neg fun h => hpid h.1

theorem Inv.children_eq_nil (h : e.Inv) (hpid : e.childPid = 0) : e.children = [] := by
  rcases h.known with ⟨-, hnil⟩ | ⟨hne, -⟩
  · exact hnil
  · exact absurd hpid hne

/-- No restart is asked for without a child, or while the executor is not started. -/
theorem Inv.restart_eq_false (h : e.Inv) (hidle : e.childPid = 0 ∨ e.started = false) :
    e.restart = false := by
  cases hr : e.restart with
  | false => rfl
  | true =>
      obtain ⟨hpid, hstarted⟩ := h.restart hr
      rcases hidle with hzero | hstopped
      · exact absurd hzero hpid
      · rw [hstarted] at hstopped
        cases hstopped

/-- An executor that is started keeps its invariant with a new child. -/
theorem Inv.launch (h : e.Inv) (hpid : e.childPid = 0) (hstarted : e.started = true) (pid : ℕ+)
    (n : ℕ) : ({ e with
      userStopped := false, childPid := pid, children := ⟨pid, false, false⟩ :: e.children,
      launched := n } : Executor).Inv := by
  have hrestart := h.restart_eq_false (Or.inl hpid)
  rw [h.children_eq_nil hpid]
  refine ⟨Or.inr ⟨Nat.pos_iff_ne_zero.1 pid.2, false, rfl⟩, fun _ _ => hstarted, fun hr => ?_⟩
  rw [hrestart] at hr
  cases hr

/-- An executor keeps its invariant when it is started, if it is known to be where it launches a
child. -/
theorem Inv.start (h : e.Inv) (hp : p.Clean) (hstarted : e.Launches p → e.started = true) :
    (e.start p).1.Inv := by
  by_cases hpid : e.childPid = 0
  · rcases start_cases hp hpid with ⟨-, u, heq⟩ | ⟨hl, pid, heq⟩
    · rw [heq]
      exact ⟨Or.inl ⟨hpid, h.children_eq_nil hpid⟩, fun hne => absurd hpid hne, h.restart⟩
    · rw [heq]
      exact h.launch hpid (hstarted hl) pid _
  · rw [start_of_child hpid]
    exact h

/-- `stop` changes what the user asked for, and what is known of the child. -/
theorem stop_eq (e : Executor) : e.stop = { e with
    userStopped := if e.childPid ≠ 0 then true else e.userStopped
    children := if e.childPid ≠ 0 then killpg e.childPid e.children else e.children } := by
  unfold stop
  split_ifs <;> rfl

theorem Inv.stop (h : e.Inv) : e.stop.Inv := by
  rw [stop_eq]
  rcases h.known with ⟨hpid, hnil⟩ | ⟨hpid, exited, hchild⟩
  · rw [if_neg (not_not.2 hpid), if_neg (not_not.2 hpid)]
    exact h
  · rw [if_pos hpid, if_pos hpid, hchild, killpg, List.map_singleton, if_pos rfl]
    exact ⟨Or.inr ⟨hpid, exited, rfl⟩, fun _ hs => absurd hs (by simp), h.restart⟩

/-- A stopped executor launches no child, if no restart is asked for. -/
theorem halted_stop (h : e.restart = false) : e.stop.Halted := by
  rw [stop_eq]
  exact ⟨h, fun hpid => if_pos hpid⟩

/-- The setter of `started` keeps the invariant, if no restart is asked for at a stop. -/
theorem Inv.setStarted {val : Bool} (h : e.Inv) (hp : p.Clean)
    (hval : val = false → e.restart = false) : (e.setStarted p val).1.Inv := by
  unfold Executor.setStarted
  by_cases hsame : e.started = val
  · rw [if_pos hsame]
    exact h
  · rw [if_neg hsame]
    cases val with
    | false =>
        have hhalted := halted_stop (hval rfl)
        rw [if_neg Bool.false_ne_true]
        refine ⟨h.stop.known, fun hpid hs => ?_, fun hr => ?_⟩
        · rw [hhalted.stopped hpid] at hs
          cases hs
        · rw [hhalted.restart] at hr
          cases hr
    | true =>
        have hstarted : e.started = false := by simpa using hsame
        have hrestart := h.restart_eq_false (Or.inr hstarted)
        have hmarked : ({ e with started := true } : Executor).Inv := by
          refine ⟨h.known, fun _ _ => rfl, fun hr => ?_⟩
          rw [hrestart] at hr
          cases hr
        rw [if_pos rfl]
        by_cases hpid : e.childPid = 0
        · rcases start_cases hp hpid with ⟨hl, u, heq⟩ | ⟨-, pid, heq⟩
          · have hkept := h.start hp fun hl' => absurd hl' hl
            rw [heq] at hkept ⊢
            exact hkept
          · rw [heq]
            exact hmarked.launch hpid rfl pid _
        · rw [start_of_child hpid]
          exact h

/-- Setting a path changes the paths only. -/
theorem setShmpath_eq (sfidLabel path : String) (e : Executor) : ∃ shmpath audio video,
    e.setShmpath sfidLabel path =
      { e with shmpath := shmpath, shmpathAudio := audio, shmpathVideo := video } := by
  unfold setShmpath
  split_ifs
  · exact ⟨_, _, path, rfl⟩
  · exact ⟨_, path, _, rfl⟩
  · exact ⟨path, _, _, rfl⟩

/-- A restart that is asked for is one of a started executor. -/
theorem Inv.onChange (h : e.Inv) (hpid : e.childPid ≠ 0)
    (hstarted : e.AsksRestart → e.started = true) : e.onChange.Inv := by
  unfold Executor.onChange
  split_ifs with hask
  · have hstop := h.stop
    rw [stop_eq] at hstop ⊢
    exact ⟨hstop.known, hstop.started, fun _ => ⟨hpid, hstarted ⟨hpid, hask⟩⟩⟩
  · exact h

/-- The callback of a connection keeps the invariant, if a child is launched or restarted for a
started executor only. -/
theorem Inv.onShmdataConnect (h : e.Inv) (hp : p.Clean)
    (hlaunch : e.autostart = true ∧ e.Launches p → e.started = true)
    (hask : e.AsksRestart → e.started = true) (sfidLabel path : String) :
    (e.onShmdataConnect p sfidLabel path).1.Inv := by
  unfold Executor.onShmdataConnect
  obtain ⟨shmpath, audio, video, heq⟩ := setShmpath_eq sfidLabel path e
  have hset : ({ e with shmpath := shmpath, shmpathAudio := audio, shmpathVideo := video } :
      Executor).Inv := ⟨h.known, h.started, h.restart⟩
  rw [heq]
  dsimp only
  split_ifs with hpid hauto
  · exact hset.onChange hpid hask
  · exact hset.start hp fun hl => hlaunch ⟨hauto, hl⟩
  · exact hset

/-- The callback of a disconnection keeps the invariant, if a restart is asked for a started
executor only. -/
theorem Inv.onShmdataDisconnect (h : e.Inv) (sfidLabel : String)
    (hask : e.AsksRestart ∧ (e.setShmpath sfidLabel "").Connected → e.started = true) :
    (e.onShmdataDisconnect sfidLabel).Inv := by
  unfold Executor.onShmdataDisconnect
  obtain ⟨shmpath, audio, video, heq⟩ := setShmpath_eq sfidLabel "" e
  have hset : ({ e with shmpath := shmpath, shmpathAudio := audio, shmpathVideo := video } :
      Executor).Inv := ⟨h.known, h.started, h.restart⟩
  rw [heq] at hask ⊢
  dsimp only
  split_ifs with hpid hconn
  · exact hset.onChange hpid fun ha => hask ⟨ha, hconn⟩
  · exact hset.stop
  · exact hset

/-- `start`, with a restart forgotten. -/
theorem start_forget (p : Platform) (e : Executor) :
    { (e.start p).1 with restart := false } = (({ e with restart := false } : Executor).start p).1 := by
  unfold Executor.start
  have hcan : ({ e with restart := false } : Executor).CanSpawn p ↔ e.CanSpawn p := Iff.rfl
  simp only [hcan]
  split_ifs
  · cases p.spawn <;> rfl
  · rfl

/-- An executor without its child. -/
theorem Inv.reap (h : e.Inv) (hpid : e.childPid ≠ 0) :
    ({ e.reap with restart := false } : Executor).Inv := by
  have hnil : e.reap.children = [] := by
    rcases h.known with ⟨hzero, -⟩ | ⟨-, exited, hchild⟩
    · exact absurd hzero hpid
    · rw [Executor.reap, hchild]
      simp
  exact ⟨Or.inl ⟨rfl, hnil⟩, fun hne => absurd rfl hne, fun hr => absurd hr Bool.false_ne_true⟩

/-- An executor without its child, where no restart was asked for. -/
theorem Inv.reap_of_restart (h : e.Inv) (hpid : e.childPid ≠ 0) (hrestart : e.restart = false) :
    e.reap.Inv := by
  have hreap := h.reap hpid
  have heq : ({ e.reap with restart := false } : Executor) = e.reap := by
    rw [← hrestart]
    rfl
  rwa [heq] at hreap

/-- After the child was reaped, the command line is launched again only for a started executor. -/
theorem Inv.afterReap (h : e.Inv) (hp : p.Clean) (hpid : e.childPid ≠ 0) :
    (e.reap.afterReap p).Inv := by
  unfold Executor.afterReap
  split_ifs with hagain
  · rw [start_forget]
    refine (h.reap hpid).start hp fun _ => ?_
    rcases hagain with ⟨-, hstopped⟩ | hrestart
    · exact h.started hpid hstopped
    · exact (h.restart hrestart).2
  · have hrestart : e.reap.restart = false := by simpa using (not_or.1 hagain).2
    exact (h.reap_of_restart hpid hrestart).setStarted hp fun _ => hrestart

/-- The child of an executor exits. -/
theorem Inv.exits (h : e.Inv) (pid : ℕ) : (e.exits pid).Inv := by
  refine ⟨?_, h.started, h.restart⟩
  rcases h.known with ⟨hzero, hnil⟩ | ⟨hne, exited, hchild⟩
  · exact Or.inl ⟨hzero, by rw [Executor.exits, hnil, List.map_nil]⟩
  · refine Or.inr ⟨hne, if e.childPid = pid then true else exited, ?_⟩
    rw [Executor.exits, hchild, List.map_singleton]
    dsimp only
    split_ifs <;> rfl

/-! ### What launches no child -/

theorem launched_stop (e : Executor) : e.stop.launched = e.launched := by
  rw [stop_eq]

/-- A halted executor stays so at a connection without `autostart`. -/
theorem Halted.onShmdataConnect (h : e.Halted) (p : Platform) (hauto : e.autostart = false)
    (hask : ¬e.AsksRestart) (sfidLabel path : String) :
    (e.onShmdataConnect p sfidLabel path).1.Halted ∧
      (e.onShmdataConnect p sfidLabel path).1.launched = e.launched := by
  unfold Executor.onShmdataConnect
  obtain ⟨shmpath, audio, video, heq⟩ := setShmpath_eq sfidLabel path e
  have hset : ({ e with shmpath := shmpath, shmpathAudio := audio, shmpathVideo := video } :
      Executor).Halted := ⟨h.restart, h.stopped⟩
  rw [heq]
  dsimp only
  split_ifs with hpid hon
  · unfold onChange
    rw [if_neg fun hc => hask ⟨hpid, hc⟩]
    exact ⟨hset, rfl⟩
  · rw [hauto] at hon
    cases hon
  · exact ⟨hset, rfl⟩

/-- A disconnection launches no child, and leaves an executor halted that is, or that is left
without shmdata, if it asks for no restart. -/
theorem halted_onShmdataDisconnect (sfidLabel : String) (hrestart : e.restart = false)
    (hconn : (e.setShmpath sfidLabel "").Connected → e.Halted ∧ ¬e.AsksRestart) :
    (e.onShmdataDisconnect sfidLabel).Halted ∧
      (e.onShmdataDisconnect sfidLabel).launched = e.launched := by
  unfold Executor.onShmdataDisconnect
  obtain ⟨shmpath, audio, video, heq⟩ := setShmpath_eq sfidLabel "" e
  rw [heq] at hconn ⊢
  dsimp only
  split_ifs with hpid hc
  · obtain ⟨h, hask⟩ := hconn hc
    unfold onChange
    rw [if_neg fun hchange => hask ⟨hpid, hchange⟩]
    exact ⟨⟨h.restart, h.stopped⟩, rfl⟩
  · exact ⟨halted_stop hrestart, launched_stop _⟩
  · exact ⟨⟨hrestart, fun hne => absurd hne hpid⟩, rfl⟩

/-- A user stop halts the executor, if no restart is asked for. -/
theorem Inv.halted_setStarted (h : e.Inv) (p : Platform) (hrestart : e.restart = false) :
    (e.setStarted p false).1.Halted ∧ (e.setStarted p false).1.launched = e.launched := by
  unfold Executor.setStarted
  by_cases hsame : e.started = false
  · rw [if_pos hsame]
    refine ⟨⟨hrestart, fun hpid => ?_⟩, rfl⟩
    cases hs : e.userStopped with
    | true => rfl
    | false =>
        rw [h.started hpid hs] at hsame
        cases hsame
  · have hstop := halted_stop hrestart
    rw [if_neg hsame, if_neg Bool.false_ne_true]
    exact ⟨⟨hstop.restart, hstop.stopped⟩, launched_stop e⟩

/-- A halted executor only sets `started` after it has reaped its child. -/
theorem Halted.afterReap (h : e.Halted) (hinv : e.Inv) (hpid : e.childPid ≠ 0) (p : Platform) :
    (e.reap.afterReap p).Halted ∧ (e.reap.afterReap p).launched = e.launched := by
  have hagain : ¬((e.reap.periodic ∧ e.reap.userStopped = false) ∨ e.reap.restart = true) := by
    rintro (⟨-, hs⟩ | hr)
    · have hstopped : e.userStopped = false := hs
      rw [h.stopped hpid] at hstopped
      cases hstopped
    · have hrestart : e.restart = true := hr
      rw [h.restart] at hrestart
      cases hrestart
  unfold Executor.afterReap
  rw [if_neg hagain]
  exact (hinv.reap_of_restart hpid h.restart).halted_setStarted p h.restart

/-! ### The laws hold along orderly runs -/

/-- What an orderly run keeps. -/
structure Observed.Inv (o : Observed) : Prop where
  inv : o.executor.Inv
  halted : o.halted = true → o.executor.Halted
  kept : o.kept = true

/-- The invariant is more than the laws. -/
theorem Observed.Inv.lawful {o : Observed} (h : o.Inv) : o.Lawful := by
  rcases h.inv.known with ⟨hpid, hnil⟩ | ⟨hpid, exited, hchild⟩
  · refine ⟨?_, ?_, ?_, h.kept⟩
    · rw [hpid, hnil]
      simp
    · rw [hnil]
      exact Nat.zero_le _
    · rw [hnil]
      exact fun c hc => absurd hc List.not_mem_nil
  · refine ⟨?_, ?_, ?_, h.kept⟩
    · rw [hchild]
      simp [hpid]
    · rw [hchild]
      exact Nat.le_refl _
    · rw [hchild]
      intro c hc _ hasked
      obtain rfl := List.mem_singleton.1 hc
      exact h.inv.started hpid hasked

/-- A step that keeps the invariant of the executor, and launches no child where it may not. -/
theorem Observed.Inv.of_step {o : Observed} {i : Event} {r : (Executor × Bool) × Bool}
    (h : o.Inv) (hinv : r.1.1.Inv)
    (hhalted : o.haltedBy i = true → r.1.1.Halted ∧ r.1.1.launched = o.executor.launched) :
    Observed.Inv
      { executor := r.1.1
        childDead := r.1.2
        halted := o.haltedBy i
        kept := o.kept && (!o.haltedBy i || r.1.1.launched == o.executor.launched) } := by
  refine ⟨hinv, fun hby => (hhalted hby).1, ?_⟩
  rw [Bool.and_eq_true]
  refine ⟨h.kept, ?_⟩
  cases hby : o.haltedBy i with
  | false => rfl
  | true => simpa using (hhalted hby).2

/-- An orderly step keeps the invariant: one case for each event. -/
theorem Observed.Inv.step {o : Observed} {i : Event} {r : Observed × Bool} (h : o.Inv)
    (hok : Orderly o i) (hstep : o.step i = some r) : r.1.Inv := by
  obtain ⟨r, hr, rfl⟩ := Option.map_eq_some_iff.1 hstep
  refine h.of_step ?_ ?_
  · cases i with
    | setCommandLine val | setAutostart val | setRestartOnChange val | setPeriodic val
    | childDead val =>
        obtain rfl := Option.some.inj hr
        exact ⟨h.inv.known, h.inv.started, h.inv.restart⟩
    | setStarted val p =>
        obtain rfl := Option.some.inj hr
        exact h.inv.setStarted hok.1 hok.2
    | connect sfidLabel shmpath p =>
        obtain rfl := Option.some.inj hr
        exact h.inv.onShmdataConnect hok.1 hok.2.1 (fun hask => (hok.2.2 hask).1) _ _
    | disconnect sfidLabel =>
        obtain rfl := Option.some.inj hr
        exact h.inv.onShmdataDisconnect _ fun hask => (hok.2 hask).1
    | exits pid =>
        rw [Executor.step] at hr
        split_ifs at hr
        obtain rfl := Option.some.inj hr
        exact h.inv.exits pid
    | monitorProcess p =>
        obtain rfl := Option.some.inj hr
        dsimp only [Executor.monitorProcess]
        split_ifs with hreap
        · exact h.inv.afterReap hok (Nat.pos_iff_ne_zero.1 hreap.1)
        · exact h.inv
  · intro hby
    cases i with
    | setCommandLine val | setAutostart val | setRestartOnChange val | setPeriodic val
    | childDead val =>
        obtain rfl := Option.some.inj hr
        have hhalted := h.halted hby
        exact ⟨⟨hhalted.restart, hhalted.stopped⟩, rfl⟩
    | setStarted val p =>
        obtain rfl := Option.some.inj hr
        cases val with
        | false => exact h.inv.halted_setStarted p (hok.2 rfl)
        | true => exact absurd hby (by simp [haltedBy, Halts, Resumes])
    | connect sfidLabel shmpath p =>
        obtain rfl := Option.some.inj hr
        have hauto : o.executor.autostart = false := by
          cases hauto : o.executor.autostart with
          | false => rfl
          | true => exact absurd hby (by simp [haltedBy, Halts, Resumes, hauto])
        have hhalted : o.halted = true := by
          simpa [haltedBy, Halts, Resumes, hauto] using hby
        refine (h.halted hhalted).onShmdataConnect p hauto (fun hask => ?_) _ _
        have hon := (hok.2.2 hask).2 hhalted
        rw [hauto] at hon
        cases hon
    | disconnect sfidLabel =>
        obtain rfl := Option.some.inj hr
        by_cases hhalts : o.executor.Halts (.disconnect sfidLabel)
        · exact halted_onShmdataDisconnect _ (hok.1 hhalts) fun hconn => absurd hconn hhalts.2.2
        · have hhalted : o.halted = true := by
            simpa [haltedBy, hhalts, Resumes] using hby
          refine halted_onShmdataDisconnect _ (h.halted hhalted).restart fun hconn =>
            ⟨h.halted hhalted, fun hask => ?_⟩
          have hno := (hok.2 ⟨hask, hconn⟩).2
          rw [hhalted] at hno
          cases hno
    | exits pid =>
        rw [Executor.step] at hr
        split_ifs at hr
        obtain rfl := Option.some.inj hr
        have hhalted := h.halted hby
        exact ⟨⟨hhalted.restart, hhalted.stopped⟩, rfl⟩
    | monitorProcess p =>
        obtain rfl := Option.some.inj hr
        have hhalted := h.halted hby
        dsimp only [Executor.monitorProcess]
        split_ifs with hreap
        · exact hhalted.afterReap h.inv (Nat.pos_iff_ne_zero.1 hreap.1) p
        · exact ⟨hhalted, rfl⟩

/-- A new executor has no child. -/
theorem Observed.inv_make : Observed.make.Inv where
  inv := ⟨Or.inl ⟨rfl, rfl⟩, fun h => absurd rfl h, fun h => absurd h Bool.false_ne_true⟩
  halted h := absurd h Bool.false_ne_true
  kept := rfl

/-- **The laws of the lifecycle hold in every state of an orderly run.** -/
theorem lawful_of_orderly {is : List Event}
    (h : Machine.Admits Observed.step Orderly Observed.make is) :
    Machine.Always Observed.step Observed.Lawful Observed.make is := by
  refine Machine.Admits.always (fun o ho => ?_) (fun o i r ho hok hr => ?_) Observed.inv_make h
  · exact Observed.Inv.lawful ho
  · exact Observed.Inv.step ho hok hr

/-- A periodic command is launched twice, and stopped by the user. -/
theorem lawful_periodic : Machine.Always Observed.step Observed.Lawful Observed.make
    [.setCommandLine "vlc", .setPeriodic true, .setStarted true ⟨true, some firstPid, 0⟩, .exits 7,
      .monitorProcess ⟨true, some secondPid, 0⟩, .setStarted false ⟨true, none, 0⟩, .exits 8,
      .monitorProcess ⟨true, some 9, 0⟩] :=
  lawful_of_orderly (by decide)

/-- A shmdata is connected to an executor with `autostart` on. -/
def autostartRun : List Event :=
  [.setCommandLine "vlc", .setAutostart true,
    .connect "video" "/tmp/switcher_default_1_1" ⟨true, some firstPid, 0⟩]

/-- The user stops a command that is to be restarted since a shmdata was connected. -/
def restartRun : List Event :=
  [.setCommandLine "vlc", .setRestartOnChange true, .setStarted true ⟨true, some firstPid, 0⟩,
    .connect "video" "/tmp/switcher_default_1_1" ⟨true, none, 0⟩,
    .setStarted false ⟨true, none, 0⟩, .exits 7, .monitorProcess ⟨true, some secondPid, 0⟩]

/-- A child that `autostart` launches runs while the executor is not started; and a command that
is to be restarted is, after the user has stopped it. -/
theorem not_lawful_autostart_restart :
    ¬Machine.Always Observed.step Observed.Lawful Observed.make autostartRun ∧
      ¬Machine.Always Observed.step Observed.Lawful Observed.make restartRun := by
  constructor
  · intro h
    obtain ⟨r, hrun, hchild, hstarted⟩ : ∃ r,
        Machine.run Observed.step Observed.make autostartRun = some r ∧
          r.1.executor.children = [⟨7, false, false⟩] ∧ r.1.executor.started = false :=
      ⟨_, rfl, rfl, rfl⟩
    have hlaw := (h.run hrun).started _ (hchild ▸ List.mem_singleton_self _) rfl rfl
    rw [hstarted] at hlaw
    cases hlaw
  · intro h
    obtain ⟨r, hrun, hkept⟩ : ∃ r,
        Machine.run Observed.step Observed.make restartRun = some r ∧ r.1.kept = false :=
      ⟨_, rfl, rfl⟩
    have hlaw := (h.run hrun).kept
    rw [hkept] at hlaw
    cases hlaw

end Executor
end LibSwitcher
