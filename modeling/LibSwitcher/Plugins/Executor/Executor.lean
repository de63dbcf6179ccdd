/-
# Executors

`plugins/executor/executor.cpp`: a quiddity that launches a command line, once it is started or,
with `autostart`, when a shmdata is connected to it.  A task that runs every half second
(`monitor_process`) reaps the child after it has exited, and launches the command line again
if `periodic` is on or a restart was asked for.  `quiddity/startable.cpp` is the setter of the
property `started`, which the executor inherits.

What the functions do with the system is part of the state: the children that were launched and
are not reaped, with what happened to them, and the flag that the handler of `SIGCHLD` sets,
which is one for all the executors of a process.  The expansion of the command line and
`posix_spawnp` are known by their results.
-/

import LibSwitcher.Lib.Machine
import Mathlib.Data.PNat.Defs

namespace LibSwitcher

namespace Executor

/-- A child that is not reaped: whether it has exited, and whether `SIGTERM` was sent to it. -/
structure Child where
  pid : ℕ
  exited : Bool
  asked : Bool
  deriving DecidableEq

/-- What `start` finds: whether the words of the command line can be expanded, and the child that
`posix_spawnp` makes.  Without a child, the number it leaves is not specified. -/
structure Platform where
  expands : Bool
  spawn : Option ℕ+
  leftPid : ℕ

end Executor

/-- The state of an `Executor`, with the children it has launched: those that are not reaped, and
how many there were. -/
structure Executor where
  childPid : ℕ
  userStopped : Bool
  restart : Bool
  started : Bool
  commandLine : String
  autostart : Bool
  restartOnChange : Bool
  periodic : Bool
  shmpath : String
  shmpathAudio : String
  shmpathVideo : String
  children : List Executor.Child
  launched : ℕ

namespace Executor

/-- A new executor. -/
def make : Executor where
  childPid := 0
  userStopped := false
  restart := false
  started := false
  commandLine := ""
  autostart := false
  restartOnChange := false
  periodic := false
  shmpath := ""
  shmpathAudio := ""
  shmpathVideo := ""
  children := []
  launched := 0

variable (p : Platform)

/-! ### Starting and stopping -/

/-- `start` goes on to `posix_spawnp`. -/
def CanSpawn (e : Executor) : Prop := e.childPid = 0 ∧ e.commandLine ≠ "" ∧ p.expands = true

instance decidableCanSpawn (e : Executor) : Decidable (e.CanSpawn p) :=
  inferInstanceAs (Decidable (_ ∧ _ ∧ _))

/-- `start`. -/
def start (e : Executor) : Executor × Bool :=
  if e.CanSpawn p then
    match p.spawn with
    | none => ({ e with userStopped := false, childPid := p.leftPid }, false)
    | some pid =>
        ({ e with
            userStopped := false
            childPid := pid
            children := ⟨pid, false, false⟩ :: e.children
            launched := e.launched + 1 }, true)
  else (e, false)

/-- `killpg` with `SIGTERM`, for a child that leads its group. -/
def killpg (pid : ℕ) (children : List Child) : List Child :=
  children.map fun c => if c.pid = pid then { c with asked := true } else c

/-- `stop`, which always returns `true`. -/
def stop (e : Executor) : Executor :=
  if e.childPid ≠ 0 then
    { e with userStopped := true, children := killpg e.childPid e.children }
  else e

/-- The setter of `started` in `init_startable`. -/
def setStarted (val : Bool) (e : Executor) : Executor × Bool :=
  if e.started = val then (e, true)
  else if val then
    if (e.start p).2 then ({ (e.start p).1 with started := true }, true) else ((e.start p).1, false)
  else ({ e.stop with started := false }, true)

/-! ### Connections -/

/-- The path of the follower of a label is set. -/
def setShmpath (sfidLabel shmpath : String) (e : Executor) : Executor :=
  if sfidLabel = "video" then { e with shmpathVideo := shmpath }
  else if sfidLabel = "audio" then { e with shmpathAudio := shmpath }
  else { e with shmpath := shmpath }

/-- Some shmdata is connected. -/
def Connected (e : Executor) : Prop :=
  ¬(e.shmpathVideo = "" ∧ e.shmpathAudio = "" ∧ e.shmpath = "")

instance decidableConnected (e : Executor) : Decidable e.Connected :=
  inferInstanceAs (Decidable (¬_))

/-- What both callbacks do with a child when the shmdata have changed. -/
def onChange (e : Executor) : Executor :=
  if e.restartOnChange ∧ e.restart = false then { e.stop with restart := true } else e

/-- `on_shmdata_connect`, for the label of the follower. -/
def onShmdataConnect (sfidLabel shmpath : String) (e : Executor) : Executor × Bool :=
  let e := e.setShmpath sfidLabel shmpath
  if e.childPid ≠ 0 then (e.onChange, true)
  else if e.autostart then e.start p
  else (e, true)

/-- `on_shmdata_disconnect`, which always returns `true`. -/
def onShmdataDisconnect (sfidLabel : String) (e : Executor) : Executor :=
  let e := e.setShmpath sfidLabel ""
  if e.childPid ≠ 0 then if e.Connected then e.onChange else e.stop
  else e

/-! ### Children -/

/-- The child exits. -/
def exits (pid : ℕ) (e : Executor) : Executor :=
  { e with children := e.children.map fun c => if c.pid = pid then { c with exited := true } else c }

/-- The child runs. -/
def Runs (pid : ℕ) (e : Executor) : Prop := ∃ c ∈ e.children, c.pid = pid ∧ c.exited = false

instance decidableRuns (pid : ℕ) (e : Executor) : Decidable (e.Runs pid) :=
  inferInstanceAs (Decidable (∃ c ∈ e.children, _))

/-- `waitpid` with `WNOHANG` reaps the child. -/
def Reaps (pid : ℕ) (e : Executor) : Prop := ∃ c ∈ e.children, c.pid = pid ∧ c.exited = true

instance decidableReaps (pid : ℕ) (e : Executor) : Decidable (e.Reaps pid) :=
  inferInstanceAs (Decidable (∃ c ∈ e.children, _))

/-- The child is reaped, and `child_pid_` cleared. -/
def reap (e : Executor) : Executor :=
  { e with children := e.children.filter fun c => c.pid ≠ e.childPid, childPid := 0 }

/-- What `monitor_process` does after it has reaped the child. -/
def afterReap (e : Executor) : Executor :=
  if (e.periodic ∧ e.userStopped = false) ∨ e.restart = true then
    { (e.start p).1 with restart := false }
  else (e.setStarted p false).1

/-- `monitor_process`, with the flag `child_dead`. -/
def monitorProcess (childDead : Bool) (e : Executor) : Executor × Bool :=
  if 0 < e.childPid ∧ childDead = true ∧ e.Reaps e.childPid then (e.reap.afterReap p, false)
  else (e, childDead)

/-! ### The machine -/

/-- What happens to an executor: properties are set, shmdata are connected and disconnected, its
child exits, the flag is changed by others of the process, and the task runs. -/
inductive Event
  | setCommandLine (val : String)
  | setAutostart (val : Bool)
  | setRestartOnChange (val : Bool)
  | setPeriodic (val : Bool)
  | setStarted (val : Bool) (p : Platform)
  | connect (sfidLabel shmpath : String) (p : Platform)
  | disconnect (sfidLabel : String)
  | exits (pid : ℕ)
  | childDead (val : Bool)
  | monitorProcess (p : Platform)

/-- A process identifier. -/
def firstPid : ℕ+ := 7

/-- Another process identifier. -/
def secondPid : ℕ+ := 8

/-- The machine of an executor and the flag.  A child that does not run cannot exit. -/
def step (s : Executor × Bool) : Event → Option ((Executor × Bool) × Bool)
  | .setCommandLine val => some (({ s.1 with commandLine := val }, s.2), true)
  | .setAutostart val => some (({ s.1 with autostart := val }, s.2), true)
  | .setRestartOnChange val => some (({ s.1 with restartOnChange := val }, s.2), true)
  | .setPeriodic val => some (({ s.1 with periodic := val }, s.2), true)
  | .setStarted val p => some (((s.1.setStarted p val).1, s.2), (s.1.setStarted p val).2)
  | .connect sfidLabel shmpath p =>
      some (((s.1.onShmdataConnect p sfidLabel shmpath).1, s.2),
        (s.1.onShmdataConnect p sfidLabel shmpath).2)
  | .disconnect sfidLabel => some ((s.1.onShmdataDisconnect sfidLabel, s.2), true)
  | .exits pid => if s.1.Runs pid then some ((s.1.exits pid, true), true) else none
  | .childDead val => some ((s.1, val), true)
  | .monitorProcess p => some (s.1.monitorProcess p s.2, true)

end Executor
end LibSwitcher
