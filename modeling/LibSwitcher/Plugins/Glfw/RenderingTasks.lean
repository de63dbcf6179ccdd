/-
# Rendering tasks

`plugins/glfw/glfw-renderer.cpp`: the render loop takes the tasks that were posted for the windows and
runs them, one window after the other, while it holds `creation_window_mutex_`.  The
constructor and the destructor of a window hold this mutex as well while the window is made and
destroyed (`plugins/glfw/glfwvideo.cpp`).  The tasks are kept under a mutex of their own, which
makes each insertion, the erasure of a window and the taking of all tasks one step.

A window that is destroyed has its tasks erased first, and tasks are posted only before: but the
test of `ongoing_destruction_` and the insertion are two steps, and the insertion makes a new entry for
a window that has none.  `right_of_inTime` says that the tasks are run as they should be in the runs in
which no task is inserted for a window that was erased already.
-/

import LibSwitcher.Lib.Machine
import LibSwitcher.Utils.IdMap
import Mathlib.Logic.Function.Basic
import Mathlib.Tactic.SplitIfs

namespace LibSwitcher
namespace Glfw

/-- The positions in the life of a `GLFWVideo`: of its constructor, from the locking of
`creation_window_mutex_` on, and of its destructor. -/
inductive Life
  | unborn
  | creating
  | counted
  | subscribed
  | alive
  | flagged
  | unsubscribed
  | destroying
  | destroyed
  | released
  | gone
  deriving DecidableEq

namespace Life

/-- The mutex is held. -/
def holds : Life → Bool
  | .creating | .counted | .subscribed | .destroying | .destroyed => true
  | _ => false

/-- `ongoing_destruction_`. -/
def ongoingDestruction : Life → Bool
  | .flagged | .unsubscribed | .destroying | .destroyed | .released | .gone => true
  | _ => false

/-- `unsubscribe_from_render_loop` has returned. -/
def erased : Life → Bool
  | .unsubscribed | .destroying | .destroyed | .released | .gone => true
  | _ => false

/-- The destructor has locked the mutex. -/
def doomed : Life → Bool
  | .destroying | .destroyed | .released | .gone => true
  | _ => false

/-- The destructor has released the mutex. -/
def ended : Life → Bool
  | .released | .gone => true
  | _ => false

theorem erased_of_doomed {l : Life} (h : l.doomed = true) : l.erased = true := by
  cases l <;> trivial

theorem doomed_of_ended {l : Life} (h : l.ended = true) : l.doomed = true := by
  cases l <;> trivial

end Life

/-- The tasks: the one of `subscribe_to_render_loop`, and those that are posted. -/
inductive RenderTask
  | clear
  | posted (task : ℕ)
  deriving DecidableEq

/-- A copy of `rendering_tasks_`, or what is left of it. -/
abbrev TaskList := List (ℕ × List RenderTask)

/-- The tasks of a window in a copy. -/
def TaskList.of (w : ℕ) (l : TaskList) : List RenderTask :=
  (l.filter fun e => decide (e.1 = w)).flatMap Prod.snd

/-- The steps of the loop over a copy: each task, and the beginning and the end of each window. -/
def TaskList.steps : TaskList → ℕ
  | [] => 0
  | (_, tasks) :: rest => tasks.length + 2 + steps rest

/-- The owner of `creation_window_mutex_`. -/
inductive Owner
  | loop
  | window (w : ℕ)
  deriving DecidableEq

/-- The positions in `render_loop`: before the test of `instance_counter_`, before the mutex, before the
tasks are taken, between two windows, and in the tasks of a window, with `ret`. -/
inductive LoopAt
  | idle
  | waiting
  | locked
  | windows (rest : TaskList)
  | running (w : ℕ) (tasks : List RenderTask) (ret : Bool) (rest : TaskList)
  deriving DecidableEq

namespace LoopAt

/-- The loop holds the mutex. -/
def holds : LoopAt → Bool
  | .idle | .waiting => false
  | .locked | .windows _ | .running .. => true

/-- The windows that the loop still has to do with. -/
def ahead : LoopAt → List ℕ
  | .idle | .waiting | .locked => []
  | .windows rest => rest.map Prod.fst
  | .running w _ _ rest => w :: rest.map Prod.fst

/-- The tasks of a window that were taken and are still to be run. -/
def pending (w : ℕ) : LoopAt → List RenderTask
  | .idle | .waiting | .locked => []
  | .windows rest => rest.of w
  | .running w' tasks _ rest => (if w' = w then tasks else []) ++ rest.of w

/-- The steps of the loop until it releases the mutex, from the taking of the tasks on. -/
def left : LoopAt → ℕ
  | .idle | .waiting | .locked => 0
  | .windows rest => rest.steps + 1
  | .running _ tasks _ rest => tasks.length + rest.steps + 2

end LoopAt

/-- The renderer, the windows, and the calls of `add_rendering_task` that have tested
`ongoing_destruction_` and have not inserted their task yet, by their threads. -/
structure Renderer where
  renderingTasks : IdMap (List RenderTask)
  instanceCounter : ℕ
  mutex : Option Owner
  life : ℕ → Life
  posting : ℕ → Option (ℕ × ℕ)
  loop : LoopAt

/-- What happens to tasks and windows. -/
inductive RenderEvent
  | inserted (w : ℕ) (task : RenderTask)
  | taken (copy : TaskList)
  | touched (w : ℕ)
  | ran (w : ℕ) (task : RenderTask)
  deriving DecidableEq

/-- The steps of the threads: of the constructor or the destructor of a window, the two of a call of
`GLFWVideo::add_rendering_task`, and of the render loop, with what a task returns. -/
inductive RenderOp
  | window (w : ℕ)
  | test (thread w task : ℕ)
  | insert (thread : ℕ)
  | loop (result : Bool)

namespace Renderer

/-- Before any window. -/
def start : Renderer := ⟨∅, 0, none, fun _ => .unborn, fun _ => none, .idle⟩

/-- A window goes on. -/
def goOn (s : Renderer) (w : ℕ) (l : Life) : Renderer :=
  { s with life := Function.update s.life w l }

/-- `GLFWRenderer::add_rendering_task`. -/
def addRenderingTask (s : Renderer) (w : ℕ) (task : RenderTask) : Renderer :=
  { s with
    renderingTasks := s.renderingTasks.insert w ((s.renderingTasks[w]?).getD [] ++ [task]) }

/-- `unsubscribe_from_render_loop`. -/
def unsubscribe (s : Renderer) (w : ℕ) : Renderer :=
  { s with renderingTasks := s.renderingTasks.erase w }

/-- A step of the constructor or of the destructor.  A thread that waits for the mutex stays where
it is. -/
def stepWindow (s : Renderer) (w : ℕ) : Renderer × Option RenderEvent :=
  match s.life w with
  | .unborn =>
      if s.mutex = none then ({ s with mutex := some (.window w) }.goOn w .creating, none)
      else (s, none)
  | .creating => ({ s with instanceCounter := s.instanceCounter + 1 }.goOn w .counted, none)
  | .counted => ((s.addRenderingTask w .clear).goOn w .subscribed, some (.inserted w .clear))
  | .subscribed => ({ s with mutex := none }.goOn w .alive, none)
  | .alive => (s.goOn w .flagged, none)
  | .flagged => ((s.unsubscribe w).goOn w .unsubscribed, none)
  | .unsubscribed =>
      if s.mutex = none then ({ s with mutex := some (.window w) }.goOn w .destroying, none)
      else (s, none)
  | .destroying => (s.goOn w .destroyed, none)
  | .destroyed => ({ s with mutex := none }.goOn w .released, none)
  | .released => ({ s with instanceCounter := s.instanceCounter - 1 }.goOn w .gone, none)
  | .gone => (s, none)

/-- The test of `GLFWVideo::add_rendering_task`, by a thread that is not in such a call. -/
def stepTest (s : Renderer) (thread w task : ℕ) : Renderer :=
  if s.posting thread = none ∧ s.life w ≠ .unborn ∧ (s.life w).ongoingDestruction = false then
    { s with posting := Function.update s.posting thread (some (w, task)) }
  else s

/-- The insertion of `GLFWVideo::add_rendering_task`. -/
def stepInsert (s : Renderer) (thread : ℕ) : Renderer × Option RenderEvent :=
  match s.posting thread with
  | none => (s, none)
  | some (w, task) =>
      ({ s.addRenderingTask w (.posted task) with
        posting := Function.update s.posting thread none }, some (.inserted w (.posted task)))

/-- `pop_rendering_tasks`. -/
def popRenderingTasks (s : Renderer) : TaskList × Renderer :=
  (s.renderingTasks.toList, { s with renderingTasks := s.renderingTasks.map fun _ _ => [] })

/-- A step of `render_loop`. -/
def stepLoop (s : Renderer) (result : Bool) : Renderer × Option RenderEvent :=
  match s.loop with
  | .idle => if s.instanceCounter = 0 then (s, none) else ({ s with loop := .waiting }, none)
  | .waiting =>
      if s.mutex = none then ({ s with mutex := some .loop, loop := .locked }, none) else (s, none)
  | .locked =>
      let r := s.popRenderingTasks
      ({ r.2 with loop := .windows r.1 }, some (.taken r.1))
  | .windows [] => ({ s with mutex := none, loop := .idle }, none)
  | .windows ((w, tasks) :: rest) =>
      ({ s with loop := .running w tasks true rest }, some (.touched w))
  | .running w (task :: tasks) ret rest =>
      ({ s with loop := .running w tasks (ret && result) rest }, some (.ran w task))
  | .running w [] ret rest =>
      -- the window is drawn unless a task has failed
      ({ s with loop := .windows rest }, if ret then some (.touched w) else none)

/-- A step. -/
def step (s : Renderer) : RenderOp → Renderer × Option RenderEvent
  | .window w => s.stepWindow w
  | .test thread w task => (s.stepTest thread w task, none)
  | .insert thread => s.stepInsert thread
  | .loop result => s.stepLoop result

end Renderer

namespace RenderEvent

/-- The tasks that are inserted for a window. -/
def insertedFor (w : ℕ) : RenderEvent → List RenderTask
  | .inserted w' task => if w' = w then [task] else []
  | _ => []

/-- The tasks that are taken for a window. -/
def takenFor (w : ℕ) : RenderEvent → List RenderTask
  | .taken copy => copy.of w
  | _ => []

/-- The tasks that are run for a window. -/
def ranFor (w : ℕ) : RenderEvent → List RenderTask
  | .ran w' task => if w' = w then [task] else []
  | _ => []

/-- The render loop uses the window, or runs a task of it. -/
def Uses (w : ℕ) : RenderEvent → Prop
  | .touched w' | .ran w' _ => w' = w
  | _ => False

end RenderEvent

/-- The renderer with what has happened. -/
structure Rendering where
  renderer : Renderer
  trace : List RenderEvent

namespace Rendering

/-- Before any window. -/
def start : Rendering := ⟨.start, []⟩

/-- A step, recorded. -/
def step (s : Rendering) (op : RenderOp) : Option (Rendering × Option RenderEvent) :=
  let r := s.renderer.step op
  some (⟨r.1, s.trace ++ r.2.toList⟩, r.2)

/-- The tasks that were inserted for a window, in this order. -/
def inserted (s : Rendering) (w : ℕ) : List RenderTask := s.trace.flatMap (·.insertedFor w)

/-- The tasks that were taken for a window. -/
def taken (s : Rendering) (w : ℕ) : List RenderTask := s.trace.flatMap (·.takenFor w)

/-- The tasks that were run for a window. -/
def ran (s : Rendering) (w : ℕ) : List RenderTask := s.trace.flatMap (·.ranFor w)

/-- What a step is to do: the tasks of a window are taken once each and in the order in which they
were inserted, those that were taken are run once each in this order, as soon as the loop has made
the steps that are left, and no window is used from the end of its destructor's lock on. -/
structure Right (s : Rendering) (op : RenderOp) (r : Rendering × Option RenderEvent) : Prop where
  taken : ∀ w, r.1.taken w <+: r.1.inserted w
  ran : ∀ w, r.1.ran w ++ r.1.renderer.loop.pending w = r.1.taken w
  left : match op with
    | .loop _ => s.renderer.loop.left ≠ 0 → r.1.renderer.loop.left + 1 = s.renderer.loop.left
    | _ => r.1.renderer.loop = s.renderer.loop
  used : ∀ w e, r.2 = some e → e.Uses w → (s.renderer.life w).ended = false

/-- A task is inserted only for a window that has not been erased. -/
def InTime (s : Rendering) : RenderOp → Prop
  | .insert thread => ∀ w task, s.renderer.posting thread = some (w, task) →
      (s.renderer.life w).erased = false
  | _ => True

/-! ### The tasks of a window in a copy -/

@[simp] theorem of_nil (w : ℕ) : TaskList.of w [] = [] := rfl

@[simp] theorem of_cons (w w' : ℕ) (tasks : List RenderTask) (rest : TaskList) :
    TaskList.of w ((w', tasks) :: rest) = (if w' = w then tasks else []) ++ rest.of w := by
  rw [TaskList.of, List.filter_cons]
  by_cases h : w' = w
  · rw [if_pos (decide_eq_true h), if_pos h, List.flatMap_cons]
    rfl
  · rw [if_neg (by simpa using h), if_neg h]
    rfl

/-- There are no tasks of a window without an entry. -/
theorem of_eq_nil {w : ℕ} {l : TaskList} (h : ∀ e ∈ l, e.1 ≠ w) : l.of w = [] := by
  rw [TaskList.of, List.filter_eq_nil_iff.2 fun e he => by simpa using h e he]
  rfl

/-- The tasks of a window in a copy of the map are those of its entry. -/
theorem of_toList (m : IdMap (List RenderTask)) (w : ℕ) :
    TaskList.of w m.toList = (m[w]?).getD [] := by
  have hordered : m.toList.Pairwise fun a b => compare a.1 b.1 = .lt :=
    Std.ExtTreeMap.ordered_keys_toList
  cases hw : m[w]? with
  | none =>
      refine of_eq_nil fun e he heq => ?_
      have hmem := Std.ExtTreeMap.mem_toList_iff_getElem?_eq_some.1 he
      rw [heq, hw] at hmem
      cases hmem
  | some tasks =>
      obtain ⟨as, bs, hsplit⟩ :=
        List.append_of_mem (Std.ExtTreeMap.mem_toList_iff_getElem?_eq_some.2 hw)
      rw [hsplit, List.pairwise_append, List.pairwise_cons] at hordered
      have hbefore : ∀ e ∈ as, e.1 ≠ w := fun e he heq => by
        have hlt := Nat.compare_eq_lt.1 (hordered.2.2 e he _ List.mem_cons_self)
        exact absurd heq (Nat.ne_of_lt hlt)
      have hafter : ∀ e ∈ bs, e.1 ≠ w := fun e he heq => by
        have hlt := Nat.compare_eq_lt.1 (hordered.2.1.1 e he)
        exact absurd heq.symm (Nat.ne_of_lt hlt)
      have happend : TaskList.of w (as ++ (w, tasks) :: bs) =
          TaskList.of w as ++ TaskList.of w ((w, tasks) :: bs) := by
        rw [TaskList.of, List.filter_append, List.flatMap_append]
        rfl
      rw [hsplit, happend, of_eq_nil hbefore, of_cons, if_pos rfl, of_eq_nil hafter, List.append_nil]
      rfl

/-! ### What every step keeps -/

/-- Who holds the mutex, which windows have tasks, and how the tasks that were inserted, taken and run
are related. -/
structure Inv (s : Rendering) : Prop where
  loopHolds : s.renderer.loop.holds = true → s.renderer.mutex = some .loop
  windowHolds : ∀ w, (s.renderer.life w).holds = true → s.renderer.mutex = some (.window w)
  entry : ∀ w ∈ s.renderer.renderingTasks, (s.renderer.life w).erased = false
  ahead : ∀ w ∈ s.renderer.loop.ahead, (s.renderer.life w).doomed = false
  inserted : ∀ w, (s.renderer.life w).erased = false →
    s.inserted w = s.taken w ++ (s.renderer.renderingTasks[w]?).getD []
  taken : ∀ w, s.taken w <+: s.inserted w
  ran : ∀ w, s.ran w ++ s.renderer.loop.pending w = s.taken w

variable {s : Rendering} {r : Renderer} {trace : List RenderEvent} {w : ℕ}

theorem inv_start : Inv start where
  loopHolds h := absurd h Bool.false_ne_true
  windowHolds _ h := absurd h Bool.false_ne_true
  entry _ _ := rfl
  ahead _ h := absurd h List.not_mem_nil
  inserted w _ := by
    change [] = (((∅ : IdMap (List RenderTask))[w]?).getD [])
    rw [Std.ExtTreeMap.getElem?_empty]
    rfl
  taken _ := List.prefix_rfl
  ran _ := rfl

/-- A loop that does not hold the mutex has no window ahead. -/
theorem ahead_eq_nil {l : LoopAt} (h : l.holds = false) : l.ahead = [] := by
  cases l with
  | idle | waiting => rfl
  | locked | windows _ | running _ _ _ _ => cases h

/-- A window goes on, where the mutex stays consistent, and the window is not erased by this. -/
theorem Inv.goOn (h : Inv ⟨r, trace⟩) {l : Life} {m : Option Owner} (n : ℕ)
    (hloop : r.loop.holds = true → m = some .loop)
    (hself : l.holds = true → m = some (.window w))
    (hother : ∀ w' ≠ w, (r.life w').holds = true → m = some (.window w'))
    (herased : l.erased = (r.life w).erased)
    (hdoomed : l.doomed = true → (r.life w).doomed = true ∨ r.loop.holds = false) :
    Inv ⟨{ r with mutex := m, instanceCounter := n }.goOn w l, trace⟩ := by
  have hsame : ∀ w', (Function.update r.life w l w').erased = (r.life w').erased := by
    intro w'
    by_cases heq : w' = w
    · rw [heq, Function.update_self, herased]
    · rw [Function.update_of_ne heq]
  constructor
  · exact hloop
  · intro w' hw'
    change (Function.update r.life w l w').holds = true at hw'
    by_cases heq : w' = w
    · rw [heq, Function.update_self] at hw'
      exact heq ▸ hself hw'
    · rw [Function.update_of_ne heq] at hw'
      exact hother w' heq hw'
  · exact fun w' hw' => (hsame w').trans (h.entry w' hw')
  · intro w' hw'
    change (Function.update r.life w l w').doomed = false
    by_cases heq : w' = w
    · rw [heq, Function.update_self]
      refine Bool.eq_false_iff.2 fun hl => ?_
      rcases hdoomed hl with hlife | hfree
      · exact absurd ((h.ahead w (heq ▸ hw')).symm.trans hlife) Bool.false_ne_true
      · have hnil : w' ∈ r.loop.ahead := hw'
        rw [ahead_eq_nil hfree] at hnil
        exact absurd hnil List.not_mem_nil
    · rw [Function.update_of_ne heq]
      exact h.ahead w' hw'
  · exact fun w' hw' => h.inserted w' ((hsame w').symm.trans hw')
  · exact h.taken
  · exact h.ran

/-- A window goes on without the mutex, or with the mutex that it has. -/
theorem Inv.keep (h : Inv ⟨r, trace⟩) {l : Life} (n : ℕ) (hholds : l.holds = (r.life w).holds)
    (herased : l.erased = (r.life w).erased) (hdoomed : l.doomed = (r.life w).doomed) :
    Inv ⟨{ r with instanceCounter := n }.goOn w l, trace⟩ :=
  h.goOn n h.loopHolds (fun hl => h.windowHolds w (hholds ▸ hl)) (fun w' _ => h.windowHolds w')
    herased fun hl => Or.inl (hdoomed ▸ hl)

/-- A window goes on with a mutex that was free. -/
theorem Inv.lock (h : Inv ⟨r, trace⟩) {l : Life} (hfree : r.mutex = none)
    (herased : l.erased = (r.life w).erased) :
    Inv ⟨{ r with mutex := some (.window w) }.goOn w l, trace⟩ := by
  have hloop : r.loop.holds ≠ true := fun hl => by
    have := hfree.symm.trans (h.loopHolds hl)
    cases this
  refine h.goOn r.instanceCounter (fun hl => absurd hl hloop) (fun _ => rfl) (fun w' _ hw' => ?_)
    herased fun _ => Or.inr (Bool.eq_false_iff.2 hloop)
  have := hfree.symm.trans (h.windowHolds w' hw')
  cases this

/-- A window goes on and releases the mutex. -/
theorem Inv.release (h : Inv ⟨r, trace⟩) {l : Life} (hheld : (r.life w).holds = true)
    (hl : l.holds = false) (herased : l.erased = (r.life w).erased)
    (hdoomed : l.doomed = (r.life w).doomed) :
    Inv ⟨{ r with mutex := none }.goOn w l, trace⟩ := by
  have hmutex := h.windowHolds w hheld
  refine h.goOn r.instanceCounter (fun hloop => ?_) (fun ht => ?_) (fun w' hne hw' => ?_)
    herased fun ht => Or.inl (hdoomed ▸ ht)
  · have := hmutex.symm.trans (h.loopHolds hloop)
    cases this
  · exact absurd (hl.symm.trans ht) Bool.false_ne_true
  · have hw := Option.some.inj (hmutex.symm.trans (h.windowHolds w' hw'))
    exact absurd (Owner.window.inj hw).symm hne

/-- A task is inserted for a window that was not erased. -/
theorem Inv.insert (h : Inv ⟨r, trace⟩) (hw : (r.life w).erased = false) (task : RenderTask) :
    Inv ⟨r.addRenderingTask w task, trace ++ [.inserted w task]⟩ := by
  have hinserted : ∀ w', Rendering.inserted ⟨r.addRenderingTask w task, trace ++ [.inserted w task]⟩ w' =
      Rendering.inserted ⟨r, trace⟩ w' ++ if w = w' then [task] else [] := fun w' => by
    simp [Rendering.inserted, RenderEvent.insertedFor]
  have htaken : ∀ w', Rendering.taken ⟨r.addRenderingTask w task, trace ++ [.inserted w task]⟩ w' =
      Rendering.taken ⟨r, trace⟩ w' := fun w' => by
    simp [Rendering.taken, RenderEvent.takenFor]
  have hran : ∀ w', Rendering.ran ⟨r.addRenderingTask w task, trace ++ [.inserted w task]⟩ w' =
      Rendering.ran ⟨r, trace⟩ w' := fun w' => by
    simp [Rendering.ran, RenderEvent.ranFor]
  constructor
  · exact h.loopHolds
  · exact h.windowHolds
  · intro w' hw'
    rcases IdMap.mem_insert.1 hw' with rfl | hmem
    · exact hw
    · exact h.entry w' hmem
  · exact h.ahead
  · intro w' hw'
    rw [hinserted, htaken, h.inserted w' hw', List.append_assoc]
    refine congrArg (Rendering.taken ⟨r, trace⟩ w' ++ ·) ?_
    change _ = ((r.renderingTasks.insert w _)[w']?).getD []
    rw [IdMap.getElem?_insert]
    by_cases heq : w' = w
    · rw [if_pos heq.symm, if_pos heq, heq]
      rfl
    · rw [if_neg (Ne.symm heq), if_neg heq, List.append_nil]
  · intro w'
    rw [hinserted, htaken]
    exact (h.taken w').trans (List.prefix_append _ _)
  · intro w'
    rw [hran, htaken]
    exact h.ran w'

/-- A window is erased. -/
theorem Inv.erase (h : Inv ⟨r, trace⟩) (w : ℕ) :
    Inv ⟨(r.unsubscribe w).goOn w .unsubscribed, trace⟩ := by
  constructor
  · exact h.loopHolds
  · intro w' hw'
    change (Function.update r.life w _ w').holds = true at hw'
    by_cases heq : w' = w
    · rw [heq, Function.update_self] at hw'
      cases hw'
    · rw [Function.update_of_ne heq] at hw'
      exact h.windowHolds w' hw'
  · intro w' hw'
    obtain ⟨hne, hmem⟩ := IdMap.mem_erase.1 hw'
    change (Function.update r.life w _ w').erased = false
    rw [Function.update_of_ne hne]
    exact h.entry w' hmem
  · intro w' hw'
    change (Function.update r.life w _ w').doomed = false
    by_cases heq : w' = w
    · rw [heq, Function.update_self]
      rfl
    · rw [Function.update_of_ne heq]
      exact h.ahead w' hw'
  · intro w' hw'
    change (Function.update r.life w _ w').erased = false at hw'
    have hne : w' ≠ w := fun heq => by
      rw [heq, Function.update_self] at hw'
      cases hw'
    rw [Function.update_of_ne hne] at hw'
    refine (h.inserted w' hw').trans (congrArg (Rendering.taken ⟨r, trace⟩ w' ++ ·) ?_)
    change _ = ((r.renderingTasks.erase w)[w']?).getD []
    rw [IdMap.getElem?_erase_ne hne]
  · exact h.taken
  · exact h.ran

/-- A step without an event. -/
theorem Inv.quiet (h : Inv ⟨r, trace⟩) : Inv ⟨r, trace ++ (none : Option RenderEvent).toList⟩ := by
  rwa [Option.toList_none, List.append_nil]

/-- The steps of a window. -/
theorem Inv.stepWindow (h : Inv ⟨r, trace⟩) (w : ℕ) :
    Inv ⟨(r.stepWindow w).1, trace ++ (r.stepWindow w).2.toList⟩ := by
  rw [Renderer.stepWindow]
  cases hlife : r.life w with
  | unborn =>
      dsimp only
      split_ifs with hfree
      · exact (h.lock hfree (by rw [hlife]; rfl)).quiet
      · exact h.quiet
  | creating =>
      exact (h.keep _ (by rw [hlife]; rfl) (by rw [hlife]; rfl) (by rw [hlife]; rfl)).quiet
  | counted =>
      have hinsert := h.insert (w := w) (by rw [hlife]; rfl) .clear
      have hlife' : (r.addRenderingTask w .clear).life w = .counted := hlife
      exact hinsert.keep _ (by rw [hlife']; rfl) (by rw [hlife']; rfl) (by rw [hlife']; rfl)
  | subscribed =>
      exact (h.release (by rw [hlife]; rfl) rfl (by rw [hlife]; rfl) (by rw [hlife]; rfl)).quiet
  | alive =>
      exact (h.keep _ (by rw [hlife]; rfl) (by rw [hlife]; rfl) (by rw [hlife]; rfl)).quiet
  | flagged => exact (h.erase w).quiet
  | unsubscribed =>
      dsimp only
      split_ifs with hfree
      · exact (h.lock hfree (by rw [hlife]; rfl)).quiet
      · exact h.quiet
  | destroying =>
      exact (h.keep _ (by rw [hlife]; rfl) (by rw [hlife]; rfl) (by rw [hlife]; rfl)).quiet
  | destroyed =>
      exact (h.release (by rw [hlife]; rfl) rfl (by rw [hlife]; rfl) (by rw [hlife]; rfl)).quiet
  | released =>
      exact (h.keep _ (by rw [hlife]; rfl) (by rw [hlife]; rfl) (by rw [hlife]; rfl)).quiet
  | gone => exact h.quiet

/-- Calls of `add_rendering_task` come and go. -/
theorem Inv.posting (h : Inv ⟨r, trace⟩) (p : ℕ → Option (ℕ × ℕ)) :
    Inv ⟨{ r with posting := p }, trace⟩ :=
  ⟨h.loopHolds, h.windowHolds, h.entry, h.ahead, h.inserted, h.taken, h.ran⟩

/-- The insertion in a call of `add_rendering_task` that is in time. -/
theorem Inv.stepInsert (h : Inv ⟨r, trace⟩) {thread : ℕ} (hok : InTime ⟨r, trace⟩ (.insert thread)) :
    Inv ⟨(r.stepInsert thread).1, trace ++ (r.stepInsert thread).2.toList⟩ := by
  rw [Renderer.stepInsert]
  cases hposting : r.posting thread with
  | none => exact h.quiet
  | some e =>
      obtain ⟨w, task⟩ := e
      exact (h.insert (hok w task hposting) _).posting _

/-- The loop goes on, with the tasks that it has taken. -/
theorem Inv.loopOn (h : Inv ⟨r, trace⟩) (l : LoopAt) (m : Option Owner) {e : List RenderEvent}
    (hholds : l.holds = true → m = some .loop)
    (hwindow : ∀ w, (r.life w).holds = true → m = some (.window w))
    (hahead : ∀ w ∈ l.ahead, w ∈ r.loop.ahead)
    (hinserted : ∀ w, e.flatMap (·.insertedFor w) = []) (htaken : ∀ w, e.flatMap (·.takenFor w) = [])
    (hran : ∀ w, e.flatMap (·.ranFor w) ++ l.pending w = r.loop.pending w) :
    Inv ⟨{ r with mutex := m, loop := l }, trace ++ e⟩ := by
  have hinserted' : ∀ w, Rendering.inserted ⟨{ r with mutex := m, loop := l }, trace ++ e⟩ w =
      Rendering.inserted ⟨r, trace⟩ w := fun w => by
    rw [Rendering.inserted, List.flatMap_append, hinserted, List.append_nil]
    rfl
  have htaken' : ∀ w, Rendering.taken ⟨{ r with mutex := m, loop := l }, trace ++ e⟩ w =
      Rendering.taken ⟨r, trace⟩ w := fun w => by
    rw [Rendering.taken, List.flatMap_append, htaken, List.append_nil]
    rfl
  constructor
  · exact hholds
  · exact hwindow
  · exact h.entry
  · exact fun w hw => h.ahead w (hahead w hw)
  · intro w hw
    rw [hinserted', htaken']
    exact h.inserted w hw
  · intro w
    rw [hinserted', htaken']
    exact h.taken w
  · intro w
    rw [htaken', ← h.ran w, Rendering.ran, List.flatMap_append, List.append_assoc]
    exact congrArg (_ ++ ·) (hran w)

/-- The loop takes the tasks. -/
theorem Inv.take (h : Inv ⟨r, trace⟩) (hloop : r.loop = .locked) :
    Inv ⟨{ r.popRenderingTasks.2 with loop := .windows r.popRenderingTasks.1 },
      trace ++ [.taken r.popRenderingTasks.1]⟩ := by
  have hpending : ∀ w, r.loop.pending w = [] := fun w => by
    rw [hloop]
    rfl
  have htaken : ∀ w, Rendering.taken ⟨{ r.popRenderingTasks.2 with
      loop := .windows r.popRenderingTasks.1 }, trace ++ [.taken r.popRenderingTasks.1]⟩ w =
      Rendering.taken ⟨r, trace⟩ w ++ (r.renderingTasks[w]?).getD [] := fun w => by
    rw [Rendering.taken, List.flatMap_append, List.flatMap_singleton, ← of_toList]
    rfl
  have hinserted : ∀ w, Rendering.inserted ⟨{ r.popRenderingTasks.2 with
      loop := .windows r.popRenderingTasks.1 }, trace ++ [.taken r.popRenderingTasks.1]⟩ w =
      Rendering.inserted ⟨r, trace⟩ w := fun w => by
    rw [Rendering.inserted, List.flatMap_append, List.flatMap_singleton]
    exact List.append_nil _
  have hmap : ∀ w, (r.popRenderingTasks.2.renderingTasks[w]?).getD [] = [] := fun w => by
    rw [Renderer.popRenderingTasks, Std.ExtTreeMap.getElem?_map]
    cases r.renderingTasks[w]? <;> rfl
  constructor
  · exact fun _ => h.loopHolds (by rw [hloop]; rfl)
  · exact h.windowHolds
  · exact fun w hw => h.entry w (Std.ExtTreeMap.mem_map.1 hw)
  · intro w hw
    have hentry := h.entry w (IdMap.mem_map_fst_toList.1 hw)
    refine Bool.eq_false_iff.2 fun hdoomed => ?_
    exact absurd (hentry.symm.trans (Life.erased_of_doomed hdoomed)) Bool.false_ne_true
  · intro w hw
    rw [hinserted, htaken, h.inserted w hw]
    change _ = _ ++ (r.popRenderingTasks.2.renderingTasks[w]?).getD []
    rw [hmap, List.append_nil]
  · intro w
    rw [hinserted, htaken]
    by_cases hw : w ∈ r.renderingTasks
    · exact (h.inserted w (h.entry w hw)) ▸ List.prefix_rfl
    · rw [IdMap.getElem?_eq_none_iff.2 hw]
      exact (List.append_nil _).symm ▸ h.taken w
  · intro w
    have hran := h.ran w
    change Rendering.ran _ w ++ r.loop.pending w = _ at hran
    rw [hpending, List.append_nil] at hran
    rw [htaken, ← hran, ← of_toList, Rendering.ran, List.flatMap_append, List.flatMap_singleton]
    exact congrArg (· ++ _) (List.append_nil _)

/-- The steps of the loop. -/
theorem Inv.stepLoop (h : Inv ⟨r, trace⟩) (result : Bool) :
    Inv ⟨(r.stepLoop result).1, trace ++ (r.stepLoop result).2.toList⟩ := by
  have hwindow : r.mutex = none → ∀ w, (r.life w).holds = true → r.mutex = some (.window w) ∧ False := by
    intro hfree w hw
    have := hfree.symm.trans (h.windowHolds w hw)
    cases this
  have hfree : r.loop.holds = true → ∀ w, (r.life w).holds ≠ true := by
    intro hholds w hw
    have := (h.loopHolds hholds).symm.trans (h.windowHolds w hw)
    cases this
  have hmutex : r.loop.holds = true → ∀ l : LoopAt, l.holds = true → r.mutex = some .loop :=
    fun hholds _ _ => h.loopHolds hholds
  rw [Renderer.stepLoop]
  cases hloop : r.loop with
  | idle =>
      dsimp only
      split_ifs
      · exact h.quiet
      · refine h.loopOn .waiting r.mutex (fun ht => absurd ht Bool.false_ne_true) h.windowHolds
          (fun w hw => absurd hw List.not_mem_nil) (fun w => rfl) (fun w => rfl) fun w => ?_
        rw [hloop]
        rfl
  | waiting =>
      dsimp only
      split_ifs with hnone
      · refine h.loopOn .locked (some .loop) (fun _ => rfl)
          (fun w hw => (hwindow hnone w hw).2.elim) (fun w hw => absurd hw List.not_mem_nil)
          (fun w => rfl) (fun w => rfl) fun w => ?_
        rw [hloop]
        rfl
      · exact h.quiet
  | locked => exact h.take hloop
  | windows rest =>
      rw [hloop] at hfree hmutex
      cases rest with
      | nil =>
          refine h.loopOn .idle none (fun ht => absurd ht Bool.false_ne_true)
            (fun w hw => absurd hw (hfree rfl w)) (fun w hw => absurd hw List.not_mem_nil)
            (fun w => rfl) (fun w => rfl) fun w => ?_
          rw [hloop]
          rfl
      | cons e rest =>
          obtain ⟨w, tasks⟩ := e
          refine h.loopOn (.running w tasks true rest) r.mutex (hmutex rfl _) h.windowHolds
            (fun w' hw' => ?_) (fun w' => rfl) (fun w' => rfl) fun w' => ?_
          · rw [hloop]
            exact hw'
          · rw [hloop]
            exact (of_cons w' w tasks rest).symm
  | running w tasks ret rest =>
      rw [hloop] at hfree hmutex
      cases tasks with
      | nil =>
          refine h.loopOn (.windows rest) r.mutex (hmutex rfl _) h.windowHolds
            (fun w' hw' => ?_) (fun w' => ?_) (fun w' => ?_) fun w' => ?_
          · rw [hloop]
            exact List.mem_cons_of_mem w hw'
          · cases ret <;> rfl
          · cases ret <;> rfl
          · rw [hloop]
            cases ret <;> simp [LoopAt.pending, RenderEvent.ranFor]
      | cons task tasks =>
          refine h.loopOn (.running w tasks (ret && result) rest) r.mutex (hmutex rfl _)
            h.windowHolds (fun w' hw' => ?_) (fun w' => rfl) (fun w' => rfl) fun w' => ?_
          · rw [hloop]
            exact hw'
          · rw [hloop]
            simp only [Option.toList_some, List.flatMap_singleton, RenderEvent.ranFor, LoopAt.pending]
            by_cases hw : w = w'
            · rw [if_pos hw, if_pos hw, if_pos hw]
              rfl
            · rw [if_neg hw, if_neg hw, if_neg hw]
              rfl

/-- A step that is in time keeps all this. -/
theorem Inv.step (h : s.Inv) {op : RenderOp} (hok : s.InTime op) {q : Rendering × Option RenderEvent}
    (hq : s.step op = some q) : q.1.Inv := by
  rw [← Option.some.inj hq]
  cases op with
  | window w => exact h.stepWindow w
  | test thread w task =>
      refine Inv.quiet ?_
      change Inv ⟨s.renderer.stepTest thread w task, s.trace⟩
      rw [Renderer.stepTest]
      split_ifs
      · exact h.posting _
      · exact h
  | insert thread => exact h.stepInsert hok
  | loop result => exact h.stepLoop result

/-! ### What every step does -/

/-- The steps of a window leave the loop where it is. -/
theorem stepWindow_loop (r : Renderer) (w : ℕ) : (r.stepWindow w).1.loop = r.loop := by
  rw [Renderer.stepWindow]
  cases r.life w with
  | unborn | unsubscribed =>
      dsimp only
      split_ifs <;> rfl
  | creating | counted | subscribed | alive | flagged | destroying | destroyed | released | gone => rfl

theorem stepTest_loop (r : Renderer) (thread w task : ℕ) :
    (r.stepTest thread w task).loop = r.loop := by
  rw [Renderer.stepTest]
  split_ifs <;> rfl

theorem stepInsert_loop (r : Renderer) (thread : ℕ) : (r.stepInsert thread).1.loop = r.loop := by
  rw [Renderer.stepInsert]
  cases r.posting thread <;> rfl

/-- A step of the loop is one less of those that are left. -/
theorem stepLoop_left (result : Bool) (h : r.loop.left ≠ 0) :
    (r.stepLoop result).1.loop.left + 1 = r.loop.left := by
  rw [Renderer.stepLoop]
  cases hloop : r.loop with
  | idle | waiting | locked =>
      rw [hloop] at h
      exact absurd rfl h
  | windows rest =>
      cases rest with
      | nil => rfl
      | cons e rest =>
          simp only [LoopAt.left, TaskList.steps]
          omega
  | running w tasks ret rest =>
      cases tasks with
      | nil =>
          simp only [LoopAt.left, List.length_nil]
          omega
      | cons task tasks =>
          simp only [LoopAt.left, List.length_cons]
          omega

/-- A window inserts its first task, and that is all. -/
theorem eq_inserted_of_stepWindow {e : RenderEvent} (he : (r.stepWindow w).2 = some e) :
    e = .inserted w .clear := by
  rw [Renderer.stepWindow] at he
  cases hlife : r.life w with
  | unborn | unsubscribed =>
      rw [hlife] at he
      dsimp only at he
      split_ifs at he
  | counted =>
      rw [hlife] at he
      exact (Option.some.inj he).symm
  | creating | subscribed | alive | flagged | destroying | destroyed | released | gone =>
      rw [hlife] at he
      cases he

/-- Only the loop uses a window, and it uses one that is ahead. -/
theorem mem_ahead_of_uses {op : RenderOp} {e : RenderEvent} (he : (r.step op).2 = some e)
    (hw : e.Uses w) : w ∈ r.loop.ahead := by
  cases op with
  | window w' =>
      rw [eq_inserted_of_stepWindow he] at hw
      exact hw.elim
  | test thread w' task => cases he
  | insert thread =>
      rw [Renderer.step, Renderer.stepInsert] at he
      cases hposting : r.posting thread with
      | none =>
          rw [hposting] at he
          cases he
      | some p =>
          rw [hposting] at he
          cases he
          cases hw
  | loop result =>
      rw [Renderer.step, Renderer.stepLoop] at he
      cases hloop : r.loop with
      | idle | waiting =>
          rw [hloop] at he
          dsimp only at he
          split_ifs at he
      | locked =>
          rw [hloop] at he
          cases he
          cases hw
      | windows rest =>
          rw [hloop] at he
          cases rest with
          | nil => cases he
          | cons e rest =>
              cases he
              rw [← hw]
              exact List.mem_cons_self
      | running w' tasks ret rest =>
          rw [hloop] at he
          cases tasks with
          | nil =>
              cases ret with
              | false => cases he
              | true =>
                  cases he
                  rw [← hw]
                  exact List.mem_cons_self
          | cons task tasks =>
              cases he
              rw [← hw]
              exact List.mem_cons_self

/-- A step does what it should if what every step keeps holds before and after it. -/
theorem right_of_inv {op : RenderOp} {q : Rendering × Option RenderEvent} (h : s.Inv)
    (hq : s.step op = some q) (hinv : q.1.Inv) : s.Right op q where
  taken := hinv.taken
  ran := hinv.ran
  left := by
    rw [← Option.some.inj hq]
    cases op with
    | window w => exact stepWindow_loop s.renderer w
    | test thread w task => exact stepTest_loop s.renderer thread w task
    | insert thread => exact stepInsert_loop s.renderer thread
    | loop result => exact stepLoop_left result
  used w e he hw := by
    rw [← Option.some.inj hq] at he
    have hahead := h.ahead w (mem_ahead_of_uses he hw)
    refine Bool.eq_false_iff.2 fun hended => ?_
    exact absurd (hahead.symm.trans (Life.doomed_of_ended hended)) Bool.false_ne_true

/-- **Rendering tasks are run once and in order, and never for a window that is destroyed**, in every
run in which no task is inserted for a window that was erased. -/
theorem right_of_inTime (ops : List RenderOp) (h : Machine.Admits step InTime start ops) :
    Machine.Meets step Right start ops := by
  refine h.meets (I := Inv) (fun s op hs hok => ?_) inv_start
  obtain ⟨q, hq⟩ : ∃ q, s.step op = some q := ⟨_, rfl⟩
  have hinv := hs.step hok hq
  exact ⟨q, hq, right_of_inv hs hq hinv, hinv⟩

instance decidableInTime (s : Rendering) (op : RenderOp) : Decidable (s.InTime op) :=
  match op with
  | .insert thread =>
      match h : s.renderer.posting thread with
      | none => isTrue fun w task hw => by
          rw [h] at hw
          cases hw
      | some (w, task) => decidable_of_iff ((s.renderer.life w).erased = false)
          ⟨fun hok w' task' hw => by
            rw [h] at hw
            cases hw
            exact hok, fun hok => hok w task h⟩
  | .window _ | .test .. | .loop _ => isTrue trivial

/-- A window from its making on, up to the moment in which its destructor could lock the mutex, with
a call of `add_rendering_task` that has made its test and a loop that has made its own. -/
def lateCall : List RenderOp :=
  [.window 0, .window 0, .window 0, .window 0, .loop true, .test 7 0 3, .window 0, .window 0]

/-- The tasks of a window are run in time. -/
theorem right_tasksInTime : Machine.Meets step Right start
    [.window 0, .window 0, .window 0, .window 0, .test 7 0 3, .loop true, .insert 7, .loop true,
      .loop true, .window 0, .loop true, .window 0, .loop true, .loop false, .window 0, .loop true,
      .loop true, .window 0, .window 0, .window 0, .window 0] :=
  right_of_inTime _ (by decide +kernel)

/-- The task that was posted too late is taken, and the window that is destroyed is used. -/
theorem not_right_lateCall : ¬Machine.Meets step Right start
    (lateCall ++ [.insert 7, .window 0, .window 0, .window 0, .loop true, .loop true] ++
      [.loop true]) := by
  intro h
  obtain ⟨s, os, hrun, r, hr, hright, -⟩ := h.append
  have hended : ((Machine.run step start (lateCall ++ [.insert 7, .window 0, .window 0, .window 0,
      .loop true, .loop true])).map fun q => (q.1.renderer.life 0).ended) = some true := by
    decide +kernel
  have hused : ((Machine.run step start (lateCall ++ [.insert 7, .window 0, .window 0, .window 0,
      .loop true, .loop true])).bind fun q => (step q.1 (.loop true)).map Prod.snd) =
        some (some (.touched 0)) := by
    decide +kernel
  rw [hrun] at hended hused
  rw [Option.bind_some, hr] at hused
  have hstill := hright.used 0 _ (Option.some.inj hused) rfl
  exact absurd (hstill.symm.trans (Option.some.inj hended)) Bool.false_ne_true

end Rendering
end Glfw
end LibSwitcher
