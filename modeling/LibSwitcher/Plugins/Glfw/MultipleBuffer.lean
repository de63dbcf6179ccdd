/-
# Multiple buffers

`plugins/glfw/multiple-buffer.hpp`: the frames of a video are written by one thread and read by
the render loop of `plugins/glfw/glfw-renderer.cpp`, which uses the buffer it is given until
its next call.  The mutex makes the calls of both one step each.

The reader is to be given the frame that was completed last, if it has not been given it yet, and
a buffer that is not written while it uses it (`Hands`).  But `read` gives the buffer at
`read_index_` and moves the index afterwards: it says that there is a change when the frame is in
another buffer, and the writer only avoids the buffer that the index was moved to.  So nothing is
as it should be from the first read after a frame on: the reader is handed frames as claimed
in the runs in which it only reads while the indices are the same (`hands_of_unmoved`), and for
frames that differ only in these (`unmoved_of_hands`).
-/

import LibSwitcher.Lib.Machine
import Mathlib.Data.List.Basic
import Mathlib.Logic.Function.Basic
import Mathlib.Tactic.SplitIfs

namespace LibSwitcher
namespace Glfw

/-- A `MultipleBuffer`: its indices, and the frame in each buffer, if there is one. -/
structure MultipleBuffer (F : Type) where
  readIndex : ℕ
  writeIndex : ℕ
  data : ℕ → Option F

namespace MultipleBuffer

variable {F : Type} (bufferDepth : ℕ)

/-- `read`: the buffer whose pointer is returned, and `has_changed`, which the call may clear. -/
def read (hasChanged : Bool) (b : MultipleBuffer F) : (ℕ × Bool) × MultipleBuffer F :=
  if b.readIndex ≠ b.writeIndex then
    ((b.readIndex, hasChanged), { b with readIndex := (b.readIndex + 1) % bufferDepth })
  else ((b.readIndex, false), b)

/-- The buffer that `write` writes. -/
def nextWrite (b : MultipleBuffer F) : ℕ :=
  let nextWrite := (b.writeIndex + 1) % bufferDepth
  if b.readIndex = nextWrite then (nextWrite + 1) % 3 else nextWrite

/-- `write`. -/
def write (frame : F) (b : MultipleBuffer F) : MultipleBuffer F :=
  { b with
    writeIndex := b.nextWrite bufferDepth
    data := Function.update b.data (b.nextWrite bufferDepth) (some frame) }

end MultipleBuffer

/-- The buffers with what the two threads know of them: the buffer that the last read returned, the
frames that were completed, the last one first, and those that a read has returned as a
change. -/
structure World (F : Type) where
  buffer : MultipleBuffer F
  held : Option ℕ
  completed : List F
  returned : List F

/-- The calls of the two threads. -/
inductive Event (F : Type)
  | write (frame : F)
  | read

namespace World

variable {F : Type} (bufferDepth : ℕ)

/-- Before any call. -/
def make : World F := ⟨⟨0, 0, fun _ => none⟩, none, [], []⟩

/-- A call, with the pointer and the flag of a read.  The render loop sets the flag before. -/
def step (w : World F) : Event F → Option (World F × Option (ℕ × Bool))
  | .write frame =>
      some ({ w with buffer := w.buffer.write bufferDepth frame, completed := frame :: w.completed },
        none)
  | .read =>
      let r := w.buffer.read bufferDepth true
      some ({ w with
          buffer := r.2
          held := some r.1.1
          returned := if r.1.2 then (w.buffer.data r.1.1).toList ++ w.returned else w.returned },
        some r.1)

/-- What a call is to do: a buffer that is used is not written, and a read says that there is a
change if and only if a frame was completed that was not returned as one, and returns the frame
that was completed last then. -/
def Hands (w : World F) : Event F → World F × Option (ℕ × Bool) → Prop
  | .write _, _ => w.held ≠ some (w.buffer.nextWrite bufferDepth)
  | .read, r => ∃ pointer hasChanged, r.2 = some (pointer, hasChanged) ∧
      (hasChanged = true ↔ ∃ frame ∈ w.completed, frame ∉ w.returned) ∧
      (hasChanged = true → w.buffer.data pointer = w.completed.head?)

/-- The calls that go right: a read while the indices are the same. -/
def Unmoved (w : World F) : Event F → Prop
  | .write _ => True
  | .read => w.buffer.readIndex = w.buffer.writeIndex

variable {bufferDepth : ℕ} {w : World F}

/-- The writer does not write the buffer at the index of the reader. -/
theorem nextWrite_ne (bufferDepth : ℕ) (b : MultipleBuffer F) :
    b.nextWrite bufferDepth ≠ b.readIndex := by
  unfold MultipleBuffer.nextWrite
  dsimp only
  split_ifs with h
  · rw [h]
    omega
  · exact Ne.symm h

/-! ### Runs that go right -/

/-- As long as the reader has not moved: it holds the buffer at its index, if any, nothing was
returned as a change, and once a frame is completed the indices differ. -/
structure Still (w : World F) : Prop where
  held : ∀ i ∈ w.held, i = w.buffer.readIndex
  returned : w.returned = []
  completed : w.buffer.readIndex = w.buffer.writeIndex → w.completed = []

theorem still_make : Still (make : World F) where
  held _ h := (Option.not_mem_none _ h).elim
  returned := rfl
  completed _ := rfl

/-- A write goes right, and moves its own index only. -/
theorem Still.write (h : Still w) (frame : F) :
    ∃ r, step bufferDepth w (.write frame) = some r ∧ Hands bufferDepth w (.write frame) r ∧
      Still r.1 := by
  refine ⟨_, rfl, fun hheld => ?_, h.held, h.returned, fun heq => ?_⟩
  · exact nextWrite_ne bufferDepth w.buffer (h.held _ hheld)
  · exact absurd heq.symm (nextWrite_ne bufferDepth w.buffer)

theorem read_of_eq (hsame : w.buffer.readIndex = w.buffer.writeIndex) :
    w.buffer.read bufferDepth true = ((w.buffer.readIndex, false), w.buffer) :=
  if_neg (not_not_intro hsame)

/-- A read while the indices are the same goes right, and moves none. -/
theorem Still.read (h : Still w) (hsame : w.buffer.readIndex = w.buffer.writeIndex) :
    ∃ r, step bufferDepth w .read = some r ∧ Hands bufferDepth w .read r ∧ Still r.1 := by
  have hread : w.buffer.read bufferDepth true = _ := read_of_eq hsame
  refine ⟨_, rfl, ⟨w.buffer.readIndex, false, by rw [hread], ?_, fun hfalse => ?_⟩, ?_⟩
  · rw [h.completed hsame]
    exact iff_of_false Bool.false_ne_true fun ⟨_, hmem, _⟩ => List.not_mem_nil hmem
  · exact absurd hfalse Bool.false_ne_true
  · rw [hread]
    exact ⟨fun i hi => (Option.some.inj hi).symm, h.returned, h.completed⟩

/-- **Frames are handed out as they should be** in every run in which a read is made only while the
indices are the same. -/
theorem hands_of_unmoved (bufferDepth : ℕ) (es : List (Event F))
    (h : Machine.Admits (step bufferDepth) Unmoved make es) :
    Machine.Meets (step bufferDepth) (Hands bufferDepth) make es := by
  refine h.meets (I := Still) (fun w e hw hok => ?_) still_make
  cases e with
  | write frame => exact hw.write frame
  | read => exact hw.read hok

/-- A read before the first frame. -/
theorem hands_writes :
    Machine.Meets (step 3) (Hands 3) (make : World ℕ) [.read, .write 7, .write 8] :=
  hands_of_unmoved 3 _ ⟨rfl, by
    rintro _ h
    cases h
    exact ⟨trivial, by rintro _ h; cases h; exact ⟨trivial, by rintro _ h; cases h; trivial⟩⟩⟩

/-! ### Runs that go wrong -/

/-- The frame of a write. -/
def Event.frame? : Event F → Option F
  | .write frame => some frame
  | .read => none

/-- The frames in the buffers were completed, and only the buffer at the index of the writer has the
last one. -/
def Placed (w : World F) : Prop :=
  ∀ i frame, w.buffer.data i = some frame →
    frame ∈ w.completed ∧ (i ≠ w.buffer.writeIndex → frame ∈ w.completed.tail)

theorem Placed.write (h : Placed w) (frame : F) :
    Placed { w with buffer := w.buffer.write bufferDepth frame, completed := frame :: w.completed } := by
  intro i f hf
  by_cases hi : i = w.buffer.nextWrite bufferDepth
  · have hdata : Function.update w.buffer.data (w.buffer.nextWrite bufferDepth) (some frame) i =
        some f := hf
    rw [hi, Function.update_self] at hdata
    rw [← Option.some.inj hdata]
    exact ⟨List.mem_cons_self, fun hne => absurd hi hne⟩
  · have hdata : Function.update w.buffer.data (w.buffer.nextWrite bufferDepth) (some frame) i =
        some f := hf
    rw [Function.update_of_ne hi] at hdata
    have hmem := (h i f hdata).1
    exact ⟨List.mem_cons_of_mem frame hmem, fun _ => hmem⟩

/-- A read while the indices differ says that there is a change, and gives a buffer that the last
frame is not in. -/
theorem not_hands_of_ne (h : Placed w) (hnodup : w.completed.Nodup)
    (hne : w.buffer.readIndex ≠ w.buffer.writeIndex) {r : World F × Option (ℕ × Bool)}
    (hr : r.2 = some (w.buffer.read bufferDepth true).1) : ¬Hands bufferDepth w .read r := by
  rintro ⟨pointer, hasChanged, heq, hiff, hdata⟩
  have hread : (pointer, hasChanged) = (w.buffer.readIndex, true) := by
    refine Option.some.inj (heq.symm.trans (hr.trans ?_))
    rw [MultipleBuffer.read, if_pos hne]
  obtain ⟨rfl, rfl⟩ := Prod.mk.inj hread
  obtain ⟨frame, hmem, -⟩ := hiff.1 rfl
  cases hcompleted : w.completed with
  | nil =>
      rw [hcompleted] at hmem
      exact List.not_mem_nil hmem
  | cons last others =>
      have hlast := hdata rfl
      rw [hcompleted, List.head?_cons] at hlast
      have hothers := (h _ last hlast).2 hne
      rw [hcompleted] at hothers hnodup
      exact (List.nodup_cons.1 hnodup).1 hothers

/-- **A read after a frame goes wrong**, if all frames are different: where every call does what it is
to do, a read is made only while the indices are the same. -/
theorem unmoved_of_hands {es : List (Event F)} (hnodup : (es.filterMap Event.frame?).Nodup)
    (h : Machine.Meets (step bufferDepth) (Hands bufferDepth) make es) :
    Machine.Admits (step bufferDepth) Unmoved make es := by
  have key : ∀ (es : List (Event F)) (w : World F), Placed w →
      (es.filterMap Event.frame? ++ w.completed).Nodup →
      Machine.Meets (step bufferDepth) (Hands bufferDepth) w es →
      Machine.Admits (step bufferDepth) Unmoved w es := by
    intro es
    induction es with
    | nil => exact fun _ _ _ _ => trivial
    | cons e es ih =>
        rintro w hplaced hnodup ⟨r, hr, hhands, hrest⟩
        cases e with
        | write frame =>
            refine ⟨trivial, fun r' hr' => ?_⟩
            obtain rfl := Option.some.inj (hr.symm.trans hr')
            obtain rfl := Option.some.inj hr
            exact ih _ (hplaced.write frame) (List.perm_middle.nodup_iff.2 hnodup) hrest
        | read =>
            obtain rfl := Option.some.inj hr
            have hsame : w.buffer.readIndex = w.buffer.writeIndex := by
              by_contra hne
              exact not_hands_of_ne hplaced (List.nodup_append.1 hnodup).2.1 hne rfl hhands
            refine ⟨hsame, fun r' hr' => ?_⟩
            obtain rfl := Option.some.inj hr'
            refine ih _ ?_ hnodup hrest
            rw [Placed, read_of_eq hsame]
            exact hplaced
  exact key es make (fun i frame h => absurd h (Option.some_ne_none frame).symm)
    (by rwa [make, List.append_nil]) h

/-- The first frame is not in the buffer that the read gives. -/
theorem not_hands_firstFrame :
    ¬Machine.Meets (step 3) (Hands 3) (make : World ℕ) [.write 7, .read] := by
  intro h
  have hadmits := unmoved_of_hands (by decide) h
  have hsame : (0 : ℕ) = 1 := (hadmits.2 _ rfl).1
  exact absurd hsame Nat.zero_ne_one

end World
end Glfw
end LibSwitcher
