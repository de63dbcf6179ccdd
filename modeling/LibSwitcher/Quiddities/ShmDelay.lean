/-
# The frames of a delay line

`ShmDelay::ShmBuffer` of `switcher/quiddities/shm-delay.cpp`: the frames of a shmdata with the
times at which they came, in milliseconds.  Old frames go when all of them together are
larger than the buffer may be (`push`, `set_buffer_size`).  The frames that are left are the
last ones of those that came (`buffer_run`), so that they are in the order of time if the
clock does not go back (`ordered_run`).

`find_closest` looks for the frame whose time is next to a target.  Its scan begins with a
difference of a second and with the first frame: a frame that is a second or more from the
target is never looked at, so that the first frame is found if all of them are.  This is
right exactly if a frame is less than a second from the target, or if no frame is closer
than the first one (`closest_iff`).
-/

import Mathlib.Algebra.Order.Ring.Int
import Mathlib.Data.List.Basic
import Mathlib.Data.Nat.Notation
import Mathlib.Tactic.Common

namespace LibSwitcher
namespace ShmDelay

/-- `ShmContent`: a frame, of the size of its data; without arguments it has none. -/
structure ShmContent where
  content : List UInt8 := []
  dataSize : ℕ := 0
  timestamp : ℤ := 0
  sized : content.length = dataSize := by rfl

namespace ShmContent

/-- `get_size`. -/
def getSize (item : ShmContent) : ℕ := item.content.length

/-- How far a frame is from a time. -/
def distance (target : ℤ) (item : ShmContent) : ℕ := (item.timestamp - target).natAbs

end ShmContent

/-- The size of frames. -/
def sizes : List ShmContent → ℕ
  | [] => 0
  | item :: rest => item.getSize + sizes rest

/-- `ShmBuffer`: the total size is that of the frames, it is not above the limit, and each frame
has data. -/
structure ShmBuffer where
  buffer : List ShmContent
  totalSize : ℕ
  maxSize : ℕ
  total : totalSize = sizes buffer
  fits : totalSize ≤ maxSize
  filled : ∀ item ∈ buffer, item.dataSize ≠ 0

/-- The loop that removes the oldest frames until they all fit; the frames that are left and
their size. -/
def trim (maxSize : ℕ) : List ShmContent → ℕ → List ShmContent × ℕ
  | [], totalSize => ([], totalSize)
  | item :: rest, totalSize =>
      if maxSize < totalSize then trim maxSize rest (totalSize - item.getSize)
      else (item :: rest, totalSize)

theorem sizes_append (l l' : List ShmContent) : sizes (l ++ l') = sizes l + sizes l' := by
  induction l with
  | nil => exact (Nat.zero_add _).symm
  | cons item l ih => rw [List.cons_append, sizes, sizes, ih, Nat.add_assoc]

/-- The loop ends before there is no frame: these have no size. -/
theorem trim_spec (maxSize : ℕ) {l : List ShmContent} {totalSize : ℕ} (h : totalSize = sizes l) :
    (trim maxSize l totalSize).2 = sizes (trim maxSize l totalSize).1 ∧
      (trim maxSize l totalSize).2 ≤ maxSize ∧ (trim maxSize l totalSize).1 <:+ l := by
  induction l generalizing totalSize with
  | nil => exact ⟨h, h ▸ Nat.zero_le _, List.suffix_rfl⟩
  | cons item rest ih =>
      rw [trim]
      split_ifs with hlt
      · have hrest : totalSize - item.getSize = sizes rest := by
          rw [h, sizes, Nat.add_sub_cancel_left]
        obtain ⟨htotal, hfits, hsuffix⟩ := ih hrest
        exact ⟨htotal, hfits, hsuffix.trans (List.suffix_cons _ _)⟩
      · exact ⟨h, Nat.le_of_not_lt hlt, List.suffix_rfl⟩

namespace ShmBuffer

/-- The constructor, with a size in megabytes. -/
def make (bufferSize : ℕ) : ShmBuffer where
  buffer := []
  totalSize := 0
  maxSize := bufferSize * 2 ^ 20
  total := rfl
  fits := Nat.zero_le _
  filled := fun _ h => absurd h List.not_mem_nil

/-- The buffer of the frames that are left by the loop. -/
def trimmed (frames : List ShmContent) (totalSize maxSize : ℕ) (htotal : totalSize = sizes frames)
    (hfilled : ∀ item ∈ frames, item.dataSize ≠ 0) : ShmBuffer where
  buffer := (trim maxSize frames totalSize).1
  totalSize := (trim maxSize frames totalSize).2
  maxSize := maxSize
  total := (trim_spec maxSize htotal).1
  fits := (trim_spec maxSize htotal).2.1
  filled := fun item hitem => hfilled item ((trim_spec maxSize htotal).2.2.subset hitem)

theorem buffer_trimmed {frames : List ShmContent} {totalSize maxSize : ℕ}
    (htotal : totalSize = sizes frames) (hfilled : ∀ item ∈ frames, item.dataSize ≠ 0) :
    (trimmed frames totalSize maxSize htotal hfilled).buffer <:+ frames :=
  (trim_spec maxSize htotal).2.2

/-- `push`. -/
def push (b : ShmBuffer) (content : ShmContent) (h : content.dataSize ≠ 0) : ShmBuffer :=
  trimmed (b.buffer ++ [content]) (b.totalSize + content.getSize) b.maxSize
    (by rw [sizes_append, ← b.total]; rfl)
    (List.forall_mem_append.2 ⟨b.filled, List.forall_mem_singleton.2 h⟩)

/-- `set_buffer_size`, with a size in megabytes that is counted in 64 bits. -/
def setBufferSize (b : ShmBuffer) (size : ℕ) : ShmBuffer :=
  trimmed b.buffer b.totalSize (size * 2 ^ 20 % 2 ^ 64) b.total b.filled

/-- The loop of `find_closest`, with the difference that is to be beaten. -/
def scan (targetTimestamp : ℤ) : List ShmContent → ℤ → ShmContent → Bool → ShmContent
  | [], _, closest, _ => closest
  | item :: rest, diff, closest, gettingCloser =>
      let newDiff := item.timestamp - targetTimestamp
      let newDiff := if newDiff < 0 then -newDiff else newDiff
      if newDiff < diff then scan targetTimestamp rest newDiff item true
      -- further away again: the previous frame is returned
      else if gettingCloser && decide (diff < newDiff) then closest
      else scan targetTimestamp rest diff closest gettingCloser

/-- `find_closest`. -/
def findClosest (b : ShmBuffer) (targetTimestamp : ℤ) : ShmContent :=
  match b.buffer with
  | [] => {}
  | front :: rest => scan targetTimestamp (front :: rest) 1000 front false

/-! ### Buffers over time -/

/-- What happens to a buffer: the follower has data, at a time, or the size is set. -/
inductive Event
  | data (now : ℤ) (bytes : List UInt8)
  | bufferSize (size : ℕ)

/-- The frame of an event; data of no size is none. -/
def Event.frame : Event → Option ShmContent
  | .data now bytes =>
      if bytes.length = 0 then none
      else some { content := bytes, dataSize := bytes.length, timestamp := now }
  | .bufferSize _ => none

/-- The callback of the follower, and that of the property. -/
def step (b : ShmBuffer) : Event → ShmBuffer
  | .data now bytes =>
      if h : bytes.length = 0 then b
      else b.push { content := bytes, dataSize := bytes.length, timestamp := now } h
  | .bufferSize size => b.setBufferSize size

def run (b : ShmBuffer) (events : List Event) : ShmBuffer := events.foldl step b

/-- The frames are in the order of time. -/
def Ordered (b : ShmBuffer) : Prop := b.buffer.Pairwise fun x y => x.timestamp ≤ y.timestamp

/-- One event leaves the last ones of the frames that are there with it. -/
theorem buffer_step (b : ShmBuffer) (e : Event) :
    (b.step e).buffer <:+ b.buffer ++ e.frame.toList := by
  cases e with
  | data now bytes =>
      rw [step, Event.frame]
      split_ifs with h
      · exact ⟨[], (List.append_nil b.buffer).symm⟩
      · exact buffer_trimmed _ _
  | bufferSize size =>
      rw [Event.frame, Option.toList_none, List.append_nil]
      exact buffer_trimmed b.total b.filled

/-- The frames that are left are the last ones of those that came. -/
theorem buffer_run (b : ShmBuffer) (events : List Event) :
    (b.run events).buffer <:+ b.buffer ++ events.filterMap Event.frame := by
  induction events generalizing b with
  | nil => rw [List.filterMap_nil, List.append_nil]; exact List.suffix_rfl
  | cons e events ih =>
      have hsplit : (e :: events).filterMap Event.frame =
          e.frame.toList ++ events.filterMap Event.frame := by
        rw [List.filterMap_cons]
        cases e.frame <;> rfl
      rw [hsplit, ← List.append_assoc]
      refine (ih (b.step e)).trans ?_
      obtain ⟨old, hold⟩ := buffer_step b e
      exact ⟨old, by rw [← List.append_assoc, hold]⟩

/-- A clock that does not go back puts the frames in the order of time. -/
theorem ordered_run {bufferSize : ℕ} {events : List Event}
    (h : (events.filterMap Event.frame).Pairwise fun x y => x.timestamp ≤ y.timestamp) :
    ((make bufferSize).run events).Ordered :=
  h.sublist (buffer_run (make bufferSize) events).sublist

/-! ### The scan -/

variable {target : ℤ} {l : List ShmContent} {closest item : ShmContent} {diff : ℤ}

/-- What the scan does at a frame, by its distance. -/
theorem scan_cons (target : ℤ) (item : ShmContent) (rest : List ShmContent) (diff : ℤ)
    (closest : ShmContent) (gettingCloser : Bool) :
    scan target (item :: rest) diff closest gettingCloser =
      if (item.distance target : ℤ) < diff then
        scan target rest (item.distance target) item true
      else if gettingCloser && decide (diff < item.distance target) then closest
      else scan target rest diff closest gettingCloser := by
  have hdistance : (if item.timestamp - target < 0 then -(item.timestamp - target)
      else item.timestamp - target) = item.distance target := by
    rw [ShmContent.distance]
    split_ifs <;> omega
  rw [scan, hdistance]

/-- Behind two frames of which the second one is further away, all frames are. -/
theorem distance_lt_of_le {x : ShmContent} (hitem : closest.timestamp ≤ item.timestamp)
    (hx : item.timestamp ≤ x.timestamp) (h : closest.distance target < item.distance target) :
    closest.distance target < x.distance target := by
  unfold ShmContent.distance at *
  omega

/-- Once a frame is found, no frame that follows in time is closer than what the scan returns.
The frame found is closer than those that were seen, and the scan ends when it is passed. -/
theorem scan_true (hle : ∀ x ∈ l, closest.timestamp ≤ x.timestamp)
    (hsorted : l.Pairwise fun x y => x.timestamp ≤ y.timestamp) :
    scan target l (closest.distance target) closest true ∈ closest :: l ∧
      ∀ x ∈ closest :: l,
        (scan target l (closest.distance target) closest true).distance target ≤
          x.distance target := by
  induction l generalizing closest with
  | nil => exact ⟨List.mem_cons_self, fun x hx => (List.mem_singleton.1 hx) ▸ le_rfl⟩
  | cons item rest ih =>
      obtain ⟨hitem, hrest⟩ := List.pairwise_cons.1 hsorted
      have hclosest := hle item List.mem_cons_self
      rw [scan_cons]
      split_ifs with hcloser hfurther
      · obtain ⟨hmem, hnearest⟩ := ih hitem hrest
        refine ⟨List.mem_cons_of_mem _ hmem, fun x hx => ?_⟩
        obtain rfl | hx := List.mem_cons.1 hx
        · exact (hnearest item List.mem_cons_self).trans (by omega)
        · exact hnearest x hx
      · rw [Bool.true_and, decide_eq_true_iff] at hfurther
        have hlt : closest.distance target < item.distance target := by omega
        refine ⟨List.mem_cons_self, fun x hx => ?_⟩
        obtain rfl | hx := List.mem_cons.1 hx
        · exact le_rfl
        obtain rfl | hx := List.mem_cons.1 hx
        · exact hlt.le
        · exact (distance_lt_of_le hclosest (hitem x hx) hlt).le
      · -- the frame is as far away as the one that was found
        rw [Bool.true_and, decide_eq_true_iff] at hfurther
        obtain ⟨hmem, hnearest⟩ := ih (fun x hx => hclosest.trans (hitem x hx)) hrest
        refine ⟨?_, fun x hx => ?_⟩
        · obtain heq | hmem := List.mem_cons.1 hmem
          · exact List.mem_cons.2 (.inl heq)
          · exact List.mem_cons_of_mem _ (List.mem_cons_of_mem _ hmem)
        · obtain rfl | hx := List.mem_cons.1 hx
          · exact hnearest x List.mem_cons_self
          obtain rfl | hx := List.mem_cons.1 hx
          · exact (hnearest closest List.mem_cons_self).trans (by omega)
          · exact hnearest x (List.mem_cons_of_mem _ hx)

/-- Nothing is found if no frame is close enough. -/
theorem scan_false_of_le (h : ∀ x ∈ l, diff ≤ x.distance target) :
    scan target l diff closest false = closest := by
  induction l with
  | nil => rfl
  | cons item rest ih =>
      have hitem := h item List.mem_cons_self
      rw [scan_cons, if_neg (Int.not_lt.2 hitem), Bool.false_and, if_neg Bool.false_ne_true,
        ih fun x hx => h x (List.mem_cons_of_mem _ hx)]

variable (closest) in
/-- A nearest frame is found if one is close enough. -/
theorem scan_false_of_lt (h : ∃ x ∈ l, (x.distance target : ℤ) < diff)
    (hsorted : l.Pairwise fun x y => x.timestamp ≤ y.timestamp) :
    scan target l diff closest false ∈ l ∧
      ∀ x ∈ l, (scan target l diff closest false).distance target ≤ x.distance target := by
  induction l with
  | nil =>
      obtain ⟨x, hx, -⟩ := h
      exact absurd hx List.not_mem_nil
  | cons item rest ih =>
      obtain ⟨hitem, hrest⟩ := List.pairwise_cons.1 hsorted
      rw [scan_cons]
      split_ifs with hcloser hfurther
      · exact scan_true hitem hrest
      · exact absurd hfurther Bool.false_ne_true
      · have hex : ∃ x ∈ rest, (x.distance target : ℤ) < diff := by
          obtain ⟨x, hx, hlt⟩ := h
          obtain rfl | hx := List.mem_cons.1 hx
          · exact absurd hlt hcloser
          · exact ⟨x, hx, hlt⟩
        obtain ⟨hmem, hnearest⟩ := ih hex hrest
        refine ⟨List.mem_cons_of_mem _ hmem, fun x hx => ?_⟩
        obtain rfl | hx := List.mem_cons.1 hx
        · -- the frame that is found is less than `diff` away, this one is not
          obtain ⟨y, hy, hlt⟩ := hex
          have hle := hnearest y hy
          omega
        · exact hnearest x hx

/-! ### The closest frame -/

/-- What a search for a time should find: a frame of the buffer, with data, if there is one, and
no frame that is further away than another one. -/
structure Closest (b : ShmBuffer) (target : ℤ) (closest : ShmContent) : Prop where
  held : b.buffer ≠ [] → closest ∈ b.buffer
  empty : closest.dataSize = 0 → b.buffer = []
  nearest : ∀ x ∈ b.buffer, closest.distance target ≤ x.distance target

variable {b : ShmBuffer}

theorem closest_of_mem (hmem : closest ∈ b.buffer)
    (hnearest : ∀ x ∈ b.buffer, closest.distance target ≤ x.distance target) :
    b.Closest target closest :=
  ⟨fun _ => hmem, fun hsize => absurd hsize (b.filled closest hmem), hnearest⟩

/-- **A closest frame is found** exactly if one is less than a second away, or if the first one
is a closest one. -/
theorem closest_iff (hordered : b.Ordered) (target : ℤ) :
    b.Closest target (b.findClosest target) ↔
      (∃ x ∈ b.buffer, x.distance target < 1000) ∨
        ∀ front ∈ b.buffer.head?, ∀ x ∈ b.buffer, front.distance target ≤ x.distance target := by
  rw [findClosest]
  split
  case h_1 hnil =>
    refine iff_of_true ⟨fun h => absurd hnil h, fun _ => hnil, fun x hx => ?_⟩ (.inr ?_)
    · exact absurd (hnil ▸ hx) List.not_mem_nil
    · intro front hfront
      rw [hnil] at hfront
      exact absurd hfront.symm (Option.some_ne_none front)
  case h_2 front rest hcons =>
    have hfront : front ∈ b.buffer := hcons ▸ List.mem_cons_self
    rw [← hcons]
    by_cases hnear : ∃ x ∈ b.buffer, x.distance target < 1000
    · have hlt : ∃ x ∈ b.buffer, (x.distance target : ℤ) < 1000 := by
        obtain ⟨x, hx, hlt⟩ := hnear
        exact ⟨x, hx, by omega⟩
      obtain ⟨hmem, hnearest⟩ := scan_false_of_lt front hlt hordered
      exact iff_of_true (closest_of_mem hmem hnearest) (.inl hnear)
    · have hfar : ∀ x ∈ b.buffer, (1000 : ℤ) ≤ x.distance target := by
        intro x hx
        have hle := Nat.le_of_not_lt fun hlt => hnear ⟨x, hx, hlt⟩
        omega
      rw [scan_false_of_le hfar, or_iff_right hnear]
      constructor
      · intro h front' hfront'
        rw [hcons, List.head?_cons] at hfront'
        obtain rfl := Option.some.inj hfront'
        exact h.nearest
      · intro h
        exact closest_of_mem hfront (h front (by rw [hcons]; rfl))

/-- Two frames of one byte. -/
def twoFrames : ShmBuffer := (make 1).run [.data 0 [1], .data 5000 [2]]

theorem closest_twoFrames : twoFrames.Ordered ∧
    twoFrames.Closest 4500 (twoFrames.findClosest 4500) := by
  have hordered : twoFrames.Ordered := ordered_run (by decide)
  exact ⟨hordered, (closest_iff hordered 4500).2 (.inl (by decide))⟩

/-- The first frame is found where the second one is closer: both are more than a second away. -/
theorem not_closest_twoFrames : ¬(∀ (b : ShmBuffer) (target : ℤ), b.Ordered →
    b.Closest target (b.findClosest target)) := by
  intro h
  have hnearest := (h twoFrames 10000 (ordered_run (by decide))).nearest
  exact absurd hnearest (by decide)

end ShmBuffer
end ShmDelay
end LibSwitcher
