/-
# Runs of a buffer of frames

The calls of `push` and `set_buffer_size` in any order, on the members of a `ShmBuffer` as they are:
sizes are unsigned numbers of 64 bits, so that a subtraction may wrap, and the loops take the
first frame of the buffer without asking whether there is one.

`within_run` says that neither happens and that the buffer stays within its limit, for frames of any
size and for any limits: the loops get rid of all frames at most, and these have the total size
(`evict_eq`), which is not above a limit then.  That the total size does not wrap when a frame is added
is owed to the frames being in memory at the same time, where they have fewer than `2 ^ 64` bytes.
-/

import LibSwitcher.Lib.Machine
import LibSwitcher.Quiddities.ShmDelay

namespace LibSwitcher
namespace ShmDelay

/-- The number of the values of a `size_t`. -/
def sizeRange : ℕ := 2 ^ 64

/-- The members of a `ShmBuffer`, with the frames that were pushed so far. -/
structure Members where
  buffer : List ShmContent
  totalSize : ℕ
  maxSize : ℕ
  pushed : List ShmContent

/-- The calls. -/
inductive BufferCall
  | push (content : ShmContent)
  | setBufferSize (size : ℕ)

namespace Members

/-- The constructor, with a size in megabytes. -/
def make (bufferSize : ℕ) : Members := ⟨[], 0, bufferSize * 2 ^ 20 % sizeRange, []⟩

/-- The loop of both calls: the frames that are left, their size, and whether a subtraction has
wrapped.  It is undefined if the first one of no frames is asked for. -/
def evict (maxSize : ℕ) : List ShmContent → ℕ → Option (List ShmContent × ℕ × Bool)
  | [], totalSize => if maxSize < totalSize then none else some ([], totalSize, false)
  | item :: rest, totalSize =>
      if maxSize < totalSize then
        (evict maxSize rest ((totalSize + sizeRange - item.getSize % sizeRange) % sizeRange)).map
          fun r => (r.1, r.2.1, r.2.2 || decide (totalSize < item.getSize))
      else some (item :: rest, totalSize, false)

/-- `push`, with the addition made.  A frame that there is no memory for is not copied, by an
exception. -/
def push (s : Members) (content : ShmContent) : Option (Members × Bool) :=
  if sizeRange ≤ sizes (s.buffer ++ [content]) then some (s, false)
  else
    (evict s.maxSize (s.buffer ++ [content]) ((s.totalSize + content.getSize) % sizeRange)).map
      fun r => ({ s with buffer := r.1, totalSize := r.2.1, pushed := s.pushed ++ [content] }, r.2.2)

/-- `set_buffer_size`, with a size in megabytes. -/
def setBufferSize (s : Members) (size : ℕ) : Option (Members × Bool) :=
  let maxSize := size * 2 ^ 20 % sizeRange
  (evict maxSize s.buffer s.totalSize).map fun r =>
    ({ s with buffer := r.1, totalSize := r.2.1, maxSize := maxSize }, r.2.2)

/-- A call, and whether one of its subtractions has wrapped. -/
def step (s : Members) : BufferCall → Option (Members × Bool)
  | .push content => s.push content
  | .setBufferSize size => s.setBufferSize size

/-- After a call that has not wrapped, the total size is that of the frames and not above the limit, and
the frames are the last ones that were pushed. -/
structure Within (r : Members × Bool) : Prop where
  total : r.1.totalSize = sizes r.1.buffer
  fits : r.1.totalSize ≤ r.1.maxSize
  newest : r.1.buffer <:+ r.1.pushed
  wrapped : r.2 = false

variable {s : Members} {maxSize : ℕ}

/-- With the total size of the frames, the loop does what it does on numbers that do not wrap. -/
theorem evict_eq (maxSize : ℕ) {l : List ShmContent} {totalSize : ℕ} (h : totalSize = sizes l)
    (hlt : totalSize < sizeRange) :
    evict maxSize l totalSize =
      some ((trim maxSize l totalSize).1, (trim maxSize l totalSize).2, false) := by
  induction l generalizing totalSize with
  | nil =>
      have hzero : ¬maxSize < totalSize := by
        rw [h]
        exact Nat.not_lt_zero _
      rw [evict, if_neg hzero, trim]
  | cons item rest ih =>
      have hle : item.getSize ≤ totalSize := h ▸ Nat.le_add_right _ _
      have hsub : (totalSize + sizeRange - item.getSize % sizeRange) % sizeRange =
          totalSize - item.getSize := by
        rw [Nat.mod_eq_of_lt (Nat.lt_of_le_of_lt hle hlt), Nat.sub_add_comm hle, Nat.add_mod_right,
          Nat.mod_eq_of_lt (Nat.lt_of_le_of_lt (Nat.sub_le _ _) hlt)]
      have hrest : totalSize - item.getSize = sizes rest := by
        rw [h, sizes, Nat.add_sub_cancel_left]
      rw [evict, trim]
      split_ifs with hmax
      · rw [hsub, ih hrest (Nat.lt_of_le_of_lt (Nat.sub_le _ _) hlt), Option.map_some,
          decide_eq_false (Nat.not_lt.2 hle)]
        rfl
      · rfl

/-- What the loop leaves of the frames that were pushed last. -/
theorem exists_evict (maxSize : ℕ) {l pushed : List ShmContent} {totalSize : ℕ}
    (h : totalSize = sizes l) (hlt : totalSize < sizeRange) (hnewest : l <:+ pushed) :
    ∃ r, evict maxSize l totalSize = some r ∧ Within (⟨r.1, r.2.1, maxSize, pushed⟩, r.2.2) := by
  obtain ⟨htotal, hfits, hsuffix⟩ := trim_spec maxSize h
  exact ⟨_, evict_eq maxSize h hlt, htotal, hfits, hsuffix.trans hnewest, rfl⟩

/-- What holds of the members between the calls. -/
structure Inv (s : Members) : Prop where
  within : Within (s, false)
  maxSize_lt : s.maxSize < sizeRange

theorem inv_make (bufferSize : ℕ) : (make bufferSize).Inv where
  within := ⟨rfl, Nat.zero_le _, List.suffix_rfl, rfl⟩
  maxSize_lt := Nat.mod_lt _ (by decide)

theorem Within.inv {r : Members × Bool} (h : Within r) (hlt : r.1.maxSize < sizeRange) : r.1.Inv :=
  ⟨⟨h.total, h.fits, h.newest, rfl⟩, hlt⟩

/-- A frame is added, and old ones go until all fit; if the frame is larger than the limit, it goes as
well. -/
theorem Inv.push (h : s.Inv) (content : ShmContent) :
    ∃ r, s.push content = some r ∧ Within r ∧ r.1.Inv := by
  rw [Members.push]
  split_ifs with hmemory
  · exact ⟨(s, false), rfl, h.within, h⟩
  · have hsum : s.totalSize + content.getSize = sizes (s.buffer ++ [content]) := by
      rw [sizes_append, ← h.within.total]
      rfl
    have hlt : s.totalSize + content.getSize < sizeRange := hsum ▸ Nat.lt_of_not_le hmemory
    obtain ⟨old, hold⟩ := h.within.newest
    have hnewest : s.buffer ++ [content] <:+ s.pushed ++ [content] :=
      ⟨old, by rw [← List.append_assoc, hold]⟩
    obtain ⟨r, hr, hwithin⟩ := exists_evict s.maxSize hsum hlt hnewest
    refine ⟨_, ?_, hwithin, hwithin.inv h.maxSize_lt⟩
    rw [Nat.mod_eq_of_lt hlt, hr, Option.map_some]

/-- Old frames go until all fit the new limit. -/
theorem Inv.setBufferSize (h : s.Inv) (size : ℕ) :
    ∃ r, s.setBufferSize size = some r ∧ Within r ∧ r.1.Inv := by
  have hlt : s.totalSize < sizeRange := Nat.lt_of_le_of_lt h.within.fits h.maxSize_lt
  obtain ⟨r, hr, hwithin⟩ :=
    exists_evict (size * 2 ^ 20 % sizeRange) h.within.total hlt h.within.newest
  refine ⟨_, ?_, hwithin, hwithin.inv (Nat.mod_lt _ (by decide))⟩
  rw [Members.setBufferSize, hr, Option.map_some]

/-- **A buffer stays within its limit**, in every run, and no call takes the first one of no frames. -/
theorem within_run (bufferSize : ℕ) (calls : List BufferCall) :
    Machine.Meets step (fun _ _ r => Within r) (make bufferSize) calls := by
  refine Machine.meets_of_invariant (I := Inv) (fun s c hs => ?_) (inv_make bufferSize) calls
  cases c with
  | push content => exact hs.push content
  | setBufferSize size => exact hs.setBufferSize size

end Members
end ShmDelay
end LibSwitcher
