/-
# The audio ring buffer

`switcher/utils/audio-ring-buffer.hpp` and `audio-ring-buffer_spec.hpp`: a
single-channel buffer of samples with a read playhead, a write playhead and an
atomic count of the free slots.

The buffer is a function on slots of which the first `bufferSize` exist; an
access to any other slot makes the operation undefined (`none`).  What an
operation writes to the caller's buffer is returned as the list of its writes,
position and sample, in order.  A vector has fewer than `2 ^ 63` elements, so a
sum of two playheads does not wrap and the counters are natural numbers; the
position of a sample in an interleaved buffer is computed in `size_t` from two
`unsigned int`s, and does wrap (`channelPos`).
-/

import Mathlib.Data.List.Basic
import Mathlib.Data.UInt
import Mathlib.Logic.Function.Basic

namespace LibSwitcher

/-- The state of an `AudioRingBuffer`. -/
structure AudioRingBuffer (α : Type*) where
  bufferSize : ℕ
  buffer : ℕ → α
  availableSize : ℕ
  read : ℕ
  write : ℕ

namespace AudioRingBuffer

variable {α : Type*}

/-- The constructor: all slots are free and hold the default sample. -/
def make [Inhabited α] (sizeInSample : ℕ) : AudioRingBuffer α where
  bufferSize := sizeInSample
  buffer := fun _ => default
  availableSize := sizeInSample
  read := 0
  write := 0

/-- The argument `dest` of the consumers: the null pointer or an allocated buffer. -/
inductive Dest
  | null
  | buffer
  deriving DecidableEq

/-- `get_usage`: the number of samples available in the ring buffer. -/
def getUsage (s : AudioRingBuffer α) : ℕ := s.bufferSize - s.availableSize

/-- The playhead after `p`, back to `0` at the end of the buffer. -/
def nextHead (s : AudioRingBuffer α) (p : ℕ) : ℕ := if s.bufferSize = p + 1 then 0 else p + 1

/-- One turn of the loop of `put_samples`: store a sample and move `write_`. -/
def putSample (x : α) (s : AudioRingBuffer α) : Option (AudioRingBuffer α) :=
  if s.write < s.bufferSize then
    some { s with buffer := Function.update s.buffer s.write x, write := s.nextHead s.write }
  else none

/-- The loop of `put_samples`: turns `i`, `i + 1`, …, each calling the factory once. -/
def putLoop (sampleGetter : ℕ → α) : ℕ → ℕ → AudioRingBuffer α → Option (AudioRingBuffer α)
  | _, 0, s => some s
  | i, k + 1, s => (s.putSample (sampleGetter i)).bind (putLoop sampleGetter (i + 1) k)

/-- The number of samples `put_samples` accepts out of `num`. -/
def putCount (s : AudioRingBuffer α) (num : ℕ) : ℕ :=
  if s.availableSize < num then s.availableSize else num

/-- The number of samples a consumer asking for `num` processes. -/
def popCount (s : AudioRingBuffer α) (num : ℕ) : ℕ :=
  if s.getUsage < num then s.getUsage else num

/-- `available_size_.fetch_sub(res)`. -/
def fetchSub (s : AudioRingBuffer α) (res : ℕ) : AudioRingBuffer α :=
  { s with availableSize := s.availableSize - res }

/-- `available_size_.fetch_add(res)`. -/
def fetchAdd (s : AudioRingBuffer α) (res : ℕ) : AudioRingBuffer α :=
  { s with availableSize := s.availableSize + res }

/-- `put_samples`: the state after it and the number of samples accepted. -/
def putSamples (num : ℕ) (sampleGetter : ℕ → α) (s : AudioRingBuffer α) :
    Option (AudioRingBuffer α × ℕ) :=
  if s.putCount num = 0 then some (s, s.putCount num)
  else (putLoop sampleGetter 0 (s.putCount num) s).map fun s' =>
    (s'.fetchSub (s.putCount num), s.putCount num)

/-- What a consumer returns and writes to the caller's buffer. -/
structure Result (α : Type*) where
  count : ℕ
  writes : List (ℕ × α)
  deriving DecidableEq

/-- A `memcpy` of `k` samples from slot `src` of the buffer to position `dst` of
the caller's buffer. -/
def copyOut (s : AudioRingBuffer α) (dst src k : ℕ) : Option (List (ℕ × α)) :=
  if src + k ≤ s.bufferSize then some ((List.range k).map fun i => (dst + i, s.buffer (src + i)))
  else none

/-- `first_read`: the number of samples before the end of the buffer. -/
def firstRead (s : AudioRingBuffer α) : ℕ := s.bufferSize - s.read

/-- The copy made by `pop_samples` and `read_samples`, in one or two pieces.
Its length is the requested `num`, not the number of samples processed. -/
def copySamples (num : ℕ) (s : AudioRingBuffer α) : Option (List (ℕ × α)) :=
  if s.firstRead ≥ num then s.copyOut 0 s.read num
  else (s.copyOut 0 s.read s.firstRead).bind fun w =>
    (s.copyOut s.firstRead 0 (num - s.firstRead)).map fun w' => w ++ w'

/-- The read playhead after the copy made by `pop_samples`.  It moves by the
requested `num` as well, and stays at `buffer_size_` when the copy ends there. -/
def popHead (num : ℕ) (s : AudioRingBuffer α) : ℕ :=
  if s.firstRead ≥ num then s.read + num else num - s.firstRead

/-- `pop_samples`. -/
def popSamples (num : ℕ) (dest : Dest) (s : AudioRingBuffer α) :
    Option (AudioRingBuffer α × Result α) :=
  if s.popCount num = 0 then some (s, ⟨s.popCount num, []⟩)
  else match dest with
    | .null =>
        some ({ s with read := (s.read + s.popCount num) % s.bufferSize }.fetchAdd (s.popCount num),
          ⟨s.popCount num, []⟩)
    | .buffer => (s.copySamples num).map fun w =>
        ({ s with read := s.popHead num }.fetchAdd (s.popCount num), ⟨s.popCount num, w⟩)

/-- `read_samples`. -/
def readSamples (num : ℕ) (dest : Dest) (s : AudioRingBuffer α) : Option (Result α) :=
  if s.popCount num = 0 ∨ dest = .null then some ⟨0, []⟩
  else (s.copySamples num).map fun w => ⟨s.popCount num, w⟩

/-- The index `(i * total_chan) + (chan - 1)`: the subtraction is made in
`unsigned int`, the product and the sum in `size_t`. -/
def channelPos (chan totalChan : UInt32) (i : ℕ) : ℕ :=
  (i * totalChan.toNat + (chan - 1).toNat) % 2 ^ 64

/-- The loop of the `_as_channel` consumers from playhead `read`: what turns `i`,
`i + 1`, … write, and the playhead after them. -/
def channelLoop (s : AudioRingBuffer α) (pos : ℕ → ℕ) :
    ℕ → ℕ → ℕ → Option (List (ℕ × α) × ℕ)
  | _, 0, read => some ([], read)
  | i, k + 1, read =>
      if read < s.bufferSize then
        (channelLoop s pos (i + 1) k (s.nextHead read)).map fun r =>
          ((pos i, s.buffer read) :: r.1, r.2)
      else none

/-- `read_samples_as_channel`. -/
def readSamplesAsChannel (num : ℕ) (dest : Dest) (chan totalChan : UInt32)
    (s : AudioRingBuffer α) : Option (Result α) :=
  if s.popCount num = 0 ∨ dest = .null then some ⟨0, []⟩
  else (s.channelLoop (channelPos chan totalChan) 0 (s.popCount num) s.read).map fun r =>
    ⟨s.popCount num, r.1⟩

/-- `pop_samples_as_channel`. -/
def popSamplesAsChannel (num : ℕ) (dest : Dest) (chan totalChan : UInt32)
    (s : AudioRingBuffer α) : Option (AudioRingBuffer α × Result α) :=
  if s.popCount num = 0 then some (s, ⟨s.popCount num, []⟩)
  else match dest with
    | .null =>
        -- no `fetch_add` on this path
        some ({ s with read := (s.read + s.popCount num) % s.bufferSize },
          ⟨s.popCount num, []⟩)
    | .buffer =>
        (s.channelLoop (channelPos chan totalChan) 0 (s.popCount num) s.read).map fun r =>
          ({ s with read := r.2 }.fetchAdd (s.popCount num), ⟨s.popCount num, r.1⟩)

/-- `shrink_to`: the state after it and the number of samples dropped. -/
def shrinkTo (size : ℕ) (s : AudioRingBuffer α) : AudioRingBuffer α × ℕ :=
  if s.getUsage < size then (s, 0)
  else ({ s with read := (s.read + (s.getUsage - size)) % s.bufferSize }.fetchAdd
    (s.getUsage - size), s.getUsage - size)

/-- The public operations with their arguments; a sample factory is the sequence
of the samples its successive calls return. -/
inductive Op (α : Type*)
  | putSamples (num : ℕ) (sampleGetter : ℕ → α)
  | popSamples (num : ℕ) (dest : Dest)
  | readSamples (num : ℕ) (dest : Dest)
  | readSamplesAsChannel (num : ℕ) (dest : Dest) (chan totalChan : UInt32)
  | popSamplesAsChannel (num : ℕ) (dest : Dest) (chan totalChan : UInt32)
  | shrinkTo (size : ℕ)
  | getUsage

/-- Perform an operation. -/
def step (s : AudioRingBuffer α) : Op α → Option (AudioRingBuffer α × Result α)
  | .putSamples num g => (s.putSamples num g).map fun r => (r.1, ⟨r.2, []⟩)
  | .popSamples num dest => s.popSamples num dest
  | .readSamples num dest => (s.readSamples num dest).map fun r => (s, r)
  | .readSamplesAsChannel num dest chan total =>
      (s.readSamplesAsChannel num dest chan total).map fun r => (s, r)
  | .popSamplesAsChannel num dest chan total => s.popSamplesAsChannel num dest chan total
  | .shrinkTo size => some ((s.shrinkTo size).1, ⟨(s.shrinkTo size).2, []⟩)
  | .getUsage => some (s, ⟨s.getUsage, []⟩)

end AudioRingBuffer
end LibSwitcher
