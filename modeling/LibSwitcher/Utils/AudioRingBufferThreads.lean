/-
# Two threads at the audio ring buffer

One thread calls `put_samples`; another one calls the consumers: `read_samples_as_channel` and
`pop_samples_as_channel` with a destination, `pop_samples` without one, and `shrink_to`.  Their
only synchronisation is `available_size_`.  A step of a thread is the load of
`available_size_` at the start of a call, the write or the read of an element, the update of
the thread's own index, or the `fetch_sub` or `fetch_add` at the end of a call; the steps of
the two threads are taken in any order.

`available_size_` is an integer here, of which a load sees what fits `size_t`: whether it
leaves its range is a question.  A vector has fewer than `2 ^ 63` elements (`VectorSize`), so
that no index wraps in `size_t`.

Two lists record the history: the samples accepted, from the `fetch_sub` of their call on, and
the samples consumed, each from when it is read by a pop, or skipped.
-/

import LibSwitcher.Lib.Machine
import LibSwitcher.Utils.AudioRingBufferFifo

namespace LibSwitcher
namespace AudioRingBuffer

/-- What a vector's size may be. -/
abbrev VectorSize := {n : ℕ // n < 2 ^ 63}

/-- Where the producer is in `put_samples`. -/
inductive Producer (α : Type*)
  | idle
  /-- At the head of the loop, with the number of samples to accept and those stored. -/
  | looping (res : ℕ) (stored : List α)
  /-- After the write of an element, before `write_` moves. -/
  | advancing (res : ℕ) (stored : List α)

/-- Where the consumer is. -/
inductive Consumer (α : Type*)
  | idle
  /-- At the head of the loop of `read_samples_as_channel`, with what has been written to the
  caller's buffer and the copy of `read_`. -/
  | reading (chan totalChan : UInt32) (res : ℕ) (writes : List (ℕ × α)) (read : ℕ)
  /-- After the read of an element, before the copy moves. -/
  | advancingRead (chan totalChan : UInt32) (res : ℕ) (writes : List (ℕ × α)) (read : ℕ)
  /-- At the head of the loop of `pop_samples_as_channel`. -/
  | popping (chan totalChan : UInt32) (res : ℕ) (writes : List (ℕ × α))
  /-- After the read of an element, before `read_` moves. -/
  | advancingPop (chan totalChan : UInt32) (res : ℕ) (writes : List (ℕ × α))
  /-- `pop_samples` without destination and `shrink_to`, before `read_` moves. -/
  | skipping (res : ℕ)
  /-- The same, before the `fetch_add`. -/
  | releasing (res : ℕ)

/-- The ring buffer with its two threads and its history. -/
structure Threads (α : Type*) where
  bufferSize : VectorSize
  buffer : ℕ → α
  availableSize : ℤ
  read : ℕ
  write : ℕ
  producer : Producer α
  consumer : Consumer α
  accepted : List α
  consumed : List α

/-- A step of the producer.  A call starts with its load; the sample factory may return any
sample. -/
inductive ProducerAct (α : Type*)
  | putSamples (num : ℕ)
  | writeElement (x : α)
  | moveWrite
  | fetchSub

/-- A step of the consumer. -/
inductive ConsumerAct
  | readSamplesAsChannel (num : ℕ) (chan totalChan : UInt32)
  | popSamplesAsChannel (num : ℕ) (chan totalChan : UInt32)
  | discard (num : ℕ)
  | shrinkTo (size : ℕ)
  | readElement
  | moveRead
  | endRead
  | fetchAdd

namespace Threads

variable {α : Type*}

/-- A new buffer, with no call in progress. -/
def make [Inhabited α] (sizeInSample : VectorSize) : Threads α where
  bufferSize := sizeInSample
  buffer := fun _ => default
  availableSize := sizeInSample.1
  read := 0
  write := 0
  producer := .idle
  consumer := .idle
  accepted := []
  consumed := []

/-- What is stored of an integer in a `size_t`. -/
def sizeT (i : ℤ) : ℕ := (i % 2 ^ 64).toNat

/-- `available_size_.load()`. -/
def load (s : Threads α) : ℕ := sizeT s.availableSize

/-- `buffer_size_ - available_size_.load()`. -/
def usage (s : Threads α) : ℕ := sizeT (s.bufferSize.1 - s.load)

/-- What `available` leaves of a request. -/
def atMost (available num : ℕ) : ℕ := if available < num then available else num

/-- The index after one, back to `0` at the end of the buffer. -/
def nextIndex (s : Threads α) (p : ℕ) : ℕ := if s.bufferSize.1 = p + 1 then 0 else p + 1

/-- A step of `put_samples`. -/
def produce (s : Threads α) : ProducerAct α → Option (Threads α)
  | .putSamples num =>
      match s.producer with
      | .idle =>
          if atMost s.load num = 0 then some s
          else some { s with producer := .looping (atMost s.load num) [] }
      | _ => none
  | .writeElement x =>
      match s.producer with
      | .looping res stored =>
          if stored.length < res then
            some { s with
              buffer := Function.update s.buffer s.write x
              producer := .advancing res (stored ++ [x]) }
          else none
      | _ => none
  | .moveWrite =>
      match s.producer with
      | .advancing res stored =>
          some { s with write := s.nextIndex s.write, producer := .looping res stored }
      | _ => none
  | .fetchSub =>
      match s.producer with
      | .looping res stored =>
          if stored.length < res then none
          else some { s with
            availableSize := s.availableSize - res
            producer := .idle
            accepted := s.accepted ++ stored }
      | _ => none

/-- The load of a consumer, which returns if there are no samples for it. -/
def startCall (s : Threads α) (num : ℕ) (c : ℕ → Consumer α) : Option (Threads α) :=
  match s.consumer with
  | .idle =>
      if atMost s.usage num = 0 then some s
      else some { s with consumer := c (atMost s.usage num) }
  | _ => none

/-- A step of a consumer.  The remainder of a division by zero is undefined. -/
def consume (s : Threads α) : ConsumerAct → Option (Threads α)
  | .readSamplesAsChannel num chan totalChan =>
      s.startCall num fun res => .reading chan totalChan res [] s.read
  | .popSamplesAsChannel num chan totalChan =>
      s.startCall num fun res => .popping chan totalChan res []
  | .discard num => s.startCall num fun res => .skipping res
  | .shrinkTo size =>
      match s.consumer with
      | .idle =>
          if s.usage < size then some s
          else some { s with consumer := .skipping (s.usage - size) }
      | _ => none
  | .readElement =>
      match s.consumer with
      | .reading chan totalChan res writes read =>
          if writes.length < res then
            some { s with
              consumer := .advancingRead chan totalChan res
                (writes ++ [(channelPos chan totalChan writes.length, s.buffer read)]) read }
          else none
      | .popping chan totalChan res writes =>
          if writes.length < res then
            some { s with
              consumer := .advancingPop chan totalChan res
                (writes ++ [(channelPos chan totalChan writes.length, s.buffer s.read)])
              consumed := s.consumed ++ [s.buffer s.read] }
          else none
      | _ => none
  | .moveRead =>
      match s.consumer with
      | .advancingRead chan totalChan res writes read =>
          some { s with consumer := .reading chan totalChan res writes (s.nextIndex read) }
      | .advancingPop chan totalChan res writes =>
          some { s with read := s.nextIndex s.read, consumer := .popping chan totalChan res writes }
      | .skipping res =>
          if s.bufferSize.1 = 0 then none
          else some { s with
            read := (s.read + res) % s.bufferSize.1
            consumer := .releasing res
            consumed := s.consumed ++ Circular.window s.buffer s.bufferSize.1 s.read res }
      | _ => none
  | .endRead =>
      match s.consumer with
      | .reading _ _ res writes _ =>
          if writes.length < res then none else some { s with consumer := .idle }
      | _ => none
  | .fetchAdd =>
      match s.consumer with
      | .popping _ _ res writes =>
          if writes.length < res then none
          else some { s with availableSize := s.availableSize + res, consumer := .idle }
      | .releasing res => some { s with availableSize := s.availableSize + res, consumer := .idle }
      | _ => none

/-- A step of one of the two threads. -/
def step (s : Threads α) : ProducerAct α ⊕ ConsumerAct → Option (Threads α × Unit)
  | .inl a => (s.produce a).map (·, ())
  | .inr a => (s.consume a).map (·, ())

/-! ### Linearizability -/

/-- The samples accepted and not yet consumed, the first one in front. -/
def queue (s : Threads α) : List α := s.accepted.drop s.consumed.length

/-- What a call in progress has written to the caller's buffer: a read, the front of the
queue, and a pop, what it has consumed. -/
def Delivered (s : Threads α) : Prop :=
  match s.consumer with
  | .reading chan totalChan _ writes _ =>
      writes = deliver (channelPos chan totalChan) (s.queue.take writes.length)
  | .advancingRead chan totalChan _ writes _ =>
      writes = deliver (channelPos chan totalChan) (s.queue.take writes.length)
  | .popping chan totalChan _ writes =>
      writes = deliver (channelPos chan totalChan)
        (s.consumed.drop (s.consumed.length - writes.length))
  | .advancingPop chan totalChan _ writes =>
      writes = deliver (channelPos chan totalChan)
        (s.consumed.drop (s.consumed.length - writes.length))
  | _ => True

/-- The state is one of a queue: what has been consumed is a prefix of what has been accepted,
calls deliver the front, the samples of the queue are in their slots, the next element is
written to none of these, and the count of free slots is in its range. -/
structure Linearizable (s : Threads α) : Prop where
  consumed_prefix : s.consumed <+: s.accepted
  delivered : s.Delivered
  slots : ∀ i x, s.queue[i]? = some x →
    s.buffer ((s.consumed.length + i) % s.bufferSize.1) = x
  notOverwritten : ∀ x s', s.produce (.writeElement x) = some s' → ∀ i < s.queue.length,
    s.write ≠ (s.consumed.length + i) % s.bufferSize.1
  available : 0 ≤ s.availableSize ∧ s.availableSize ≤ s.bufferSize.1

end Threads
end AudioRingBuffer
end LibSwitcher
