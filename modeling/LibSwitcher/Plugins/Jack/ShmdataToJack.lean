/-
# The two threads of the JACK audio display

`plugins/jack/shmdata-to-jack.cpp`: the GStreamer thread runs `on_handoff_cb`,
which puts one block of resampled frames into `ring_buffers_[0]`, then into
`ring_buffers_[1]`, and so on; the JACK thread runs `jack_process`, which looks
at the usage of `ring_buffers_[0]` and pops a period from every channel.

The two threads share nothing but the atomic counts, so `jack_process` may run
anywhere between the three accesses of a `put_samples`: the load of
`available_size_`, the writes and the `fetch_sub` (`Phase`).  A sample is
identified by its channel and the number of its input frame; two logs, of which
the code has no trace, record what a channel has accepted and delivered.

`on_channel_update` runs under the mutex of the ports when the number of channels
changes, and starts again from new buffers; the steps here are those between two
of its calls.  A cycle in which `jack_process` does not get that mutex does
nothing.
-/

import LibSwitcher.Utils.AudioRingBuffer

namespace LibSwitcher
namespace ShmdataToJack

/-- A sample, as the channel and the input frame it belongs to. -/
structure Sample where
  channel : ℕ
  frame : ℕ
  deriving DecidableEq

/-- What a slot of a ring buffer or of a port buffer holds: a sample, or `none`
where no sample was ever written. -/
abbrev Slot := Option Sample

/-- A channel: its ring buffer, what its output port has been given over the
cycles that popped, and what the buffer has accepted. -/
structure Channel where
  ring : AudioRingBuffer Slot
  delivered : List Slot
  accepted : List Slot

/-- Where `on_handoff_cb` stands in the `put_samples` of the current channel. -/
inductive Phase
  /-- about to load `available_size_` -/
  | load
  /-- about to write `res` samples -/
  | write (res : ℕ)
  /-- about to subtract `res` from `available_size_` -/
  | publish (res : ℕ)
  deriving DecidableEq

/-- A call of `on_handoff_cb` in progress, on the block of `newSize` frames that
starts at frame `firstFrame`. -/
structure Handoff where
  newSize : ℕ
  firstFrame : ℕ
  channel : ℕ
  phase : Phase

/-- The state the two threads share, the program counter of the producer and the
number of the next input frame. -/
structure State where
  channels : List Channel
  nextFrame : ℕ
  handoff : Option Handoff

/-- The state after `on_channel_update`: `n` new buffers of `cap` slots. -/
def init (cap n : ℕ) : State where
  channels := List.replicate n ⟨AudioRingBuffer.make cap, [], []⟩
  nextFrame := 0
  handoff := none

/-- `audio_resampler_->get_sample(pos, i)` on the block in progress. -/
def getSample (h : Handoff) (pos : ℕ) : Slot := some ⟨h.channel, h.firstFrame + pos⟩

/-- The samples `put_samples` takes from the block when it accepts `res` of them. -/
def Handoff.taken (h : Handoff) (res : ℕ) : List Slot := (List.range res).map (getSample h)

/-- `on_handoff_cb` is called with a block of `newSize` frames.  The calls come
from one thread: there is none while another is in progress. -/
def startHandoff (newSize : ℕ) (s : State) : State :=
  if s.handoff.isSome then s
  else
    { s with
      nextFrame := s.nextFrame + newSize
      handoff := if s.channels = [] then none else some ⟨newSize, s.nextFrame, 0, .load⟩ }

/-- The loop of `on_handoff_cb` goes on to the next channel, or ends. -/
def State.nextChannel (s : State) (h : Handoff) : State :=
  { s with
    handoff :=
      if h.channel + 1 < s.channels.length then
        some { h with channel := h.channel + 1, phase := .load }
      else none }

/-- Replace the channel that is being filled. -/
def State.setChannel (s : State) (h : Handoff) (c : Channel) : State :=
  { s with channels := s.channels.set h.channel c }

/-- One access of the current `put_samples` to the ring buffer. -/
def putStep (s : State) : Option State :=
  match s.handoff with
  | none => some s
  | some h =>
      (s.channels[h.channel]?).bind fun c =>
        match h.phase with
        | .load =>
            -- `put_samples` returns at once when it has no room
            some (if c.ring.putCount h.newSize = 0 then s.nextChannel h
              else { s with handoff := some { h with phase := .write (c.ring.putCount h.newSize) } })
        | .write res =>
            (AudioRingBuffer.putLoop (getSample h) 0 res c.ring).map fun ring =>
              { s.setChannel h { c with ring := ring } with
                handoff := some { h with phase := .publish res } }
        | .publish res =>
            some ((s.setChannel h { c with
              ring := c.ring.fetchSub res
              accepted := c.accepted ++ h.taken res }).nextChannel h)

/-- The period of `nframes` samples that a port is given by a list of writes; a
position without a write keeps what the port buffer held. -/
def portBuffer (nframes : ℕ) (writes : List (ℕ × Slot)) : List Slot :=
  (List.range nframes).map fun k => (writes.lookup k).join

/-- `ring_buffers_[i].pop_samples(nframes, buf)`. -/
def popChannel (nframes : ℕ) (c : Channel) : Option Channel :=
  (c.ring.popSamples nframes .buffer).map fun r =>
    { c with ring := r.1, delivered := c.delivered ++ portBuffer nframes r.2.writes }

/-- The loop of `jack_process` over the output ports. -/
def popChannels (nframes : ℕ) : List Channel → Option (List Channel)
  | [] => some []
  | c :: cs => (popChannel nframes c).bind fun c' => (popChannels nframes cs).map (c' :: ·)

/-- `write_zero`: there is no ring buffer, or the first one holds less than a
period. -/
def State.writeZero (s : State) (nframes : ℕ) : Bool :=
  match s.channels with
  | [] => true
  | c :: _ => c.ring.getUsage < nframes

/-- `jack_process` on a period of `nframes` frames.  A cycle that writes zeros
pops nothing. -/
def jackProcess (nframes : ℕ) (s : State) : Option State :=
  if s.writeZero nframes then some s
  else (popChannels nframes s.channels).map fun cs => { s with channels := cs }

/-- The steps that interleave. -/
inductive Step
  | handoff (newSize : ℕ)
  | put
  | process (nframes : ℕ)

/-- Perform a step. -/
def step (s : State) : Step → Option (State × Unit)
  | .handoff newSize => some (startHandoff newSize s, ())
  | .put => (putStep s).map fun s' => (s', ())
  | .process nframes => (jackProcess nframes s).map fun s' => (s', ())

end ShmdataToJack
end LibSwitcher
