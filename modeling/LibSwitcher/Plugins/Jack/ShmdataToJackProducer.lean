/-
# The producer keeps the channels aligned

`jack_process` looks at the first ring buffer and pops from all of them, while
`on_handoff_cb` fills them one after the other.  The property wanted of the two
threads is `InStep`, and `Steady` is the condition on the cycles of `jack_process`
that gives it.

The invariant is `Aligned`: all the buffers hold the same frames `q`, but for the
block in progress, of which each accepts the first `k` frames and those already
filled hold them.  Each access of `put_samples` keeps it.
-/

import LibSwitcher.Plugins.Jack.ShmdataToJackChannel

namespace LibSwitcher
namespace ShmdataToJack

open AudioRingBuffer

variable {cap i k n : ℕ} {d q : List ℕ} {c : Channel} {h : Handoff} {s : State}

/-! ### The property and the condition -/

/-- Every channel has delivered its own samples of one common list of frames.
The list is increasing, so that no sample is delivered twice, and what a channel
has delivered is the beginning of what its buffer has accepted. -/
def InStep (s : State) : Prop :=
  ∃ frames : List ℕ, frames.Pairwise (· < ·) ∧ (∀ f ∈ frames, f < s.nextFrame) ∧
    ∀ i c, s.channels[i]? = some c →
      c.delivered = samples i frames ∧ c.delivered <+: c.accepted

/-- The first channel whose `put_samples` has not loaded `available_size_` yet. -/
def Handoff.nextLoad (h : Handoff) : ℕ :=
  if h.phase = .load then h.channel else h.channel + 1

/-- The buffers still to be filled have room for the block in progress, when the
first buffer has already taken its part of it. -/
def State.Roomy (s : State) : Prop :=
  match s.handoff with
  | none => True
  | some h => h.nextLoad = 0 ∨ ∀ c ∈ s.channels.drop h.nextLoad, h.newSize ≤ c.ring.availableSize

instance decidableRoomy (s : State) : Decidable s.Roomy := by
  unfold State.Roomy
  split <;> infer_instance

/-- The cycles of `jack_process` that keep the channels aligned. -/
def Steady (s : State) : Step → Prop
  | .process nframes => s.writeZero nframes = true ∨
      (∀ c ∈ s.channels, nframes ≤ c.ring.getUsage) ∧ (nframes = 0 ∨ s.Roomy)
  | _ => True

instance decidableSteady (s : State) (i : Step) : Decidable (Steady s i) := by
  cases i <;> unfold Steady <;> infer_instance

/-! ### The invariant -/

/-- The frames the buffer of channel `i` counts, when all hold `q` and accept the
first `k` frames of the block in progress. -/
def published (handoff : Option Handoff) (q : List ℕ) (k i : ℕ) : List ℕ :=
  match handoff with
  | none => q
  | some h => if i < h.channel then q ++ h.block k else q

/-- The frames written to the buffer of channel `i` and not counted yet. -/
def pending (handoff : Option Handoff) (k i : ℕ) : List ℕ :=
  match handoff with
  | none => []
  | some h => if i = h.channel ∧ h.phase = .publish k then h.block k else []

/-- The frames that are put into the buffers, or may be, come before this one. -/
def State.firstFresh (s : State) : ℕ :=
  match s.handoff with
  | none => s.nextFrame
  | some h => h.firstFrame

/-- The call of `on_handoff_cb` in progress cuts its block after `k` frames: the
part loaded by a `put_samples` is `k`, and a `put_samples` still to come would
load `k` from a buffer that holds `q`. -/
structure Cuts (cap : ℕ) (s : State) (q : List ℕ) (k : ℕ) (h : Handoff) : Prop where
  channel_lt : h.channel < s.channels.length
  block_le : h.firstFrame + h.newSize ≤ s.nextFrame
  le_size : k ≤ h.newSize
  le_room : q.length + k ≤ cap
  loaded : ∀ res, h.phase = .write res ∨ h.phase = .publish res → res = k
  toLoad : h.nextLoad < s.channels.length → k = min h.newSize (cap - q.length)

/-- The channels are aligned: all have delivered the frames `d`, and their buffers
hold the frames `q` and the first `k` frames of the block in progress, as far as
the producer has got. -/
structure Aligned (cap : ℕ) (s : State) (d q : List ℕ) (k : ℕ) : Prop where
  channels : ∀ i c, s.channels[i]? = some c →
    ChannelInv cap i d (published s.handoff q k i) (pending s.handoff k i) c
  increasing : (d ++ q).Pairwise (· < ·)
  fresh : ∀ f ∈ d ++ q, f < s.firstFresh
  fresh_le : s.firstFresh ≤ s.nextFrame
  cuts : ∀ h, s.handoff = some h → Cuts cap s q k h

/-- Aligned channels are in step. -/
theorem Aligned.inStep (hs : Aligned cap s d q k) : InStep s := by
  refine ⟨d, (List.pairwise_append.1 hs.increasing).1, fun f hf => ?_, fun i c hc => ?_⟩
  · exact (hs.fresh f (List.mem_append_left _ hf)).trans_le hs.fresh_le
  · have hinv := hs.channels i c hc
    refine ⟨hinv.delivered_eq, ?_⟩
    rw [hinv.delivered_eq, hinv.accepted_eq, samples_append]
    exact List.prefix_append _ _

/-- New buffers are aligned. -/
theorem aligned_init (hcap : 0 < cap) (n : ℕ) : Aligned cap (init cap n) [] [] 0 where
  channels := fun i c hc => by
    obtain ⟨-, rfl⟩ := List.mem_replicate.1 (List.mem_of_getElem? hc)
    exact channelInv_make hcap i
  increasing := List.Pairwise.nil
  fresh := fun f hf => by simp at hf
  fresh_le := le_rfl
  cuts := fun h hh => by cases hh

/-! ### The producer -/

/-- A call of `on_handoff_cb` begins. -/
theorem Aligned.startHandoff (hs : Aligned cap s d q k) (newSize : ℕ) :
    ∃ k', Aligned cap (startHandoff newSize s) d q k' := by
  unfold ShmdataToJack.startHandoff
  cases hh : s.handoff with
  | some h => exact ⟨k, by simpa using hs⟩
  | none =>
      have hlt : s.firstFresh = s.nextFrame := by rw [State.firstFresh, hh]
      by_cases hnil : s.channels = []
      · refine ⟨k, fun i c hc => ?_, hs.increasing, fun f hf => ?_, ?_, fun h h' => ?_⟩
        · simp [hnil] at hc
        · have := hs.fresh f hf
          simp only [Option.isSome_none, hnil, State.firstFresh, if_true]
          simp only [Bool.false_eq_true, if_false]
          omega
        · simp [hnil, State.firstFresh]
        · simp [hnil] at h'
      · refine ⟨min newSize (cap - q.length), fun i c hc => ?_, hs.increasing, fun f hf => ?_, ?_,
          fun h h' => ?_⟩
        · have hinv := hs.channels i c (by simpa using hc)
          rw [hh] at hinv
          simpa [hnil, published, pending] using hinv
        · have := hs.fresh f hf
          simpa [hnil, State.firstFresh, hh] using this
        · simp [hnil, State.firstFresh]
        · obtain rfl : ⟨newSize, s.nextFrame, 0, .load⟩ = h := by simpa [hnil] using h'
          obtain ⟨c, cs, hcs⟩ := List.exists_cons_of_ne_nil hnil
          have hinv := hs.channels 0 c (by rw [hcs]; rfl)
          have hle := hinv.available_eq
          rw [hh, published] at hle
          exact ⟨by simp [hcs], by simp, Nat.min_le_left _ _, by omega, by simp, fun _ => rfl⟩

theorem nextLoad_le (h : Handoff) : h.nextLoad ≤ h.channel + 1 := by
  unfold Handoff.nextLoad
  split <;> omega

theorem mem_block {f : ℕ} (hf : f ∈ h.block k) :
    h.firstFrame ≤ f ∧ f < h.firstFrame + k := by
  obtain ⟨j, hj, rfl⟩ := List.mem_map.1 hf
  have := List.mem_range.1 hj
  omega

/-- The frames of a block come after the frames that precede it. -/
theorem pairwise_append_block {l : List ℕ} (hinc : l.Pairwise (· < ·))
    (hfresh : ∀ f ∈ l, f < h.firstFrame) (k : ℕ) : (l ++ h.block k).Pairwise (· < ·) := by
  refine List.pairwise_append.2 ⟨hinc, ?_, fun f hf g hg => (hfresh f hf).trans_le (mem_block hg).1⟩
  exact List.pairwise_map.2 (List.pairwise_lt_range.imp fun hlt => Nat.add_lt_add_left hlt _)

/-- The loop of `on_handoff_cb` goes on after a channel that has taken its part
of the block. -/
theorem aligned_nextChannel (hcuts : Cuts cap s q k h)
    (hchannels : ∀ i c, s.channels[i]? = some c →
      ChannelInv cap i d (if i ≤ h.channel then q ++ h.block k else q) [] c)
    (hinc : (d ++ q).Pairwise (· < ·)) (hfresh : ∀ f ∈ d ++ q, f < h.firstFrame) :
    ∃ q', Aligned cap (s.nextChannel h) d q' k := by
  have hblock := hcuts.block_le
  have hsize := hcuts.le_size
  by_cases hlast : h.channel + 1 < s.channels.length
  · refine ⟨q, fun i c hc => ?_, hinc, fun f hf => ?_, ?_, fun h' hh' => ?_⟩
    · have hinv := hchannels i c hc
      simpa [State.nextChannel, hlast, published, pending, Nat.lt_succ_iff, Handoff.block] using hinv
    · simpa [State.nextChannel, hlast, State.firstFresh] using hfresh f hf
    · simp only [State.nextChannel, hlast, State.firstFresh, if_true]
      omega
    · obtain rfl : { h with channel := h.channel + 1, phase := .load } = h' := by
        simpa [State.nextChannel, hlast] using hh'
      exact ⟨hlast, hblock, hsize, hcuts.le_room, by simp, fun _ =>
        hcuts.toLoad ((nextLoad_le h).trans_lt hlast)⟩
  · refine ⟨q ++ h.block k, fun i c hc => ?_, ?_, fun f hf => ?_, ?_, fun h' hh' => ?_⟩
    · have hinv := hchannels i c hc
      have hi : i ≤ h.channel := by
        have := (List.getElem?_eq_some_iff.1 hc).1
        simp only [State.nextChannel] at this
        omega
      rw [if_pos hi] at hinv
      simpa [State.nextChannel, hlast, published, pending] using hinv
    · rw [← List.append_assoc]
      exact pairwise_append_block hinc hfresh k
    · rw [← List.append_assoc] at hf
      simp only [State.nextChannel, hlast, State.firstFresh, if_false]
      rcases List.mem_append.1 hf with hf | hf
      · have := hfresh f hf
        omega
      · have := mem_block hf
        omega
    · simp [State.nextChannel, hlast, State.firstFresh]
    · simp [State.nextChannel, hlast] at hh'

/-- The channel that is being filled and its content. -/
theorem Aligned.current (hs : Aligned cap s d q k) (hh : s.handoff = some h) :
    ∃ c, s.channels[h.channel]? = some c ∧
      ChannelInv cap h.channel d q (if h.phase = .publish k then h.block k else []) c := by
  obtain ⟨c, hc⟩ : ∃ c, s.channels[h.channel]? = some c :=
    ⟨_, List.getElem?_eq_getElem (hs.cuts h hh).channel_lt⟩
  have hinv := hs.channels _ c hc
  rw [hh] at hinv
  exact ⟨c, hc, by simpa [published, pending] using hinv⟩

/-- A channel that is not being filled. -/
theorem Aligned.other (hs : Aligned cap s d q k) (hh : s.handoff = some h) (hi : i ≠ h.channel)
    (hc : s.channels[i]? = some c) :
    ChannelInv cap i d (if i ≤ h.channel then q ++ h.block k else q) [] c := by
  have hinv := hs.channels i c hc
  have hle : i < h.channel ↔ i ≤ h.channel := by omega
  rw [hh] at hinv
  simpa [published, pending, hi, hle] using hinv

/-- Before the `put_samples` of a channel, the load decides what it accepts: the
first `k` frames of the block. -/
theorem Aligned.load (hs : Aligned cap s d q k) (hh : s.handoff = some h)
    (hphase : h.phase = .load) : ∃ s' q', putStep s = some s' ∧ Aligned cap s' d q' k := by
  have hcuts := hs.cuts h hh
  have hfresh : ∀ f ∈ d ++ q, f < h.firstFrame := by
    simpa [State.firstFresh, hh] using hs.fresh
  obtain ⟨c, hc, hinv⟩ := hs.current hh
  rw [if_neg (by simp [hphase])] at hinv
  have hk : c.ring.putCount h.newSize = k := by
    rw [hinv.putCount_eq, ← hcuts.toLoad]
    rw [Handoff.nextLoad, if_pos hphase]
    exact hcuts.channel_lt
  have hstep : putStep s = some (if k = 0 then s.nextChannel h
      else { s with handoff := some { h with phase := .write k } }) := by
    rw [putStep, hh]
    simp only [hc, Option.bind_some, hphase, hk]
  by_cases h0 : k = 0
  · rw [if_pos h0] at hstep
    have hchannels : ∀ i x, s.channels[i]? = some x →
        ChannelInv cap i d (if i ≤ h.channel then q ++ h.block k else q) [] x := by
      intro i x hx
      by_cases hi : i = h.channel
      · obtain rfl : c = x := Option.some.inj (hc.symm.trans (hi ▸ hx))
        simpa [hi, h0, Handoff.block] using hinv
      · exact hs.other hh hi hx
    obtain ⟨q', hq'⟩ := aligned_nextChannel hcuts hchannels hs.increasing hfresh
    exact ⟨_, q', hstep, hq'⟩
  · rw [if_neg h0] at hstep
    refine ⟨_, q, hstep, fun i x hx => ?_, hs.increasing, ?_, ?_, fun h' hh' => ?_⟩
    · have := hs.channels i x hx
      simpa [published, pending, hh, hphase, Handoff.block] using this
    · simpa [State.firstFresh] using hfresh
    · simpa [State.firstFresh, hh] using hs.fresh_le
    · obtain rfl : { h with phase := .write k } = h' := by simpa using hh'
      exact ⟨hcuts.channel_lt, hcuts.block_le, hcuts.le_size, hcuts.le_room, by simp, fun hlt =>
        hcuts.toLoad (by simp only [Handoff.nextLoad] at hlt ⊢; split <;> simp at hlt ⊢ <;> omega)⟩

/-- The writes of `put_samples`. -/
theorem Aligned.write (hs : Aligned cap s d q k) (hh : s.handoff = some h) {res : ℕ}
    (hphase : h.phase = .write res) : ∃ s', putStep s = some s' ∧ Aligned cap s' d q k := by
  have hcuts := hs.cuts h hh
  obtain rfl : res = k := hcuts.loaded res (Or.inl hphase)
  obtain ⟨c, hc, hinv⟩ := hs.current hh
  rw [if_neg (by simp [hphase])] at hinv
  obtain ⟨ring, hput, hinv'⟩ := hinv.write hcuts.le_room
  refine ⟨{ s.setChannel h { c with ring := ring } with
      handoff := some { h with phase := .publish res } }, ?_, fun i x hx => ?_, hs.increasing, ?_, ?_,
    fun h' hh' => ?_⟩
  · rw [putStep, hh]
    simp only [hc, Option.bind_some, hphase, hput, Option.map_some]
  · simp only [State.setChannel, List.getElem?_set] at hx
    by_cases hi : h.channel = i
    · rw [if_pos hi, if_pos hcuts.channel_lt] at hx
      obtain rfl := Option.some.inj hx
      simpa [published, pending, ← hi, Handoff.block] using hinv'
    · rw [if_neg hi] at hx
      have := hs.channels i x hx
      have hi' : i ≠ h.channel := Ne.symm hi
      simpa [published, pending, hh, hi', Handoff.block] using this
  · simpa [State.firstFresh, hh, State.setChannel] using hs.fresh
  · simpa [State.firstFresh, hh, State.setChannel] using hs.fresh_le
  · obtain rfl : { h with phase := .publish res } = h' := by simpa [State.setChannel] using hh'
    refine ⟨by simpa [State.setChannel] using hcuts.channel_lt, hcuts.block_le, hcuts.le_size,
      hcuts.le_room, by simp, fun hlt => hcuts.toLoad ?_⟩
    simpa [State.setChannel, Handoff.nextLoad, hphase] using hlt

/-- The `fetch_sub` of `put_samples`. -/
theorem Aligned.publish (hs : Aligned cap s d q k) (hh : s.handoff = some h) {res : ℕ}
    (hphase : h.phase = .publish res) : ∃ s' q', putStep s = some s' ∧ Aligned cap s' d q' k := by
  have hcuts := hs.cuts h hh
  obtain rfl : res = k := hcuts.loaded res (Or.inr hphase)
  have hfresh : ∀ f ∈ d ++ q, f < h.firstFrame := by
    simpa [State.firstFresh, hh] using hs.fresh
  obtain ⟨c, hc, hinv⟩ := hs.current hh
  rw [if_pos hphase] at hinv
  have hinv' := hinv.publish hcuts.le_room
  have hchannels : ∀ i x, (s.setChannel h { c with
      ring := c.ring.fetchSub res, accepted := c.accepted ++ h.taken res }).channels[i]? = some x →
        ChannelInv cap i d (if i ≤ h.channel then q ++ h.block res else q) [] x := by
    intro i x hx
    simp only [State.setChannel, List.getElem?_set] at hx
    by_cases hi : h.channel = i
    · rw [if_pos hi, if_pos hcuts.channel_lt] at hx
      obtain rfl := Option.some.inj hx
      rw [if_pos hi.ge, ← hi]
      exact hinv'
    · rw [if_neg hi] at hx
      exact hs.other hh (Ne.symm hi) hx
  have hcuts' : Cuts cap (s.setChannel h { c with
      ring := c.ring.fetchSub res, accepted := c.accepted ++ h.taken res }) q res h :=
    ⟨by simpa [State.setChannel] using hcuts.channel_lt, hcuts.block_le, hcuts.le_size,
      hcuts.le_room, hcuts.loaded, by simpa [State.setChannel] using hcuts.toLoad⟩
  obtain ⟨q', hq'⟩ := aligned_nextChannel hcuts' hchannels hs.increasing hfresh
  refine ⟨_, q', ?_, hq'⟩
  rw [putStep, hh]
  simp only [hc, Option.bind_some, hphase]

/-- One access of the producer keeps the channels aligned. -/
theorem Aligned.putStep (hs : Aligned cap s d q k) :
    ∃ s' q', putStep s = some s' ∧ Aligned cap s' d q' k := by
  cases hh : s.handoff with
  | none => exact ⟨s, q, by rw [ShmdataToJack.putStep, hh], hs⟩
  | some h =>
      cases hphase : h.phase with
      | load => exact hs.load hh hphase
      | write res =>
          obtain ⟨s', hs'⟩ := hs.write hh hphase
          exact ⟨s', q, hs'⟩
      | publish res => exact hs.publish hh hphase

end ShmdataToJack
end LibSwitcher
