/-
# One channel of the JACK audio display

What the accesses of the two threads do to a single channel.  `ChannelInv` says
which frames the channel has delivered, which frames its buffer counts as content
and which frames are written but not counted yet; the writes and the `fetch_sub`
of `put_samples` move the block in progress from one to the next, and a pop that
the counted content covers delivers the front of it.
-/

import LibSwitcher.Plugins.Jack.ShmdataToJack
import LibSwitcher.Utils.AudioRingBufferFifo

namespace LibSwitcher
namespace ShmdataToJack

open AudioRingBuffer

variable {cap i k n : ℕ} {d pub pend : List ℕ} {c : Channel} {h : Handoff}

/-- The samples of channel `i` for a list of frames. -/
def samples (i : ℕ) (frames : List ℕ) : List Slot := frames.map fun f => some ⟨i, f⟩

theorem samples_append (i : ℕ) (l l' : List ℕ) :
    samples i (l ++ l') = samples i l ++ samples i l' := List.map_append

@[simp] theorem length_samples (i : ℕ) (l : List ℕ) : (samples i l).length = l.length := by
  simp [samples]

/-- The first `k` frames of a block. -/
def Handoff.block (h : Handoff) (k : ℕ) : List ℕ := (List.range k).map (h.firstFrame + ·)

@[simp] theorem length_block (h : Handoff) (k : ℕ) : (h.block k).length = k := by
  simp [Handoff.block]

theorem taken_eq (h : Handoff) (k : ℕ) : h.taken k = samples h.channel (h.block k) := by
  simp [Handoff.taken, Handoff.block, samples, getSample, Function.comp_def]

/-- Channel `i` has delivered the frames `d`, counts the frames `pub` as its
content, and has written the frames `pend` without counting them yet. -/
structure ChannelInv (cap i : ℕ) (d pub pend : List ℕ) (c : Channel) : Prop where
  size_eq : c.ring.bufferSize = cap
  holds : Holds c.ring (samples i (pub ++ pend))
  available_eq : c.ring.availableSize + pub.length = cap
  delivered_eq : c.delivered = samples i d
  accepted_eq : c.accepted = samples i (d ++ pub)

theorem ChannelInv.getUsage_eq (hc : ChannelInv cap i d pub pend c) :
    c.ring.getUsage = pub.length := by
  have := hc.available_eq
  have := hc.size_eq
  unfold getUsage
  omega

theorem ChannelInv.putCount_eq (hc : ChannelInv cap i d pub pend c) (num : ℕ) :
    c.ring.putCount num = min num (cap - pub.length) := by
  have := hc.available_eq
  unfold putCount
  split <;> omega

theorem channelInv_make (hcap : 0 < cap) (i : ℕ) :
    ChannelInv cap i [] [] [] ⟨AudioRingBuffer.make cap, [], []⟩ :=
  ⟨rfl, (rep_make hcap).toHolds, rfl, rfl, rfl⟩

/-- The writes of `put_samples` add the accepted part of the block to the slots. -/
theorem ChannelInv.write (hc : ChannelInv cap h.channel d pub [] c) (hk : pub.length + k ≤ cap) :
    ∃ ring, putLoop (getSample h) 0 k c.ring = some ring ∧
      ChannelInv cap h.channel d pub (h.block k) { c with ring := ring } := by
  have hold := hc.holds
  rw [List.append_nil] at hold
  obtain ⟨ring, hput, hold', hn, ha, -⟩ :=
    putLoop_spec (getSample h) k 0 hold (by rw [length_samples, hc.size_eq]; exact hk)
  refine ⟨ring, hput, hn.trans hc.size_eq, ?_, ?_, hc.delivered_eq, hc.accepted_eq⟩
  · have htaken : ((List.range k).map fun j => getSample h (0 + j)) = h.taken k := by
      simp [Handoff.taken]
    rw [htaken, taken_eq, ← samples_append] at hold'
    exact hold'
  · simp only [ha]
    exact hc.available_eq

/-- The `fetch_sub` of `put_samples` makes the written samples count. -/
theorem ChannelInv.publish (hc : ChannelInv cap h.channel d pub (h.block k) c)
    (hk : pub.length + k ≤ cap) :
    ChannelInv cap h.channel d (pub ++ h.block k) []
      { c with ring := c.ring.fetchSub k, accepted := c.accepted ++ h.taken k } where
  size_eq := hc.size_eq
  holds := by
    have hold := hc.holds
    rw [List.append_nil]
    exact ⟨hold.read_le, hold.write_lt, hold.length_le, hold.write_eq, hold.window_eq⟩
  available_eq := by
    have := hc.available_eq
    simp only [fetchSub, List.length_append, length_block]
    omega
  delivered_eq := hc.delivered_eq
  accepted_eq := by
    simp only [hc.accepted_eq, taken_eq, ← samples_append, List.append_assoc]

/-- The writes of a delivery, looked up by position. -/
theorem lookup_mapIdx {α : Type*} (l : List α) (j k : ℕ) :
    (l.mapIdx fun i x => (j + i, x)).lookup (j + k) = l[k]? := by
  induction l generalizing j k with
  | nil => rfl
  | cons x l ih =>
      rw [List.mapIdx_cons, List.lookup_cons]
      cases k with
      | zero => simp
      | succ k =>
          have hne : (j + (k + 1) == j + 0) = false := by simp
          have hfun : (fun i (x : α) => (j + (i + 1), x)) = fun i x => (j + 1 + i, x) := by
            funext i x
            rw [Nat.add_comm i 1, Nat.add_assoc]
          rw [hne, hfun, show j + (k + 1) = j + 1 + k by omega]
          simpa using ih (j + 1) k

/-- A delivery of `n` samples fills a period of `n` samples. -/
theorem portBuffer_deliver (l : List Slot) : portBuffer l.length (deliver id l) = l := by
  refine List.ext_getElem (by simp [portBuffer]) fun k hk hk' => ?_
  have hlookup : (deliver id l).lookup k = l[k]? := by simpa [deliver] using lookup_mapIdx l 0 k
  simp [portBuffer, hlookup, List.getElem?_eq_getElem hk']

/-- A pop covered by the counted content delivers the front of it. -/
theorem ChannelInv.pop (hc : ChannelInv cap i d pub pend c) (hn : n ≤ pub.length) :
    ∃ c', popChannel n c = some c' ∧ ChannelInv cap i (d ++ pub.take n) (pub.drop n) pend c' := by
  have husage := hc.getUsage_eq
  obtain ⟨ring, hpop, hold, hsize, ha, -⟩ := popSamples_spec hc.holds
    (show n ≤ c.ring.getUsage from husage ▸ hn) (by rw [husage, length_samples, List.length_append]; omega)
  have htake : (samples i (pub ++ pend)).take n = samples i (pub.take n) := by
    rw [samples, ← List.map_take, List.take_append_of_le_length hn, samples]
  have hdrop : (samples i (pub ++ pend)).drop n = samples i (pub.drop n ++ pend) := by
    rw [samples, ← List.map_drop, List.drop_append_of_le_length hn, samples]
  have hlen : (samples i (pub.take n)).length = n := by
    rw [length_samples, List.length_take, Nat.min_eq_left hn]
  rw [htake] at hpop
  rw [hdrop] at hold
  have hbuf := portBuffer_deliver (samples i (pub.take n))
  rw [hlen] at hbuf
  refine ⟨⟨ring, c.delivered ++ samples i (pub.take n), c.accepted⟩, ?_, hsize.trans hc.size_eq,
    hold, ?_, ?_, ?_⟩
  · rw [popChannel, hpop, Option.map_some, hbuf]
  · have := hc.available_eq
    simp only [ha, List.length_drop]
    omega
  · simp only [hc.delivered_eq, samples_append]
  · simp only [hc.accepted_eq, List.append_assoc, List.take_append_drop]

/-- What a pop gives in each channel, the loop of `jack_process` gives in all. -/
theorem popChannels_spec {P : ℕ → Channel → Prop} (cs : List Channel) (j : ℕ)
    (hpop : ∀ i c, cs[i]? = some c → ∃ c', popChannel n c = some c' ∧ P (j + i) c') :
    ∃ cs', popChannels n cs = some cs' ∧ cs'.length = cs.length ∧
      ∀ i c', cs'[i]? = some c' → P (j + i) c' := by
  induction cs generalizing j with
  | nil => exact ⟨[], rfl, rfl, fun i c' hc' => by simp at hc'⟩
  | cons c cs ih =>
      obtain ⟨c', hc', hP⟩ := hpop 0 c rfl
      obtain ⟨cs', hcs', hlen, hrest⟩ := ih (j + 1) fun i c hc => by
        rw [show j + 1 + i = j + (i + 1) by omega]
        exact hpop (i + 1) c (by simpa using hc)
      refine ⟨c' :: cs', by rw [popChannels, hc', Option.bind_some, hcs', Option.map_some],
        by simp [hlen], fun i => ?_⟩
      cases i with
      | zero =>
          intro x hx
          obtain rfl : c' = x := by simpa using hx
          exact hP
      | succ i =>
          intro x hx
          rw [show j + (i + 1) = j + 1 + i by omega]
          exact hrest i x (by simpa using hx)

end ShmdataToJack
end LibSwitcher
