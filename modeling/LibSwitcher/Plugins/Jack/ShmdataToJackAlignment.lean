/-
# Alignment of the channels of the JACK audio display

The channels stay in step along every run whose cycles are `Steady`:

* when the first buffer holds a period, so do the others.  A cycle that runs
  between two `put_samples` of a block may find the first buffer full enough and
  the others not, and their ports then get stale or missing samples;
* a cycle that pops in the middle of a block finds in the buffers still to be
  filled room for the whole block.  Otherwise the first buffers have cut the
  block where the later ones, now with more room, will not.
-/

import LibSwitcher.Lib.Machine
import LibSwitcher.Plugins.Jack.ShmdataToJackProducer

namespace LibSwitcher
namespace ShmdataToJack

variable {cap i k n : ℕ} {d q : List ℕ} {h : Handoff} {s : State}

/-! ### The consumer -/

theorem published_take (handoff : Option Handoff) (k i : ℕ) (hn : n ≤ q.length) :
    (published handoff q k i).take n = q.take n := by
  unfold published
  split
  · rfl
  · split
    · exact List.take_append_of_le_length hn
    · rfl

theorem published_drop (handoff : Option Handoff) (k i : ℕ) (hn : n ≤ q.length) :
    (published handoff q k i).drop n = published handoff (q.drop n) k i := by
  unfold published
  split
  · rfl
  · split
    · exact List.drop_append_of_le_length hn
    · rfl

/-- Some buffer counts no frame but those of `q`: the one being filled, or any
when none is. -/
theorem Aligned.exists_published_eq (hs : Aligned cap s d q k) (hne : s.channels ≠ []) :
    ∃ c ∈ s.channels, c.ring.getUsage = q.length := by
  cases hh : s.handoff with
  | none =>
      obtain ⟨c, cs, hcs⟩ := List.exists_cons_of_ne_nil hne
      have hinv := hs.channels 0 c (by rw [hcs]; rfl)
      rw [hh] at hinv
      exact ⟨c, by simp [hcs], hinv.getUsage_eq⟩
  | some h =>
      obtain ⟨c, hc, hinv⟩ := hs.current hh
      exact ⟨c, List.mem_of_getElem? hc, hinv.getUsage_eq⟩

/-- A pop of `n` frames from every buffer, where the block in progress will be cut
after `m` frames, delivers the first `n` frames of `q`. -/
theorem Aligned.pop (hs : Aligned cap s d q k) (hn : n ≤ q.length)
    (hcover : ∀ c ∈ s.channels, n ≤ c.ring.getUsage) {m : ℕ}
    (hpub : ∀ i, published s.handoff (q.drop n) m i = published s.handoff (q.drop n) k i)
    (hpend : ∀ i, pending s.handoff m i = pending s.handoff k i)
    (hcuts : ∀ h, s.handoff = some h → Cuts cap s (q.drop n) m h) :
    ∃ cs, popChannels n s.channels = some cs ∧
      Aligned cap { s with channels := cs } (d ++ q.take n) (q.drop n) m := by
  obtain ⟨cs, hcs, hlen, hinv⟩ := popChannels_spec (n := n) (P := fun i c' =>
      ChannelInv cap i (d ++ q.take n) (published s.handoff (q.drop n) m i)
        (pending s.handoff m i) c') s.channels 0 fun i c hc => by
    have hinv := hs.channels i c hc
    obtain ⟨c', hc', hinv'⟩ :=
      hinv.pop (hinv.getUsage_eq ▸ hcover c (List.mem_of_getElem? hc))
    rw [published_take _ _ _ hn, published_drop _ _ _ hn] at hinv'
    exact ⟨c', hc', by simpa [hpub, hpend] using hinv'⟩
  have hsplit : (d ++ q.take n) ++ q.drop n = d ++ q := by
    rw [List.append_assoc, List.take_append_drop]
  refine ⟨cs, hcs, fun i c hc => by simpa using hinv i c hc, hsplit ▸ hs.increasing,
    fun f hf => hs.fresh f (hsplit ▸ hf), hs.fresh_le, fun h hh => ?_⟩
  obtain ⟨hlt, hblock, hsize, hroom, hloaded, hload⟩ := hcuts h hh
  exact ⟨by simpa [hlen] using hlt, hblock, hsize, hroom, hloaded, by simpa [hlen] using hload⟩

/-- A block no buffer has taken its part of is cut by the first load, after the
pop; no content depends on the cut yet. -/
theorem Aligned.pop_whole (hs : Aligned cap s d q k) (hh : s.handoff = some h)
    (hn : n ≤ q.length) (hcover : ∀ c ∈ s.channels, n ≤ c.ring.getUsage) (hfirst : h.nextLoad = 0) :
    ∃ cs k', popChannels n s.channels = some cs ∧
      Aligned cap { s with channels := cs } (d ++ q.take n) (q.drop n) k' := by
  have hcuts := hs.cuts h hh
  have hroom := hcuts.le_room
  have hlen : (q.drop n).length = q.length - n := List.length_drop
  have hload : h.phase = .load ∧ h.channel = 0 := by
    unfold Handoff.nextLoad at hfirst
    split at hfirst
    · exact ⟨by assumption, hfirst⟩
    · omega
  obtain ⟨cs, hcs⟩ := hs.pop (m := min h.newSize (cap - (q.drop n).length)) hn hcover
    (fun i => by simp [hh, published, hload.2]) (fun i => by simp [hh, pending, hload.1])
    fun h' hh' => by
      obtain rfl : h = h' := Option.some.inj (hh.symm.trans hh')
      exact ⟨hcuts.channel_lt, hcuts.block_le, Nat.min_le_left _ _, by omega,
        by simp [hload.1], fun _ => rfl⟩
  exact ⟨cs, _, hcs⟩

/-- A block some buffer has taken its part of stays cut where it is: the buffers
still to be filled have room for all of it, before and after the pop. -/
theorem Aligned.cuts_drop (hs : Aligned cap s d q k) (hh : s.handoff = some h)
    (hn : n ≤ q.length) (hfirst : h.nextLoad ≠ 0) (hroomy : n = 0 ∨ s.Roomy) :
    Cuts cap s (q.drop n) k h := by
  have hcuts := hs.cuts h hh
  have hroom := hcuts.le_room
  have hlen : (q.drop n).length = q.length - n := List.length_drop
  refine ⟨hcuts.channel_lt, hcuts.block_le, hcuts.le_size, by omega, hcuts.loaded, fun hlt => ?_⟩
  have hk := hcuts.toLoad hlt
  rcases hroomy with rfl | hroomy
  · simpa using hk
  · rw [State.Roomy, hh] at hroomy
    have hmem : s.channels[h.nextLoad] ∈ s.channels.drop h.nextLoad := by
      rw [List.drop_eq_getElem_cons hlt]
      exact List.mem_cons_self
    have hsize := hroomy.resolve_left hfirst _ hmem
    have havail := (hs.channels _ _ (List.getElem?_eq_getElem hlt)).available_eq
    have hge : ¬h.nextLoad < h.channel := by
      unfold Handoff.nextLoad
      split <;> omega
    simp only [hh, published, if_neg hge] at havail
    omega

/-- A cycle that is `Steady` keeps the channels aligned. -/
theorem Aligned.process (hs : Aligned cap s d q k) (hok : Steady s (.process n)) :
    ∃ s' d' q' k', jackProcess n s = some s' ∧ Aligned cap s' d' q' k' := by
  unfold jackProcess
  rcases hok with hzero | ⟨hcover, hroomy⟩
  · exact ⟨s, d, q, k, by rw [if_pos hzero], hs⟩
  by_cases hzero : s.writeZero n = true
  · exact ⟨s, d, q, k, by rw [if_pos hzero], hs⟩
  have hne : s.channels ≠ [] := by
    intro hnil
    exact hzero (by rw [State.writeZero, hnil])
  obtain ⟨c₀, hc₀, husage⟩ := hs.exists_published_eq hne
  have hn : n ≤ q.length := husage ▸ hcover c₀ hc₀
  suffices hpop : ∃ cs k', popChannels n s.channels = some cs ∧
      Aligned cap { s with channels := cs } (d ++ q.take n) (q.drop n) k' by
    obtain ⟨cs, k', hcs, hs'⟩ := hpop
    exact ⟨_, _, _, k', by rw [if_neg hzero, hcs, Option.map_some], hs'⟩
  rcases Option.eq_none_or_eq_some s.handoff with hh | ⟨h, hh⟩
  · obtain ⟨cs, hcs⟩ := hs.pop hn hcover (fun _ => rfl) (fun _ => rfl) fun h h' => by
      rw [hh] at h'
      cases h'
    exact ⟨cs, k, hcs⟩
  · by_cases hfirst : h.nextLoad = 0
    · exact hs.pop_whole hh hn hcover hfirst
    · obtain ⟨cs, hcs⟩ := hs.pop hn hcover (fun _ => rfl) (fun _ => rfl) fun h' hh' => by
        obtain rfl : h = h' := Option.some.inj (hh.symm.trans hh')
        exact hs.cuts_drop hh hn hfirst hroomy
      exact ⟨cs, k, hcs⟩

/-! ### The runs -/

/-- A step that is `Steady` is defined and keeps the channels aligned. -/
theorem Aligned.step (hs : Aligned cap s d q k) (i : Step) (hok : Steady s i) :
    ∃ r, step s i = some r ∧ ∃ d' q' k', Aligned cap r.1 d' q' k' := by
  cases i with
  | handoff newSize =>
      obtain ⟨k', hs'⟩ := hs.startHandoff newSize
      exact ⟨_, rfl, d, q, k', hs'⟩
  | put =>
      obtain ⟨s', q', hput, hs'⟩ := hs.putStep
      exact ⟨(s', ()), by rw [ShmdataToJack.step, hput, Option.map_some], d, q', k, hs'⟩
  | process n =>
      obtain ⟨s', d', q', k', hproc, hs'⟩ := hs.process hok
      exact ⟨(s', ()), by rw [ShmdataToJack.step, hproc, Option.map_some], d', q', k', hs'⟩

/-- However the two threads interleave, with any number of channels, any size of
the buffers and any blocks and periods, the channels stay in step as long as every
cycle of `jack_process` is `Steady`. -/
theorem inStep_of_steady (hcap : 0 < cap) (n : ℕ) (is : List Step)
    (hok : Machine.Admits step Steady (init cap n) is) :
    ∃ s' os, Machine.run step (init cap n) is = some (s', os) ∧ InStep s' := by
  obtain ⟨s', os, hrun, d, q, k, hs'⟩ := Machine.Admits.defined
    (I := fun s => ∃ d q k, Aligned cap s d q k)
    (fun s i hs hok => by
      obtain ⟨d, q, k, hs⟩ := hs
      exact hs.step i hok)
    ⟨[], [], 0, aligned_init hcap n⟩ hok
  exact ⟨s', os, hrun, hs'.inStep⟩

/-- Two channels of eight slots: a block is handed over, a cycle runs between the
two `put_samples` of the next one, and the buffers have room for it. -/
theorem inStep_of_steady_two : 0 < 8 ∧
    Machine.Admits step Steady (init 8 2) [.handoff 3, .put, .put, .put, .put, .put, .put,
      .handoff 2, .put, .put, .put, .process 3] ∧
    ∃ s' os, Machine.run step (init 8 2) [.handoff 3, .put, .put, .put, .put, .put, .put,
      .handoff 2, .put, .put, .put, .process 3] = some (s', os) ∧ InStep s' :=
  ⟨by decide, by decide, inStep_of_steady (by decide) 2 _ (by decide)⟩

/-- Two channels of 96000 slots that fall out of step: a cycle runs when the first
channel holds the second block and the other does not, so that the second port
misses the sample of frame `1`, which it is given in the next cycle. -/
theorem not_inStep_two :
    ∃ s' os, Machine.run step (init 96000 2) [.handoff 1, .put, .put, .put, .process 1, .put,
      .put, .put, .handoff 1, .put, .put, .put, .put, .put, .put, .process 1] = some (s', os) ∧
      ¬InStep s' := by
  have hlogs : (Machine.run step (init 96000 2) [.handoff 1, .put, .put, .put, .process 1, .put,
      .put, .put, .handoff 1, .put, .put, .put, .put, .put, .put, .process 1]).map
        (fun r => r.1.channels.map Channel.delivered) =
      some [[some ⟨0, 0⟩, some ⟨0, 1⟩], [none, some ⟨1, 0⟩]] := by decide
  obtain ⟨⟨s', os⟩, hrun, hlogs⟩ := Option.map_eq_some_iff.1 hlogs
  refine ⟨s', os, hrun, fun ⟨frames, _, _, hchannels⟩ => ?_⟩
  have hlog : (s'.channels.map Channel.delivered)[1]? = some [none, some ⟨1, 0⟩] := by
    rw [hlogs]
    rfl
  rw [List.getElem?_map] at hlog
  obtain ⟨c, hc, hdelivered⟩ := Option.map_eq_some_iff.1 hlog
  have hmem : none ∈ samples 1 frames := by
    rw [← (hchannels 1 c hc).1, hdelivered]
    exact List.mem_cons_self
  simp [samples] at hmem

end ShmdataToJack
end LibSwitcher
