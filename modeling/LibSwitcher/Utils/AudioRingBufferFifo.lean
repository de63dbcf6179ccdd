/-
# What the slots of the audio ring buffer hold

`Holds s q` says that the slots from `read_` on hold the samples of the list `q`
and that `write_` stands after them.  It does not mention the count of free
slots, so that it also describes the moment between the writes of `put_samples`
and its `fetch_sub`.  `Rep s q` adds that the count is the one of `q`, and
`Inv s` is the invariant of the playheads.

Each operation gets one lemma about `Holds`.  `popSamples_spec` is the one to
read: the two copies deliver the front of the list when the request is covered
by the content, and the playhead may then stop at the end of the buffer.
-/

import LibSwitcher.Lib.Circular
import LibSwitcher.Utils.AudioRingBuffer

namespace LibSwitcher
namespace AudioRingBuffer

open Circular

variable {α : Type*} {s : AudioRingBuffer α} {q : List α}

/-- The slots from `read_` on hold `q`, and `write_` is the slot after them. -/
structure Holds (s : AudioRingBuffer α) (q : List α) : Prop where
  read_le : s.read ≤ s.bufferSize
  write_lt : s.write < s.bufferSize
  length_le : q.length ≤ s.bufferSize
  write_eq : (s.read + q.length) % s.bufferSize = s.write
  window_eq : window s.buffer s.bufferSize s.read q.length = q

/-- The buffer holds `q` and counts the other slots as free. -/
structure Rep (s : AudioRingBuffer α) (q : List α) : Prop extends Holds s q where
  available_eq : s.availableSize + q.length = s.bufferSize

/-- The invariant of the playheads: both are slots of the buffer and the write
playhead is `usage` slots after the read playhead. -/
structure Inv (s : AudioRingBuffer α) : Prop where
  read_lt : s.read < s.bufferSize
  write_lt : s.write < s.bufferSize
  write_eq : (s.read + s.getUsage) % s.bufferSize = s.write

/-- What a consumer writes to the caller's buffer when it delivers the list `l`,
the `i`-th sample at position `pos i`. -/
def deliver (pos : ℕ → ℕ) (l : List α) : List (ℕ × α) := l.mapIdx fun i x => (pos i, x)

@[simp] theorem deliver_nil (pos : ℕ → ℕ) : deliver pos ([] : List α) = [] := rfl

@[simp] theorem length_deliver (pos : ℕ → ℕ) (l : List α) : (deliver pos l).length = l.length := by
  simp [deliver]

/-- One more sample is delivered at the next position. -/
theorem deliver_concat (pos : ℕ → ℕ) (l : List α) (x : α) :
    deliver pos (l ++ [x]) = deliver pos l ++ [(pos l.length, x)] := by
  simp [deliver]

/-- Delivering a window, slot by slot. -/
theorem deliver_window (pos : ℕ → ℕ) (b : ℕ → α) (n r k : ℕ) :
    deliver pos (window b n r k) = (List.range k).map fun i => (pos i, b ((r + i) % n)) := by
  refine List.ext_getElem (by simp) fun i h₁ h₂ => ?_
  simp [deliver, getElem_window]

theorem Rep.getUsage_eq (h : Rep s q) : s.getUsage = q.length := by
  have := h.available_eq
  unfold getUsage
  omega

/-- A buffer that represents a list and whose read playhead has wrapped satisfies
the invariant. -/
theorem Rep.inv (h : Rep s q) (hr : s.read < s.bufferSize) : Inv s where
  read_lt := hr
  write_lt := h.write_lt
  write_eq := by rw [h.getUsage_eq, h.write_eq]

/-- A new buffer represents the empty list. -/
theorem rep_make [Inhabited α] {n : ℕ} (hn : 0 < n) : Rep (make n : AudioRingBuffer α) [] where
  read_le := Nat.zero_le _
  write_lt := hn
  length_le := Nat.zero_le _
  write_eq := Nat.zero_mod _
  window_eq := rfl
  available_eq := rfl

/-- The requests that the counts of accepted and processed samples answer. -/
theorem Rep.putCount_eq (h : Rep s q) (num : ℕ) :
    s.putCount num = min num (s.bufferSize - q.length) := by
  have := h.available_eq
  unfold putCount
  split <;> omega

theorem Rep.popCount_eq (h : Rep s q) (num : ℕ) : s.popCount num = min num q.length := by
  unfold popCount
  rw [h.getUsage_eq]
  split <;> omega

/-! ### The producer -/

/-- The write playhead moves to the next slot, modulo the size. -/
theorem nextHead_mod {p : ℕ} (hn : p < s.bufferSize) : s.nextHead p = (p + 1) % s.bufferSize := by
  unfold nextHead
  split_ifs with h
  · rw [h, Nat.mod_self]
  · rw [Nat.mod_eq_of_lt (by omega)]

/-- One turn of the loop of `put_samples` appends one sample. -/
theorem putSample_spec (h : Holds s q) (hq : q.length < s.bufferSize) (x : α) :
    ∃ s', s.putSample x = some s' ∧ Holds s' (q ++ [x]) ∧ s'.bufferSize = s.bufferSize ∧
      s'.availableSize = s.availableSize ∧ s'.read = s.read := by
  refine ⟨{ s with buffer := Function.update s.buffer s.write x, write := s.nextHead s.write },
    by rw [putSample, if_pos h.write_lt], ⟨h.read_le, ?_, ?_, ?_, ?_⟩, rfl, rfl, rfl⟩
  · simp only [nextHead_mod h.write_lt]
    exact Nat.mod_lt _ (by omega)
  · simpa using Nat.succ_le_of_lt hq
  · simp only [nextHead_mod h.write_lt, List.length_append, List.length_singleton]
    rw [← h.write_eq, Nat.mod_add_mod, Nat.add_assoc]
  · simp only [List.length_append, List.length_singleton]
    rw [← h.write_eq, window_update_snoc _ hq, h.window_eq]

/-- The loop of `put_samples` appends what the factory returns, in order.  By
induction on the remaining turns, `q` growing by one sample a turn. -/
theorem putLoop_spec (g : ℕ → α) (k i : ℕ) (h : Holds s q) (hq : q.length + k ≤ s.bufferSize) :
    ∃ s', putLoop g i k s = some s' ∧ Holds s' (q ++ (List.range k).map fun j => g (i + j)) ∧
      s'.bufferSize = s.bufferSize ∧ s'.availableSize = s.availableSize ∧ s'.read = s.read := by
  induction k generalizing i s q with
  | zero => exact ⟨s, rfl, by simpa using h, rfl, rfl, rfl⟩
  | succ k ih =>
      obtain ⟨s₁, h₁, hold₁, hn₁, ha₁, hr₁⟩ := putSample_spec h (by omega) (g i)
      have hlen : (q ++ [g i]).length + k ≤ s₁.bufferSize := by
        rw [hn₁, List.length_append, List.length_singleton]
        omega
      obtain ⟨s', h', hold', hn', ha', hr'⟩ := ih (i + 1) hold₁ hlen
      refine ⟨s', by rw [putLoop, h₁, Option.bind_some, h'], ?_, hn'.trans hn₁, ha'.trans ha₁,
        hr'.trans hr₁⟩
      have hmap : (List.range (k + 1)).map (fun j => g (i + j)) =
          g i :: (List.range k).map fun j => g (i + 1 + j) := by
        rw [List.range_succ_eq_map]
        simp [Function.comp_def, Nat.add_assoc, Nat.add_comm 1]
      rw [hmap]
      simpa [List.append_assoc] using hold'

/-- `put_samples` appends as many samples as fit and returns their number. -/
theorem putSamples_spec (h : Rep s q) (num : ℕ) (g : ℕ → α) :
    ∃ s', s.putSamples num g = some (s', min num (s.bufferSize - q.length)) ∧
      Rep s' (q ++ (List.range (min num (s.bufferSize - q.length))).map g) ∧
      s'.bufferSize = s.bufferSize ∧ s'.read = s.read := by
  have hcount := h.putCount_eq num
  have hlen := h.length_le
  have havail := h.available_eq
  by_cases h0 : s.putCount num = 0
  · rw [hcount] at h0
    exact ⟨s, by rw [putSamples, hcount, if_pos h0], by simpa [h0] using h, rfl, rfl⟩
  · obtain ⟨s', hloop, hold, hn, ha, hr⟩ :=
      putLoop_spec g (s.putCount num) 0 h.toHolds (by rw [hcount]; omega)
    rw [hcount] at h0 hloop hold
    refine ⟨s'.fetchSub (s.putCount num), by rw [putSamples, hcount, if_neg h0, hloop]; rfl,
      ⟨⟨hold.read_le, hold.write_lt, ?_, ?_, ?_⟩, ?_⟩, hn, hr⟩
    · simpa [fetchSub] using hold.length_le
    · simpa [fetchSub] using hold.write_eq
    · simpa [fetchSub] using hold.window_eq
    · simp only [fetchSub, ha, hn, hcount, List.length_append, List.length_map, List.length_range]
      omega

/-! ### The consumers -/

/-- Moving the read playhead by `k` slots, to the end of the buffer at most or
wrapped, drops `k` samples. -/
theorem Holds.drop (h : Holds s q) {k r : ℕ} (hk : k ≤ q.length) (hr : r ≤ s.bufferSize)
    (hmod : r % s.bufferSize = (s.read + k) % s.bufferSize) (a : ℕ) :
    Holds { s with read := r, availableSize := a } (q.drop k) where
  read_le := hr
  write_lt := h.write_lt
  length_le := by
    have := h.length_le
    simp only [List.length_drop]
    omega
  write_eq := by
    rw [← h.write_eq]
    simp only [List.length_drop]
    rw [← Nat.mod_add_mod, hmod, Nat.mod_add_mod]
    congr 1
    omega
  window_eq := by
    simp only [List.length_drop]
    rw [window_congr_mod _ _ hmod, ← window_drop, h.window_eq]

/-- A copy that stays within the content delivers the front of it. -/
theorem copySamples_spec (h : Holds s q) {num : ℕ} (hnum : num ≤ q.length) :
    s.copySamples num = some (deliver id (q.take num)) := by
  have hlen := h.length_le
  have hread := h.read_le
  have htake : q.take num = window s.buffer s.bufferSize s.read num := by
    conv_lhs => rw [← h.window_eq]
    exact window_take _ _ _ hnum
  rw [htake]
  unfold copySamples
  split_ifs with hf
  · rw [copyOut, if_pos (by unfold firstRead at hf; omega), deliver_window]
    congr 1
    refine List.map_congr_left fun i hi => ?_
    have := List.mem_range.1 hi
    rw [Nat.mod_eq_of_lt (by unfold firstRead at hf; omega), id, Nat.zero_add]
  · -- the window splits where the buffer ends, and its second part starts at slot `0`
    have hf' : num = s.firstRead + (num - s.firstRead) := by omega
    have hend : s.read + s.firstRead = s.bufferSize := by unfold firstRead; omega
    rw [copyOut, if_pos (by omega), Option.bind_some, copyOut,
      if_pos (by unfold firstRead at hf ⊢; omega), Option.map_some]
    conv_rhs => rw [hf']
    rw [deliver_window, List.range_add, List.map_append, List.map_map]
    congr 2
    · refine List.map_congr_left fun i hi => ?_
      have := List.mem_range.1 hi
      rw [Nat.mod_eq_of_lt (by omega), id, Nat.zero_add]
    · refine List.map_congr_left fun i hi => ?_
      have := List.mem_range.1 hi
      have hi' : i < s.bufferSize := by unfold firstRead at hf this; omega
      rw [Function.comp, ← Nat.add_assoc s.read, hend, Nat.add_mod_left, Nat.mod_eq_of_lt hi', id,
        Nat.zero_add]

/-- The copy has the requested length, whatever the content. -/
theorem length_copySamples {num : ℕ} {w : List (ℕ × α)} (h : s.copySamples num = some w) :
    w.length = num := by
  have hcopy {dst src k : ℕ} {w : List (ℕ × α)} (h : s.copyOut dst src k = some w) :
      w.length = k := by
    unfold copyOut at h
    split at h
    · obtain rfl := Option.some.inj h
      simp
    · cases h
  unfold copySamples at h
  split at h
  · exact hcopy h
  · obtain ⟨w₁, h₁, h⟩ := Option.bind_eq_some_iff.1 h
    obtain ⟨w₂, h₂, rfl⟩ := Option.map_eq_some_iff.1 h
    rw [List.length_append, hcopy h₁, hcopy h₂]
    omega

/-- After a copy of at most `buffer_size_` samples the read playhead has moved by
their number, modulo the size; it is a slot unless the copy ended at the end. -/
theorem popHead_spec (hread : s.read ≤ s.bufferSize) {num : ℕ} (hnum : num ≤ s.bufferSize) :
    s.popHead num ≤ s.bufferSize ∧ s.popHead num % s.bufferSize = (s.read + num) % s.bufferSize ∧
      (s.read < s.bufferSize → (s.popHead num < s.bufferSize ↔ s.read + num ≠ s.bufferSize)) := by
  unfold popHead firstRead
  split_ifs with hf
  · exact ⟨by omega, rfl, by omega⟩
  · have hwrap : s.read + num = s.bufferSize + (num - (s.bufferSize - s.read)) := by omega
    exact ⟨by omega, by rw [hwrap, Nat.add_mod_left], by omega⟩

/-- `pop_samples` on a request covered by the content: the front of the list is
delivered and dropped.  The read playhead wraps unless the copy ends exactly at
the end of the buffer, where it stays at `buffer_size_`. -/
theorem popSamples_spec (h : Holds s q) {num : ℕ} (hnum : num ≤ s.getUsage)
    (husage : s.getUsage ≤ q.length) :
    ∃ s', s.popSamples num .buffer = some (s', ⟨num, deliver id (q.take num)⟩) ∧
      Holds s' (q.drop num) ∧ s'.bufferSize = s.bufferSize ∧
      s'.availableSize = s.availableSize + num ∧
      (s.read < s.bufferSize → (s'.read < s.bufferSize ↔ s.read + num ≠ s.bufferSize)) := by
  have hcount : s.popCount num = num := by unfold popCount; split <;> omega
  have hread := h.read_le
  have hlen := h.length_le
  by_cases h0 : num = 0
  · subst h0
    exact ⟨s, by rw [popSamples, hcount, if_pos rfl]; rfl, by simpa using h, rfl, rfl, by omega⟩
  · obtain ⟨hle, hmod, hlt⟩ := popHead_spec hread (show num ≤ s.bufferSize by omega)
    refine ⟨{ s with read := s.popHead num }.fetchAdd num, ?_, h.drop (hnum.trans husage) hle hmod _,
      rfl, rfl, hlt⟩
    rw [popSamples, hcount, if_neg h0, copySamples_spec h (hnum.trans husage)]
    rfl

/-- The loop of the `_as_channel` consumers delivers the window it goes through. -/
theorem channelLoop_spec (pos : ℕ → ℕ) (k i : ℕ) {r : ℕ} (hr : r < s.bufferSize) :
    s.channelLoop pos i k r = some ((List.range k).map fun j =>
      (pos (i + j), s.buffer ((r + j) % s.bufferSize)), (r + k) % s.bufferSize) := by
  induction k generalizing i r with
  | zero => simp [channelLoop, Nat.mod_eq_of_lt hr]
  | succ k ih =>
      have hnext := nextHead_mod (s := s) hr
      rw [channelLoop, if_pos hr, ih (i + 1) (hnext ▸ Nat.mod_lt _ (by omega)), Option.map_some,
        hnext, List.range_succ_eq_map]
      simp [Function.comp_def, Nat.mod_eq_of_lt hr, Nat.add_assoc, Nat.add_comm 1]

/-- From a playhead that has wrapped, the loop delivers the front of the content. -/
theorem channelLoop_deliver (pos : ℕ → ℕ) (h : Holds s q) (hr : s.read < s.bufferSize) {k : ℕ}
    (hk : k ≤ q.length) : s.channelLoop pos 0 k s.read =
      some (deliver pos (q.take k), (s.read + k) % s.bufferSize) := by
  have htake : q.take k = window s.buffer s.bufferSize s.read k := by
    conv_lhs => rw [← h.window_eq]
    exact window_take _ _ _ hk
  rw [channelLoop_spec pos k 0 hr, htake, deliver_window]
  simp

end AudioRingBuffer
end LibSwitcher
