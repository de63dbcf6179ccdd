/-
# The audio ring buffer as a bounded FIFO

What an `AudioRingBuffer` is for is a queue of at most `buffer_size_` samples:
`Fifo.step` says what each operation does to that queue and what it returns.
The code refines it exactly as long as the requests stay within `WithinContent`:

* `pop_samples` and `read_samples` copy the requested number of samples instead
  of the processed one, so the request must be covered by the content;
* `pop_samples` leaves the read playhead at `buffer_size_`, outside the buffer,
  when the popped content ends at the end of the buffer;
* `pop_samples_as_channel` with a null destination moves the playhead and does
  not give the slots back.

`tracks_fifo_iff` states both directions for a whole run: the buffer and the
queue agree all along if and only if every request is within these limits.
-/

import LibSwitcher.Lib.Machine
import LibSwitcher.Utils.AudioRingBufferFifo

namespace LibSwitcher
namespace AudioRingBuffer

variable {α : Type*} {s : AudioRingBuffer α} {q : List α} {n : ℕ}

/-- What a consumer writes to `dest`: nothing to the null pointer. -/
def Dest.deliver (dest : Dest) (pos : ℕ → ℕ) (l : List α) : List (ℕ × α) :=
  match dest with
  | .null => []
  | .buffer => AudioRingBuffer.deliver pos l

/-- The bounded queue behind the operations, in the words of their documentation.
A read into the null pointer processes no sample. -/
def Fifo.step (n : ℕ) (q : List α) : Op α → List α × Result α
  | .putSamples num g =>
      (q ++ (List.range (min num (n - q.length))).map g, ⟨min num (n - q.length), []⟩)
  | .popSamples num dest =>
      (q.drop (min num q.length), ⟨min num q.length, dest.deliver id (q.take num)⟩)
  | .readSamples num dest =>
      (q, if dest = .null then ⟨0, []⟩ else ⟨min num q.length, deliver id (q.take num)⟩)
  | .readSamplesAsChannel num dest chan total =>
      (q, if dest = .null then ⟨0, []⟩
        else ⟨min num q.length, deliver (channelPos chan total) (q.take num)⟩)
  | .popSamplesAsChannel num dest chan total =>
      (q.drop (min num q.length),
        ⟨min num q.length, dest.deliver (channelPos chan total) (q.take num)⟩)
  | .shrinkTo size => (q.drop (q.length - size), ⟨q.length - size, []⟩)
  | .getUsage => (q, ⟨q.length, []⟩)

/-- The buffer stands for the queue `q` of at most `n` samples, and its playheads
satisfy their invariant. -/
structure Refines (n : ℕ) (s : AudioRingBuffer α) (q : List α) : Prop where
  size_eq : s.bufferSize = n
  rep : Rep s q
  inv : Inv s

theorem Refines.length_le (h : Refines n s q) : q.length ≤ n := h.size_eq ▸ h.rep.length_le

/-- The requests the code answers like the queue, decided on the state before. -/
def WithinContent (s : AudioRingBuffer α) : Op α → Prop
  | .popSamples num .buffer =>
      s.getUsage = 0 ∨ num ≤ s.getUsage ∧ s.read + num ≠ s.bufferSize
  | .readSamples num .buffer => s.getUsage = 0 ∨ num ≤ s.getUsage
  | .popSamplesAsChannel num .null _ _ => s.getUsage = 0 ∨ num = 0
  | _ => True

/-- A new buffer refines the empty queue. -/
theorem refines_make [Inhabited α] (hn : 0 < n) : Refines n (make n : AudioRingBuffer α) [] :=
  ⟨rfl, rep_make hn, (rep_make hn).inv hn⟩

/-- The agreement of one step with the queue. -/
def Agrees (n : ℕ) (s : AudioRingBuffer α) (q : List α) (op : Op α) : Prop :=
  ∃ s', s.step op = some (s', (Fifo.step n q op).2) ∧ Refines n s' (Fifo.step n q op).1

theorem agrees_putSamples (h : Refines n s q) (num : ℕ) (g : ℕ → α) :
    Agrees n s q (.putSamples num g) := by
  obtain ⟨s', hput, hrep, hn, hr⟩ := putSamples_spec h.rep num g
  rw [h.size_eq] at hput hrep
  exact ⟨s', by rw [step, hput]; rfl, hn.trans h.size_eq, hrep, hrep.inv (by
    rw [hn, hr]
    exact h.inv.read_lt)⟩

/-- Dropping the front of the content by a wrapped move of the playhead. -/
theorem Refines.drop (h : Refines n s q) {k : ℕ} (hk : k ≤ q.length) :
    Refines n ({ s with read := (s.read + k) % s.bufferSize }.fetchAdd k) (q.drop k) := by
  have hlt : (s.read + k) % s.bufferSize < s.bufferSize :=
    Nat.mod_lt _ (Nat.zero_lt_of_lt h.rep.write_lt)
  have havail := h.rep.available_eq
  have hrep : Rep ({ s with read := (s.read + k) % s.bufferSize }.fetchAdd k) (q.drop k) :=
    ⟨h.rep.drop hk hlt.le (Nat.mod_mod _ _) _, by
      simp only [fetchAdd, List.length_drop]
      omega⟩
  exact ⟨h.size_eq, hrep, hrep.inv hlt⟩

/-- A consumer that processes nothing agrees with the queue. -/
theorem take_min_eq_nil {num : ℕ} (h : min num q.length = 0) : q.take num = [] := by
  rcases Nat.le_total num q.length with hle | hle
  · rw [Nat.min_eq_left hle] at h
    rw [h, List.take_zero]
  · rw [Nat.min_eq_right hle] at h
    rw [List.length_eq_zero_iff.1 h, List.take_nil]

theorem Dest.deliver_nil (dest : Dest) (pos : ℕ → ℕ) : dest.deliver pos ([] : List α) = [] := by
  cases dest <;> rfl

/-- `pop_samples` into a buffer agrees with the queue exactly within the content:
beyond it the copy is too long, and at the end of the buffer the playhead stays
outside. -/
theorem agrees_popSamples_buffer_iff (h : Refines n s q) (num : ℕ) :
    Agrees n s q (.popSamples num .buffer) ↔ WithinContent s (.popSamples num .buffer) := by
  have husage := h.rep.getUsage_eq
  have hcount := h.rep.popCount_eq num
  have hread := h.inv.read_lt
  simp only [WithinContent]
  by_cases hnum : num ≤ s.getUsage
  · obtain ⟨s', hpop, hold, hn, ha, hlt⟩ := popSamples_spec h.rep.toHolds hnum husage.le
    have hmin : min num q.length = num := by omega
    have hrep : Rep s' (q.drop num) := ⟨hold, by
      have := h.rep.available_eq
      rw [ha, hn, List.length_drop]
      omega⟩
    constructor
    · rintro ⟨t, ht, href⟩
      obtain ⟨rfl, -⟩ := Prod.mk.inj (Option.some.inj (hpop.symm.trans ht))
      exact Or.inr ⟨hnum, (hlt hread).1 (hn ▸ href.inv.read_lt)⟩
    · intro hok
      refine ⟨s', by rw [step, hpop, Fifo.step, hmin]; rfl, hn.trans h.size_eq, ?_, ?_⟩
      · rw [Fifo.step, hmin]
        exact hrep
      · refine hrep.inv (hn ▸ (hlt hread).2 ?_)
        omega
  · constructor
    · rintro ⟨t, ht, -⟩
      by_contra hne
      have hpos : s.popCount num ≠ 0 := by omega
      simp only [step, popSamples, if_neg hpos, Fifo.step, Dest.deliver] at ht
      obtain ⟨w, hw, heq⟩ := Option.map_eq_some_iff.1 ht
      have hlen := congrArg (fun r => r.2.writes.length) heq
      simp only [length_copySamples hw, length_deliver, List.length_take] at hlen
      omega
    · intro hok
      have h0 : s.popCount num = 0 := by omega
      have hmin : min num q.length = 0 := by omega
      refine ⟨s, ?_, h.size_eq, ?_, h.inv⟩
      · rw [step, popSamples, h0, if_pos rfl, Fifo.step, hmin, take_min_eq_nil hmin]
        rfl
      · rw [Fifo.step, hmin]
        exact h.rep

/-- `pop_samples` into the null pointer agrees with the queue. -/
theorem agrees_popSamples_null (h : Refines n s q) (num : ℕ) :
    Agrees n s q (.popSamples num .null) := by
  have hcount := h.rep.popCount_eq num
  by_cases h0 : min num q.length = 0
  · exact ⟨s, by rw [step, popSamples, hcount, if_pos h0, Fifo.step]; rfl, by
      rw [Fifo.step, h0]
      exact h⟩
  · exact ⟨_, by rw [step, popSamples, hcount, if_neg h0, Fifo.step]; rfl,
      h.drop (Nat.min_le_right _ _)⟩

/-- `read_samples` into a buffer agrees with the queue exactly within the content. -/
theorem agrees_readSamples_buffer_iff (h : Refines n s q) (num : ℕ) :
    Agrees n s q (.readSamples num .buffer) ↔ WithinContent s (.readSamples num .buffer) := by
  have husage := h.rep.getUsage_eq
  have hcount := h.rep.popCount_eq num
  simp only [WithinContent]
  by_cases h0 : s.popCount num = 0
  · have hmin : min num q.length = 0 := by omega
    refine ⟨fun _ => by omega, fun _ => ⟨s, ?_, h⟩⟩
    rw [step, readSamples, if_pos (Or.inl h0), Fifo.step, if_neg (by decide), hmin,
      take_min_eq_nil hmin]
    rfl
  · have hread : s.readSamples num .buffer =
        (s.copySamples num).map fun w => ⟨s.popCount num, w⟩ := by
      rw [readSamples, if_neg (by simp [h0])]
    constructor
    · rintro ⟨t, ht, -⟩
      rw [step, hread, Option.map_map] at ht
      obtain ⟨w, hw, heq⟩ := Option.map_eq_some_iff.1 ht
      have hlen := congrArg (fun r => r.2.writes.length) heq
      simp only [Fifo.step, Function.comp, length_copySamples hw, if_neg (by decide : ¬Dest.buffer =
        .null), length_deliver, List.length_take] at hlen
      omega
    · intro hok
      refine ⟨s, ?_, h⟩
      rw [step, hread, copySamples_spec h.rep.toHolds (by omega), hcount, Fifo.step,
        if_neg (by decide)]
      rfl

/-- `read_samples_as_channel` agrees with the queue. -/
theorem agrees_readSamplesAsChannel (h : Refines n s q) (num : ℕ) (dest : Dest)
    (chan total : UInt32) : Agrees n s q (.readSamplesAsChannel num dest chan total) := by
  have hcount := h.rep.popCount_eq num
  refine ⟨s, ?_, h⟩
  rw [step, readSamplesAsChannel, Fifo.step, hcount]
  by_cases hd : dest = .null
  · rw [if_pos (Or.inr hd), if_pos hd]
    rfl
  · by_cases h0 : min num q.length = 0
    · rw [if_pos (Or.inl h0), if_neg hd, h0, take_min_eq_nil h0]
      rfl
    · have htake : q.take (min num q.length) = q.take num := by simp
      rw [if_neg (by simp [h0, hd]), if_neg hd, channelLoop_deliver _ h.rep.toHolds h.inv.read_lt
        (Nat.min_le_right _ _), htake]
      rfl

/-- `pop_samples_as_channel` into a buffer agrees with the queue. -/
theorem agrees_popSamplesAsChannel_buffer (h : Refines n s q) (num : ℕ) (chan total : UInt32) :
    Agrees n s q (.popSamplesAsChannel num .buffer chan total) := by
  have hcount := h.rep.popCount_eq num
  by_cases h0 : min num q.length = 0
  · refine ⟨s, ?_, by rw [Fifo.step, h0]; exact h⟩
    rw [step, popSamplesAsChannel, hcount, if_pos h0, Fifo.step, h0, take_min_eq_nil h0]
    rfl
  · have htake : q.take (min num q.length) = q.take num := by simp
    refine ⟨_, ?_, h.drop (Nat.min_le_right num _)⟩
    simp only [step, popSamplesAsChannel, hcount, if_neg h0, Fifo.step, channelLoop_deliver _
      h.rep.toHolds h.inv.read_lt (Nat.min_le_right num _), htake, Option.map_some, Dest.deliver]

/-- `pop_samples_as_channel` into the null pointer agrees with the queue exactly
when it processes no sample, since it never gives slots back. -/
theorem agrees_popSamplesAsChannel_null_iff (h : Refines n s q) (num : ℕ) (chan total : UInt32) :
    Agrees n s q (.popSamplesAsChannel num .null chan total) ↔
      WithinContent s (.popSamplesAsChannel num .null chan total) := by
  have husage := h.rep.getUsage_eq
  have hcount := h.rep.popCount_eq num
  simp only [WithinContent]
  constructor
  · rintro ⟨t, ht, href⟩
    by_contra hne
    have hpos : s.popCount num ≠ 0 := by omega
    simp only [step, popSamplesAsChannel, if_neg hpos] at ht
    obtain ⟨rfl, -⟩ := Prod.mk.inj (Option.some.inj ht)
    have havail := href.rep.available_eq
    have havail' := h.rep.available_eq
    simp only [Fifo.step, List.length_drop] at havail
    omega
  · intro hok
    have hmin : min num q.length = 0 := by omega
    refine ⟨s, ?_, by rw [Fifo.step, hmin]; exact h⟩
    rw [step, popSamplesAsChannel, hcount, if_pos hmin, Fifo.step, hmin]
    rfl

/-- `shrink_to` agrees with the queue. -/
theorem agrees_shrinkTo (h : Refines n s q) (size : ℕ) : Agrees n s q (.shrinkTo size) := by
  have husage := h.rep.getUsage_eq
  by_cases hlt : s.getUsage < size
  · have h0 : q.length - size = 0 := by omega
    refine ⟨s, ?_, by rw [Fifo.step, h0]; exact h⟩
    rw [step, shrinkTo, if_pos hlt, Fifo.step, h0]
  · refine ⟨_, by rw [step, shrinkTo, if_neg hlt, Fifo.step, husage], ?_⟩
    exact h.drop (Nat.sub_le _ _)

/-- One step agrees with the queue if and only if the request is within the
content. -/
theorem agrees_iff (h : Refines n s q) (op : Op α) : WithinContent s op ↔ Agrees n s q op := by
  cases op with
  | putSamples num g => exact iff_of_true trivial (agrees_putSamples h num g)
  | popSamples num dest =>
      cases dest with
      | null => exact iff_of_true trivial (agrees_popSamples_null h num)
      | buffer => exact (agrees_popSamples_buffer_iff h num).symm
  | readSamples num dest =>
      cases dest with
      | null => exact iff_of_true trivial ⟨s, by rw [step, readSamples, if_pos (Or.inr rfl)]; rfl, h⟩
      | buffer => exact (agrees_readSamples_buffer_iff h num).symm
  | readSamplesAsChannel num dest chan total =>
      exact iff_of_true (by cases dest <;> trivial) (agrees_readSamplesAsChannel h num dest chan total)
  | popSamplesAsChannel num dest chan total =>
      cases dest with
      | null => exact (agrees_popSamplesAsChannel_null_iff h num chan total).symm
      | buffer => exact iff_of_true trivial (agrees_popSamplesAsChannel_buffer h num chan total)
  | shrinkTo size => exact iff_of_true trivial (agrees_shrinkTo h size)
  | getUsage => exact iff_of_true trivial ⟨s, by rw [step, h.rep.getUsage_eq]; rfl, h⟩

/-- A buffer of `n` slots refines the queue of at most `n` samples along a run, in
what it holds, what it returns and the invariant of its playheads, if and only if
every request of the run is within the content. -/
theorem tracks_fifo_iff [Inhabited α] (hn : 0 < n) (ops : List (Op α)) :
    Machine.Tracks step (Fifo.step n) (Refines n) (make n : AudioRingBuffer α) [] ops ↔
      Machine.Admits step WithinContent (make n : AudioRingBuffer α) ops :=
  Machine.tracks_iff_admits (fun _ _ i h => agrees_iff h i) (refines_make hn) ops

/-- The equivalence at a run of four slots that stays within the content. -/
theorem tracks_fifo_iff_four : 0 < 4 ∧
    (Machine.Tracks step (Fifo.step 4) (Refines 4) (make 4 : AudioRingBuffer ℕ) []
      [.putSamples 3 id, .popSamples 2 .buffer, .getUsage] ↔
    Machine.Admits step WithinContent (make 4 : AudioRingBuffer ℕ)
      [.putSamples 3 id, .popSamples 2 .buffer, .getUsage]) :=
  ⟨by decide, tracks_fifo_iff (by decide) _⟩

/-- Four runs that leave the queue: a request beyond the content for each of
`pop_samples` and `read_samples`, a content that ends at the end of the buffer,
and a null destination of `pop_samples_as_channel`. -/
theorem not_tracks_fifo :
    ¬Machine.Tracks step (Fifo.step 4) (Refines 4) (make 4 : AudioRingBuffer ℕ) []
        [.putSamples 2 id, .popSamples 3 .buffer] ∧
      ¬Machine.Tracks step (Fifo.step 4) (Refines 4) (make 4 : AudioRingBuffer ℕ) []
        [.putSamples 2 id, .readSamples 3 .buffer] ∧
      ¬Machine.Tracks step (Fifo.step 4) (Refines 4) (make 4 : AudioRingBuffer ℕ) []
        [.putSamples 4 id, .popSamples 4 .buffer, .putSamples 1 id,
          .popSamplesAsChannel 1 .buffer 1 1] ∧
      ¬Machine.Tracks step (Fifo.step 4) (Refines 4) (make 4 : AudioRingBuffer ℕ) []
        [.putSamples 2 id, .popSamplesAsChannel 2 .null 1 1, .getUsage] := by
  refine ⟨?_, ?_, ?_, ?_⟩ <;> exact Machine.not_tracks_of_results_ne (by decide)

end AudioRingBuffer
end LibSwitcher
