/-
# The audio ring buffer between two threads

Whatever the order of the steps of a producer and of a consumer, the ring buffer is a queue
(`linearizable`).

The invariant counts samples, not slots: the `j`-th sample ever stored is in the slot `j`
modulo the size.  The playheads are then the numbers of samples stored and consumed, up to a
move that is still to be made, and the count of free slots is what the samples accepted and
not released leave (`Inv`).  A sample is released by the `fetch_add` of the call that has
consumed it; until then, its slot is not written again, because the producer has seen a count
that included no slot of an unreleased sample, and this count has only grown since.
-/

import LibSwitcher.Utils.AudioRingBufferThreads

namespace LibSwitcher
namespace AudioRingBuffer

variable {α : Type*}

/-- The number of samples that the call will accept. -/
def Producer.res : Producer α → ℕ
  | idle => 0
  | looping res _ => res
  | advancing res _ => res

/-- The samples stored by the call in progress. -/
def Producer.stored : Producer α → List α
  | idle => []
  | looping _ stored => stored
  | advancing _ stored => stored

/-- The number of these that `write_` has moved over. -/
def Producer.moved : Producer α → ℕ
  | idle => 0
  | looping _ stored => stored.length
  | advancing _ stored => stored.length - 1

/-- No more is stored than will be accepted, and something before a move. -/
def Producer.Fits : Producer α → Prop
  | idle => True
  | looping res stored => stored.length ≤ res
  | advancing res stored => 0 < stored.length ∧ stored.length ≤ res

/-- The number of samples consumed by the call in progress and not released. -/
def Consumer.unreleased : Consumer α → ℕ
  | idle => 0
  | reading _ _ _ _ _ => 0
  | advancingRead _ _ _ _ _ => 0
  | popping _ _ _ writes => writes.length
  | advancingPop _ _ _ writes => writes.length
  | skipping _ => 0
  | releasing res => res

/-- The number of samples consumed that `read_` has not moved over. -/
def Consumer.unmoved : Consumer α → ℕ
  | idle => 0
  | reading _ _ _ _ _ => 0
  | advancingRead _ _ _ _ _ => 0
  | popping _ _ _ _ => 0
  | advancingPop _ _ _ _ => 1
  | skipping _ => 0
  | releasing _ => 0

namespace Threads

/-- What a call in progress will still take is in the queue; a read is as far from `read_` as
it has read samples. -/
def Covered (s : Threads α) : Prop :=
  match s.consumer with
  | .reading _ _ res writes read => writes.length ≤ res ∧
      s.consumed.length + res ≤ s.accepted.length ∧
      read = (s.consumed.length + writes.length) % s.bufferSize.1
  | .advancingRead _ _ res writes read => (0 < writes.length ∧ writes.length ≤ res) ∧
      s.consumed.length + res ≤ s.accepted.length ∧
      read = (s.consumed.length + (writes.length - 1)) % s.bufferSize.1
  | .popping _ _ res writes => writes.length ≤ res ∧
      s.consumed.length + res ≤ s.accepted.length + writes.length
  | .advancingPop _ _ res writes => (0 < writes.length ∧ writes.length ≤ res) ∧
      s.consumed.length + res ≤ s.accepted.length + writes.length
  | .skipping res => s.consumed.length + res ≤ s.accepted.length
  | _ => True

/-- The invariant of the two threads. -/
structure Inv (s : Threads α) : Prop where
  consumed_prefix : s.consumed <+: s.accepted
  unreleased_le : s.consumer.unreleased ≤ s.consumed.length
  count : s.availableSize + s.accepted.length + s.consumer.unreleased =
    s.bufferSize.1 + s.consumed.length
  room : s.accepted.length + s.producer.res + s.consumer.unreleased ≤
    s.bufferSize.1 + s.consumed.length
  fits : s.producer.Fits
  write_eq : s.write = (s.accepted.length + s.producer.moved) % s.bufferSize.1
  read_eq : s.read = (s.consumed.length - s.consumer.unmoved) % s.bufferSize.1
  slots : ∀ j x, s.consumed.length ≤ j + s.consumer.unreleased →
    (s.accepted ++ s.producer.stored)[j]? = some x → s.buffer (j % s.bufferSize.1) = x
  covered : s.Covered
  delivered : s.Delivered

variable {s s' : Threads α}

/-- Nothing has been stored in a new buffer. -/
theorem inv_make [Inhabited α] (n : VectorSize) : Inv (make n : Threads α) where
  consumed_prefix := List.prefix_rfl
  unreleased_le := Nat.le_refl 0
  count := by simp [make, Consumer.unreleased]
  room := by simp [make, Producer.res, Consumer.unreleased]
  fits := trivial
  write_eq := (Nat.zero_mod _).symm
  read_eq := (Nat.zero_mod _).symm
  slots := fun j x _ h => by simp [make, Producer.stored] at h
  covered := trivial
  delivered := trivial

/-! ### Counts -/

theorem sizeT_of_lt {i : ℤ} (h : 0 ≤ i) (hlt : i < 2 ^ 64) : sizeT i = i.toNat := by
  rw [sizeT, Int.emod_eq_of_lt h hlt]

theorem Inv.length_le (h : Inv s) : s.consumed.length ≤ s.accepted.length :=
  h.consumed_prefix.length_le

/-- The count of free slots is in its range. -/
theorem Inv.available (h : Inv s) : 0 ≤ s.availableSize ∧ s.availableSize ≤ s.bufferSize.1 := by
  have hlength := h.length_le
  have hcount := h.count
  have hroom := h.room
  have hunreleased := h.unreleased_le
  omega

/-- A load sees the count. -/
theorem Inv.load_eq (h : Inv s) : (s.load : ℤ) = s.availableSize := by
  obtain ⟨hnonneg, hle⟩ := h.available
  have hsize := s.bufferSize.2
  rw [load, sizeT_of_lt hnonneg (by omega)]
  omega

/-- A consumer sees the length of the queue, if all that is consumed is released. -/
theorem Inv.usage_eq (h : Inv s) (hidle : s.consumer = .idle) :
    s.usage = s.accepted.length - s.consumed.length := by
  obtain ⟨hnonneg, hle⟩ := h.available
  have hsize := s.bufferSize.2
  have hcount := h.count
  have hlength := h.length_le
  have hload := h.load_eq
  rw [hidle, Consumer.unreleased] at hcount
  rw [usage, sizeT_of_lt (by omega) (by omega)]
  omega

theorem atMost_le (available num : ℕ) : atMost available num ≤ available := by
  rw [atMost]
  split_ifs <;> omega

/-- The next index, modulo the size. -/
theorem nextIndex_mod {p : ℕ} (hn : 0 < s.bufferSize.1) :
    s.nextIndex (p % s.bufferSize.1) = (p + 1) % s.bufferSize.1 := by
  have hlt := Nat.mod_lt p hn
  have hnext : s.nextIndex (p % s.bufferSize.1) = (p % s.bufferSize.1 + 1) % s.bufferSize.1 := by
    rw [nextIndex]
    split_ifs with h
    · rw [← h, Nat.mod_self]
    · exact (Nat.mod_eq_of_lt (by omega)).symm
  rw [hnext, Nat.mod_add_mod]

/-- Samples of one round are in different slots. -/
theorem mod_ne {n j k : ℕ} (hjk : j < k) (hk : k < j + n) : k % n ≠ j % n := by
  have h := Circular.add_mod_ne (n := n) (r := j) (i := 0) (j := k - j) (by omega) (by omega)
  rw [Nat.add_zero, Nat.add_sub_cancel' hjk.le] at h
  exact h.symm

/-! ### The producer -/

/-- A read in progress sees no more of a longer queue. -/
theorem delivered_accept {l : List α} (hcovered : s.Covered)
    (h : s.Delivered) (hs' : s'.consumer = s.consumer) (hconsumed : s'.consumed = s.consumed)
    (haccepted : s'.accepted = s.accepted ++ l) : s'.Delivered := by
  have htake : ∀ k, s.consumed.length + k ≤ s.accepted.length →
      s'.queue.take k = s.queue.take k := by
    intro k hk
    rw [queue, queue, haccepted, hconsumed, List.drop_append_of_le_length (by omega),
      List.take_append_of_le_length (by rw [List.length_drop]; omega)]
  unfold Delivered Covered at *
  rw [hs', hconsumed]
  cases hc : s.consumer with
  | reading chan totalChan res writes read =>
      rw [hc] at h hcovered
      dsimp only at h hcovered ⊢
      rw [htake _ (by omega)]
      exact h
  | advancingRead chan totalChan res writes read =>
      rw [hc] at h hcovered
      dsimp only at h hcovered ⊢
      rw [htake _ (by omega)]
      exact h
  | idle => trivial
  | popping chan totalChan res writes =>
      rw [hc] at h
      exact h
  | advancingPop chan totalChan res writes =>
      rw [hc] at h
      exact h
  | skipping res => trivial
  | releasing res => trivial

/-- The samples that a call in progress will take stay in a longer queue. -/
theorem covered_accept {l : List α} (h : s.Covered) (hs' : s'.consumer = s.consumer)
    (hconsumed : s'.consumed = s.consumed) (hsize : s'.bufferSize = s.bufferSize)
    (haccepted : s'.accepted = s.accepted ++ l) : s'.Covered := by
  have hlength : s.accepted.length ≤ s'.accepted.length := by
    rw [haccepted, List.length_append]
    omega
  unfold Covered at *
  rw [hs', hconsumed, hsize]
  cases hc : s.consumer with
  | idle => trivial
  | reading chan totalChan res writes read =>
      rw [hc] at h
      exact ⟨h.1, h.2.1.trans hlength, h.2.2⟩
  | advancingRead chan totalChan res writes read =>
      rw [hc] at h
      exact ⟨h.1, h.2.1.trans hlength, h.2.2⟩
  | popping chan totalChan res writes =>
      rw [hc] at h
      exact ⟨h.1, h.2.trans (by omega)⟩
  | advancingPop chan totalChan res writes =>
      rw [hc] at h
      exact ⟨h.1, h.2.trans (by omega)⟩
  | skipping res =>
      rw [hc] at h
      exact Nat.le_trans h hlength
  | releasing res => trivial

/-- The element about to be written is in a slot that no unreleased sample has. -/
theorem Inv.write_ne {res : ℕ} {stored : List α} (h : Inv s)
    (hp : s.producer = .looping res stored) (hlt : stored.length < res) {j : ℕ}
    (hj : s.consumed.length ≤ j + s.consumer.unreleased)
    (hj' : j < s.accepted.length + stored.length) :
    s.write ≠ j % s.bufferSize.1 := by
  have hroom := h.room
  have hwrite := h.write_eq
  rw [hp, Producer.res] at hroom
  rw [hp, Producer.moved] at hwrite
  rw [hwrite]
  exact mod_ne hj' (by omega)

/-- A step of the producer keeps the invariant. -/
theorem Inv.produce {a : ProducerAct α} (h : Inv s) (hs' : s.produce a = some s') : Inv s' := by
  cases a with
  | putSamples num =>
      cases hp : s.producer with
      | idle =>
          simp only [Threads.produce, hp] at hs'
          split_ifs at hs' with hzero
          · rw [← Option.some.inj hs']
            exact h
          · rw [← Option.some.inj hs']
            have hres := atMost_le s.load num
            have hload := h.load_eq
            have hcount := h.count
            have hwrite := h.write_eq
            have hslots := h.slots
            rw [hp] at hwrite hslots
            refine { h with room := ?_, fits := Nat.zero_le _, write_eq := hwrite, slots := hslots }
            change s.accepted.length + atMost s.load num + s.consumer.unreleased ≤
              s.bufferSize.1 + s.consumed.length
            omega
      | looping res stored => simp only [Threads.produce, hp, reduceCtorEq] at hs'
      | advancing res stored => simp only [Threads.produce, hp, reduceCtorEq] at hs'
  | writeElement x =>
      cases hp : s.producer with
      | idle => simp only [Threads.produce, hp, reduceCtorEq] at hs'
      | advancing res stored => simp only [Threads.produce, hp, reduceCtorEq] at hs'
      | looping res stored =>
          simp only [Threads.produce, hp] at hs'
          split_ifs at hs' with hlt
          rw [← Option.some.inj hs']
          have hroom := h.room
          have hwrite := h.write_eq
          have hslots := h.slots
          rw [hp] at hroom hwrite hslots
          refine { h with room := hroom, fits := ?_, write_eq := ?_, slots := ?_ }
          · change 0 < (stored ++ [x]).length ∧ (stored ++ [x]).length ≤ res
            rw [List.length_append, List.length_singleton]
            omega
          · rw [hwrite, Producer.moved, Producer.moved, List.length_append, List.length_singleton,
              Nat.add_sub_cancel]
          · intro j y hj hy
            change Function.update s.buffer s.write x (j % s.bufferSize.1) = y
            change (s.accepted ++ (stored ++ [x]))[j]? = some y at hy
            rw [← List.append_assoc] at hy
            by_cases hj' : j < s.accepted.length + stored.length
            · rw [Function.update_of_ne (h.write_ne hp hlt hj hj').symm]
              rw [List.getElem?_append_left (by rwa [List.length_append])] at hy
              exact hslots j y hj hy
            · rw [List.getElem?_append_right (by rw [List.length_append]; omega),
                List.getElem?_singleton, List.length_append] at hy
              split_ifs at hy with hzero
              have heq : j = s.accepted.length + stored.length := by omega
              rw [heq, ← (show s.write = (s.accepted.length + stored.length) % _ from hwrite),
                Function.update_self, Option.some.inj hy]
  | moveWrite =>
      cases hp : s.producer with
      | idle => simp only [Threads.produce, hp, reduceCtorEq] at hs'
      | looping res stored => simp only [Threads.produce, hp, reduceCtorEq] at hs'
      | advancing res stored =>
          simp only [Threads.produce, hp] at hs'
          rw [← Option.some.inj hs']
          have hroom := h.room
          have hwrite := h.write_eq
          have hslots := h.slots
          have hfits := h.fits
          have hunreleased := h.unreleased_le
          have hlength := h.length_le
          rw [hp] at hroom hwrite hslots hfits
          refine { h with room := hroom, fits := hfits.2, write_eq := ?_, slots := hslots }
          obtain ⟨hpos, hle⟩ := hfits
          change s.nextIndex s.write = (s.accepted.length + stored.length) % s.bufferSize.1
          have hn : 0 < s.bufferSize.1 := by
            rw [Producer.res] at hroom
            omega
          rw [hwrite, nextIndex_mod hn, Producer.moved]
          congr 1
          omega
  | fetchSub =>
      cases hp : s.producer with
      | idle => simp only [Threads.produce, hp, reduceCtorEq] at hs'
      | advancing res stored => simp only [Threads.produce, hp, reduceCtorEq] at hs'
      | looping res stored =>
          simp only [Threads.produce, hp] at hs'
          split_ifs at hs' with hlt
          rw [← Option.some.inj hs']
          have hroom := h.room
          have hwrite := h.write_eq
          have hslots := h.slots
          have hfits := h.fits
          have hcount := h.count
          rw [hp] at hroom hwrite hslots hfits
          have hres : res = stored.length := Nat.le_antisymm (Nat.not_lt.1 hlt) hfits
          refine ⟨h.consumed_prefix.trans (List.prefix_append _ _), h.unreleased_le, ?_, ?_, trivial,
            ?_, h.read_eq, ?_, covered_accept h.covered rfl rfl rfl rfl,
            delivered_accept h.covered h.delivered rfl rfl rfl⟩
          · change s.availableSize - res + ((s.accepted ++ stored).length : ℤ) +
              s.consumer.unreleased = s.bufferSize.1 + s.consumed.length
            rw [List.length_append]
            omega
          · change (s.accepted ++ stored).length + 0 + s.consumer.unreleased ≤
              s.bufferSize.1 + s.consumed.length
            rw [Producer.res] at hroom
            rw [List.length_append]
            omega
          · change s.write = ((s.accepted ++ stored).length + 0) % _
            rw [hwrite, List.length_append]
            rfl
          · intro j x hj hx
            refine hslots j x hj ?_
            change (s.accepted ++ stored ++ [])[j]? = some x at hx
            rwa [List.append_nil] at hx

/-! ### The consumer -/

/-- Unreleased samples are in their slots. -/
theorem Inv.getElem?_accepted (h : Inv s) {j : ℕ}
    (hj : s.consumed.length ≤ j + s.consumer.unreleased) (hj' : j < s.accepted.length) :
    s.accepted[j]? = some (s.buffer (j % s.bufferSize.1)) := by
  have hget : s.accepted[j]? = some s.accepted[j] := List.getElem?_eq_getElem hj'
  have hslot := h.slots j s.accepted[j] hj (by rw [List.getElem?_append_left hj', hget])
  rw [hget, hslot]

/-- So is the queue. -/
theorem Inv.getElem?_queue (h : Inv s) {i : ℕ}
    (hi : s.consumed.length + i < s.accepted.length) :
    s.queue[i]? = some (s.buffer ((s.consumed.length + i) % s.bufferSize.1)) := by
  rw [queue, List.getElem?_drop, h.getElem?_accepted (by omega) hi]

/-- The slots after the consumed samples hold the front of the queue. -/
theorem Inv.window_eq (h : Inv s) {res : ℕ}
    (hres : s.consumed.length + res ≤ s.accepted.length) :
    Circular.window s.buffer s.bufferSize.1 s.consumed.length res = s.queue.take res := by
  refine List.ext_getElem? fun i => ?_
  by_cases hi : i < res
  · rw [List.getElem?_take_of_lt hi, h.getElem?_queue (by omega), Circular.window,
      List.getElem?_map, List.getElem?_range hi, Option.map_some]
  · rw [List.getElem?_eq_none (by rw [Circular.length_window]; omega),
      List.getElem?_eq_none (by rw [List.length_take]; omega)]

/-- What is consumed is what has been accepted first. -/
theorem Inv.prefix_append (h : Inv s) {l : List α} (hl : l = s.queue.take l.length) :
    s.consumed ++ l <+: s.accepted := by
  have hconsumed := List.prefix_iff_eq_take.1 h.consumed_prefix
  have htake : s.consumed ++ l = s.accepted.take (s.consumed.length + l.length) := by
    rw [List.take_add, ← hconsumed]
    exact congrArg (s.consumed ++ ·) hl
  rw [htake]
  exact List.take_prefix _ _

/-- The first sample of the queue. -/
theorem Inv.singleton_eq (h : Inv s) (hlt : s.consumed.length < s.accepted.length) :
    [s.buffer (s.consumed.length % s.bufferSize.1)] = s.queue.take 1 := by
  have hget := h.getElem?_queue (i := 0) (by omega)
  rw [Nat.add_zero] at hget
  rw [List.take_add_one, List.take_zero, List.nil_append, hget, Option.toList_some]

/-- The consumer moves on without consuming or releasing. -/
theorem Inv.setConsumer (h : Inv s) {c : Consumer α}
    (hunreleased : c.unreleased = s.consumer.unreleased) (hunmoved : c.unmoved = s.consumer.unmoved)
    (hcovered : Covered { s with consumer := c }) (hdelivered : Delivered { s with consumer := c }) :
    Inv { s with consumer := c } where
  consumed_prefix := h.consumed_prefix
  unreleased_le := hunreleased ▸ h.unreleased_le
  count := hunreleased ▸ h.count
  room := hunreleased ▸ h.room
  fits := h.fits
  write_eq := h.write_eq
  read_eq := hunmoved ▸ h.read_eq
  slots := hunreleased ▸ h.slots
  covered := hcovered
  delivered := hdelivered

/-- A call that finds samples for it. -/
theorem Inv.startCall {num : ℕ} {c : ℕ → Consumer α} (h : Inv s)
    (hc : s.consumer.unmoved = 0 → ∀ res, s.consumed.length + res ≤ s.accepted.length →
      (c res).unreleased = 0 ∧ (c res).unmoved = 0 ∧ Covered { s with consumer := c res } ∧
        Delivered { s with consumer := c res })
    (hs' : s.startCall num c = some s') : Inv s' := by
  cases hidle : s.consumer with
  | idle =>
      simp only [Threads.startCall, hidle] at hs'
      have hres := atMost_le s.usage num
      have husage := h.usage_eq hidle
      have hlength := h.length_le
      split_ifs at hs' with hzero
      · rw [← Option.some.inj hs']
        exact h
      · rw [← Option.some.inj hs']
        obtain ⟨hunreleased, hunmoved, hcovered, hdelivered⟩ :=
          hc (by rw [hidle, Consumer.unmoved]) (atMost s.usage num) (by omega)
        exact h.setConsumer (by rw [hunreleased, hidle, Consumer.unreleased])
          (by rw [hunmoved, hidle, Consumer.unmoved]) hcovered hdelivered
  | reading chan totalChan res writes read => simp only [Threads.startCall, hidle, reduceCtorEq] at hs'
  | advancingRead chan totalChan res writes read =>
      simp only [Threads.startCall, hidle, reduceCtorEq] at hs'
  | popping chan totalChan res writes => simp only [Threads.startCall, hidle, reduceCtorEq] at hs'
  | advancingPop chan totalChan res writes => simp only [Threads.startCall, hidle, reduceCtorEq] at hs'
  | skipping res => simp only [Threads.startCall, hidle, reduceCtorEq] at hs'
  | releasing res => simp only [Threads.startCall, hidle, reduceCtorEq] at hs'

/-- One more sample is delivered. -/
theorem deliver_snoc {pos : ℕ → ℕ} {l : List α} {writes : List (ℕ × α)} (x : α)
    (h : writes = deliver pos l) :
    writes ++ [(pos writes.length, x)] = deliver pos (l ++ [x]) := by
  rw [deliver_concat, h, length_deliver]

/-- A read takes the next sample of the queue, a pop the first one. -/
theorem Inv.readElement (h : Inv s) (hs' : s.consume .readElement = some s') : Inv s' := by
  have hcovered := h.covered
  have hdelivered := h.delivered
  unfold Covered at hcovered
  unfold Delivered at hdelivered
  cases hc : s.consumer with
  | idle => simp only [Threads.consume, hc, reduceCtorEq] at hs'
  | advancingRead chan totalChan res writes read =>
      simp only [Threads.consume, hc, reduceCtorEq] at hs'
  | advancingPop chan totalChan res writes =>
      simp only [Threads.consume, hc, reduceCtorEq] at hs'
  | skipping res => simp only [Threads.consume, hc, reduceCtorEq] at hs'
  | releasing res => simp only [Threads.consume, hc, reduceCtorEq] at hs'
  | reading chan totalChan res writes read =>
      simp only [Threads.consume, hc] at hs'
      split_ifs at hs' with hlt
      rw [← Option.some.inj hs']
      rw [hc] at hcovered hdelivered
      obtain ⟨hle, hres, hread⟩ := hcovered
      refine h.setConsumer (by rw [hc]; rfl) (by rw [hc]; rfl) ⟨?_, hres, ?_⟩ ?_
      · rw [List.length_append, List.length_singleton]
        omega
      · rw [hread, List.length_append, List.length_singleton, Nat.add_sub_cancel]
      · change writes ++ [(channelPos chan totalChan writes.length, s.buffer read)] =
          deliver (channelPos chan totalChan) (s.queue.take (writes ++ [_]).length)
        rw [List.length_append, List.length_singleton, List.take_add_one,
          h.getElem?_queue (by omega), ← hread]
        exact deliver_snoc _ hdelivered
  | popping chan totalChan res writes =>
      simp only [Threads.consume, hc] at hs'
      split_ifs at hs' with hlt
      rw [← Option.some.inj hs']
      have hread := h.read_eq
      have hunreleased := h.unreleased_le
      have hcount := h.count
      have hroom := h.room
      have hslots := h.slots
      rw [hc] at hcovered hdelivered hread hunreleased hcount hroom hslots
      obtain ⟨hle, hres⟩ := hcovered
      rw [Consumer.unmoved, Nat.sub_zero] at hread
      rw [Consumer.unreleased] at hunreleased hcount hroom hslots
      have hreadPre := h.prefix_append (h.singleton_eq (by omega))
      rw [← hread] at hreadPre
      have hlength : (s.consumed ++ [s.buffer s.read]).length = s.consumed.length + 1 := by
        rw [List.length_append, List.length_singleton]
      have hwrites : (writes ++ [(channelPos chan totalChan writes.length, s.buffer s.read)]).length =
          writes.length + 1 := by rw [List.length_append, List.length_singleton]
      refine ⟨hreadPre, ?_, ?_, ?_, h.fits, h.write_eq, ?_, fun j x hj hx => ?_, ⟨?_, ?_⟩, ?_⟩
      · change (writes ++ [_]).length ≤ (s.consumed ++ [_]).length
        omega
      · change s.availableSize + s.accepted.length + ((writes ++ [_]).length : ℕ) =
          s.bufferSize.1 + ((s.consumed ++ [_]).length : ℕ)
        omega
      · change s.accepted.length + s.producer.res + (writes ++ [_]).length ≤
          s.bufferSize.1 + (s.consumed ++ [_]).length
        omega
      · change s.read = ((s.consumed ++ [_]).length - 1) % s.bufferSize.1
        rw [hlength, Nat.add_sub_cancel]
        exact hread
      · refine hslots j x ?_ hx
        change (s.consumed ++ [_]).length ≤ j + (writes ++ [_]).length at hj
        omega
      · omega
      · change (s.consumed ++ [_]).length + res ≤ s.accepted.length + (writes ++ [_]).length
        omega
      · change writes ++ [(channelPos chan totalChan writes.length, s.buffer s.read)] =
          deliver (channelPos chan totalChan) ((s.consumed ++ [s.buffer s.read]).drop
            ((s.consumed ++ [s.buffer s.read]).length - (writes ++ [_]).length))
        rw [hlength, hwrites, Nat.add_sub_add_right, List.drop_append_of_le_length (by omega)]
        exact deliver_snoc _ hdelivered

/-- The playhead moves over what has been read, or skips samples. -/
theorem Inv.moveRead (h : Inv s) (hs' : s.consume .moveRead = some s') : Inv s' := by
  have hcovered := h.covered
  have hdelivered := h.delivered
  have hread := h.read_eq
  have hcount := h.count
  have hroom := h.room
  have hslots := h.slots
  have hunreleased := h.unreleased_le
  unfold Covered at hcovered
  unfold Delivered at hdelivered
  cases hc : s.consumer with
  | idle => simp only [Threads.consume, hc, reduceCtorEq] at hs'
  | reading chan totalChan res writes read =>
      simp only [Threads.consume, hc, reduceCtorEq] at hs'
  | popping chan totalChan res writes => simp only [Threads.consume, hc, reduceCtorEq] at hs'
  | releasing res => simp only [Threads.consume, hc, reduceCtorEq] at hs'
  | advancingRead chan totalChan res writes read =>
      simp only [Threads.consume, hc] at hs'
      rw [← Option.some.inj hs']
      rw [hc] at hcovered hdelivered hroom
      obtain ⟨⟨hpos, hle⟩, hres, hread⟩ := hcovered
      rw [Consumer.unreleased] at hroom
      refine h.setConsumer (by rw [hc]; rfl) (by rw [hc]; rfl) ⟨hle, hres, ?_⟩ hdelivered
      rw [hread, nextIndex_mod (by omega)]
      congr 1
      change s.consumed.length + (writes.length - 1) + 1 = s.consumed.length + writes.length
      omega
  | advancingPop chan totalChan res writes =>
      simp only [Threads.consume, hc] at hs'
      rw [← Option.some.inj hs']
      rw [hc] at hcovered hdelivered hread hcount hroom hslots hunreleased
      rw [Consumer.unreleased] at hroom hunreleased
      obtain ⟨⟨hpos, hle⟩, hres⟩ := hcovered
      refine ⟨h.consumed_prefix, hunreleased, hcount, hroom, h.fits, h.write_eq, ?_, hslots,
        ⟨hle, hres⟩, hdelivered⟩
      change s.nextIndex s.read = (s.consumed.length - 0) % s.bufferSize.1
      have hlength := h.length_le
      rw [hread, Consumer.unmoved, nextIndex_mod (by omega)]
      congr 1
      omega
  | skipping res =>
      simp only [Threads.consume, hc] at hs'
      split_ifs at hs' with hzero
      rw [← Option.some.inj hs']
      rw [hc] at hcovered hread hcount hroom hslots
      rw [Consumer.unmoved, Nat.sub_zero] at hread
      rw [Consumer.unreleased] at hcount hroom hslots
      have hwindow : Circular.window s.buffer s.bufferSize.1 s.read res = s.queue.take res := by
        rw [hread, Circular.window_mod, h.window_eq hcovered]
      have hlength : (s.consumed ++ Circular.window s.buffer s.bufferSize.1 s.read res).length =
          s.consumed.length + res := by rw [List.length_append, Circular.length_window]
      refine ⟨h.prefix_append (by rw [Circular.length_window, hwindow]), ?_, ?_, ?_, h.fits,
        h.write_eq, ?_, fun j x hj hx => ?_, trivial, trivial⟩
      · change res ≤ (s.consumed ++ Circular.window _ _ _ _).length
        omega
      · change s.availableSize + s.accepted.length + (res : ℕ) =
          s.bufferSize.1 + ((s.consumed ++ Circular.window _ _ _ _).length : ℕ)
        omega
      · change s.accepted.length + s.producer.res + res ≤
          s.bufferSize.1 + (s.consumed ++ Circular.window _ _ _ _).length
        omega
      · change (s.read + res) % s.bufferSize.1 =
          ((s.consumed ++ Circular.window _ _ _ _).length - 0) % s.bufferSize.1
        rw [hlength, Nat.sub_zero, hread, Nat.mod_add_mod]
      · refine hslots j x ?_ hx
        change (s.consumed ++ Circular.window _ _ _ _).length ≤ j + res at hj
        omega

/-- What has been consumed is released. -/
theorem Inv.release {res : ℕ} (h : Inv s) (hres : s.consumer.unreleased = res)
    (hunmoved : s.consumer.unmoved = 0) :
    Inv { s with availableSize := s.availableSize + res, consumer := .idle } := by
  have hcount := h.count
  have hroom := h.room
  refine ⟨h.consumed_prefix, Nat.zero_le _, ?_, ?_, h.fits, h.write_eq, ?_,
    fun j x hj hx => h.slots j x ?_ hx, trivial, trivial⟩
  · change s.availableSize + res + s.accepted.length + (0 : ℕ) = s.bufferSize.1 + s.consumed.length
    omega
  · change s.accepted.length + s.producer.res + 0 ≤ s.bufferSize.1 + s.consumed.length
    omega
  · have hread := h.read_eq
    rw [hunmoved] at hread
    exact hread
  · exact Nat.le_trans hj (Nat.le_add_right j _)

/-- The end of a call that has consumed something. -/
theorem Inv.fetchAdd (h : Inv s) (hs' : s.consume .fetchAdd = some s') : Inv s' := by
  have hcovered := h.covered
  unfold Covered at hcovered
  cases hc : s.consumer with
  | idle => simp only [Threads.consume, hc, reduceCtorEq] at hs'
  | reading chan totalChan res writes read =>
      simp only [Threads.consume, hc, reduceCtorEq] at hs'
  | advancingRead chan totalChan res writes read =>
      simp only [Threads.consume, hc, reduceCtorEq] at hs'
  | advancingPop chan totalChan res writes =>
      simp only [Threads.consume, hc, reduceCtorEq] at hs'
  | skipping res => simp only [Threads.consume, hc, reduceCtorEq] at hs'
  | popping chan totalChan res writes =>
      simp only [Threads.consume, hc] at hs'
      split_ifs at hs' with hlt
      rw [← Option.some.inj hs']
      rw [hc] at hcovered
      refine h.release ?_ (by rw [hc, Consumer.unmoved])
      rw [hc, Consumer.unreleased]
      exact Nat.le_antisymm hcovered.1 (Nat.not_lt.1 hlt)
  | releasing res =>
      simp only [Threads.consume, hc] at hs'
      rw [← Option.some.inj hs']
      exact h.release (by rw [hc, Consumer.unreleased]) (by rw [hc, Consumer.unmoved])

/-- The end of a read. -/
theorem Inv.endRead (h : Inv s) (hs' : s.consume .endRead = some s') : Inv s' := by
  cases hc : s.consumer with
  | idle => simp only [Threads.consume, hc, reduceCtorEq] at hs'
  | advancingRead chan totalChan res writes read =>
      simp only [Threads.consume, hc, reduceCtorEq] at hs'
  | popping chan totalChan res writes => simp only [Threads.consume, hc, reduceCtorEq] at hs'
  | advancingPop chan totalChan res writes =>
      simp only [Threads.consume, hc, reduceCtorEq] at hs'
  | skipping res => simp only [Threads.consume, hc, reduceCtorEq] at hs'
  | releasing res => simp only [Threads.consume, hc, reduceCtorEq] at hs'
  | reading chan totalChan res writes read =>
      simp only [Threads.consume, hc] at hs'
      split_ifs at hs' with hlt
      rw [← Option.some.inj hs']
      exact h.setConsumer (by rw [hc, Consumer.unreleased, Consumer.unreleased])
        (by rw [hc, Consumer.unmoved, Consumer.unmoved]) trivial trivial

/-- The load of `shrink_to`. -/
theorem Inv.shrinkTo {size : ℕ} (h : Inv s) (hs' : s.consume (.shrinkTo size) = some s') :
    Inv s' := by
  cases hc : s.consumer with
  | reading chan totalChan res writes read =>
      simp only [Threads.consume, hc, reduceCtorEq] at hs'
  | advancingRead chan totalChan res writes read =>
      simp only [Threads.consume, hc, reduceCtorEq] at hs'
  | popping chan totalChan res writes => simp only [Threads.consume, hc, reduceCtorEq] at hs'
  | advancingPop chan totalChan res writes =>
      simp only [Threads.consume, hc, reduceCtorEq] at hs'
  | skipping res => simp only [Threads.consume, hc, reduceCtorEq] at hs'
  | releasing res => simp only [Threads.consume, hc, reduceCtorEq] at hs'
  | idle =>
      simp only [Threads.consume, hc] at hs'
      split_ifs at hs' with hlt
      · rw [← Option.some.inj hs']
        exact h
      · rw [← Option.some.inj hs']
        have husage := h.usage_eq hc
        have hlength := h.length_le
        refine h.setConsumer (by rw [hc, Consumer.unreleased, Consumer.unreleased])
          (by rw [hc, Consumer.unmoved, Consumer.unmoved]) ?_ trivial
        change s.consumed.length + (s.usage - size) ≤ s.accepted.length
        omega

/-- A step of a consumer keeps the invariant. -/
theorem Inv.consume {a : ConsumerAct} (h : Inv s) (hs' : s.consume a = some s') : Inv s' := by
  cases a with
  | readSamplesAsChannel num chan totalChan =>
      refine h.startCall (c := fun res => .reading chan totalChan res [] s.read)
        (fun hidle res hres => ⟨rfl, rfl, ⟨Nat.zero_le _, hres, ?_⟩, rfl⟩) hs'
      have hread := h.read_eq
      rwa [hidle] at hread
  | popSamplesAsChannel num chan totalChan =>
      refine h.startCall (c := fun res => .popping chan totalChan res [])
        (fun _ res hres => ⟨rfl, rfl, ⟨Nat.zero_le _, hres⟩, ?_⟩) hs'
      change [] = deliver (channelPos chan totalChan) (s.consumed.drop (s.consumed.length - 0))
      rw [Nat.sub_zero, List.drop_length, deliver_nil]
  | discard num =>
      exact h.startCall (c := fun res => .skipping res)
        (fun _ res hres => ⟨rfl, rfl, hres, trivial⟩) hs'
  | shrinkTo size => exact h.shrinkTo hs'
  | readElement => exact h.readElement hs'
  | moveRead => exact h.moveRead hs'
  | endRead => exact h.endRead hs'
  | fetchAdd => exact h.fetchAdd hs'

/-! ### Every run -/

theorem Inv.step {a : ProducerAct α ⊕ ConsumerAct} {r : Threads α × Unit} (h : Inv s)
    (hr : s.step a = some r) : Inv r.1 := by
  cases a with
  | inl a =>
      obtain ⟨s', hs', rfl⟩ := Option.map_eq_some_iff.1 hr
      exact h.produce hs'
  | inr a =>
      obtain ⟨s', hs', rfl⟩ := Option.map_eq_some_iff.1 hr
      exact h.consume hs'

theorem Inv.isLinearizable (h : Inv s) : Linearizable s where
  consumed_prefix := h.consumed_prefix
  delivered := h.delivered
  slots := fun i x hx => by
    have hlt : i < s.queue.length := (List.getElem?_eq_some_iff.1 hx).1
    rw [queue, List.length_drop] at hlt
    rw [h.getElem?_queue (by omega)] at hx
    exact Option.some.inj hx
  notOverwritten := fun x s' hs' i hi => by
    rw [queue, List.length_drop] at hi
    cases hp : s.producer with
    | idle => simp only [Threads.produce, hp, reduceCtorEq] at hs'
    | advancing res stored => simp only [Threads.produce, hp, reduceCtorEq] at hs'
    | looping res stored =>
        simp only [Threads.produce, hp] at hs'
        split_ifs at hs' with hlt
        exact h.write_ne hp hlt (by omega) (by omega)
  available := h.available

/-- Two threads at a ring buffer of any size, in any order of their steps: the buffer is a
queue. -/
theorem linearizable [Inhabited α] (sizeInSample : VectorSize)
    (acts : List (ProducerAct α ⊕ ConsumerAct)) :
    Machine.Always step Linearizable (make sizeInSample) acts :=
  Machine.always_of_invariant (fun _ h => h.isLinearizable) (fun _ _ _ h hr => h.step hr)
    (inv_make sizeInSample) acts

end Threads
end AudioRingBuffer
end LibSwitcher
