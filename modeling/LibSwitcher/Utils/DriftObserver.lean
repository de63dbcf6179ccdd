/-
# Drift observers

`switcher/utils/drift-observer_spec.hpp`, with rationals for the `double`s and integers for the
`TimeType`.  An observer is told, again and again, the date and the duration of a buffer, and
answers with a corrected duration: the duration times a smoothed ratio of the dates, rounded.  What
the rounding leaves is carried to the next call.

Ratio and remainder stay in their ranges (`Bounded`), so that the truncating casts are floors, and
what a call returns is its exact duration plus what the remainder loses (`returned_sub`).  Over a
run these differences add up to a remainder (`loses_no_time`).
-/

import LibSwitcher.Lib.Machine
import Mathlib.Algebra.Order.Floor.Ring
import Mathlib.Data.Rat.Floor
import Mathlib.Tactic.Linarith
import Mathlib.Tactic.NormNum

namespace LibSwitcher

/-- A `DriftObserver`. -/
structure DriftObserver where
  currentBufferDate : ℤ
  currentBufferDuration : ℤ
  remainder : ℚ
  ratio : ℚ
  smoothingFactor : ℚ
  deriving DecidableEq

namespace DriftObserver

/-- A new observer. -/
def make : DriftObserver := ⟨0, 0, 0, 1, 1 / 10000⟩

/-- `static_cast<TimeType>`: what is behind the point is dropped. -/
def truncate (q : ℚ) : ℤ := if 0 ≤ q then ⌊q⌋ else ⌈q⌉

/-- `measured_ratio`. -/
def measuredRatio (o : DriftObserver) (date : ℤ) : ℚ :=
  ((date - o.currentBufferDate : ℤ) : ℚ) / o.currentBufferDuration

/-- The ratio after a call that is not the first one. -/
def nextRatio (o : DriftObserver) (date : ℤ) : ℚ :=
  if 9 / 10 < o.measuredRatio date ∧ o.measuredRatio date < 11 / 10 then
    (1 - o.smoothingFactor) * o.ratio + o.smoothingFactor * o.measuredRatio date
  else 1

/-- `set_current_time_info`. -/
def setCurrentTimeInfo (o : DriftObserver) (date duration : ℤ) : DriftObserver × ℤ :=
  if 0 = o.currentBufferDuration then
    ({ o with currentBufferDate := date, currentBufferDuration := duration }, duration)
  else
    let ratio := o.nextRatio date
    let res := duration * ratio + o.remainder
    let decimals := res - ⌊res⌋
    if decimals < 1 / 2 then
      (⟨date, duration, decimals, ratio, o.smoothingFactor⟩, truncate res)
    else
      (⟨date, duration, decimals - 1, ratio, o.smoothingFactor⟩, truncate (res + 1))

/-- `set_smoothing_factor`. -/
def setSmoothingFactor (o : DriftObserver) (sf : ℚ) : DriftObserver :=
  { o with smoothingFactor := sf }

/-! ### Runs -/

/-- A call. -/
inductive Op
  | setCurrentTimeInfo (date duration : ℤ)
  | setSmoothingFactor (sf : ℚ)

/-- A duration is positive, and a smoothing factor between zero and one. -/
def Op.Valid : Op → Prop
  | setCurrentTimeInfo _ duration => 0 < duration
  | setSmoothingFactor sf => 0 ≤ sf ∧ sf ≤ 1

/-- What a call of `set_current_time_info` returned, for which duration and with which ratio. -/
structure Timing where
  returned : ℤ
  duration : ℤ
  ratio : ℚ
  deriving DecidableEq

/-- The exact duration. -/
def Timing.exact (t : Timing) : ℚ := t.duration * t.ratio

/-- One call; the ratio is the one after it. -/
def step (o : DriftObserver) : Op → DriftObserver × Option Timing
  | .setCurrentTimeInfo date duration =>
      let r := o.setCurrentTimeInfo date duration
      (r.1, some ⟨r.2, duration, r.1.ratio⟩)
  | .setSmoothingFactor sf => (o.setSmoothingFactor sf, none)

/-- The observer after some calls. -/
def after (o : DriftObserver) (ops : List Op) : DriftObserver := (Machine.runTotal step o ops).1

/-- The calls of `set_current_time_info` among them, in their order. -/
def timings (o : DriftObserver) (ops : List Op) : List Timing :=
  (Machine.runTotal step o ops).2.reduceOption

/-- The ranges of the members; the ratio is exact until the first duration is known. -/
structure Bounded (o : DriftObserver) : Prop where
  ratio_mem : 9 / 10 ≤ o.ratio ∧ o.ratio ≤ 11 / 10
  remainder_mem : -(1 / 2) ≤ o.remainder ∧ o.remainder < 1 / 2
  smoothingFactor_mem : 0 ≤ o.smoothingFactor ∧ o.smoothingFactor ≤ 1
  first : o.currentBufferDuration = 0 → o.ratio = 1

theorem bounded_make : make.Bounded := by
  constructor <;> norm_num [make]

variable {o : DriftObserver} {date duration : ℤ} {op : Op} {ops : List Op}

/-- A smoothed ratio is between the old one and the measured one. -/
theorem Bounded.nextRatio_mem (h : o.Bounded) (date : ℤ) :
    9 / 10 ≤ o.nextRatio date ∧ o.nextRatio date ≤ 11 / 10 := by
  obtain ⟨hlow, hhigh⟩ := h.ratio_mem
  obtain ⟨hzero, hone⟩ := h.smoothingFactor_mem
  rw [nextRatio]
  split_ifs with hmeasured
  · obtain ⟨hmlow, hmhigh⟩ := hmeasured
    have hrest : 0 ≤ 1 - o.smoothingFactor := by linarith
    have h₁ := mul_le_mul_of_nonneg_left hlow hrest
    have h₂ := mul_le_mul_of_nonneg_left hmlow.le hzero
    have h₃ := mul_le_mul_of_nonneg_left hhigh hrest
    have h₄ := mul_le_mul_of_nonneg_left hmhigh.le hzero
    constructor
    · linarith
    · linarith
  · norm_num

/-- The duration that is rounded is not negative. -/
theorem Bounded.res_nonneg (h : o.Bounded) (date : ℤ) (hduration : 0 < duration) :
    0 ≤ duration * o.nextRatio date + o.remainder := by
  have hone : (1 : ℚ) ≤ duration := by exact_mod_cast hduration
  have hratio := (h.nextRatio_mem date).1
  have hmul : 1 * (9 / 10) ≤ (duration : ℚ) * o.nextRatio date :=
    mul_le_mul hone hratio (by norm_num) (by linarith)
  have hremainder := h.remainder_mem.1
  linarith

theorem truncate_of_nonneg {q : ℚ} (h : 0 ≤ q) : truncate q = ⌊q⌋ := if_pos h

/-- What `set_current_time_info` leaves and returns. -/
theorem Bounded.setCurrentTimeInfo (h : o.Bounded) (date : ℤ) (hduration : 0 < duration) :
    (o.setCurrentTimeInfo date duration).1.Bounded ∧
      0 ≤ (o.setCurrentTimeInfo date duration).2 ∧
      ((o.setCurrentTimeInfo date duration).2 : ℚ) -
          duration * (o.setCurrentTimeInfo date duration).1.ratio =
        o.remainder - (o.setCurrentTimeInfo date duration).1.remainder := by
  have hne : duration ≠ 0 := hduration.ne'
  rw [DriftObserver.setCurrentTimeInfo]
  by_cases hfirst : 0 = o.currentBufferDuration
  · rw [if_pos hfirst]
    refine ⟨⟨h.ratio_mem, h.remainder_mem, h.smoothingFactor_mem, fun hzero => absurd hzero hne⟩,
      hduration.le, ?_⟩
    rw [h.first hfirst.symm, mul_one, sub_self, sub_self]
  · rw [if_neg hfirst]
    have hres := h.res_nonneg date hduration
    have hratio := h.nextRatio_mem date
    generalize o.nextRatio date = ratio at hres hratio
    dsimp only
    have hfloor := Int.floor_le (duration * ratio + o.remainder)
    have hlt := Int.lt_floor_add_one (duration * ratio + o.remainder)
    have hpos : 0 ≤ ⌊duration * ratio + o.remainder⌋ := Int.floor_nonneg.2 hres
    split_ifs with hdecimals
    · refine ⟨⟨hratio, ⟨?_, hdecimals⟩, h.smoothingFactor_mem, fun hzero => absurd hzero hne⟩, ?_, ?_⟩
      · dsimp only
        linarith
      · rw [truncate_of_nonneg hres]
        exact hpos
      · rw [truncate_of_nonneg hres]
        dsimp only
        ring
    · refine ⟨⟨hratio, ⟨?_, ?_⟩, h.smoothingFactor_mem, fun hzero => absurd hzero hne⟩, ?_, ?_⟩
      · dsimp only
        linarith
      · dsimp only
        linarith
      · rw [truncate_of_nonneg (by linarith), Int.floor_add_one]
        exact Int.add_nonneg hpos Int.one_nonneg
      · rw [truncate_of_nonneg (by linarith), Int.floor_add_one, Int.cast_add, Int.cast_one]
        dsimp only
        ring

/-- A call keeps the ranges. -/
theorem Bounded.step (h : o.Bounded) (hop : op.Valid) : (o.step op).1.Bounded := by
  cases op with
  | setCurrentTimeInfo date duration => exact (h.setCurrentTimeInfo date hop).1
  | setSmoothingFactor sf => exact ⟨h.ratio_mem, h.remainder_mem, hop, h.first⟩

/-- The difference between what was returned and the exact durations. -/
def gained (ts : List Timing) : ℚ :=
  (ts.map fun t => (t.returned : ℚ)).sum - (ts.map Timing.exact).sum

theorem gained_cons (t : Timing) (ts : List Timing) :
    gained (t :: ts) = t.returned - t.exact + gained ts := by
  rw [gained, gained, List.map_cons, List.map_cons, List.sum_cons, List.sum_cons]
  ring

/-- In a run the differences add up to what the remainder loses. -/
theorem Bounded.run (h : o.Bounded) (hops : ∀ op ∈ ops, op.Valid) :
    (o.after ops).Bounded ∧ (∀ t ∈ o.timings ops, 0 ≤ t.returned) ∧
      gained (o.timings ops) = o.remainder - (o.after ops).remainder := by
  induction ops generalizing o with
  | nil =>
      have hnone : gained (o.timings []) = 0 := sub_self 0
      exact ⟨h, fun t ht => absurd ht List.not_mem_nil, hnone.trans (sub_self _).symm⟩
  | cons op ops ih =>
      rw [List.forall_mem_cons] at hops
      obtain ⟨hbounded, hreturned, hgained⟩ := ih (h.step hops.1) hops.2
      refine ⟨hbounded, ?_⟩
      cases op with
      | setCurrentTimeInfo date duration =>
          obtain ⟨-, hpos, hexact⟩ := h.setCurrentTimeInfo date hops.1
          have htimings : o.timings (.setCurrentTimeInfo date duration :: ops) =
              ⟨(o.setCurrentTimeInfo date duration).2, duration,
                (o.setCurrentTimeInfo date duration).1.ratio⟩ ::
                (o.setCurrentTimeInfo date duration).1.timings ops := rfl
          rw [htimings, List.forall_mem_cons, gained_cons]
          refine ⟨⟨hpos, hreturned⟩, ?_⟩
          change _ + gained ((o.setCurrentTimeInfo date duration).1.timings ops) = _
          rw [Timing.exact, hexact]
          change gained ((o.setCurrentTimeInfo date duration).1.timings ops) =
            (o.setCurrentTimeInfo date duration).1.remainder - _ at hgained
          rw [hgained]
          exact sub_add_sub_cancel _ _ _
      | setSmoothingFactor sf => exact ⟨hreturned, hgained⟩

/-- **No time is lost**: in any run of calls with positive durations and smoothing factors between
zero and one, whatever the dates, the ratio and the remainder stay in their ranges, no duration that
is returned is negative, and those that were returned differ from the exact ones by half a unit
of time at most. -/
theorem loses_no_time (ops : List Op) (hops : ∀ op ∈ ops, op.Valid) :
    (9 / 10 ≤ (make.after ops).ratio ∧ (make.after ops).ratio ≤ 11 / 10) ∧
      (-(1 / 2) ≤ (make.after ops).remainder ∧ (make.after ops).remainder < 1 / 2) ∧
      (∀ t ∈ make.timings ops, 0 ≤ t.returned) ∧
      |((make.timings ops).map fun t => (t.returned : ℚ)).sum -
          ((make.timings ops).map Timing.exact).sum| ≤ 1 / 2 := by
  obtain ⟨hbounded, hreturned, hgained⟩ := bounded_make.run hops
  refine ⟨hbounded.ratio_mem, hbounded.remainder_mem, hreturned, ?_⟩
  obtain ⟨hlow, hhigh⟩ := hbounded.remainder_mem
  rw [← gained, hgained, abs_le]
  have hzero : make.remainder = 0 := rfl
  rw [hzero]
  constructor
  · linarith
  · linarith

/-- A buffer of 512 samples and two more, each of them 8 samples late. -/
def lateBuffers : List Op :=
  [.setSmoothingFactor (1 / 2), .setCurrentTimeInfo 0 512, .setCurrentTimeInfo 520 512,
    .setCurrentTimeInfo 1040 512]

theorem loses_no_time_lateBuffers :
    make.timings lateBuffers = [⟨512, 512, 1⟩, ⟨516, 512, 129 / 128⟩, ⟨518, 512, 259 / 256⟩] ∧
      |((make.timings lateBuffers).map fun t => (t.returned : ℚ)).sum -
          ((make.timings lateBuffers).map Timing.exact).sum| ≤ 1 / 2 := by
  refine ⟨by decide +kernel, (loses_no_time lateBuffers fun op hop => ?_).2.2.2⟩
  simp only [lateBuffers, List.mem_cons, List.not_mem_nil, or_false] at hop
  obtain rfl | rfl | rfl | rfl := hop <;> norm_num [Op.Valid]

end DriftObserver
end LibSwitcher
