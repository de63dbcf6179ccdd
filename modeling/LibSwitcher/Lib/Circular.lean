/-
# Windows of a circular array

The `k` elements of an array of length `n` met from position `r` on, wrapping at
the end, are its window `window b n r k`.  Reading, dropping and appending at a
window are taking, dropping and appending on the list it denotes, which is what
a circular buffer relies on.  The start of a window counts modulo `n`
(`window_mod`), so an index that has just reached `n` denotes the same window as
one that has wrapped to `0`.
-/

import Mathlib.Data.List.Basic
import Mathlib.Data.Nat.ModEq
import Mathlib.Logic.Function.Basic
import Mathlib.Tactic.Common

namespace Circular

variable {α : Type*}

/-- The `k` elements met from position `r` of a circular array of length `n`. -/
def window (b : ℕ → α) (n r k : ℕ) : List α :=
  (List.range k).map fun i => b ((r + i) % n)

@[simp] theorem length_window (b : ℕ → α) (n r k : ℕ) : (window b n r k).length = k := by
  simp [window]

@[simp] theorem window_zero (b : ℕ → α) (n r : ℕ) : window b n r 0 = [] := rfl

theorem getElem_window (b : ℕ → α) (n r k : ℕ) {i : ℕ} (hi : i < (window b n r k).length) :
    (window b n r k)[i] = b ((r + i) % n) := by
  simp [window]

/-- The start of a window counts modulo the length of the array. -/
@[simp] theorem window_mod (b : ℕ → α) (n r k : ℕ) : window b n (r % n) k = window b n r k := by
  simp [window]

/-- Positions that agree modulo the length start the same window. -/
theorem window_congr_mod (b : ℕ → α) {n r r' : ℕ} (k : ℕ) (h : r % n = r' % n) :
    window b n r k = window b n r' k := by
  rw [← window_mod b n r, h, window_mod]

theorem window_take (b : ℕ → α) (n r : ℕ) {j k : ℕ} (h : j ≤ k) :
    (window b n r k).take j = window b n r j := by
  rw [window, window, ← List.map_take, List.take_range, Nat.min_eq_left h]

theorem window_drop (b : ℕ → α) (n r j k : ℕ) :
    (window b n r k).drop j = window b n (r + j) (k - j) := by
  refine List.ext_getElem (by simp) fun i h₁ h₂ => ?_
  rw [List.getElem_drop, getElem_window, getElem_window, Nat.add_assoc]

/-- A window of `j + k` elements is the window of the first `j` followed by the
window of the others. -/
theorem window_add (b : ℕ → α) (n r j k : ℕ) :
    window b n r (j + k) = window b n r j ++ window b n (r + j) k := by
  rw [← List.take_append_drop j (window b n r (j + k)), window_take _ _ _ (Nat.le_add_right j k),
    window_drop, Nat.add_sub_cancel_left]

/-- Writing outside a window does not change it. -/
theorem window_update_of_ne (b : ℕ → α) (n r k : ℕ) {p : ℕ} (x : α)
    (h : ∀ i < k, (r + i) % n ≠ p) : window (Function.update b p x) n r k = window b n r k := by
  refine List.map_congr_left fun i hi => ?_
  rw [Function.update_of_ne (h i (List.mem_range.1 hi))]

/-- Two positions of a window of at most `n` elements are different positions of
the array. -/
theorem add_mod_ne {n r i j : ℕ} (hij : i < j) (hj : j < n) : (r + i) % n ≠ (r + j) % n := by
  intro h
  have hmod : i % n = j % n := Nat.ModEq.add_left_cancel' r h
  rw [Nat.mod_eq_of_lt (Nat.lt_trans hij hj), Nat.mod_eq_of_lt hj] at hmod
  omega

/-- Writing the element after a window extends the window by that element. -/
theorem window_update_snoc (b : ℕ → α) {n r k : ℕ} (hk : k < n) (x : α) :
    window (Function.update b ((r + k) % n) x) n r (k + 1) = window b n r k ++ [x] := by
  rw [window_add, window_update_of_ne _ _ _ _ _ fun i hi => add_mod_ne hi hk]
  simp [window]

end Circular
