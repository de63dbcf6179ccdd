/-
# Integers as texts

`switcher/utils/serialize-string.hpp`: `serialize::apply` and `deserialize::apply` for the integer
types, of any width and with a sign or not.  A text is tried if it starts with a digit or a minus:
the check for the digit behind the minus looks at the minus again.  What the operator `>>` then says
about its success is not asked for, so that a number that is out of range, a minus without digits and
a text that goes on behind the digits are all taken, with some value.

`parses_exactly_iff` says of each text whether it is read as it should be.  Every value of a type
is read back from its own text.
-/

import LibSwitcher.Utils.SerializeString
import Mathlib.Algebra.Order.Ring.Int

namespace LibSwitcher
namespace Serialize

/-- An integer type, told by whether it has a sign and by its number of bits. -/
structure IntTy where
  signed : Bool
  bits : ℕ
  deriving DecidableEq

namespace IntTy

/-- `std::numeric_limits::min`. -/
def min (t : IntTy) : ℤ := if t.signed then -2 ^ (t.bits - 1) else 0

/-- `std::numeric_limits::max`. -/
def max (t : IntTy) : ℤ := if t.signed then 2 ^ (t.bits - 1) - 1 else 2 ^ t.bits - 1

/-- The integers of a type. -/
def InRange (t : IntTy) (z : ℤ) : Prop := t.min ≤ z ∧ z ≤ t.max

/-- The values of a type. -/
@[ext] structure Val (t : IntTy) where
  val : ℤ
  inRange : t.InRange val

theorem two_pow_pos (n : ℕ) : (0 : ℤ) < 2 ^ n := pow_pos (by decide) n

theorem min_le_zero (t : IntTy) : t.min ≤ 0 := by
  have hpos := two_pow_pos (t.bits - 1)
  rw [min]
  split_ifs
  · omega
  · exact le_rfl

theorem zero_le_max (t : IntTy) : 0 ≤ t.max := by
  have hpos := two_pow_pos (t.bits - 1)
  have hpos' := two_pow_pos t.bits
  rw [max]
  split_ifs
  · omega
  · omega

/-- What the operator `>>` reads from a text, skipped white space apart: a number that is too large or
too small becomes the largest or the smallest one, a number with a sign is negated in a type
without signs, and zero is read where there are no digits. -/
def extract (t : IntTy) (cs : List Char) : ℤ :=
  if cs.head? = some '-' then
    if t.signed then
      if -(readDecimal cs.tail : ℤ) < t.min then t.min else -(readDecimal cs.tail : ℤ)
    else if t.max < (readDecimal cs.tail : ℤ) then t.max
    else -(readDecimal cs.tail : ℤ) % 2 ^ t.bits
  else if t.max < (readDecimal cs : ℤ) then t.max
  else (readDecimal cs : ℤ)

theorem inRange_extract (t : IntTy) (cs : List Char) : t.InRange (t.extract cs) := by
  have hmin := t.min_le_zero
  have hmax := t.zero_le_max
  rw [extract]
  split_ifs with hminus hsigned hlt hlt hlt
  · exact ⟨le_rfl, hmin.trans hmax⟩
  · exact ⟨by omega, by omega⟩
  · exact ⟨hmin.trans hmax, le_rfl⟩
  · have hpos := two_pow_pos t.bits
    have hunsigned : t.min = 0 ∧ t.max = 2 ^ t.bits - 1 := by
      rw [min, max, if_neg hsigned, if_neg hsigned]
      exact ⟨rfl, rfl⟩
    have hnonneg := Int.emod_nonneg (-(readDecimal cs.tail : ℤ)) hpos.ne'
    have hmod := Int.emod_lt_of_pos (-(readDecimal cs.tail : ℤ)) hpos
    exact ⟨by omega, by omega⟩
  · exact ⟨hmin.trans hmax, le_rfl⟩
  · exact ⟨by omega, by omega⟩

/-- `serialize::apply`. -/
def apply (t : IntTy) (v : t.Val) : String := toString v.val

/-- `deserialize::apply`. -/
def deserialize (t : IntTy) (str : String) : Option t.Val :=
  if startsNumber str then some ⟨t.extract str.toList, t.inRange_extract _⟩ else none

/-- A `long` is read as the integers of 64 bits with a sign are. -/
theorem val_readLong (cs : List Char) : (readLong cs).val = (⟨true, 64⟩ : IntTy).extract cs := by
  have hmin : (⟨true, 64⟩ : IntTy).min = -9223372036854775808 := rfl
  have hmax : (⟨true, 64⟩ : IntTy).max = 9223372036854775807 := rfl
  rw [readLong, extract, hmin, hmax, if_pos (c := (⟨true, 64⟩ : IntTy).signed = true) rfl]
  split_ifs with hminus h h
  · dsimp only
    omega
  · dsimp only
    omega
  · dsimp only
    omega
  · dsimp only
    omega

/-- An `unsigned long` is read as the integers of 64 bits without a sign are. -/
theorem val_readULong (cs : List Char) :
    ((readULong cs).val : ℤ) = (⟨false, 64⟩ : IntTy).extract cs := by
  have hmax : (⟨false, 64⟩ : IntTy).max = 18446744073709551615 := rfl
  have hpow : (2 : ℤ) ^ (⟨false, 64⟩ : IntTy).bits = 18446744073709551616 := rfl
  have hsigned : ¬(⟨false, 64⟩ : IntTy).signed = true := Bool.false_ne_true
  rw [readULong, extract, hmax, hpow, if_neg hsigned]
  split_ifs with hminus h h' h' h'
  · dsimp only
    omega
  · dsimp only
    omega
  · dsimp only
    omega
  · dsimp only
    omega
  · dsimp only
    omega
  · dsimp only
    omega

end IntTy

/-- A text is an integer in decimal digits, after a minus or not. -/
def Denotes (str : String) (z : ℤ) : Prop :=
  ∃ ds : List Char, ds ≠ [] ∧ (∀ c ∈ ds, c.isDigit = true) ∧
    ((str.toList = ds ∧ z = Nat.ofDigitChars 10 ds 0) ∨
      (str.toList = '-' :: ds ∧ z = -Nat.ofDigitChars 10 ds 0))

/-! ### Digits -/

theorem readDecimal_of_digits {ds : List Char} (h : ∀ c ∈ ds, c.isDigit = true) :
    readDecimal ds = Nat.ofDigitChars 10 ds 0 := by
  rw [readDecimal, List.takeWhile_eq_self_iff.2 h]

theorem isDigit_of_mem_toDigits {n : ℕ} {c : Char} (h : c ∈ Nat.toDigits 10 n) : c.isDigit = true :=
  Nat.isDigit_of_mem_toDigits (by decide) (by decide) h

/-- What digits start with is no minus. -/
theorem head?_ne_minus {ds : List Char} (h : ∀ c ∈ ds, c.isDigit = true) : ds.head? ≠ some '-' :=
  fun heq => absurd (h '-' (List.mem_of_head? heq)) (by decide)

/-- The text of an integer: its digits, after a sign if it is negative. -/
theorem toList_int (z : ℤ) : (0 ≤ z ∧ (toString z).toList = Nat.toDigits 10 z.toNat) ∨
    (z < 0 ∧ (toString z).toList = '-' :: Nat.toDigits 10 (-z).toNat) := by
  change (_ ∧ (Int.repr z).toList = _) ∨ (_ ∧ (Int.repr z).toList = _)
  rw [Int.repr_eq_if]
  split_ifs with h
  · exact Or.inl ⟨h, Nat.toList_repr⟩
  · refine Or.inr ⟨Int.not_le.1 h, ?_⟩
    rw [String.toList_append, Nat.toList_repr]
    rfl

/-- The text of an integer denotes it. -/
theorem denotes_toString (z : ℤ) : Denotes (toString z) z := by
  obtain ⟨h, htext⟩ | ⟨h, htext⟩ := toList_int z
  · refine ⟨_, Nat.toDigits_ne_nil, fun c => isDigit_of_mem_toDigits, Or.inl ⟨htext, ?_⟩⟩
    rw [Nat.ofDigitChars_ten_toDigits]
    omega
  · refine ⟨_, Nat.toDigits_ne_nil, fun c => isDigit_of_mem_toDigits, Or.inr ⟨htext, ?_⟩⟩
    rw [Nat.ofDigitChars_ten_toDigits]
    omega

variable {str : String} {z : ℤ}

/-- A text that denotes an integer is tried. -/
theorem Denotes.startsNumber (h : Denotes str z) : startsNumber str = true := by
  obtain ⟨ds, hne, hdigits, ⟨htext, -⟩ | ⟨htext, -⟩⟩ := h
  · obtain ⟨d, ds, rfl⟩ := List.exists_cons_of_ne_nil hne
    rw [Serialize.startsNumber, htext, List.head?_cons, Option.any_some,
      hdigits d List.mem_cons_self]
    rfl
  · rw [Serialize.startsNumber, htext]
    rfl

/-- A text that denotes an integer has no characters but digits and a minus. -/
theorem Denotes.isDigit_or_minus (h : Denotes str z) {c : Char} (hc : c ∈ str.toList) :
    c.isDigit = true ∨ c = '-' := by
  obtain ⟨ds, -, hdigits, ⟨htext, -⟩ | ⟨htext, -⟩⟩ := h
  · exact Or.inl (hdigits c (htext ▸ hc))
  · exact (List.mem_cons.1 (htext ▸ hc)).symm.imp_left (hdigits c)

/-- A text denotes one integer. -/
theorem Denotes.unique {z' : ℤ} (h : Denotes str z) (h' : Denotes str z') : z = z' := by
  obtain ⟨ds, -, hdigits, ⟨htext, rfl⟩ | ⟨htext, rfl⟩⟩ := h
  · obtain ⟨ds', -, hdigits', ⟨htext', rfl⟩ | ⟨htext', rfl⟩⟩ := h'
    · rw [htext.symm.trans htext']
    · exact absurd (hdigits '-' (htext ▸ htext' ▸ List.mem_cons_self)) (by decide)
  · obtain ⟨ds', -, hdigits', ⟨htext', rfl⟩ | ⟨htext', rfl⟩⟩ := h'
    · have hminus := hdigits' '-' (htext' ▸ htext ▸ List.mem_cons_self)
      exact absurd hminus (by decide)
    · rw [(List.cons.inj (htext.symm.trans htext')).2]

namespace IntTy

variable {t : IntTy}

/-- An integer of the type is read from the texts that denote it. -/
theorem extract_of_denotes (h : Denotes str z) (hz : t.InRange z) : t.extract str.toList = z := by
  obtain ⟨hmin, hmax⟩ := hz
  obtain ⟨ds, -, hdigits, ⟨htext, rfl⟩ | ⟨htext, rfl⟩⟩ := h
  · rw [htext, extract, if_neg (head?_ne_minus hdigits), readDecimal_of_digits hdigits,
      if_neg (not_lt.2 hmax)]
  · rw [htext, extract, if_pos List.head?_cons, List.tail_cons, readDecimal_of_digits hdigits]
    by_cases hsigned : t.signed = true
    · rw [if_pos hsigned, if_neg (not_lt.2 hmin)]
    · have hzero : (Nat.ofDigitChars 10 ds 0 : ℤ) = 0 := by
        rw [min, if_neg hsigned] at hmin
        omega
      rw [if_neg hsigned, hzero, if_neg (not_lt.2 t.zero_le_max)]
      rfl

/-- Every integer of the type is read back from its text. -/
theorem deserialize_apply (v : t.Val) : t.deserialize (t.apply v) = some v := by
  have h := denotes_toString v.val
  rw [deserialize, apply, if_pos h.startsNumber]
  exact congrArg some (Val.ext (extract_of_denotes h v.inRange))

/-- **Integers parse exactly** where the texts that are tried denote integers of the type; each value
is read back from its text in any case. -/
theorem parses_exactly_iff (t : IntTy) :
    (∀ v : t.Val, t.deserialize (t.apply v) = some v) ∧
      ∀ str : String, (∀ v : t.Val, t.deserialize str = some v ↔ Denotes str v.val) ↔
        (startsNumber str = true → ∃ z, t.InRange z ∧ Denotes str z) := by
  refine ⟨deserialize_apply, fun str => ⟨fun h hstart => ?_, fun h v => ?_⟩⟩
  · refine ⟨_, t.inRange_extract str.toList, (h ⟨_, t.inRange_extract str.toList⟩).1 ?_⟩
    rw [deserialize, if_pos hstart]
  · rw [deserialize]
    split_ifs with hstart
    · obtain ⟨z, hz, hdenotes⟩ := h hstart
      rw [Option.some_inj, Val.ext_iff]
      change t.extract str.toList = v.val ↔ _
      rw [extract_of_denotes hdenotes hz]
      exact ⟨fun heq => heq ▸ hdenotes, fun hv => hdenotes.unique hv⟩
    · exact iff_of_false (fun h => by cases h) fun hv => hstart hv.startsNumber

/-- An `int`. -/
def int : IntTy := ⟨true, 32⟩

/-- A number that is too large becomes the largest one, and what follows the digits is not seen. -/
theorem not_parses_exactly_int : ¬∀ (str : String) (v : int.Val),
    int.deserialize str = some v ↔ Denotes str v.val := by
  intro h
  have hlast : int.extract "9999999999".toList = 2147483647 := by decide
  obtain ⟨ds, -, -, ⟨htext, hz⟩ | ⟨htext, -⟩⟩ :=
    (h "9999999999" ⟨_, int.inRange_extract "9999999999".toList⟩).1 rfl
  · have hz := hlast.symm.trans hz
    rw [← htext] at hz
    exact absurd hz (by decide)
  · exact absurd (List.cons.inj htext).1 (by decide)

end IntTy

end Serialize
end LibSwitcher
