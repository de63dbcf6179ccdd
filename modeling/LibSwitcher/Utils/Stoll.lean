/-
# Numbers whose base is detected

`std::stoll(str, &pos, 0)`: the base of a numeral is told by what it starts with, `0x` for sixteen
and another `0` for eight, so that a text of decimal digits need not be read as what it says.

`readSigned_of_denotes` says when it is, of a text that denotes an integer in decimal and is followed
by something that continues no numeral: if its first digit is zero, the integer is smaller than
eight.  The texts that integers are written as are of this kind (`lt_of_startsWithZero`).
-/

import LibSwitcher.Utils.IntegerText
import LibSwitcher.Utils.StringUtils

namespace LibSwitcher
namespace Stringutils

open Serialize

/-- A `long long`. -/
def longLong : IntTy := ⟨true, 64⟩

/-- The base of a numeral, and the number of characters that tell it but are no digits. -/
def detectBase (cs : List Char) : ℕ × ℕ :=
  if cs.head? = some '0' then
    if (cs[1]? = some 'x' ∨ cs[1]? = some 'X') ∧ cs[2]?.any (isDigitOf 16) then (16, 2) else (8, 0)
  else (10, 0)

/-- The number that a text starts with, and how many characters it takes. -/
def readNumeral (cs : List Char) : ℕ × ℕ :=
  let base := detectBase cs
  (readNat base.1 (cs.drop base.2),
    base.2 + ((cs.drop base.2).takeWhile (isDigitOf base.1)).length)

/-- The number that a text starts with, after a minus or not, and how many characters it takes. -/
def readSigned (cs : List Char) : ℤ × ℕ :=
  if cs.head? = some '-' then (-(readNumeral cs.tail).1, (readNumeral cs.tail).2 + 1)
  else ((readNumeral cs).1, (readNumeral cs).2)

instance decidableInRange (t : IntTy) (z : ℤ) : Decidable (t.InRange z) :=
  inferInstanceAs (Decidable (_ ∧ _))

/-- `stoll(str, &pos, 0)`, of a text that starts with a digit or with a minus and a digit: a number
that is not one of 64 bits is refused by an exception. -/
def stoll (cs : List Char) : Option (longLong.Val × ℕ) :=
  if h : longLong.InRange (readSigned cs).1 then some (⟨_, h⟩, (readSigned cs).2) else none

/-! ### Decimal digits in another base -/

/-- The number of digits read so far, continued by some more. -/
def continued (base : ℕ) (ds : List Char) (n : ℕ) : ℕ :=
  ds.foldl (fun n c => base * n + (digitValue c).getD 0) n

variable {c : Char} {ds rest : List Char} {base n m : ℕ}

theorem digitValue_of_isDigit (h : c.isDigit = true) :
    digitValue c = some (c.toNat - '0'.toNat) ∧ c.toNat - '0'.toNat < 10 := by
  rw [Char.isDigit, Bool.and_eq_true, decide_eq_true_iff, decide_eq_true_iff] at h
  have hle : c.toNat ≤ 57 := h.2
  refine ⟨if_pos ⟨h.1, h.2⟩, ?_⟩
  change c.toNat - 48 < 10
  omega

theorem isDigitOf_of_isDigit (h : c.isDigit = true) :
    isDigitOf base c = decide (c.toNat - '0'.toNat < base) := by
  rw [isDigitOf, (digitValue_of_isDigit h).1, Option.any_some]

theorem continued_ten (h : ∀ c ∈ ds, c.isDigit = true) (n : ℕ) :
    continued 10 ds n = Nat.ofDigitChars 10 ds n := by
  induction ds generalizing n with
  | nil => rfl
  | cons c ds ih =>
      rw [continued, List.foldl_cons, (digitValue_of_isDigit (h c List.mem_cons_self)).1,
        Option.getD_some]
      exact ih (fun c hc => h c (List.mem_cons_of_mem _ hc)) _

theorem le_ofDigitChars (ds : List Char) (n : ℕ) : n ≤ Nat.ofDigitChars 10 ds n := by
  induction ds generalizing n with
  | nil => exact le_rfl
  | cons c ds ih =>
      rw [Nat.ofDigitChars_cons]
      exact le_trans (by omega) (ih _)

/-- Decimal digits are octal ones at most of a number that is not larger; the numbers are the same
only if there is no more than one digit that counts. -/
theorem continued_octal_le (h : ∀ c ∈ ds, c.isDigit = true) (hnm : n ≤ m) :
    continued 8 (ds.takeWhile (isDigitOf 8)) n ≤ Nat.ofDigitChars 10 ds m ∧
      (continued 8 (ds.takeWhile (isDigitOf 8)) n = Nat.ofDigitChars 10 ds m →
        ds = [] ∨ Nat.ofDigitChars 10 ds m < 8) := by
  induction ds generalizing n m with
  | nil => exact ⟨hnm, fun _ => Or.inl rfl⟩
  | cons c ds ih =>
      have hc := h c List.mem_cons_self
      have hle := le_ofDigitChars ds (10 * m + (c.toNat - '0'.toNat))
      rw [Nat.ofDigitChars_cons, List.takeWhile_cons, isDigitOf_of_isDigit hc]
      by_cases hoctal : c.toNat - '0'.toNat < 8
      · rw [decide_eq_true hoctal, if_pos rfl, continued, List.foldl_cons,
          (digitValue_of_isDigit hc).1, Option.getD_some]
        obtain ⟨hrest, heq⟩ := ih (fun c hc => h c (List.mem_cons_of_mem _ hc))
          (n := 8 * n + (c.toNat - '0'.toNat)) (m := 10 * m + (c.toNat - '0'.toNat)) (by omega)
        refine ⟨hrest, fun hsame => Or.inr ?_⟩
        rcases heq hsame with rfl | hlt
        · have hsame : 8 * n + (c.toNat - '0'.toNat) = 10 * m + (c.toNat - '0'.toNat) := hsame
          change 10 * m + (c.toNat - '0'.toNat) < 8
          omega
        · exact hlt
      · rw [decide_eq_false hoctal, if_neg Bool.false_ne_true, continued, List.foldl_nil]
        exact ⟨by omega, fun hsame => by omega⟩

/-- If they say a number smaller than eight in decimal, they say it in octal. -/
theorem continued_octal_of_lt (h : ∀ c ∈ ds, c.isDigit = true)
    (hlt : Nat.ofDigitChars 10 ds n < 8) :
    ds.takeWhile (isDigitOf 8) = ds ∧ continued 8 ds n = Nat.ofDigitChars 10 ds n := by
  induction ds generalizing n with
  | nil => exact ⟨rfl, rfl⟩
  | cons c ds ih =>
      have hc := h c List.mem_cons_self
      have hle := le_ofDigitChars ds (10 * n + (c.toNat - '0'.toNat))
      rw [Nat.ofDigitChars_cons] at hlt ⊢
      have hzero : n = 0 := by omega
      obtain ⟨htake, hsame⟩ := ih (fun c hc => h c (List.mem_cons_of_mem _ hc)) hlt
      rw [List.takeWhile_cons, isDigitOf_of_isDigit hc, decide_eq_true (by omega), if_pos rfl, htake,
        continued, List.foldl_cons, (digitValue_of_isDigit hc).1, Option.getD_some]
      refine ⟨rfl, ?_⟩
      rw [hzero] at hsame ⊢
      exact hsame

/-! ### Texts that are followed by something else -/

/-- What follows a numeral does not continue it. -/
def Stops (rest : List Char) : Prop :=
  ∀ c ∈ rest.head?, digitValue c = none ∧ c ≠ 'x' ∧ c ≠ 'X'

/-- The digits that are read end where the text does. -/
theorem takeWhile_append_of_stops (hrest : Stops rest) (base : ℕ) (ds : List Char) :
    (ds ++ rest).takeWhile (isDigitOf base) = ds.takeWhile (isDigitOf base) := by
  have hnil : rest.takeWhile (isDigitOf base) = [] := by
    cases rest with
    | nil => rfl
    | cons c rest =>
        rw [List.takeWhile_cons, isDigitOf, (hrest c rfl).1]
        rfl
  rw [List.takeWhile_append, hnil, List.append_nil]
  split_ifs with h
  · exact ((List.takeWhile_prefix _).eq_of_length h).symm
  · rfl

/-- No base is told by an `x`, where there are decimal digits alone. -/
theorem detectBase_of_digits (h : ∀ c ∈ ds, c.isDigit = true) (hne : ds ≠ [])
    (hrest : Stops rest) :
    detectBase (ds ++ rest) = if ds.head? = some '0' then (8, 0) else (10, 0) := by
  obtain ⟨d, ds, rfl⟩ := List.exists_cons_of_ne_nil hne
  have hx : ¬((d :: ds ++ rest)[1]? = some 'x' ∨ (d :: ds ++ rest)[1]? = some 'X') := by
    cases ds with
    | nil =>
        cases rest with
        | nil => simp
        | cons c rest => simpa using (hrest c rfl).2
    | cons e ds =>
        have he := h e (by simp)
        rintro (hx | hx)
        · obtain rfl := Option.some.inj hx
          exact absurd he (by decide)
        · obtain rfl := Option.some.inj hx
          exact absurd he (by decide)
  have hpre : ¬(((d :: ds ++ rest)[1]? = some 'x' ∨ (d :: ds ++ rest)[1]? = some 'X') ∧
      (d :: ds ++ rest)[2]?.any (isDigitOf 16)) := fun h => hx h.1
  rw [detectBase, if_neg hpre, List.cons_append, List.head?_cons, List.head?_cons]

/-- A decimal numeral is read as what it says if and only if it does not start with zero or says a
number smaller than eight. -/
theorem readNumeral_of_digits (h : ∀ c ∈ ds, c.isDigit = true) (hne : ds ≠ [])
    (hrest : Stops rest) :
    ((readNumeral (ds ++ rest)).1 = Nat.ofDigitChars 10 ds 0 ↔
        (ds.head? = some '0' → Nat.ofDigitChars 10 ds 0 < 8)) ∧
      ((ds.head? = some '0' → Nat.ofDigitChars 10 ds 0 < 8) →
        (readNumeral (ds ++ rest)).2 = ds.length) := by
  rw [readNumeral, detectBase_of_digits h hne hrest]
  by_cases hzero : ds.head? = some '0'
  · rw [if_pos hzero]
    simp only [List.drop_zero, readNat, takeWhile_append_of_stops hrest, Nat.zero_add]
    refine ⟨⟨fun hsame _ => ?_, fun hlt => ?_⟩, fun hlt => ?_⟩
    · exact ((continued_octal_le h le_rfl).2 hsame).resolve_left hne
    · rw [(continued_octal_of_lt h (hlt hzero)).1]
      exact (continued_octal_of_lt h (hlt hzero)).2
    · rw [(continued_octal_of_lt h (hlt hzero)).1]
  · have htake : ds.takeWhile (isDigitOf 10) = ds := List.takeWhile_eq_self_iff.2 fun c hc => by
      rw [isDigitOf_of_isDigit (h c hc)]
      exact decide_eq_true (digitValue_of_isDigit (h c hc)).2
    rw [if_neg hzero]
    simp only [List.drop_zero, readNat, takeWhile_append_of_stops hrest, Nat.zero_add, htake]
    exact ⟨iff_of_true (continued_ten h 0) fun h0 => absurd h0 hzero, fun _ => trivial⟩

/-! ### Texts of integers -/

/-- The first digit of a text that denotes an integer is zero. -/
def StartsWithZero (str : String) : Prop := str.toList.find? (· ≠ '-') = some '0'

instance decidableStartsWithZero (str : String) : Decidable (StartsWithZero str) :=
  inferInstanceAs (Decidable (_ = _))

theorem find?_of_digits (h : ∀ c ∈ ds, c.isDigit = true) : ds.find? (· ≠ '-') = ds.head? := by
  cases ds with
  | nil => rfl
  | cons d ds =>
      have hd : d ≠ '-' := by
        rintro rfl
        exact absurd (h '-' (by simp)) (by decide)
      rw [List.find?_cons_of_pos (by simpa using hd), List.head?_cons]

/-- A text that denotes an integer is read as this integer, and as a whole, if and only if it does
not start with zero or the integer is smaller than eight. -/
theorem readSigned_of_denotes {str : String} {z : ℤ} (h : Denotes str z) (hrest : Stops rest) :
    ((readSigned (str.toList ++ rest)).1 = z ↔ (StartsWithZero str → z.natAbs < 8)) ∧
      ((StartsWithZero str → z.natAbs < 8) →
        (readSigned (str.toList ++ rest)).2 = str.toList.length) := by
  obtain ⟨ds, hne, hdigits, ⟨htext, rfl⟩ | ⟨htext, rfl⟩⟩ := h
  · have hminus : (ds ++ rest).head? ≠ some '-' := by
      rw [List.head?_append_of_ne_nil _ hne]
      exact head?_ne_minus hdigits
    rw [StartsWithZero, htext, find?_of_digits hdigits, readSigned, if_neg hminus, Int.natAbs_natCast]
    obtain ⟨hiff, hlength⟩ := readNumeral_of_digits hdigits hne hrest
    exact ⟨Int.ofNat_inj.trans hiff, hlength⟩
  · have hfind : ('-' :: ds).find? (· ≠ '-') = ds.head? := by
      rw [List.find?_cons_of_neg (by simp), find?_of_digits hdigits]
    rw [StartsWithZero, htext, hfind, readSigned, List.cons_append, if_pos List.head?_cons,
      List.tail_cons, Int.natAbs_neg, Int.natAbs_natCast, List.length_cons]
    obtain ⟨hiff, hlength⟩ := readNumeral_of_digits hdigits hne hrest
    refine ⟨?_, fun hlt => congrArg (· + 1) (hlength hlt)⟩
    rw [neg_inj, Int.ofNat_inj]
    exact hiff

/-- The digits of a number start with zero if it is zero. -/
theorem eq_zero_of_head?_toDigits (n : ℕ) (h : (Nat.toDigits 10 n).head? = some '0') : n = 0 := by
  induction n using Nat.base_induction 10 (by decide) with
  | single n hn =>
      rw [Nat.toDigits_of_lt_base hn, List.head?_cons, Option.some_inj] at h
      have hall : ∀ n < 10, n.digitChar = '0' → n = 0 := by decide
      exact hall n hn h
  | digit n k hk hn ih =>
      rw [← Nat.toDigits_append_toDigits (by decide) hn hk,
        List.head?_append_of_ne_nil _ Nat.toDigits_ne_nil] at h
      exact absurd (ih h) hn.ne'

/-- The texts that integers are written as are read in decimal. -/
theorem lt_of_startsWithZero {z : ℤ} (h : StartsWithZero (toString z)) : z.natAbs < 8 := by
  obtain ⟨hz, htext⟩ | ⟨hz, htext⟩ := toList_int z
  · rw [StartsWithZero, htext, find?_of_digits fun c => isDigit_of_mem_toDigits] at h
    have := eq_zero_of_head?_toDigits _ h
    omega
  · rw [StartsWithZero, htext, List.find?_cons_of_neg (by simp),
      find?_of_digits fun c => isDigit_of_mem_toDigits] at h
    have := eq_zero_of_head?_toDigits _ h
    omega

end Stringutils
end LibSwitcher
