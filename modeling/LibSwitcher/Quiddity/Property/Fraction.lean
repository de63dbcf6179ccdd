/-
# Fractions as texts

`switcher/quiddity/property/fraction.cpp`: `Fraction::to_string` and `Fraction::from_string`.  The
parser looks for a digit, or for a minus and a digit, reads a number whose base is detected, and goes
on if a digit follows the next character, whatever this character is.  The denominator is read
likewise, without a look at what follows it, and a number that does not fit ends in an exception.

`text_roundTrip_iff` says which fractions come back, those whose denominator has no sign, and for
which texts the answer is right.
-/

import LibSwitcher.Utils.Stoll

namespace LibSwitcher

open Serialize Stringutils

/-- A `Fraction`. -/
@[ext] structure Fraction where
  num : longLong.Val
  denom : longLong.Val

namespace Fraction

/-- The fraction that is returned with `false`. -/
def invalid : Fraction := ⟨⟨0, by decide⟩, ⟨0, by decide⟩⟩

/-- The test `from_string` starts with.  An empty text starts with its terminator. -/
def startsFraction (cs : List Char) : Bool :=
  cs.head?.any Char.isDigit || (cs.head? = some '-' && cs[1]?.any Char.isDigit)

/-- There is a character at a position, and a digit behind it. -/
def goesOn (cs : List Char) (pos : ℕ) : Bool := cs[pos + 1]?.any Char.isDigit

/-- `from_string`; `none` stands for an exception. -/
def fromString (str : String) : Option (Bool × Fraction) :=
  let cs := str.toList
  if startsFraction cs then
    (stoll cs).bind fun num =>
      if goesOn cs num.2 then
        (stoll (cs.drop (num.2 + 1))).map fun denom => (true, ⟨num.1, denom.1⟩)
      else some (false, invalid)
  else some (false, invalid)

/-- `to_string`. -/
def toText (f : Fraction) : String := toString f.num.val ++ "/" ++ toString f.denom.val

/-- A text is a fraction in decimal. -/
def IsText (str : String) (f : Fraction) : Prop :=
  ∃ a b : String, str = a ++ "/" ++ b ∧ Denotes a f.num.val ∧ Denotes b f.denom.val

/-- There is no exception for a text, and no other fraction than the one it says. -/
def Answered (str : String) : Prop :=
  ∃ r, fromString str = some r ∧ (r.1 = true → IsText str r.2)

/-- A text of an integer that is read in decimal. -/
def ReadsDecimal (str : String) (z : ℤ) : Prop :=
  Denotes str z ∧ (StartsWithZero str → z.natAbs < 8)

/-- A text is a fraction in decimal, without a sign in the denominator, and its numbers start with
zero only where they are smaller than eight. -/
def IsPlainText (str : String) (f : Fraction) : Prop :=
  ∃ a b : String, str = a ++ "/" ++ b ∧ ReadsDecimal a f.num.val ∧ ReadsDecimal b f.denom.val ∧
    '-' ∉ b.toList

variable {str a b : String} {f : Fraction} {z : ℤ} {rest : List Char}

theorem stops_nil : Stops [] := fun _ h => by cases h

theorem stops_slash (rest : List Char) : Stops ('/' :: rest) := fun c h => by
  obtain rfl := Option.some.inj h
  decide

/-- A text of an integer passes the first test. -/
theorem startsFraction_of_denotes (h : Denotes a z) (rest : List Char) :
    startsFraction (a.toList ++ rest) = true := by
  obtain ⟨ds, hne, hdigits, ⟨htext, -⟩ | ⟨htext, -⟩⟩ := h
  · obtain ⟨d, ds, rfl⟩ := List.exists_cons_of_ne_nil hne
    rw [startsFraction, htext, List.cons_append, List.head?_cons, Option.any_some,
      hdigits d List.mem_cons_self, Bool.true_or]
  · obtain ⟨d, ds, rfl⟩ := List.exists_cons_of_ne_nil hne
    have hd := hdigits d List.mem_cons_self
    rw [startsFraction, htext]
    simp [hd]

/-- A text of an integer that has no sign starts with a digit, and no other does. -/
theorem head?_isDigit_iff (h : Denotes b z) :
    b.toList.head?.any Char.isDigit = true ↔ '-' ∉ b.toList := by
  obtain ⟨ds, hne, hdigits, ⟨htext, -⟩ | ⟨htext, -⟩⟩ := h
  · obtain ⟨d, ds, rfl⟩ := List.exists_cons_of_ne_nil hne
    rw [htext, List.head?_cons, Option.any_some]
    exact iff_of_true (hdigits d List.mem_cons_self) fun h => absurd (hdigits '-' h) (by decide)
  · rw [htext]
    exact iff_of_false (by simp) fun h => h List.mem_cons_self

/-- A text of an integer of 64 bits, read in decimal. -/
theorem stoll_of_readsDecimal {v : longLong.Val} (h : ReadsDecimal a v.val) (hrest : Stops rest) :
    stoll (a.toList ++ rest) = some (v, a.toList.length) := by
  obtain ⟨hiff, hlength⟩ := readSigned_of_denotes h.1 hrest
  have hv := hiff.2 h.2
  rw [stoll, dif_pos (hv ▸ v.inRange)]
  exact congrArg some (Prod.ext (IntTy.Val.ext hv) (hlength h.2))

theorem toList_fraction (a b : String) : (a ++ "/" ++ b).toList = a.toList ++ '/' :: b.toList := by
  rw [String.toList_append, String.toList_append, List.append_assoc]
  rfl

/-- What is behind the numerator and the character that follows it. -/
theorem goesOn_length (a b : String) :
    goesOn (a.toList ++ '/' :: b.toList) a.toList.length = b.toList.head?.any Char.isDigit := by
  rw [goesOn, List.getElem?_append_right (Nat.le_add_right _ 1), Nat.add_sub_cancel_left,
    List.getElem?_cons_succ, List.head?_eq_getElem?]

/-- What is behind the character that follows the numerator. -/
theorem drop_fraction (a b : String) :
    (a.toList ++ '/' :: b.toList).drop (a.toList.length + 1) = b.toList := by
  rw [List.drop_append, List.drop_eq_nil_of_le (Nat.le_succ _), Nat.add_sub_cancel_left]
  rfl

/-- Such a fraction is read from its text. -/
theorem fromString_of_isPlainText (h : IsPlainText str f) : fromString str = some (true, f) := by
  obtain ⟨a, b, rfl, ha, hb, hminus⟩ := h
  have hdenom := stoll_of_readsDecimal hb stops_nil
  rw [List.append_nil] at hdenom
  rw [fromString, toList_fraction]
  simp only [startsFraction_of_denotes ha.1, if_true, stoll_of_readsDecimal ha (stops_slash _),
    Option.bind_some, goesOn_length, (head?_isDigit_iff hb.1).2 hminus, drop_fraction,
    hdenom, Option.map_some]

theorem IsPlainText.isText (h : IsPlainText str f) : IsText str f := by
  obtain ⟨a, b, rfl, ha, hb, -⟩ := h
  exact ⟨a, b, rfl, ha.1, hb.1⟩

/-- What `stoll` returns is what the text is read as. -/
theorem readSigned_of_stoll {cs : List Char} {v : longLong.Val} {pos : ℕ}
    (h : stoll cs = some (v, pos)) : (readSigned cs).1 = v.val ∧ (readSigned cs).2 = pos := by
  rw [stoll] at h
  split_ifs at h with hrange
  obtain ⟨hv, hpos⟩ := Prod.ext_iff.1 (Option.some.inj h)
  exact ⟨congrArg IntTy.Val.val hv, hpos⟩

/-- A text that is read as the fraction it says is of this kind. -/
theorem isPlainText_of_isText (h : IsText str f) (hread : fromString str = some (true, f)) :
    IsPlainText str f := by
  obtain ⟨a, b, rfl, ha, hb⟩ := h
  rw [fromString, toList_fraction] at hread
  simp only [startsFraction_of_denotes ha, if_true, Option.bind_eq_some_iff] at hread
  obtain ⟨⟨num, pos⟩, hnum, hread⟩ := hread
  split_ifs at hread with hgoes
  · obtain ⟨⟨denom, pos'⟩, hdenom, hread⟩ := Option.map_eq_some_iff.1 hread
    obtain rfl := (Prod.ext_iff.1 hread).2
    obtain ⟨hnumValue, hpos⟩ := readSigned_of_stoll hnum
    obtain ⟨haiff, halength⟩ := readSigned_of_denotes ha (stops_slash b.toList)
    have hadecimal := haiff.1 hnumValue
    obtain rfl := hpos.symm.trans (halength hadecimal)
    rw [goesOn_length] at hgoes
    rw [drop_fraction, ← List.append_nil b.toList] at hdenom
    have hbdecimal := (readSigned_of_denotes hb stops_nil).1.1 (readSigned_of_stoll hdenom).1
    exact ⟨a, b, rfl, ⟨ha, hadecimal⟩, ⟨hb, hbdecimal⟩, (head?_isDigit_iff hb).1 hgoes⟩
  · exact absurd (Prod.ext_iff.1 (Option.some.inj hread)).1 Bool.false_ne_true

/-- The denominator is read without a sign: such a fraction comes back from its text. -/
theorem isPlainText_toText (h : 0 ≤ f.denom.val) : IsPlainText f.toText f := by
  refine ⟨_, _, rfl, ⟨denotes_toString _, lt_of_startsWithZero⟩,
    ⟨denotes_toString _, lt_of_startsWithZero⟩, fun hminus => ?_⟩
  obtain ⟨-, htext⟩ | ⟨hneg, -⟩ := toList_int f.denom.val
  · rw [htext] at hminus
    exact absurd (isDigit_of_mem_toDigits hminus) (by decide)
  · omega

/-- A negative denominator is refused. -/
theorem fromString_toText_of_neg (h : f.denom.val < 0) :
    fromString f.toText = some (false, invalid) := by
  have hnum : ReadsDecimal (toString f.num.val) f.num.val :=
    ⟨denotes_toString _, lt_of_startsWithZero⟩
  have hminus : '-' ∈ (toString f.denom.val).toList := by
    obtain ⟨hpos, -⟩ | ⟨-, htext⟩ := toList_int f.denom.val
    · omega
    · rw [htext]
      exact List.mem_cons_self
  have hgoes : ¬(toString f.denom.val).toList.head?.any Char.isDigit = true := fun hdigit =>
    (head?_isDigit_iff (denotes_toString _)).1 hdigit hminus
  rw [fromString, toText, toList_fraction]
  simp only [startsFraction_of_denotes hnum.1, if_true, stoll_of_readsDecimal hnum (stops_slash _),
    Option.bind_some, goesOn_length, if_neg hgoes]

/-- The texts that are answered: those that are refused by one of the tests, the number in front
being one of 64 bits, and the fractions without a sign in the denominator whose numbers start with
zero only where they are smaller than eight. -/
def IsAnswerable (str : String) : Prop :=
  startsFraction str.toList = false ∨
    (longLong.InRange (readSigned str.toList).1 ∧
      goesOn str.toList (readSigned str.toList).2 = false) ∨
    ∃ f, IsPlainText str f

theorem answered_iff (str : String) : Answered str ↔ IsAnswerable str := by
  constructor
  · rintro ⟨r, hr, htext⟩
    have hread := hr
    rw [fromString] at hr
    by_cases hstart : startsFraction str.toList = true
    · simp only [hstart, if_true, Option.bind_eq_some_iff] at hr
      obtain ⟨⟨num, pos⟩, hnum, hr⟩ := hr
      split_ifs at hr with hgoes
      · obtain ⟨⟨denom, pos'⟩, -, rfl⟩ := Option.map_eq_some_iff.1 hr
        exact Or.inr (Or.inr ⟨_, isPlainText_of_isText (htext rfl) hread⟩)
      · obtain ⟨hvalue, hpos⟩ := readSigned_of_stoll hnum
        refine Or.inr (Or.inl ⟨hvalue ▸ num.inRange, ?_⟩)
        rw [hpos]
        exact Bool.eq_false_iff.2 hgoes
    · exact Or.inl (Bool.eq_false_iff.2 hstart)
  · rintro (hstart | ⟨hrange, hgoes⟩ | ⟨f, hf⟩)
    · refine ⟨(false, invalid), ?_, fun h => absurd h Bool.false_ne_true⟩
      rw [fromString]
      simp only [hstart, Bool.false_eq_true, if_false]
    · refine ⟨(false, invalid), ?_, fun h => absurd h Bool.false_ne_true⟩
      rw [fromString, stoll, dif_pos hrange]
      simp only [Option.bind_some, hgoes, Bool.false_eq_true, if_false, ite_self]
    · exact ⟨(true, f), fromString_of_isPlainText hf, fun _ => hf.isText⟩

/-- **Fractions come back** from their texts where the denominator has no sign, and a text is
answered rightly where it is answerable. -/
theorem text_roundTrip_iff (f : Fraction) (str : String) :
    (fromString f.toText = some (true, f) ↔ 0 ≤ f.denom.val) ∧
      (Answered str ↔ IsAnswerable str) := by
  refine ⟨⟨fun h => ?_, fun h => fromString_of_isPlainText (isPlainText_toText h)⟩,
    answered_iff str⟩
  by_contra hneg
  rw [fromString_toText_of_neg (not_le.1 hneg)] at h
  exact absurd (Prod.ext_iff.1 (Option.some.inj h)).1 Bool.false_ne_true

/-- A fraction with the denominator -2 does not come back, and a text with a number that is too
large ends in an exception. -/
theorem not_text_roundTrip :
    (¬∀ f : Fraction, fromString f.toText = some (true, f)) ∧ ¬∀ str, Answered str := by
  constructor
  · intro hall
    have h := hall ⟨⟨1, by decide⟩, ⟨-2, by decide⟩⟩
    rw [fromString_toText_of_neg (by decide)] at h
    exact absurd (Prod.ext_iff.1 (Option.some.inj h)).1 Bool.false_ne_true
  · intro hall
    have hnone : fromString "99999999999999999999/1" = none := by decide
    obtain ⟨r, hr, -⟩ := hall "99999999999999999999/1"
    rw [hnone] at hr
    cases hr

/-- The numerator is read as an octal one. -/
example : (fromString "010/3").map (fun r => (r.1, r.2.num.val, r.2.denom.val)) =
    some (true, 8, 3) := by decide

end Fraction
end LibSwitcher
