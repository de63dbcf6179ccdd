/-
# Base64

`stringutils::base64_encode` and `base64_decode` of `switcher/utils/string-utils.cpp`, with what
they use of GLib: standard base64, and a decoder that decodes complete groups of four
characters of the alphabet and ignores other characters.  The decoded bytes go through `%s`, so
they end at a zero.

A text without padding decodes to given bytes exactly if it starts with their code, and what
follows completes the last group with zeros, or does not start another one
(`base64Decode_eq_iff`).
-/

import LibSwitcher.Utils.StringUtils

namespace LibSwitcher
namespace Stringutils

/-- The characters for the digits. -/
def base64Alphabet : List Char :=
  "ABCDEFGHIJKLMNOPQRSTUVWXYZabcdefghijklmnopqrstuvwxyz0123456789+/".toList

/-- The character of a digit. -/
def base64Char (d : ℕ) : Char := base64Alphabet.getD d '='

/-- The digit of a character of the alphabet. -/
def base64Digit (c : Char) : Option ℕ := base64Alphabet.idxOf? c

/-- The digits of bytes, in groups of four for three bytes; the last group lacks those that are
padding. -/
def encodeDigits : List UInt8 → List ℕ
  | b₁ :: b₂ :: b₃ :: bs =>
      b₁.toNat / 4 :: (b₁.toNat % 4 * 16 + b₂.toNat / 16) ::
        (b₂.toNat % 16 * 4 + b₃.toNat / 64) :: b₃.toNat % 64 :: encodeDigits bs
  | [b₁, b₂] => [b₁.toNat / 4, b₁.toNat % 4 * 16 + b₂.toNat / 16, b₂.toNat % 16 * 4]
  | [b₁] => [b₁.toNat / 4, b₁.toNat % 4 * 16]
  | [] => []

/-- The bytes of complete groups of digits. -/
def decodeDigits : List ℕ → List UInt8
  | d₁ :: d₂ :: d₃ :: d₄ :: ds =>
      UInt8.ofNat (d₁ * 4 + d₂ / 16) :: UInt8.ofNat (d₂ % 16 * 16 + d₃ / 4) ::
        UInt8.ofNat (d₃ % 4 * 64 + d₄) :: decodeDigits ds
  | _ => []

/-- `base64_encode`. -/
def base64Encode (bytes : List UInt8) : String :=
  String.ofList ((encodeDigits bytes).map base64Char ++
    List.replicate ((3 - bytes.length % 3) % 3) '=')

/-- The digits in a C string. -/
def base64Digits (cs : List Char) : List ℕ :=
  (cs.takeWhile (· ≠ Char.ofNat 0)).filterMap base64Digit

/-- `base64_decode`. -/
def base64Decode (str : String) : List UInt8 :=
  (decodeDigits (base64Digits str.toList)).takeWhile (· ≠ 0)

/-! ### The alphabet -/

theorem base64Digit_lt {c : Char} {d : ℕ} (h : base64Digit c = some d) : d < 64 := by
  rw [base64Digit] at h
  exact List.findIdx?_eq_some_iff_findIdx_eq.1 h |>.1

/-! ### Decoding -/

/-- The digits after those of bytes give no byte that is seen: they complete the last group with
zeros, or do not start another group, or start one with a zero. -/
def Ends (length : ℕ) (rest : List ℕ) : Prop :=
  (length % 3 = 0 ∧ (rest.length < 4 ∨ rest[0]? = some 0 ∧ ∃ d < 16, rest[1]? = some d)) ∨
    (length % 3 = 1 ∧ 2 ≤ rest.length ∧ ∃ d < 4, rest[0]? = some d) ∨
    (length % 3 = 2 ∧ rest[0]? = some 0)

theorem ends_add_three (length : ℕ) (rest : List ℕ) :
    Ends (length + 3) rest ↔ Ends length rest := by
  rw [Ends, Ends, Nat.add_mod_right]

/-- A byte that is made of digits. -/
theorem ofNat_eq_iff {n : ℕ} (hn : n < 256) (b : UInt8) : UInt8.ofNat n = b ↔ n = b.toNat := by
  rw [← UInt8.toNat_inj, UInt8.toNat_ofNat', Nat.mod_eq_of_lt hn]

/-- The bytes before the first zero. -/
theorem takeWhile_cons_eq_cons_iff {b b' : UInt8} {bs bs' : List UInt8} (hb : b' ≠ 0) :
    (b :: bs).takeWhile (· ≠ 0) = b' :: bs' ↔ b = b' ∧ bs.takeWhile (· ≠ 0) = bs' := by
  by_cases h : b = 0
  · rw [List.takeWhile_cons_of_neg (by simpa)]
    refine iff_of_false (List.cons_ne_nil b' bs').symm ?_
    rintro ⟨rfl, -⟩
    exact hb h
  · rw [List.takeWhile_cons_of_pos (by simpa), List.cons.injEq]

theorem takeWhile_cons_eq_nil_iff {b : UInt8} {bs : List UInt8} :
    (b :: bs).takeWhile (· ≠ 0) = [] ↔ b = 0 := by
  by_cases h : b = 0
  · rw [List.takeWhile_cons_of_neg (by simpa)]
    exact iff_of_true rfl h
  · rw [List.takeWhile_cons_of_pos (by simpa)]
    exact iff_of_false (List.cons_ne_nil _ _) h

/-- Digits are fewer than a group, or start with one. -/
theorem digits_cases (ds : List ℕ) : (ds.length < 4 ∧ decodeDigits ds = []) ∨
    ∃ d₁ d₂ d₃ d₄ ds', ds = d₁ :: d₂ :: d₃ :: d₄ :: ds' := by
  match ds with
  | [] | [_] | [_, _] | [_, _, _] => exact Or.inl ⟨by simp, rfl⟩
  | d₁ :: d₂ :: d₃ :: d₄ :: ds' => exact Or.inr ⟨d₁, d₂, d₃, d₄, ds', rfl⟩

/-- Digits decode to bytes without zeros exactly if they start with their digits and end
accordingly. -/
theorem takeWhile_decodeDigits_iff : ∀ (bytes : List UInt8) (ds : List ℕ), (∀ b ∈ bytes, b ≠ 0) →
    (∀ d ∈ ds, d < 64) → ((decodeDigits ds).takeWhile (· ≠ 0) = bytes ↔
      ∃ rest, ds = encodeDigits bytes ++ rest ∧ Ends bytes.length rest)
  | [], ds, _, hds => by
      have hends : (∃ rest, ds = encodeDigits [] ++ rest ∧ Ends 0 rest) ↔ Ends 0 ds :=
        ⟨fun ⟨_, heq, h⟩ => heq ▸ h, fun h => ⟨ds, rfl, h⟩⟩
      rw [List.length_nil, hends, Ends]
      obtain ⟨hlength, hnil⟩ | ⟨d₁, d₂, d₃, d₄, ds, rfl⟩ := digits_cases ds
      · rw [hnil]
        exact iff_of_true rfl (Or.inl ⟨rfl, Or.inl hlength⟩)
      · simp only [List.forall_mem_cons] at hds
        rw [decodeDigits, takeWhile_cons_eq_nil_iff, ofNat_eq_iff (by omega),
          show UInt8.toNat 0 = 0 from rfl]
        constructor
        · intro h
          exact Or.inl ⟨rfl, Or.inr ⟨congrArg some (by omega), d₂, by omega, rfl⟩⟩
        · rintro (⟨-, hshort | ⟨h₁, d, hd, h₂⟩⟩ | ⟨h, -⟩ | ⟨h, -⟩)
          · simp only [List.length_cons] at hshort
            omega
          · have h₁ : d₁ = 0 := Option.some.inj h₁
            have h₂ : d₂ = d := Option.some.inj h₂
            omega
          · cases h
          · cases h
  | [b], ds, hbytes, hds => by
      have hb := hbytes b List.mem_cons_self
      have hlt := b.toNat_lt
      obtain ⟨hlength, hnil⟩ | ⟨d₁, d₂, d₃, d₄, ds, rfl⟩ := digits_cases ds
      · rw [hnil]
        refine iff_of_false (List.cons_ne_nil b []).symm ?_
        rintro ⟨rest, rfl, hends⟩
        simp [Ends, encodeDigits] at hends hlength
        omega
      · simp only [List.forall_mem_cons] at hds
        rw [decodeDigits, takeWhile_cons_eq_cons_iff hb, takeWhile_cons_eq_nil_iff,
          ofNat_eq_iff (by omega), ofNat_eq_iff (by omega)]
        constructor
        · rintro ⟨h₁, h₂⟩
          change _ = 0 at h₂
          refine ⟨d₃ :: d₄ :: ds, ?_, Or.inr (Or.inl ⟨rfl, by simp, d₃, by omega, rfl⟩)⟩
          rw [show d₁ = b.toNat / 4 by omega, show d₂ = b.toNat % 4 * 16 by omega]
          rfl
        · rintro ⟨rest, heq, hends⟩
          obtain ⟨h₁, heq⟩ := List.cons.inj heq
          obtain ⟨h₂, rfl⟩ := List.cons.inj heq
          obtain ⟨h, -⟩ | ⟨-, -, d, hd, hhead⟩ | ⟨h, -⟩ := hends
          · cases h
          · obtain rfl := Option.some.inj hhead
            refine ⟨by omega, ?_⟩
            change _ = 0
            omega
          · cases h
  | [b₁, b₂], ds, hbytes, hds => by
      have hb₁ := hbytes b₁ List.mem_cons_self
      have hb₂ := hbytes b₂ (List.mem_cons_of_mem _ List.mem_cons_self)
      have hlt₁ := b₁.toNat_lt
      have hlt₂ := b₂.toNat_lt
      obtain ⟨hlength, hnil⟩ | ⟨d₁, d₂, d₃, d₄, ds, rfl⟩ := digits_cases ds
      · rw [hnil]
        refine iff_of_false (List.cons_ne_nil b₁ [b₂]).symm ?_
        rintro ⟨rest, rfl, hends⟩
        obtain ⟨h, -⟩ | ⟨h, -⟩ | ⟨-, hhead⟩ := hends
        · cases h
        · cases h
        · obtain ⟨rest, rfl⟩ : ∃ rest', rest = 0 :: rest' := by
            cases rest with
            | nil => cases hhead
            | cons d rest => exact ⟨rest, by rw [Option.some.inj hhead]⟩
          simp [encodeDigits] at hlength
          omega
      · simp only [List.forall_mem_cons] at hds
        rw [decodeDigits, takeWhile_cons_eq_cons_iff hb₁, takeWhile_cons_eq_cons_iff hb₂,
          takeWhile_cons_eq_nil_iff, ofNat_eq_iff (by omega), ofNat_eq_iff (by omega),
          ofNat_eq_iff (by omega)]
        constructor
        · rintro ⟨h₁, h₂, h₃⟩
          change _ = 0 at h₃
          refine ⟨d₄ :: ds, ?_, Or.inr (Or.inr ⟨rfl, ?_⟩)⟩
          · rw [show d₁ = b₁.toNat / 4 by omega,
              show d₂ = b₁.toNat % 4 * 16 + b₂.toNat / 16 by omega,
              show d₃ = b₂.toNat % 16 * 4 by omega]
            rfl
          · rw [show d₄ = 0 by omega]
            rfl
        · rintro ⟨rest, heq, hends⟩
          obtain ⟨h₁, heq⟩ := List.cons.inj heq
          obtain ⟨h₂, heq⟩ := List.cons.inj heq
          obtain ⟨h₃, rfl⟩ := List.cons.inj heq
          obtain ⟨h, -⟩ | ⟨h, -⟩ | ⟨-, hhead⟩ := hends
          · cases h
          · cases h
          · obtain rfl := Option.some.inj hhead
            refine ⟨by omega, by omega, ?_⟩
            change _ = 0
            omega
  | b₁ :: b₂ :: b₃ :: bytes, ds, hbytes, hds => by
      simp only [List.forall_mem_cons] at hbytes
      have hlt₁ := b₁.toNat_lt
      have hlt₂ := b₂.toNat_lt
      have hlt₃ := b₃.toNat_lt
      obtain ⟨hlength, hnil⟩ | ⟨d₁, d₂, d₃, d₄, ds, rfl⟩ := digits_cases ds
      · rw [hnil]
        refine iff_of_false (List.cons_ne_nil b₁ _).symm ?_
        rintro ⟨rest, rfl, -⟩
        simp [encodeDigits] at hlength
        omega
      · simp only [List.forall_mem_cons] at hds
        rw [decodeDigits, takeWhile_cons_eq_cons_iff hbytes.1,
          takeWhile_cons_eq_cons_iff hbytes.2.1, takeWhile_cons_eq_cons_iff hbytes.2.2.1,
          takeWhile_decodeDigits_iff bytes ds hbytes.2.2.2 hds.2.2.2.2, ofNat_eq_iff (by omega),
          ofNat_eq_iff (by omega), ofNat_eq_iff (by omega)]
        constructor
        · rintro ⟨h₁, h₂, h₃, rest, rfl, hends⟩
          refine ⟨rest, ?_, (ends_add_three bytes.length rest).2 hends⟩
          rw [show d₁ = b₁.toNat / 4 by omega,
            show d₂ = b₁.toNat % 4 * 16 + b₂.toNat / 16 by omega,
            show d₃ = b₂.toNat % 16 * 4 + b₃.toNat / 64 by omega,
            show d₄ = b₃.toNat % 64 by omega]
          rfl
        · rintro ⟨rest, heq, hends⟩
          obtain ⟨h₁, heq⟩ := List.cons.inj heq
          obtain ⟨h₂, heq⟩ := List.cons.inj heq
          obtain ⟨h₃, heq⟩ := List.cons.inj heq
          obtain ⟨h₄, rfl⟩ := List.cons.inj heq
          exact ⟨by omega, by omega, by omega, rest, rfl, (ends_add_three bytes.length rest).1 hends⟩

/-- A text decodes to bytes without zeros exactly if its digits are theirs, and end accordingly. -/
theorem base64Decode_eq_iff (str : String) {bytes : List UInt8} (hbytes : ∀ b ∈ bytes, b ≠ 0) :
    base64Decode str = bytes ↔ ∃ rest, base64Digits str.toList = encodeDigits bytes ++ rest ∧
      Ends bytes.length rest := by
  refine takeWhile_decodeDigits_iff bytes _ hbytes fun d hd => ?_
  obtain ⟨c, -, hc⟩ := List.mem_filterMap.1 hd
  exact base64Digit_lt hc

end Stringutils
end LibSwitcher
