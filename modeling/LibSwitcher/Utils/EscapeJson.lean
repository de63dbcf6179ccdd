/-
# Texts inside of a document

`stringutils::escape_json` of `switcher/utils/string-utils.cpp`.  The bytes are compared as
`signed char`, so that those from `0x80` on are negative and are no control characters.  What
is made of a byte is one item of a string of RFC 8259 (`Json.Item`): the byte itself, a
backslash and a letter, or a code of four digits.

For all bytes, the text that is made of them can stand between quotes, and it means these
bytes (`escapeJson_spec`).
-/

import LibSwitcher.InfoTree.JsonText

namespace LibSwitcher

namespace Json

/-- An item of a string, and the code unit that it stands for: a character that is no quote,
no backslash and no control character, or one of the escape sequences. -/
inductive Item : List Char → ℕ → Prop
  | verbatim {c : Char} (h : isVerbatim c = true) : Item [c] c.toNat
  | escape {e c : Char} (h : escapes.lookup e = some c) : Item ['\\', e] c.toNat
  | unicode {a b c d : Char} (h : [a, b, c, d].all (Stringutils.isDigitOf 16) = true) :
      Item ['\\', 'u', a, b, c, d] (Stringutils.readNat 16 [a, b, c, d])

/-- What can stand between the quotes of a string, and its code units. -/
inductive Body : List Char → List ℕ → Prop
  | nil : Body [] []
  | cons {item cs : List Char} {u : ℕ} {us : List ℕ} (hitem : Item item u) (hrest : Body cs us) :
      Body (item ++ cs) (u :: us)

/-- The string that a text between quotes means. -/
def unescape (body : String) : Option String :=
  (readString (body.toList ++ ['"'])).bind fun r => if r.2.isEmpty then some r.1 else none

variable {item cs rest : List Char} {u : ℕ} {us : List ℕ}

/-- An item is read as its code unit. -/
theorem Item.readUnits_append (h : Item item u) (rest : List Char) :
    readUnits (item ++ rest) = (readUnits rest).map fun r => (u :: r.1, r.2) := by
  cases h with
  | @verbatim c hc =>
      have hquote : c ≠ '"' := by
        rintro rfl
        cases hc
      have hslash : c ≠ '\\' := by
        rintro rfl
        cases hc
      rw [List.singleton_append, readUnits, if_pos hc]
      · exact fun h => hquote h
      · exact fun _ _ _ _ _ h => absurd h hslash
      · exact fun _ _ h => absurd h hslash
  | @escape e c he =>
      have hu : e ≠ 'u' := by
        rintro rfl
        cases he
      rw [List.cons_append, List.singleton_append, readUnits, he, Option.bind_some]
      exact fun _ _ _ _ _ h => absurd h hu
  | unicode hall => exact if_pos hall

theorem Body.readUnits_append (h : Body cs us) (rest : List Char) :
    readUnits (cs ++ '"' :: rest) = some (us, rest) := by
  induction h with
  | nil => rfl
  | cons hitem _ ih =>
      rw [List.append_assoc, hitem.readUnits_append, ih]
      rfl

/-- The items of characters can stand between quotes. -/
theorem body_flatMap {α : Type} {f : α → List Char} {g : α → ℕ} (h : ∀ a, Item (f a) (g a))
    (l : List α) : Body (l.flatMap f) (l.map g) := by
  induction l with
  | nil => exact .nil
  | cons a l ih => exact .cons (h a) ih

/-- Code units that are characters are the string of these. -/
theorem Body.unescape_eq {body s : String} (h : Body body.toList (s.toList.map Char.toNat)) :
    unescape body = some s := by
  rw [unescape, readString, h.readUnits_append, Option.bind_some, decodeUnits_toNat,
    Option.map_some, Option.bind_some, String.ofList_toList]
  rfl

end Json

namespace Stringutils

/-- The characters that stand for bytes. -/
def ofBytes (bytes : List UInt8) : String :=
  String.ofList (bytes.map fun b => Char.ofNat b.toNat)

/-- `std::hex << std::setw(4) << std::setfill('0')`. -/
def hex4 (n : ℕ) : List Char := (Nat.toDigits 16 n).leftpad 4 '0'

/-- What `escape_json` writes for a byte. -/
def escapeChar (c : UInt8) : List Char :=
  let curChar := c.toInt8.toInt
  match curChar with
  | 0x22 => ['\\', '"']
  | 0x5c => ['\\', '\\']
  | 0x08 => ['\\', 'b']
  | 0x0c => ['\\', 'f']
  | 0x0a => ['\\', 'n']
  | 0x0d => ['\\', 'r']
  | 0x09 => ['\\', 't']
  | _ =>
      if 0x00 ≤ curChar ∧ curChar ≤ 0x1f then '\\' :: 'u' :: hex4 curChar.toNat
      else [Char.ofNat c.toNat]

/-- `escape_json`. -/
def escapeJson (str : List UInt8) : String := String.ofList (str.flatMap escapeChar)

/-- The bytes from `0x80` on are negative. -/
theorem toInt_toInt8 (b : UInt8) :
    b.toInt8.toInt = if b.toNat < 128 then (b.toNat : ℤ) else b.toNat - 256 := by
  have hcond : b.toInt8.toInt =
      if 2 * b.toNat < 2 ^ 8 then (b.toNat : ℤ) else (b.toNat : ℤ) - (2 ^ 8 : ℕ) :=
    BitVec.toInt_eq_toNat_cond b.toBitVec
  rw [hcond]
  split_ifs <;> omega

/-- Four digits are written for a control character, and these are its number. -/
theorem hex4_spec {n : ℕ} (h : n < 32) :
    (hex4 n).length = 4 ∧ (hex4 n).all (isDigitOf 16) = true ∧ readNat 16 (hex4 n) = n := by
  have hall : ∀ n < 32, (hex4 n).length = 4 ∧ (hex4 n).all (isDigitOf 16) = true ∧
      readNat 16 (hex4 n) = n := by decide +kernel
  exact hall n h

/-- A control character is written by its number. -/
theorem item_hex4 {n : ℕ} (h : n < 32) : Json.Item ('\\' :: 'u' :: hex4 n) n := by
  obtain ⟨hlen, hall, hread⟩ := hex4_spec h
  obtain ⟨a, b, c, d, heq⟩ := List.length_eq_four.1 hlen
  rw [heq] at hall hread ⊢
  exact hread ▸ Json.Item.unicode hall

theorem toNat_ofNat_byte (b : UInt8) : (Char.ofNat b.toNat).toNat = b.toNat := by
  have hlt := b.toNat_lt
  have hvalid : b.toNat.isValidChar := .inl (by omega)
  rw [Char.ofNat, dif_pos hvalid]
  rfl

/-- An escape sequence with a letter is written for the byte that it stands for. -/
theorem item_of_lookup {b : UInt8} {e c : Char} (h : Json.escapes.lookup e = some c)
    (hb : b.toInt8.toInt = c.toNat) : Json.Item ['\\', e] b.toNat := by
  have hlt := b.toNat_lt
  have heq : b.toNat = c.toNat := by
    rw [toInt_toInt8] at hb
    split_ifs at hb <;> omega
  exact heq ▸ Json.Item.escape h

/-- What is written for a byte is an item of a string that means it. -/
theorem item_escapeChar (b : UInt8) : Json.Item (escapeChar b) b.toNat := by
  have hcur := toInt_toInt8 b
  have hlt := b.toNat_lt
  unfold escapeChar
  dsimp only
  split
  case h_1 h => exact item_of_lookup (c := '"') rfl h
  case h_2 h => exact item_of_lookup (c := '\\') rfl h
  case h_3 h => exact item_of_lookup (c := Char.ofNat 8) rfl h
  case h_4 h => exact item_of_lookup (c := Char.ofNat 12) rfl h
  case h_5 h => exact item_of_lookup (c := '\n') rfl h
  case h_6 h => exact item_of_lookup (c := '\r') rfl h
  case h_7 h => exact item_of_lookup (c := '\t') rfl h
  case h_8 hquote hslash _ _ _ _ _ =>
    by_cases hcontrol : 0x00 ≤ b.toInt8.toInt ∧ b.toInt8.toInt ≤ 0x1f
    · have hnat : b.toInt8.toInt.toNat = b.toNat := by
        rw [hcur] at hcontrol ⊢
        split_ifs at hcontrol ⊢ <;> omega
      have h32 : b.toNat < 32 := by omega
      rw [if_pos hcontrol, hnat]
      exact item_hex4 h32
    · -- the byte is neither a control character nor one of the two that are escaped
      have hchar := toNat_ofNat_byte b
      have hne : ∀ c : Char, b.toInt8.toInt ≠ c.toNat → c.toNat < 128 →
          Char.ofNat b.toNat ≠ c := by
        rintro c hc h128 rfl
        rw [hchar] at hc h128
        exact hc (by rw [hcur, if_pos h128])
      have hverbatim : Json.isVerbatim (Char.ofNat b.toNat) = true := by
        rw [Json.isVerbatim, Bool.and_eq_true, Bool.and_eq_true, decide_eq_true_iff,
          decide_eq_true_iff, decide_eq_true_iff, hchar]
        refine ⟨⟨hne _ hquote (by decide), hne _ hslash (by decide)⟩, ?_⟩
        rw [hcur] at hcontrol
        split_ifs at hcontrol <;> omega
      have hitem := Json.Item.verbatim hverbatim
      rw [hchar] at hitem
      rwa [if_neg hcontrol]

/-- The text that is made of bytes can stand between quotes. -/
theorem body_toList_escapeJson (str : List UInt8) :
    Json.Body (escapeJson str).toList (str.map UInt8.toNat) := by
  rw [escapeJson, String.toList_ofList]
  exact Json.body_flatMap item_escapeChar str

theorem map_toNat_ofBytes (str : List UInt8) :
    (ofBytes str).toList.map Char.toNat = str.map UInt8.toNat := by
  rw [ofBytes, String.toList_ofList, List.map_map]
  exact List.map_congr_left fun b _ => toNat_ofNat_byte b

theorem ofBytes_injective : Function.Injective ofBytes := by
  intro s t h
  have hnat : s.map UInt8.toNat = t.map UInt8.toNat := by
    rw [← map_toNat_ofBytes, h, map_toNat_ofBytes]
  exact List.map_injective_iff.2 (fun _ _ => UInt8.toNat_inj.1) hnat

/-- It means these bytes. -/
theorem unescape_toList_escapeJson (str : List UInt8) :
    Json.unescape (escapeJson str) = some (ofBytes str) := by
  refine Json.Body.unescape_eq ?_
  rw [map_toNat_ofBytes]
  exact body_toList_escapeJson str

/-- **All bytes can be written into a document**, and different ones differ there. -/
theorem escapeJson_spec :
    (∀ str : List UInt8, Json.Body (escapeJson str).toList (str.map UInt8.toNat) ∧
      Json.unescape (escapeJson str) = some (ofBytes str)) ∧
      Function.Injective escapeJson := by
  refine ⟨fun str => ⟨body_toList_escapeJson str, unescape_toList_escapeJson str⟩, fun s t h => ?_⟩
  have hsame : some (ofBytes s) = some (ofBytes t) := by
    rw [← unescape_toList_escapeJson, h, unescape_toList_escapeJson]
  exact ofBytes_injective (Option.some.inj hsame)

/-- A quote, a control character and a byte that is no character of ASCII. -/
example : escapeJson [0x22, 0x1b, 0xe9] = "\\\"\\u001b\u00e9" := by decide +kernel

end Stringutils
end LibSwitcher
