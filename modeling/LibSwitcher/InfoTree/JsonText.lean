/-
# Texts of documents

What a text means as a document (RFC 8259): `Json.read`.  White space is skipped, a string
is a sequence of UTF-16 code units and of characters that stand for themselves
(`readUnits`), and a number is an integer; one with a fraction or an exponent is not read,
no such number is written here.

json-glib is assumed to be correct (`JsonGlib.Generates`): the text that its generator makes
of the calls that build a document means this document, where the last of several members
of one name counts, at the place of the first (`Json.built`).

A number is read from its decimal text (`read_int`).  A text between quotes means the string
between them exactly if its characters stand for themselves (`read_quoted_iff`).
-/

import LibSwitcher.InfoTree.JsonBuilder

namespace LibSwitcher
namespace Json

/-! ### Reading -/

/-- White space. -/
def isSpace (c : Char) : Bool := c = ' ' || c = '\n' || c = '\r' || c = '\t'

/-- The text from the first character on that is no white space. -/
def skipSpace (cs : List Char) : List Char := cs.dropWhile isSpace

/-- A character that stands for itself in a string. -/
def isVerbatim (c : Char) : Bool := c ≠ '"' && c ≠ '\\' && decide (32 ≤ c.toNat)

/-- The character that follows a backslash, and the one it stands for. -/
def escapes : List (Char × Char) :=
  [('"', '"'), ('\\', '\\'), ('/', '/'), ('b', Char.ofNat 8), ('f', Char.ofNat 12), ('n', '\n'),
    ('r', '\r'), ('t', '\t')]

/-- The code units of a string up to its closing quote, and what follows it. -/
def readUnits : List Char → Option (List ℕ × List Char)
  | [] => none
  | '"' :: cs => some ([], cs)
  | '\\' :: 'u' :: a :: b :: c :: d :: cs =>
      if [a, b, c, d].all (Stringutils.isDigitOf 16) then
        (readUnits cs).map fun r => (Stringutils.readNat 16 [a, b, c, d] :: r.1, r.2)
      else none
  | '\\' :: e :: cs =>
      (escapes.lookup e).bind fun c => (readUnits cs).map fun r => (c.toNat :: r.1, r.2)
  | c :: cs => if isVerbatim c then (readUnits cs).map fun r => (c.toNat :: r.1, r.2) else none

/-- A code unit that is half of a character. -/
def isSurrogate (u : ℕ) : Bool := decide (0xD800 ≤ u) && decide (u < 0xE000)

/-- The characters of code units: the halves of a character come in pairs. -/
def decodeUnits : List ℕ → Option (List Char)
  | [] => some []
  | u :: us =>
      if !isSurrogate u then (decodeUnits us).map (Char.ofNat u :: ·)
      else match us with
        | [] => none
        | u' :: us =>
            if decide (u < 0xDC00) && isSurrogate u' && decide (0xDC00 ≤ u') then
              (decodeUnits us).map
                (Char.ofNat (0x10000 + (u - 0xD800) * 0x400 + (u' - 0xDC00)) :: ·)
            else none

/-- A string after its opening quote. -/
def readString (cs : List Char) : Option (String × List Char) :=
  (readUnits cs).bind fun r => (decodeUnits r.1).map fun s => (String.ofList s, r.2)

/-- A natural number: its digits, the first of which is zero only if it is alone. -/
def readDigits (cs : List Char) : Option (ℕ × List Char) :=
  let digits := cs.takeWhile Char.isDigit
  let n := Nat.ofDigitChars 10 digits 0
  let rest := cs.dropWhile Char.isDigit
  if digits = Nat.toDigits 10 n ∧ rest.head? ≠ some '.' ∧ rest.head? ≠ some 'e' ∧
      rest.head? ≠ some 'E' then some (n, rest)
  else none

/-- An integer. -/
def readInt : List Char → Option (ℤ × List Char)
  | '-' :: cs => (readDigits cs).map fun r => (-(r.1 : ℤ), r.2)
  | cs => (readDigits cs).map fun r => ((r.1 : ℤ), r.2)

mutual

/-- The document a text starts with, and what follows it. -/
def readValue : ℕ → List Char → Option (Json × List Char)
  | 0, _ => none
  | fuel + 1, cs =>
      match skipSpace cs with
      | 'n' :: 'u' :: 'l' :: 'l' :: cs => some (.null, cs)
      | 't' :: 'r' :: 'u' :: 'e' :: cs => some (.bool true, cs)
      | 'f' :: 'a' :: 'l' :: 's' :: 'e' :: cs => some (.bool false, cs)
      | '"' :: cs => (readString cs).map fun r => (.str r.1, r.2)
      | '[' :: cs =>
          match skipSpace cs with
          | ']' :: cs => some (.arr [], cs)
          | cs => (readElements fuel cs).map fun r => (.arr r.1, r.2)
      | '\x7b' :: cs =>
          match skipSpace cs with
          | '\x7d' :: cs => some (.obj [], cs)
          | cs => (readMembers fuel cs).map fun r => (.obj r.1, r.2)
      | cs => (readInt cs).map fun r => (.int r.1, r.2)

/-- The elements of an array up to its end, at least one. -/
def readElements : ℕ → List Char → Option (List Json × List Char)
  | 0, _ => none
  | fuel + 1, cs =>
      (readValue fuel cs).bind fun r =>
        match skipSpace r.2 with
        | ',' :: cs => (readElements fuel cs).map fun r' => (r.1 :: r'.1, r'.2)
        | ']' :: cs => some ([r.1], cs)
        | _ => none

/-- The members of an object up to its end, at least one. -/
def readMembers : ℕ → List Char → Option (List (String × Json) × List Char)
  | 0, _ => none
  | fuel + 1, cs =>
      match skipSpace cs with
      | '"' :: cs =>
          (readString cs).bind fun name =>
            match skipSpace name.2 with
            | ':' :: cs =>
                (readValue fuel cs).bind fun r =>
                  match skipSpace r.2 with
                  | ',' :: cs => (readMembers fuel cs).map fun r' => ((name.1, r.1) :: r'.1, r'.2)
                  | '\x7d' :: cs => some ([(name.1, r.1)], cs)
                  | _ => none
            | _ => none
      | _ => none

end

/-- The document that a text means. -/
def read (text : String) : Option Json :=
  (readValue (text.length + 1) text.toList).bind fun r =>
    if (skipSpace r.2).isEmpty then some r.1 else none

variable {cs : List Char} {c : Char} {s text : String} {i : ℤ}

/-! ### Texts of leaves -/

theorem read_null : read "null" = some .null := rfl

theorem read_bool (b : Bool) : read (Any.bool b).toString = some (.bool b) := by
  cases b <;> rfl

theorem read_empty : read "[]" = some (.arr []) := rfl

/-- The digits of a number are read. -/
theorem readDigits_toDigits (n : ℕ) : readDigits (Nat.toDigits 10 n) = some (n, []) := by
  have hdigit : ∀ c ∈ Nat.toDigits 10 n, c.isDigit = true := fun c hc =>
    Nat.isDigit_of_mem_toDigits (by decide) (by decide) hc
  have htake : (Nat.toDigits 10 n).takeWhile Char.isDigit = Nat.toDigits 10 n :=
    List.takeWhile_eq_self_iff.2 hdigit
  have hdrop : (Nat.toDigits 10 n).dropWhile Char.isDigit = [] :=
    List.dropWhile_eq_nil_iff.2 hdigit
  rw [readDigits, htake, hdrop, Nat.ofDigitChars_ten_toDigits, if_pos (by simp)]

/-- A text that starts as a number is read as one. -/
theorem readValue_number (hc : c = '-' ∨ c.isDigit = true) (fuel : ℕ) (cs : List Char) :
    readValue (fuel + 1) (c :: cs) = (readInt (c :: cs)).map fun r => (.int r.1, r.2) := by
  have hne : ∀ d : Char, d ≠ '-' → d.isDigit = false → c ≠ d := by
    rintro d hminus hdigit rfl
    rcases hc with rfl | hc
    · exact hminus rfl
    · rw [hdigit] at hc
      cases hc
  have hspace : isSpace c = false := by
    simp [isSpace, hne ' ' (by decide) (by decide), hne '\n' (by decide) (by decide),
      hne '\r' (by decide) (by decide), hne '\t' (by decide) (by decide)]
  have hskip : skipSpace (c :: cs) = c :: cs := by
    rw [skipSpace, List.dropWhile_cons_of_neg (by simp [hspace])]
  rw [readValue, hskip]
  split
  · rename_i h
    exact absurd (List.cons.inj h).1 (hne 'n' (by decide) (by decide))
  · rename_i h
    exact absurd (List.cons.inj h).1 (hne 't' (by decide) (by decide))
  · rename_i h
    exact absurd (List.cons.inj h).1 (hne 'f' (by decide) (by decide))
  · rename_i h
    exact absurd (List.cons.inj h).1 (hne '"' (by decide) (by decide))
  · rename_i h
    exact absurd (List.cons.inj h).1 (hne '[' (by decide) (by decide))
  · rename_i h
    exact absurd (List.cons.inj h).1 (hne '\x7b' (by decide) (by decide))
  · rfl

/-- An integer is read from its decimal text. -/
theorem read_int (i : ℤ) : read (toString i) = some (.int i) := by
  have hdigits : ∀ n : ℕ, n.repr.toList = Nat.toDigits 10 n := fun n => Nat.toList_repr
  rw [read]
  change (readValue _ (Int.repr i).toList).bind _ = _
  rw [Int.repr_eq_if]
  split_ifs with hneg
  · rw [hdigits]
    obtain ⟨c, cs, hcs⟩ := List.exists_cons_of_ne_nil
      (Nat.toDigits_ne_nil (n := i.toNat) (b := 10))
    have hc : c.isDigit = true :=
      Nat.isDigit_of_mem_toDigits (b := 10) (n := i.toNat) (by decide) (by decide) (by simp [hcs])
    have hint : readInt (c :: cs) = (readDigits (c :: cs)).map fun r => ((r.1 : ℤ), r.2) := by
      rw [readInt]
      intro cs' h
      rw [(List.cons.inj h).1] at hc
      cases hc
    rw [hcs, readValue_number (Or.inr hc), hint, ← hcs, readDigits_toDigits]
    have hvalue : (i.toNat : ℤ) = i := Int.toNat_of_nonneg hneg
    change some (Json.int i.toNat) = _
    rw [hvalue]
  · rw [String.toList_append, hdigits]
    change (readValue _ ('-' :: Nat.toDigits 10 (-i).toNat)).bind _ = _
    rw [readValue_number (Or.inl rfl), readInt, readDigits_toDigits]
    have hvalue : -((-i).toNat : ℤ) = i := by
      rw [Int.toNat_of_nonneg (by omega), neg_neg]
    change some (Json.int (-((-i).toNat : ℤ))) = _
    rw [hvalue]

/-! ### Texts between quotes -/

/-- Characters that stand for themselves in a string. -/
def Verbatim (cs : List Char) : Prop := ∀ c ∈ cs, isVerbatim c = true

/-- The characters of a string that stand for themselves are its code units. -/
theorem readUnits_verbatim (h : Verbatim cs) (rest : List Char) :
    readUnits (cs ++ '"' :: rest) = some (cs.map Char.toNat, rest) := by
  induction cs with
  | nil => rfl
  | cons c cs ih =>
      have hc := h c List.mem_cons_self
      have hquote : c ≠ '"' := by
        rintro rfl
        cases hc
      have hslash : c ≠ '\\' := by
        rintro rfl
        cases hc
      rw [List.cons_append, readUnits, if_pos hc, ih fun d hd => h d (List.mem_cons_of_mem _ hd)]
      · rfl
      · exact fun h => hquote h
      · exact fun _ _ _ _ _ h => absurd h hslash
      · exact fun _ _ h => absurd h hslash

/-- A text is as long as what is read of it only if all characters stand for themselves. -/
theorem readUnits_spec {us : List ℕ} {rest : List Char} (h : readUnits cs = some (us, rest)) :
    us.length + rest.length < cs.length ∧ (us.length + rest.length + 1 = cs.length →
      ∃ body, cs = body ++ '"' :: rest ∧ Verbatim body) := by
  fun_induction readUnits cs generalizing us rest with
  | case1 => cases h
  | case2 cs =>
      obtain ⟨rfl, rfl⟩ := Prod.mk.inj (Option.some.inj h)
      exact ⟨by simp, fun _ => ⟨[], rfl, fun c hc => by cases hc⟩⟩
  | case3 a b c d cs hall ih =>
      obtain ⟨⟨us', rest'⟩, hr, heq⟩ := Option.map_eq_some_iff.1 h
      obtain ⟨rfl, rfl⟩ := Prod.mk.inj heq
      obtain ⟨hlt, -⟩ := ih hr
      simp only [List.length_cons]
      exact ⟨by omega, fun heq => by omega⟩
  | case4 a b c d cs hall => cases h
  | case5 e cs hne ih =>
      obtain ⟨c, -, h⟩ := Option.bind_eq_some_iff.1 h
      obtain ⟨⟨us', rest'⟩, hr, heq⟩ := Option.map_eq_some_iff.1 h
      obtain ⟨rfl, rfl⟩ := Prod.mk.inj heq
      obtain ⟨hlt, -⟩ := ih hr
      simp only [List.length_cons]
      exact ⟨by omega, fun heq => by omega⟩
  | case6 c cs hquote hslash hslash' hc ih =>
      obtain ⟨⟨us', rest'⟩, hr, heq⟩ := Option.map_eq_some_iff.1 h
      obtain ⟨rfl, rfl⟩ := Prod.mk.inj heq
      obtain ⟨hlt, hbody⟩ := ih hr
      simp only [List.length_cons]
      refine ⟨by omega, fun heq => ?_⟩
      obtain ⟨body, rfl, hverbatim⟩ := hbody (by omega)
      exact ⟨c :: body, rfl, List.forall_mem_cons.2 ⟨hc, hverbatim⟩⟩
  | case7 c cs hquote hslash hslash' hc => cases h

/-- No more characters than code units. -/
theorem length_decodeUnits {us : List ℕ} {cs : List Char} (h : decodeUnits us = some cs) :
    cs.length ≤ us.length := by
  fun_induction decodeUnits us generalizing cs with
  | case1 =>
      obtain rfl := Option.some.inj h
      exact Nat.le_refl 0
  | case2 u us hu ih =>
      obtain ⟨cs', hcs, rfl⟩ := Option.map_eq_some_iff.1 h
      exact Nat.succ_le_succ (ih hcs)
  | case3 => cases h
  | case4 u hu u' us hpair ih =>
      obtain ⟨cs', hcs, rfl⟩ := Option.map_eq_some_iff.1 h
      have hlen := ih hcs
      simp only [List.length_cons]
      omega
  | case5 => cases h

/-- The code units of characters that stand for themselves. -/
theorem decodeUnits_toNat (cs : List Char) : decodeUnits (cs.map Char.toNat) = some cs := by
  induction cs with
  | nil => rfl
  | cons c cs ih =>
      have hc : isSurrogate c.toNat = false := by
        have hvalid := c.valid
        rw [isSurrogate, Bool.and_eq_false_iff, decide_eq_false_iff_not, decide_eq_false_iff_not]
        rcases hvalid with h | h
        · exact Or.inl (Nat.not_le.2 h)
        · exact Or.inr (by
            have := h.1
            change ¬c.val.toNat < 0xE000
            omega)
      rw [List.map_cons, decodeUnits.eq_def]
      dsimp only
      rw [hc, Bool.not_false, if_pos rfl, ih, Char.ofNat_toNat]
      rfl

theorem readValue_quote (fuel : ℕ) (cs : List Char) :
    readValue (fuel + 1) ('"' :: cs) = (readString cs).map fun r => (.str r.1, r.2) := rfl

/-- What a string ends with is what its reading leaves, after the quote; a zero character is
never read. -/
theorem readUnits_body {us : List ℕ} {rest : List Char} (h : readUnits cs = some (us, rest)) :
    ∃ body, cs = body ++ '"' :: rest ∧ Char.ofNat 0 ∉ body := by
  fun_induction readUnits cs generalizing us rest with
  | case1 => cases h
  | case2 cs =>
      obtain ⟨rfl, rfl⟩ := Prod.mk.inj (Option.some.inj h)
      exact ⟨[], rfl, List.not_mem_nil⟩
  | case3 a b c d cs hall ih =>
      obtain ⟨⟨us', rest'⟩, hr, heq⟩ := Option.map_eq_some_iff.1 h
      obtain ⟨rfl, rfl⟩ := Prod.mk.inj heq
      obtain ⟨body, rfl, hbody⟩ := ih hr
      refine ⟨'\\' :: 'u' :: a :: b :: c :: d :: body, rfl, ?_⟩
      have hzero : ∀ e ∈ [a, b, c, d], e ≠ Char.ofNat 0 := by
        rintro e he rfl
        exact absurd (List.all_eq_true.1 hall _ he) (by decide)
      simp only [List.mem_cons, not_or]
      exact ⟨by decide, by decide, (hzero a (by simp)).symm, (hzero b (by simp)).symm,
        (hzero c (by simp)).symm, (hzero d (by simp)).symm, hbody⟩
  | case4 a b c d cs hall => cases h
  | case5 e cs hne ih =>
      obtain ⟨c, hc, h⟩ := Option.bind_eq_some_iff.1 h
      obtain ⟨⟨us', rest'⟩, hr, heq⟩ := Option.map_eq_some_iff.1 h
      obtain ⟨rfl, rfl⟩ := Prod.mk.inj heq
      obtain ⟨body, rfl, hbody⟩ := ih hr
      refine ⟨'\\' :: e :: body, rfl, ?_⟩
      have hnone : escapes.lookup (Char.ofNat 0) = none := by decide
      have hzero : e ≠ Char.ofNat 0 := by
        rintro rfl
        cases hnone.symm.trans hc
      simp only [List.mem_cons, not_or]
      exact ⟨by decide, hzero.symm, hbody⟩
  | case6 c cs hquote hslash hslash' hc ih =>
      obtain ⟨⟨us', rest'⟩, hr, heq⟩ := Option.map_eq_some_iff.1 h
      obtain ⟨rfl, rfl⟩ := Prod.mk.inj heq
      obtain ⟨body, rfl, hbody⟩ := ih hr
      refine ⟨c :: body, rfl, ?_⟩
      have hzero : c ≠ Char.ofNat 0 := by
        rintro rfl
        exact absurd hc (by decide)
      simp only [List.mem_cons, not_or]
      exact ⟨hzero.symm, hbody⟩
  | case7 c cs hquote hslash hslash' hc => cases h

/-- A text between quotes is read if its quotes are the first and the last one. -/
theorem read_quoted_eq_some_iff {s : String} {j : Json} :
    read ("\"" ++ s ++ "\"") = some j ↔
      ∃ s', j = .str s' ∧ readString (s.toList ++ ['"']) = some (s', []) := by
  have htext : ("\"" ++ s ++ "\"").toList = '"' :: (s.toList ++ ['"']) := by
    rw [String.toList_append, String.toList_append]
    rfl
  rw [read, htext, readValue_quote]
  constructor
  · intro h
    obtain ⟨⟨j', rest⟩, hvalue, h⟩ := Option.bind_eq_some_iff.1 h
    obtain ⟨⟨s', rest'⟩, hstring, heq⟩ := Option.map_eq_some_iff.1 hvalue
    obtain ⟨rfl, rfl⟩ := Prod.mk.inj heq
    split_ifs at h with hspace
    obtain rfl := Option.some.inj h
    obtain ⟨⟨us, rest''⟩, hunits, hdecode⟩ := Option.bind_eq_some_iff.1 hstring
    obtain ⟨cs, hcs, hchars⟩ := Option.map_eq_some_iff.1 hdecode
    obtain ⟨rfl, rfl⟩ := Prod.mk.inj hchars
    obtain ⟨body, hbody, -⟩ := readUnits_body hunits
    -- what is left would end with the last quote, which is no white space
    have hrest : rest'' = [] := by
      rcases List.eq_nil_or_concat rest'' with hnil | ⟨init, last, rfl⟩
      · exact hnil
      · rw [List.concat_eq_append] at hbody hspace
        rw [← List.cons_append, ← List.append_assoc] at hbody
        have hlast : '"' = last := (List.cons.inj (List.append_inj' hbody rfl).2).1
        rw [← hlast, List.isEmpty_iff, skipSpace, List.dropWhile_eq_nil_iff] at hspace
        exact absurd (hspace '"' (by simp)) (by decide)
    exact ⟨_, rfl, by rw [hstring, hrest]⟩
  · rintro ⟨s', rfl, hstring⟩
    rw [hstring]
    rfl

/-- A text between quotes means the string between them exactly if its characters stand for
themselves. -/
theorem read_quoted_iff {s : String} :
    read ("\"" ++ s ++ "\"") = some (.str s) ↔ Verbatim s.toList := by
  have htext : ("\"" ++ s ++ "\"").toList = '"' :: (s.toList ++ ['"']) := by
    rw [String.toList_append, String.toList_append]
    rfl
  rw [read, htext, readValue_quote, readString]
  constructor
  · intro h
    obtain ⟨⟨j, rest⟩, hvalue, h⟩ := Option.bind_eq_some_iff.1 h
    obtain ⟨⟨s', rest'⟩, hstring, heq⟩ := Option.map_eq_some_iff.1 hvalue
    obtain ⟨⟨us, rest''⟩, hunits, hdecode⟩ := Option.bind_eq_some_iff.1 hstring
    obtain ⟨cs, hcs, hchars⟩ := Option.map_eq_some_iff.1 hdecode
    have hs : String.ofList cs = s := by
      split_ifs at h
      obtain ⟨rfl, -⟩ := Prod.mk.inj heq
      obtain ⟨rfl, -⟩ := Prod.mk.inj hchars
      exact Json.str.inj (Option.some.inj h)
    have hlen := length_decodeUnits hcs
    obtain ⟨hlt, hbody⟩ := readUnits_spec hunits
    have hslen : cs.length = s.toList.length := by rw [← hs, String.toList_ofList]
    rw [List.length_append, List.length_singleton] at hlt hbody
    dsimp only at hlen
    obtain ⟨body, happend, hverbatim⟩ := hbody (by omega)
    have hrest : rest'' = [] := List.eq_nil_of_length_eq_zero (by omega)
    rw [hrest] at happend
    rwa [List.append_cancel_right happend]
  · intro h
    rw [readUnits_verbatim h, Option.bind_some, decodeUnits_toNat, Option.map_some, Option.map_some,
      Option.bind_some, String.ofList_toList, if_pos (by rfl)]

/-! ### What json-glib makes of calls -/

mutual

/-- The document that the builder has after the calls that build a document: the last of
several members of one name counts, at the place of the first. -/
def built : Json → Json
  | .arr js => .arr (builtElements js)
  | .obj ms => .obj (builtMembers ms [])
  | .null => .null
  | .bool b => .bool b
  | .int i => .int i
  | .double text => .double text
  | .str s => .str s

/-- The elements of an array. -/
def builtElements : List Json → List Json
  | [] => []
  | j :: js => built j :: builtElements js

/-- The members of an object, after some. -/
def builtMembers : List (String × Json) → List (String × Json) → List (String × Json)
  | [], ms' => ms'
  | (name, j) :: ms, ms' => builtMembers ms (KeyTree.setKey name (built j) ms')

end

mutual

/-- Documents with different member names are built as they are. -/
theorem built_of_plainNames : (j : Json) → j.PlainNames → built j = j
  | .null, _ => rfl
  | .bool _, _ => rfl
  | .int _, _ => rfl
  | .double _, _ => rfl
  | .str _, _ => rfl
  | .arr js, h => by rw [built, builtElements_of_plainNames js h]
  | .obj ms, h => by
      rw [built, builtMembers_of_plainNames ms h.2 [] (by simpa using h.1), List.nil_append]

theorem builtElements_of_plainNames : (js : List Json) → PlainElements js → builtElements js = js
  | [], _ => rfl
  | j :: js, h => by
      rw [builtElements, built_of_plainNames j h.1, builtElements_of_plainNames js h.2]

theorem builtMembers_of_plainNames : (ms : List (String × Json)) → PlainMembers ms →
    (ms' : List (String × Json)) → (ms'.map Prod.fst ++ ms.map Prod.fst).Nodup →
    builtMembers ms ms' = ms' ++ ms
  | [], _, ms', _ => by rw [builtMembers, List.append_nil]
  | (name, j) :: ms, h, ms', hnodup => by
      have hnew : name ∉ ms'.map Prod.fst := fun hmem =>
        (List.nodup_append.1 hnodup).2.2 name hmem name (by simp) rfl
      rw [builtMembers, built_of_plainNames j h.2.1, KeyTree.setKey_of_not_mem hnew,
        builtMembers_of_plainNames ms h.2.2 _ (by simpa using hnodup), List.append_assoc,
        List.singleton_append]

end

/-- The members that are built after some hide those of their names. -/
theorem lookup_builtMembers (name : String) (ms acc : List (String × Json)) :
    (builtMembers ms acc).lookup name =
      ((builtMembers ms []).lookup name).or (acc.lookup name) := by
  induction ms generalizing acc with
  | nil => rfl
  | cons m ms ih =>
      rw [builtMembers, ih, builtMembers, ih (KeyTree.setKey m.1 (built m.2) []), Option.or_assoc]
      congr 1
      by_cases h : name = m.1
      · rw [h, KeyTree.lookup_setKey_self, KeyTree.lookup_setKey_self, Option.some_or]
      · rw [KeyTree.lookup_setKey_ne h, KeyTree.lookup_setKey_ne h]
        rfl

/-- Members of different names are found under them. -/
theorem lookup_builtMembers_nil (name : String) {ms : List (String × Json)}
    (h : (ms.map Prod.fst).Nodup) :
    (builtMembers ms []).lookup name = (ms.lookup name).map built := by
  induction ms with
  | nil => rfl
  | cons m ms ih =>
      obtain ⟨hnot, hnodup⟩ := List.nodup_cons.1 h
      rw [builtMembers, lookup_builtMembers, ih hnodup, List.lookup_cons]
      by_cases hname : name = m.1
      · rw [hname, KeyTree.lookup_setKey_self, KeyTree.lookup_eq_none_iff.2 hnot, BEq.rfl]
        rfl
      · rw [KeyTree.lookup_setKey_ne hname, beq_eq_false_iff_ne.2 hname]
        exact Option.or_none

/-- What is built is one of the members, or was there before. -/
theorem mem_builtMembers {e : String × Json} {ms acc : List (String × Json)}
    (h : e ∈ builtMembers ms acc) : e ∈ acc ∨ ∃ m ∈ ms, e = (m.1, built m.2) := by
  induction ms generalizing acc with
  | nil => exact Or.inl h
  | cons m ms ih =>
      rcases ih h with h | ⟨m', hm', he⟩
      · rcases KeyTree.mem_setKey h with he | h
        · exact Or.inr ⟨m, List.mem_cons_self, he⟩
        · exact Or.inl h
      · exact Or.inr ⟨m', List.mem_cons_of_mem _ hm', he⟩

theorem builtElements_eq_map (js : List Json) : builtElements js = js.map built := by
  induction js with
  | nil => rfl
  | cons j js ih => rw [builtElements, ih, List.map_cons]

end Json

/-- json-glib is correct on a document: the builder and the generator make a text of the calls
that build it, and this text means what the builder has. -/
def JsonGlib.Generates (glib : JsonGlib) (j : Json) : Prop :=
  ∃ text, glib.toData j.calls = some text ∧ Json.read text = some j.built

/-- A text that means what is built. -/
theorem InfoTree.generates_oneDocument {text : String} {j : Json}
    (h : Json.read text = some j.built) : (oneDocument text j).Generates j :=
  ⟨text, if_pos rfl, h⟩

end LibSwitcher
