/-
# String helpers

`switcher/utils/string-utils.cpp`.  A `std::string` is a string whose characters
stand for its bytes, and the character classes are those of the C locale.
-/

import Mathlib.Algebra.Group.Nat.Defs
import Mathlib.Data.List.Infix
import Mathlib.Data.List.TakeWhile
import Mathlib.Data.Nat.Notation
import Mathlib.Tactic.Common

namespace LibSwitcher
namespace Stringutils

/-- `stringutils::tolower`. -/
def tolower (str : String) : String := String.ofList (str.toList.map Char.toLower)

/-- `stringutils::starts_with`: the comparison ignores the case. -/
def startsWith (str pre : String) : Bool :=
  decide (pre.length ≤ str.length) && (tolower pre).toList.isPrefixOf (tolower str).toList

/-- `stringutils::replace_char`. -/
def replaceChar (orig : String) (toReplace : Char) (replacement : String) : String :=
  String.ofList (orig.toList.flatMap fun c => if c = toReplace then replacement.toList else [c])

/-- The text with the occurrences of a pattern replaced, from the left; the first `skip`
characters belong to an occurrence. -/
def replaceGo (pat rep : List Char) : ℕ → List Char → List Char
  | _, [] => []
  | skip + 1, _ :: cs => replaceGo pat rep skip cs
  | 0, c :: cs =>
      if pat.isPrefixOf (c :: cs) then rep ++ replaceGo pat rep (pat.length - 1) cs
      else c :: replaceGo pat rep 0 cs

/-- `stringutils::replace_string`, for a pattern that is not empty. -/
def replaceString (orig toReplace replacement : String) : String :=
  String.ofList (replaceGo toReplace.toList replacement.toList 0 orig.toList)

/-- `std::string::find`: the position of the first occurrence of a pattern. -/
def find (pat : List Char) : List Char → Option ℕ
  | [] => if pat = [] then some 0 else none
  | c :: cs => if pat.isPrefixOf (c :: cs) then some 0 else (find pat cs).map (· + 1)

/-- What a function that takes a C string sees of a string. -/
def cStr (str : String) : String := String.ofList (str.toList.takeWhile (· ≠ Char.ofNat 0))

/-- The value of a digit, in base 16 or a smaller one. -/
def digitValue (c : Char) : Option ℕ :=
  if '0' ≤ c ∧ c ≤ '9' then some (c.toNat - '0'.toNat)
  else if 'a' ≤ c ∧ c ≤ 'f' then some (c.toNat - 'a'.toNat + 10)
  else if 'A' ≤ c ∧ c ≤ 'F' then some (c.toNat - 'A'.toNat + 10)
  else none

/-- A character is a digit of a base. -/
def isDigitOf (base : ℕ) (c : Char) : Bool := (digitValue c).any fun d => decide (d < base)

/-- The number whose digits a text starts with; what follows them is not read. -/
def readNat (base : ℕ) (cs : List Char) : ℕ :=
  (cs.takeWhile (isDigitOf base)).foldl (fun n c => base * n + (digitValue c).getD 0) 0

/-- `stoul(str, nullptr, 0)` of a text that starts with a digit: the base is told by what
the text starts with, and a number that is not one of 64 bits is refused by an exception. -/
def stoul (str : String) : Option ℕ :=
  let n := match str.toList with
    | '0' :: x :: c :: cs =>
        if (x = 'x' ∨ x = 'X') ∧ isDigitOf 16 c then readNat 16 (c :: cs)
        else readNat 8 (x :: c :: cs)
    | '0' :: cs => readNat 8 cs
    | cs => readNat 10 cs
  if n < 2 ^ 64 then some n else none

/-- `id_from_string`: zero for a text that does not start with a digit. -/
def idFromString (str : String) : Option ℕ :=
  if str.toList.head?.any Char.isDigit then stoul str else some 0

theorem toList_tolower (s : String) : (tolower s).toList = s.toList.map Char.toLower :=
  String.toList_ofList

theorem tolower_append (s t : String) : tolower (s ++ t) = tolower s ++ tolower t := by
  rw [← String.toList_inj, String.toList_append, toList_tolower, toList_tolower, toList_tolower,
    String.toList_append, List.map_append]

/-- No replaced character is left, if the replacement has none. -/
theorem not_mem_replaceChar {c : Char} {orig replacement : String} (h : c ∉ replacement.toList) :
    c ∉ (replaceChar orig c replacement).toList := by
  rw [replaceChar, String.toList_ofList, List.mem_flatMap]
  rintro ⟨d, -, hd⟩
  split_ifs at hd with hdc
  · exact h hd
  · exact hdc (List.mem_singleton.1 hd).symm

/-- A text without the character stays as it is. -/
theorem replaceChar_of_not_mem {c : Char} {orig : String} (replacement : String)
    (h : c ∉ orig.toList) : replaceChar orig c replacement = orig := by
  have hkeep : ∀ d ∈ orig.toList, (if d = c then replacement.toList else [d]) = [d] := by
    intro d hd
    refine if_neg ?_
    rintro rfl
    exact h hd
  rw [replaceChar, List.flatMap_congr hkeep, List.flatMap_singleton', String.ofList_toList]

/-- The replacement is a part of the text, if something is replaced. -/
theorem infix_replaceChar {c : Char} {orig : String} (replacement : String)
    (h : c ∈ orig.toList) : replacement.toList <:+: (replaceChar orig c replacement).toList := by
  obtain ⟨l, r, hlr⟩ := List.append_of_mem h
  rw [replaceChar, String.toList_ofList, hlr, List.flatMap_append, List.flatMap_cons, if_pos rfl]
  exact ⟨_, _, (List.append_assoc _ _ _)⟩

/-- A text without the pattern stays as it is. -/
theorem replaceGo_of_not_infix {pat rep cs : List Char} (h : ¬pat <:+: cs) :
    replaceGo pat rep 0 cs = cs := by
  induction cs with
  | nil => rfl
  | cons c cs ih =>
      have hpre : pat.isPrefixOf (c :: cs) = false := by
        rw [Bool.eq_false_iff, Ne, List.isPrefixOf_iff_prefix]
        exact fun hpre => h hpre.isInfix
      rw [replaceGo, hpre, if_neg Bool.false_ne_true,
        ih fun hin => h (hin.trans (List.suffix_cons c cs).isInfix)]

theorem replaceString_of_not_infix {orig toReplace : String} (replacement : String)
    (h : ¬toReplace.toList <:+: orig.toList) : replaceString orig toReplace replacement = orig := by
  rw [replaceString, replaceGo_of_not_infix h, String.ofList_toList]

/-- The parts of a text that is put together. -/
theorem infix_intercalate {sep s : String} {l : List String} (h : s ∈ l) :
    s.toList <:+: (sep.intercalate l).toList := by
  induction l with
  | nil => exact absurd h List.not_mem_nil
  | cons t l ih =>
      by_cases hl : l = []
      · subst hl
        rw [List.mem_singleton.1 h, String.intercalate_singleton]
      · rw [String.intercalate_cons_of_ne_nil hl, String.toList_append, String.toList_append]
        rcases List.mem_cons.1 h with rfl | h
        · rw [List.append_assoc]
          exact (List.prefix_append _ _).isInfix
        · exact (ih h).trans (List.suffix_append _ _).isInfix

/-- The first occurrence of a pattern: it has none that is further left. -/
theorem find_eq_some_iff {pat cs : List Char} {i : ℕ} : find pat cs = some i ↔
    ∃ a b, cs = a ++ pat ++ b ∧ a.length = i ∧ ∀ a' b', cs = a' ++ pat ++ b' → i ≤ a'.length := by
  induction cs generalizing i with
  | nil =>
      rw [find]
      constructor
      · intro h
        split_ifs at h with hpat
        obtain rfl := Option.some.inj h
        exact ⟨[], [], by rw [hpat]; rfl, rfl, fun _ _ _ => Nat.zero_le _⟩
      · rintro ⟨a, b, h, rfl, -⟩
        have hnil := List.append_eq_nil_iff.1 (List.append_eq_nil_iff.1 h.symm).1
        rw [if_pos hnil.2, hnil.1]
        rfl
  | cons c cs ih =>
      rw [find]
      by_cases hpre : pat <+: c :: cs
      · rw [if_pos (List.isPrefixOf_iff_prefix.2 hpre)]
        obtain ⟨b, hb⟩ := hpre
        constructor
        · intro h
          obtain rfl := Option.some.inj h
          exact ⟨[], b, hb.symm, rfl, fun _ _ _ => Nat.zero_le _⟩
        · rintro ⟨a, b', -, -, hfirst⟩
          rw [Nat.le_zero.1 (hfirst [] b hb.symm)]
      · rw [if_neg (fun h => hpre (List.isPrefixOf_iff_prefix.1 h)), Option.map_eq_some_iff]
        constructor
        · rintro ⟨j, hj, rfl⟩
          obtain ⟨a, b, rfl, rfl, hfirst⟩ := ih.1 hj
          refine ⟨c :: a, b, rfl, rfl, fun a' b' h => ?_⟩
          cases a' with
          | nil => exact absurd ⟨b', h.symm⟩ hpre
          | cons d a' => exact Nat.succ_le_succ (hfirst a' b' (List.cons.inj h).2)
        · rintro ⟨a, b, h, rfl, hfirst⟩
          cases a with
          | nil => exact absurd ⟨b, h.symm⟩ hpre
          | cons d a =>
              obtain ⟨rfl, rfl⟩ := List.cons.inj h
              refine ⟨a.length, ih.2 ⟨a, b, rfl, rfl, fun a' b' h' => ?_⟩, rfl⟩
              exact Nat.le_of_succ_le_succ (hfirst (c :: a') b' (congrArg (c :: ·) h'))

theorem find_eq_none_iff {pat cs : List Char} : find pat cs = none ↔ ¬pat <:+: cs := by
  induction cs with
  | nil => simp [find]
  | cons c cs ih =>
      rw [find, List.infix_cons_iff, not_or, ← ih]
      by_cases hpre : pat <+: c :: cs
      · rw [if_pos (List.isPrefixOf_iff_prefix.2 hpre)]
        exact iff_of_false (Option.some_ne_none _) fun h => h.1 hpre
      · rw [if_neg (fun h => hpre (List.isPrefixOf_iff_prefix.1 h)), Option.map_eq_none_iff,
          and_iff_right hpre]

theorem cStr_of_not_mem {str : String} (h : Char.ofNat 0 ∉ str.toList) : cStr str = str := by
  have htake : str.toList.takeWhile (· ≠ Char.ofNat 0) = str.toList :=
    List.takeWhile_eq_self_iff.2 fun c hc => decide_eq_true fun heq => h (heq ▸ hc)
  rw [cStr, htake, String.ofList_toList]

/-- Nothing is left of the zero character and of what follows it. -/
theorem not_mem_cStr (str : String) : Char.ofNat 0 ∉ (cStr str).toList := by
  intro h
  rw [cStr, String.toList_ofList] at h
  simpa using List.mem_takeWhile_imp h

/-- The length is implied by the comparison. -/
theorem startsWith_iff {str pre : String} :
    startsWith str pre = true ↔ (tolower pre).toList <+: (tolower str).toList := by
  rw [startsWith, Bool.and_eq_true, decide_eq_true_iff, List.isPrefixOf_iff_prefix]
  refine ⟨And.right, fun h => ⟨?_, h⟩⟩
  have := h.length_le
  rwa [toList_tolower, toList_tolower, List.length_map, List.length_map, String.length_toList,
    String.length_toList] at this

/-- Only letters are lowered, and only to letters. -/
theorem toLower_eq_iff {c : Char} (hc : c.isAlpha = false) (d : Char) : d.toLower = c ↔ d = c := by
  unfold Char.toLower
  split
  · rename_i h
    constructor
    all_goals
      rintro rfl
      change (decide (_ ∧ _) || decide _ && decide _) = false at hc
      simp only [UInt32.le_iff_toNat_le] at hc h
      simp at hc h
      omega
  · rfl

theorem mem_tolower_iff {c : Char} (hc : c.isAlpha = false) (s : String) :
    c ∈ (tolower s).toList ↔ c ∈ s.toList := by
  rw [toList_tolower, List.mem_map]
  exact ⟨fun ⟨d, hd, h⟩ => (toLower_eq_iff hc d).1 h ▸ hd, fun h => ⟨c, h, (toLower_eq_iff hc c).2 rfl⟩⟩

end Stringutils
end LibSwitcher
