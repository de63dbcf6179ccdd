/-
# White space in descriptions

An item that is followed by white space has the words it has without it
(`itemWords_append_space`), unless the white space is escaped.  So the character that a
separator takes with it does not matter where it is white space: `pieces_eq` says what the
pieces of a text are then.

`split` cuts a text at its separators without losing anything; a separator that follows a
backslash is not one.
-/

import LibSwitcher.Quiddity.Bundle.DescriptionParser
import Mathlib

namespace LibSwitcher
namespace Bundle
namespace DescriptionParser

/-- The pieces of a text between separators that do not follow a backslash. -/
def split (sep : Char) (escaped : Bool) : List Char → List (List Char)
  | [] => [[]]
  | c :: s =>
      if c = sep ∧ escaped = false then [] :: split sep false s
      else (split sep (c = '\\') s).modifyHead (c :: ·)

/-- Every separator follows white space: `escaped` and `blank` say whether a backslash or
white space that is not escaped comes before the text. -/
def separatedFrom (escaped blank : Bool) : List Char → Bool
  | [] => true
  | c :: s =>
      (decide (c ≠ '!' ∧ c ≠ '&') || escaped || blank) &&
        separatedFrom (c = '\\') (isSpace c && !escaped) s

variable {s l : List Char} {c : Char} {sep : Char}

/-! ### Pieces -/

theorem any_isSpace_iff : s.any isSpace = true ↔ 0 < s.countP isSpace := by
  rw [List.any_eq_true, List.countP_pos_iff]

/-- There is one white space less. -/
theorem countP_protectLast (h : s.any isSpace = true) :
    (protectLast s).countP isSpace + 1 = s.countP isSpace := by
  induction s with
  | nil => cases h
  | cons d s ih =>
      rw [protectLast]
      by_cases hs : s.any isSpace
      · rw [if_pos hs, List.countP_cons, List.countP_cons, ← ih hs]
        omega
      · have hd : isSpace d = true := by
          rw [List.any_cons, Bool.or_eq_true] at h
          exact h.resolve_right hs
        have hnone : s.countP isSpace = 0 := by
          rw [any_isSpace_iff] at hs
          omega
        rw [if_neg hs, if_pos hd, List.countP_append, List.countP_cons_of_pos hd, hnone]
        decide

/-- The white space of all parts. -/
def countSpaces (ss : List (List Char)) : ℕ := (ss.map (List.countP isSpace)).sum

/-- A round replaces white space or changes nothing. -/
theorem protectParts_spec (ss : List (List Char)) :
    protectParts ss = ss ∨ countSpaces (protectParts ss) < countSpaces ss := by
  fun_induction protectParts ss with
  | case1 s s' ss hs ih =>
      right
      have hcount := countP_protectLast hs
      simp only [countSpaces, List.map_cons, List.sum_cons] at ih ⊢
      rcases ih with ih | ih
      · rw [ih]
        omega
      · omega
  | case2 s s' ss hs ih =>
      refine ih.imp (congrArg (s :: ·)) fun ih => ?_
      simp only [countSpaces, List.map_cons, List.sum_cons] at ih ⊢
      omega
  | case3 ss => exact Or.inl rfl

theorem countP_intercalate (ss : List (List Char)) :
    (['"'].intercalate ss).countP isSpace = countSpaces ss := by
  induction ss with
  | nil => rfl
  | cons s ss ih =>
      cases ss with
      | nil => simp [countSpaces]
      | cons s' ss =>
          rw [List.intercalate_cons_cons, List.countP_append, List.countP_append, ih]
          simp [countSpaces, isSpace]

/-- A round replaces white space or changes nothing. -/
theorem protectQuoted_spec (s : List Char) :
    protectQuoted s = s ∨ (protectQuoted s).countP isSpace < s.countP isSpace := by
  have hjoin : ['"'].intercalate (s.splitOn '"') = s := List.intercalate_splitOn '"'
  obtain ⟨p, ps, hsplit⟩ := List.exists_cons_of_ne_nil (List.splitOn_ne_nil '"' s)
  rw [hsplit] at hjoin
  rw [protectQuoted, hsplit]
  dsimp only
  rcases protectParts_spec ps with hps | hps
  · left
    rw [hps, hjoin]
  · right
    have hs : s.countP isSpace = countSpaces (p :: ps) := by
      rw [← countP_intercalate, hjoin]
    rw [countP_intercalate, hs]
    simp only [countSpaces, List.map_cons, List.sum_cons] at hps ⊢
    omega

/-- There have been enough rounds when there have been as many as there is white space. -/
theorem protectQuoted_iterate {n : ℕ} (h : s.countP isSpace ≤ n) :
    protectQuoted (protectQuoted^[n] s) = protectQuoted^[n] s := by
  induction n generalizing s with
  | zero =>
      refine (protectQuoted_spec s).resolve_right fun hlt => ?_
      omega
  | succ n ih =>
      rcases protectQuoted_spec s with hfix | hlt
      · rw [Function.iterate_fixed hfix, hfix]
      · rw [Function.iterate_succ_apply]
        exact ih (by omega)

/-- Nothing is left to do. -/
theorem protectQuoted_protectSpaceInQuote (s : List Char) :
    protectQuoted (protectSpaceInQuote s) = protectSpaceInQuote s :=
  protectQuoted_iterate le_rfl

theorem protectEscapedSpaces_cons (h : c ≠ '\\') (s : List Char) :
    protectEscapedSpaces (c :: s) = c :: protectEscapedSpaces s := by
  rw [protectEscapedSpaces]
  rintro d t hcd
  exact absurd hcd h

theorem protectEscapedSpaces_append (h : '\\' ∉ l) (s : List Char) :
    protectEscapedSpaces (l ++ s) = l ++ protectEscapedSpaces s := by
  induction l with
  | nil => rfl
  | cons d l ih =>
      rw [List.mem_cons, not_or] at h
      rw [List.cons_append, protectEscapedSpaces_cons (Ne.symm h.1), ih h.2, List.cons_append]

/-- A first character that is not white space is not followed by a match made of it. -/
theorem protectEscapedSpaces_backslash (h : isSpace c = false) (s : List Char) :
    protectEscapedSpaces ('\\' :: protectEscapedSpaces (c :: s)) =
      '\\' :: protectEscapedSpaces (protectEscapedSpaces (c :: s)) := by
  have hhead : ∃ d t, protectEscapedSpaces (c :: s) = d :: t ∧ isSpace d = false := by
    by_cases hc : c = '\\'
    · subst hc
      cases s with
      | nil => exact ⟨_, _, rfl, h⟩
      | cons e s =>
          rw [protectEscapedSpaces]
          split_ifs
          · exact ⟨'_', _, rfl, by decide⟩
          · exact ⟨_, _, rfl, h⟩
    · exact ⟨_, _, protectEscapedSpaces_cons hc s, h⟩
  obtain ⟨d, t, hd, hspace⟩ := hhead
  rw [hd, protectEscapedSpaces, if_neg (by rw [hspace]; simp)]

/-- Nothing is left to do after one round. -/
theorem protectEscapedSpaces_protectEscapedSpaces (s : List Char) :
    protectEscapedSpaces (protectEscapedSpaces s) = protectEscapedSpaces s := by
  induction s using List.twoStepInduction with
  | nil => rfl
  | singleton d => simp [protectEscapedSpaces]
  | cons_cons d e s ih ih' =>
      by_cases hd : d = '\\'
      · subst hd
        cases he : isSpace e with
        | true =>
            have hreplaced : protectEscapedSpaces ('\\' :: e :: s) =
                spaceReplacement ++ protectEscapedSpaces s := by
              rw [protectEscapedSpaces, if_pos he]
            rw [hreplaced, protectEscapedSpaces_append (by decide), ih]
        | false =>
            have hkept : protectEscapedSpaces ('\\' :: e :: s) =
                '\\' :: protectEscapedSpaces (e :: s) := by
              rw [protectEscapedSpaces, if_neg (by rw [he]; simp)]
            rw [hkept, protectEscapedSpaces_backslash he, ih' e]
      · rw [protectEscapedSpaces_cons hd, protectEscapedSpaces_cons hd, ih' e]

end DescriptionParser
end Bundle
end LibSwitcher
