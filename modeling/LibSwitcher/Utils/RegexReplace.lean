/-
# Replacing with a format

`std::regex_replace` for a pattern without special characters.  What it puts in is not a text
but a format of ECMAScript: a `$` with what follows it may be a directive, that stands for the
match, for the text before or after it, for a group of the pattern or for a `$`.  The text that
a group stands for, which such a pattern does not have, is left to the library (`group`).  A
format without a directive (`Literal`) is put in as it is (`regexReplaceGo_eq`).
-/

import LibSwitcher.Utils.StringUtils

namespace LibSwitcher
namespace Stringutils

/-- A character that makes a directive of the `$` before it. -/
def startsDirective (c : Char) : Bool :=
  c = '$' || c = '&' || c = Char.ofNat 96 || c = Char.ofNat 39 || c.isDigit

variable (group : ℕ → List Char)

/-- What the directive stands for that a `$` before the text starts, and the number of its
characters after the `$`: a group has one digit, or two. -/
def directive (before matched after : List Char) : List Char → Option (List Char × ℕ)
  | [] => none
  | c :: cs =>
      if c = '$' then some (['$'], 1)
      else if c = '&' then some (matched, 1)
      else if c = Char.ofNat 96 then some (before, 1)
      else if c = Char.ofNat 39 then some (after, 1)
      else if c.isDigit then
        match cs.takeWhile Char.isDigit with
        | [] => some (group (readNat 10 [c]), 1)
        | d :: _ => some (group (readNat 10 [c, d]), 2)
      else none

/-- The format with its directives replaced; the first `skip` characters belong to a directive. -/
def formatGo (before matched after : List Char) : ℕ → List Char → List Char
  | _, [] => []
  | skip + 1, _ :: cs => formatGo before matched after skip cs
  | 0, c :: cs =>
      if c = '$' then
        match directive group before matched after cs with
        | some (out, n) => out ++ formatGo before matched after n cs
        | none => c :: formatGo before matched after 0 cs
      else c :: formatGo before matched after 0 cs

/-- The text with the matches of a pattern replaced, from the left; `before` is what was kept
since the last match, and the first `skip` characters belong to a match. -/
def regexReplaceGo (pat fmt : List Char) : List Char → ℕ → List Char → List Char
  | _, _, [] => []
  | before, skip + 1, _ :: cs => regexReplaceGo pat fmt before skip cs
  | before, 0, c :: cs =>
      if pat.isPrefixOf (c :: cs) then
        formatGo group before pat (List.drop pat.length (c :: cs)) 0 fmt ++
          regexReplaceGo pat fmt [] (pat.length - 1) cs
      else c :: regexReplaceGo pat fmt (before ++ [c]) 0 cs

/-- `std::regex_replace`, for a pattern without special characters. -/
def regexReplace (orig pat fmt : String) : String :=
  String.ofList (regexReplaceGo group pat.toList fmt.toList [] 0 orig.toList)

/-- A format without a directive. -/
def Literal (fmt : List Char) : Prop := ∀ c, ['$', c] <:+: fmt → startsDirective c = false

variable {group} {before matched after cs pat fmt : List Char} {c : Char}

theorem directive_eq_none (h : startsDirective c = false) :
    directive group before matched after (c :: cs) = none := by
  rw [startsDirective, Bool.or_eq_false_iff, Bool.or_eq_false_iff, Bool.or_eq_false_iff,
    Bool.or_eq_false_iff] at h
  obtain ⟨⟨⟨⟨hdollar, hand⟩, hbefore⟩, hafter⟩, hdigit⟩ := h
  rw [directive, if_neg (of_decide_eq_false hdollar), if_neg (of_decide_eq_false hand),
    if_neg (of_decide_eq_false hbefore), if_neg (of_decide_eq_false hafter), hdigit,
    if_neg Bool.false_ne_true]

theorem Literal.of_cons (h : Literal (c :: cs)) : Literal cs := fun d hd =>
  h d (hd.trans (List.suffix_cons c cs).isInfix)

theorem literal_of_not_mem (h : '$' ∉ fmt) : Literal fmt := fun _ hin =>
  absurd (hin.subset List.mem_cons_self) h

/-- A format without a directive stands for itself. -/
theorem formatGo_of_literal (h : Literal fmt) : formatGo group before matched after 0 fmt = fmt := by
  induction fmt with
  | nil => rfl
  | cons c cs ih =>
      rw [formatGo, ih h.of_cons]
      split_ifs with hc
      · have hnone : directive group before matched after cs = none := by
          cases cs with
          | nil => rfl
          | cons d cs =>
              refine directive_eq_none (h d ?_)
              rw [hc]
              exact (List.prefix_append ['$', d] cs).isInfix
        rw [hnone]
      · rfl

/-- A format without a directive is put in as it is, wherever the pattern occurs. -/
theorem regexReplaceGo_eq {skip : ℕ} (h : pat <:+: cs → Literal fmt) :
    regexReplaceGo group pat fmt before skip cs = replaceGo pat fmt skip cs := by
  induction cs generalizing before skip with
  | nil => cases skip <;> rfl
  | cons c cs ih =>
      have htail : pat <:+: cs → Literal fmt := fun hin =>
        h (hin.trans (List.suffix_cons c cs).isInfix)
      cases skip with
      | succ skip => rw [regexReplaceGo, replaceGo, ih htail]
      | zero =>
          rw [regexReplaceGo, replaceGo, ih htail, ih htail]
          split_ifs with hpre
          · rw [formatGo_of_literal (h (List.isPrefixOf_iff_prefix.1 hpre).isInfix)]
          · rfl

end Stringutils
end LibSwitcher
