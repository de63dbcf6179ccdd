/-
# Splitting a text

`stringutils::split_string` of `switcher/utils/string-utils.cpp`.  Without a maximum
the parts are those between the delimiters (`splitString_default`).  With a maximum
`m` the text is cut at its first `m - 1` delimiters, and if it has less of them what
follows the last one is not among the parts: `splitString_two` and
`splitString_three` say what the parts are for the maxima that the signalling uses.
-/

import LibSwitcher.Utils.StringUtils

namespace LibSwitcher
namespace Stringutils

/-- The loop of `split_string`: the parts that are cut from the rest of the text, as long as the
count of the parts is below the maximum by more than one.  What is left is a part if the count
is reached, or if there is no maximum. -/
def splitGo (delimiter : List Char) (unlimited : Bool) : ℕ → List Char → List (List Char)
  | 0, rest => [rest]
  | n + 1, rest =>
      match find delimiter rest with
      | some current =>
          rest.take current :: splitGo delimiter unlimited n (rest.drop (current + delimiter.length))
      | none => if unlimited then [rest] else []

/-- `stringutils::split_string`, for a delimiter that is not empty.  No maximum is
`std::string::npos`, and a maximum of zero is never reached: a text has less parts than
characters and one more. -/
def splitString (text delimiter : String) (max : Option ℕ) : List String :=
  let count := match max with
    | none | some 0 => text.length + 1
    | some (m + 1) => m
  (splitGo delimiter.toList max.isNone count text.toList).map String.ofList

/-- The first occurrence of a character. -/
theorem find_singleton {c : Char} {part : List Char} (rest : List Char) (h : c ∉ part) :
    find [c] (part ++ c :: rest) = some part.length := by
  refine find_eq_some_iff.2 ⟨part, rest, by simp, rfl, fun a' b' hab => ?_⟩
  by_contra hlt
  rw [Nat.not_le] at hlt
  have hget : (part ++ c :: rest)[a'.length]? = some c := by
    rw [hab, List.append_assoc, List.getElem?_append_right le_rfl, Nat.sub_self]
    rfl
  rw [List.getElem?_append_left hlt] at hget
  exact h (List.mem_of_getElem? hget)

theorem find_singleton_eq_none {c : Char} {text : List Char} (h : c ∉ text) :
    find [c] text = none :=
  find_eq_none_iff.2 fun hin => h (hin.subset (List.mem_singleton_self c))

/-- The part before the first delimiter. -/
theorem splitGo_append {c : Char} {part : List Char} (unlimited : Bool) (n : ℕ) (rest : List Char)
    (h : c ∉ part) :
    splitGo [c] unlimited (n + 1) (part ++ c :: rest) = part :: splitGo [c] unlimited n rest := by
  have hdrop : (part ++ c :: rest).drop (part.length + [c].length) = rest := by
    rw [← List.drop_drop, List.drop_left]
    rfl
  rw [splitGo, find_singleton rest h]
  dsimp only
  rw [List.take_left, hdrop]

theorem splitGo_of_not_mem {c : Char} {text : List Char} (unlimited : Bool) (n : ℕ)
    (h : c ∉ text) : splitGo [c] unlimited (n + 1) text = if unlimited then [text] else [] := by
  rw [splitGo, find_singleton_eq_none h]

/-- A loop that is not stopped by its count cuts the text at every delimiter. -/
theorem splitGo_unlimited {c : Char} {n : ℕ} {text : List Char} (h : text.length < n) :
    splitGo [c] true n text = text.splitOn c := by
  induction n generalizing text with
  | zero => exact absurd h (Nat.not_lt_zero _)
  | succ n ih =>
      by_cases hc : c ∈ text
      · obtain ⟨part, rest, rfl, hpart⟩ := List.eq_append_cons_of_mem hc
        have hrest : rest.length < n := by
          rw [List.length_append, List.length_cons] at h
          omega
        rw [splitGo_append true n rest hpart, ih hrest,
          List.splitOn_append_cons_self_of_not_mem hpart]
      · rw [splitGo_of_not_mem true n hc, if_pos rfl, List.splitOn_eq_singleton hc]

/-- Without a maximum, the text is cut at every delimiter. -/
theorem splitString_default (text : String) :
    splitString text " " none = (text.toList.splitOn ' ').map String.ofList := by
  have hlt : text.toList.length < text.length + 1 := by
    rw [String.length_toList]
    exact Nat.lt_succ_self _
  exact congrArg (List.map String.ofList) (splitGo_unlimited hlt)

/-- The fields of a text that is put together are found, if no field has a delimiter. -/
theorem splitString_intercalate {fields : List String} (hne : fields ≠ [])
    (h : ∀ field ∈ fields, ' ' ∉ field.toList) :
    splitString (" ".intercalate fields) " " none = fields := by
  have hchars : (" ".intercalate fields).toList = [' '].intercalate (fields.map String.toList) := by
    rw [String.toList_intercalate]
    rfl
  have hfields : ∀ part ∈ fields.map String.toList, ' ' ∉ part := by
    intro part hpart
    obtain ⟨field, hfield, rfl⟩ := List.mem_map.1 hpart
    exact h field hfield
  rw [splitString_default, hchars,
    List.splitOn_intercalate ' ' hfields (mt List.map_eq_nil_iff.1 hne), List.map_map]
  exact List.map_id'' (fun _ => String.ofList_toList) fields

/-- A text is cut in two at its first delimiter. -/
theorem splitString_two {a : String} (b : String) (ha : ' ' ∉ a.toList) :
    splitString (a ++ " " ++ b) " " (some 2) = [a, b] := by
  have hchars : (a ++ " " ++ b).toList = a.toList ++ ' ' :: b.toList := by
    rw [String.toList_append, String.toList_append, List.append_assoc]
    rfl
  change (splitGo [' '] false 1 (a ++ " " ++ b).toList).map String.ofList = [a, b]
  rw [hchars, splitGo_append false 0 _ ha, splitGo, List.map_cons, List.map_singleton,
    String.ofList_toList, String.ofList_toList]

/-- A text is cut in three at its first two delimiters. -/
theorem splitString_three {a b : String} (c : String) (ha : ' ' ∉ a.toList) (hb : ' ' ∉ b.toList) :
    splitString (a ++ " " ++ b ++ " " ++ c) " " (some 3) = [a, b, c] := by
  have hchars : (a ++ " " ++ b ++ " " ++ c).toList =
      a.toList ++ ' ' :: (b.toList ++ ' ' :: c.toList) := by
    simp only [String.toList_append, List.append_assoc]
    rfl
  change (splitGo [' '] false 2 (a ++ " " ++ b ++ " " ++ c).toList).map String.ofList = [a, b, c]
  rw [hchars, splitGo_append false 1 _ ha, splitGo_append false 0 _ hb, splitGo, List.map_cons,
    List.map_cons, List.map_singleton, String.ofList_toList, String.ofList_toList,
    String.ofList_toList]

/-- What is before the first delimiter, and what is behind it. -/
theorem exists_of_mem_toList {text : String} {c : Char} (h : c ∈ text.toList) :
    ∃ a b, text = a ++ String.singleton c ++ b ∧ c ∉ a.toList := by
  obtain ⟨a, b, hab, ha⟩ := List.eq_append_cons_of_mem h
  refine ⟨String.ofList a, String.ofList b, ?_, by rwa [String.toList_ofList]⟩
  rw [← String.toList_inj, String.toList_append, String.toList_append, String.toList_singleton,
    String.toList_ofList, String.toList_ofList, hab, List.append_assoc]
  rfl

/-- With a maximum of two, a text without a delimiter has no part at all. -/
theorem splitString_two_of_not_mem {text : String} (h : ' ' ∉ text.toList) :
    splitString text " " (some 2) = [] := by
  change (splitGo [' '] false 1 text.toList).map String.ofList = []
  rw [splitGo_of_not_mem false 0 h]
  rfl

/-- With a maximum of three, a text with less than two delimiters has at most one part. -/
theorem splitString_three_of_not_mem {text : String} (h : ' ' ∉ text.toList) :
    splitString text " " (some 3) = [] := by
  change (splitGo [' '] false 2 text.toList).map String.ofList = []
  rw [splitGo_of_not_mem false 1 h]
  rfl

theorem splitString_three_singleton {a b : String} (ha : ' ' ∉ a.toList) (hb : ' ' ∉ b.toList) :
    splitString (a ++ " " ++ b) " " (some 3) = [a] := by
  have hchars : (a ++ " " ++ b).toList = a.toList ++ ' ' :: b.toList := by
    rw [String.toList_append, String.toList_append, List.append_assoc]
    rfl
  change (splitGo [' '] false 2 (a ++ " " ++ b).toList).map String.ofList = [a]
  rw [hchars, splitGo_append false 1 _ ha, splitGo_of_not_mem false 0 hb, if_neg Bool.false_ne_true,
    List.map_singleton, String.ofList_toList]

end Stringutils
end LibSwitcher
