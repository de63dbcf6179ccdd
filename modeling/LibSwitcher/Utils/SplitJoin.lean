/-
# Joining the parts of a text

`stringutils::split_string` of `switcher/utils/string-utils.cpp` cuts a text at its first
delimiters, as many as the maximum allows.  The parts joined again are the text, unless a
maximum is given that the parts do not reach: what follows the last delimiter is a part
only of a text that is cut as often as the maximum allows, or without a maximum.  So the
last part of a text is lost exactly if the text has less than `max - 1` delimiters
(`splits_iff`).
-/

import LibSwitcher.Utils.SplitString

namespace LibSwitcher
namespace Stringutils

/-- The parameter `max` of `split_string`: `std::string::npos` is no maximum. -/
def maximum (max : UInt64) : Option ℕ := if max.toNat = 2 ^ 64 - 1 then none else some max.toNat

/-- The delimiters in a text, from the left and without overlap; the first `skip` characters
belong to a delimiter. -/
def countGo (pat : List Char) : ℕ → List Char → ℕ
  | _, [] => 0
  | skip + 1, _ :: cs => countGo pat skip cs
  | 0, c :: cs =>
      if pat.isPrefixOf (c :: cs) then countGo pat (pat.length - 1) cs + 1 else countGo pat 0 cs

/-- The number of the delimiters at which a text can be cut. -/
def delimiters (text delimiter : String) : ℕ := countGo delimiter.toList 0 text.toList

/-- Parts that are those of a text: joined they are the text, and the last one is among them.
There are not more than the maximum, and they have no delimiter, unless the maximum is
reached. -/
structure Splits (text delimiter : String) (max : Option ℕ) (parts : List String) : Prop where
  joined : delimiter.intercalate parts = text
  kept : parts ≠ []
  atMost : ∀ m ∈ max, parts.length ≤ m
  separated : (∀ m ∈ max, parts.length < m) → ∀ part ∈ parts, ¬delimiter.toList <:+: part.toList

variable {pat cs text : List Char} {unlimited : Bool} {i n : ℕ}

/-! ### Counting the delimiters -/

theorem countGo_skip (pat : List Char) (skip : ℕ) (cs : List Char) :
    countGo pat skip cs = countGo pat 0 (cs.drop skip) := by
  induction skip generalizing cs with
  | zero => rw [List.drop_zero]
  | succ skip ih =>
      cases cs with
      | nil => rw [List.drop_nil, countGo, countGo]
      | cons c cs => rw [countGo, ih, List.drop_succ_cons]

theorem countGo_of_find_eq_none (h : find pat cs = none) : countGo pat 0 cs = 0 := by
  induction cs with
  | nil => rfl
  | cons c cs ih =>
      rw [find] at h
      split_ifs at h with hpre
      rw [countGo, if_neg hpre, ih (Option.map_eq_none_iff.1 h)]

/-- The first delimiter, and those that follow it. -/
theorem countGo_of_find_eq_some (hpat : pat ≠ []) (h : find pat cs = some i) :
    countGo pat 0 cs = countGo pat 0 (cs.drop (i + pat.length)) + 1 := by
  induction cs generalizing i with
  | nil =>
      rw [find, if_neg hpat] at h
      exact absurd h (Option.some_ne_none i).symm
  | cons c cs ih =>
      rw [find] at h
      split_ifs at h with hpre
      · obtain rfl := Option.some.inj h
        have hlen : 0 + pat.length = pat.length - 1 + 1 := by
          have := List.length_pos_iff.2 hpat
          omega
        rw [countGo, if_pos hpre, countGo_skip, hlen, List.drop_succ_cons]
      · obtain ⟨j, hj, rfl⟩ := Option.map_eq_some_iff.1 h
        have hdrop : j + 1 + pat.length = j + pat.length + 1 := by omega
        rw [countGo, if_neg hpre, ih hj, hdrop, List.drop_succ_cons]

theorem countGo_le_length (pat : List Char) (skip : ℕ) (cs : List Char) :
    countGo pat skip cs ≤ cs.length := by
  induction cs generalizing skip with
  | nil => cases skip <;> exact le_rfl
  | cons c cs ih =>
      rw [List.length_cons]
      cases skip with
      | zero =>
          rw [countGo]
          split_ifs
          · exact Nat.succ_le_succ (ih _)
          · exact (ih 0).trans (Nat.le_succ _)
      | succ skip => exact (ih skip).trans (Nat.le_succ _)

/-! ### The parts -/

/-- What is before the first delimiter has none, and the text is put together again. -/
theorem find_spec (hpat : pat ≠ []) (h : find pat cs = some i) :
    cs.take i ++ (pat ++ cs.drop (i + pat.length)) = cs ∧ ¬pat <:+: cs.take i := by
  obtain ⟨a, b, rfl, rfl, hfirst⟩ := find_eq_some_iff.1 h
  have htake : (a ++ pat ++ b).take a.length = a := by rw [List.append_assoc, List.take_left]
  have hdrop : (a ++ pat ++ b).drop (a.length + pat.length) = b := by
    rw [← List.length_append, List.drop_left]
  rw [htake, hdrop]
  refine ⟨(List.append_assoc _ _ _).symm, ?_⟩
  rintro ⟨a', b', rfl⟩
  have hle := hfirst a' (b' ++ pat ++ b) (by simp only [List.append_assoc])
  have hpos := List.length_pos_iff.2 hpat
  rw [List.length_append, List.length_append] at hle
  omega

/-- A loop that the count stops has a part for each cut and what is left. -/
theorem length_splitGo_of_le (hpat : pat ≠ []) (h : n ≤ countGo pat 0 text) :
    (splitGo pat unlimited n text).length = n + 1 := by
  induction n generalizing text with
  | zero => rfl
  | succ n ih =>
      rw [splitGo]
      cases hf : find pat text with
      | none =>
          rw [countGo_of_find_eq_none hf] at h
          exact absurd h (Nat.not_succ_le_zero n)
      | some i =>
          rw [countGo_of_find_eq_some hpat hf] at h
          dsimp only
          rw [List.length_cons, ih (Nat.le_of_succ_le_succ h)]

theorem splitGo_ne_nil_of_le (hpat : pat ≠ []) (h : n ≤ countGo pat 0 text) :
    splitGo pat unlimited n text ≠ [] := by
  rw [← List.length_pos_iff, length_splitGo_of_le hpat h]
  exact Nat.succ_pos n

/-- Without a maximum there is always a part. -/
theorem splitGo_true_ne_nil (n : ℕ) (text : List Char) : splitGo pat true n text ≠ [] := by
  cases n with
  | zero => exact List.cons_ne_nil _ _
  | succ n =>
      rw [splitGo]
      cases find pat text with
      | none => exact List.cons_ne_nil _ _
      | some i => exact List.cons_ne_nil _ _

/-- Joined, the parts are the text, if what is left is among them. -/
theorem intercalate_splitGo (hpat : pat ≠ []) (h : n ≤ countGo pat 0 text ∨ unlimited = true) :
    pat.intercalate (splitGo pat unlimited n text) = text := by
  induction n generalizing text with
  | zero => exact List.intercalate_singleton
  | succ n ih =>
      rw [splitGo]
      cases hf : find pat text with
      | none =>
          rw [countGo_of_find_eq_none hf] at h
          obtain rfl := h.resolve_left (Nat.not_succ_le_zero n)
          exact List.intercalate_singleton
      | some i =>
          rw [countGo_of_find_eq_some hpat hf, Nat.succ_le_succ_iff] at h
          have hne : splitGo pat unlimited n (text.drop (i + pat.length)) ≠ [] := by
            obtain h | rfl := h
            · exact splitGo_ne_nil_of_le hpat h
            · exact splitGo_true_ne_nil _ _
          dsimp only
          rw [List.intercalate_cons_of_ne_nil hne, ih h, List.append_assoc, (find_spec hpat hf).1]

/-- No part has a delimiter, if the count does not stop the loop. -/
theorem not_infix_of_mem_splitGo (hpat : pat ≠ []) (h : countGo pat 0 text < n) :
    ∀ part ∈ splitGo pat unlimited n text, ¬pat <:+: part := by
  induction n generalizing text with
  | zero => exact absurd h (Nat.not_lt_zero _)
  | succ n ih =>
      intro part hpart
      rw [splitGo] at hpart
      cases hf : find pat text with
      | none =>
          rw [hf] at hpart
          dsimp only at hpart
          split_ifs at hpart
          · rw [List.mem_singleton.1 hpart]
            exact find_eq_none_iff.1 hf
          · exact absurd hpart List.not_mem_nil
      | some i =>
          rw [hf] at hpart
          rw [countGo_of_find_eq_some hpat hf] at h
          obtain rfl | hpart := List.mem_cons.1 hpart
          · exact (find_spec hpat hf).2
          · exact ih (Nat.lt_of_succ_lt_succ h) part hpart

/-- The part that a maximum that is not reached loses. -/
theorem splitGo_true_eq_append (hpat : pat ≠ []) (h : countGo pat 0 text < n) :
    ∃ last, splitGo pat true n text = splitGo pat false n text ++ [last] := by
  induction n generalizing text with
  | zero => exact absurd h (Nat.not_lt_zero _)
  | succ n ih =>
      rw [splitGo, splitGo]
      cases hf : find pat text with
      | none => exact ⟨text, rfl⟩
      | some i =>
          rw [countGo_of_find_eq_some hpat hf] at h
          obtain ⟨last, hlast⟩ := ih (Nat.lt_of_succ_lt_succ h)
          exact ⟨last, congrArg (text.take i :: ·) hlast⟩

/-! ### The text -/

variable {t delimiter : String} {parts : List (List Char)} {m : ℕ} {max : UInt64}

theorem toList_intercalate_ofList (delimiter : String) (parts : List (List Char)) :
    (delimiter.intercalate (parts.map String.ofList)).toList =
      delimiter.toList.intercalate parts := by
  rw [String.toList_intercalate, List.map_map]
  exact congrArg delimiter.toList.intercalate (List.map_id'' (fun _ => String.toList_ofList) parts)

/-- The parts of a loop that loses the last one do not make the text. -/
theorem intercalate_splitGo_ne (hpat : delimiter ≠ "") (h : delimiters t delimiter < n)
    (hne : splitGo delimiter.toList false n t.toList ≠ []) :
    delimiter.intercalate ((splitGo delimiter.toList false n t.toList).map String.ofList) ≠ t := by
  have hd : delimiter.toList ≠ [] := mt String.toList_eq_nil_iff.1 hpat
  obtain ⟨last, hlast⟩ := splitGo_true_eq_append hd h
  have hall : delimiter.intercalate
      ((splitGo delimiter.toList true n t.toList).map String.ofList) = t := by
    rw [← String.toList_inj, toList_intercalate_ofList, intercalate_splitGo hd (.inr rfl)]
  intro hjoined
  rw [hlast, List.map_append, List.map_singleton,
    String.intercalate_append_of_ne_nil (mt List.map_eq_nil_iff.1 hne) (List.cons_ne_nil _ _),
    hjoined] at hall
  have hlen := congrArg String.length hall
  rw [String.length_append, String.length_append, Nat.add_assoc, Nat.add_eq_left,
    Nat.add_eq_zero_iff] at hlen
  exact hpat (String.length_eq_zero_iff.1 hlen.1)

/-- Without a maximum, the parts are those of the text. -/
theorem splits_none (hpat : delimiter ≠ "") :
    Splits t delimiter none (splitString t delimiter none) := by
  have hd : delimiter.toList ≠ [] := mt String.toList_eq_nil_iff.1 hpat
  have hlt : countGo delimiter.toList 0 t.toList < t.length + 1 := by
    have := countGo_le_length delimiter.toList 0 t.toList
    rw [String.length_toList] at this
    exact Nat.lt_succ_of_le this
  refine ⟨?_, mt List.map_eq_nil_iff.1 (splitGo_true_ne_nil _ _), fun m hm => ?_,
    fun _ part hpart => ?_⟩
  · rw [← String.toList_inj]
    exact (toList_intercalate_ofList _ _).trans (intercalate_splitGo hd (.inr rfl))
  · exact absurd hm.symm (Option.some_ne_none m)
  · obtain ⟨part, hmem, rfl⟩ := List.mem_map.1 hpart
    rw [String.toList_ofList]
    exact not_infix_of_mem_splitGo hd hlt part hmem

/-- With a maximum, they are exactly if the text is cut as often as the maximum allows. -/
theorem splits_some_iff (hpat : delimiter ≠ "") :
    Splits t delimiter (some (m + 1)) (splitString t delimiter (some (m + 1))) ↔
      m ≤ delimiters t delimiter := by
  have hd : delimiter.toList ≠ [] := mt String.toList_eq_nil_iff.1 hpat
  have hsplit : splitString t delimiter (some (m + 1)) =
      (splitGo delimiter.toList false m t.toList).map String.ofList := rfl
  rw [hsplit]
  constructor
  · intro h
    by_contra hlt
    exact intercalate_splitGo_ne hpat (Nat.lt_of_not_le hlt) (mt List.map_eq_nil_iff.2 h.kept)
      h.joined
  · intro h
    have hlen : ((splitGo delimiter.toList false m t.toList).map String.ofList).length = m + 1 :=
      (List.length_map _).trans (length_splitGo_of_le hd h)
    refine ⟨?_, ?_, fun k hk => ?_, fun hlt => ?_⟩
    · rw [← String.toList_inj, toList_intercalate_ofList, intercalate_splitGo hd (.inl h)]
    · exact mt List.map_eq_nil_iff.1 (splitGo_ne_nil_of_le hd h)
    · exact (Option.some.inj hk) ▸ hlen.le
    · exact absurd (hlt _ rfl) (hlen ▸ lt_irrefl _)

/-- **The parts are those of the text** exactly if there is no maximum, or if the text has a
delimiter for each cut that the maximum allows. -/
theorem splits_iff (hpat : delimiter ≠ "") (hmax : max ≠ 0) :
    Splits t delimiter (maximum max) (splitString t delimiter (maximum max)) ↔
      max.toNat = 2 ^ 64 - 1 ∨ max.toNat ≤ delimiters t delimiter + 1 := by
  rw [maximum]
  split_ifs with hnpos
  · exact iff_of_true (splits_none hpat) (.inl hnpos)
  · obtain ⟨m, hm⟩ := Nat.exists_eq_succ_of_ne_zero fun h0 => hmax (UInt64.toNat_inj.1 h0)
    rw [hm] at hnpos ⊢
    rw [splits_some_iff hpat, or_iff_right hnpos, Nat.succ_le_succ_iff]

theorem splits_line : (" " ≠ "" ∧ (2 : UInt64) ≠ 0) ∧
    Splits "Line to split" " " (maximum 2) (splitString "Line to split" " " (maximum 2)) := by
  have hpat : " " ≠ "" := by decide
  have hmax : (2 : UInt64) ≠ 0 := by decide
  exact ⟨⟨hpat, hmax⟩, (splits_iff hpat hmax).2 (.inr (by decide))⟩

/-- The last word of three is lost if there could be four. -/
theorem not_splits_line : ¬(∀ (text delimiter : String) (max : UInt64), delimiter ≠ "" → max ≠ 0 →
    Splits text delimiter (maximum max) (splitString text delimiter (maximum max))) := by
  intro h
  exact absurd (h "Line to split" " " 4 (by decide) (by decide)).joined (by decide)

end Stringutils
end LibSwitcher
