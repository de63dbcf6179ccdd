/-
# Markers for a character

`stringutils::replace_char` puts a marker where a text has some character, and
`stringutils::replace_string` takes the markers back.  The character is gone then, but a marker may
have been in the text already, or may be completed by the start of one that is put behind it: the text
is got back exactly if it has none of both (`unescaped_escaped_iff`).  Which texts a marker can complete
depends on how the marker overlaps with itself.
-/

import LibSwitcher.Utils.StringUtils
import Mathlib.Data.List.Infix

namespace LibSwitcher
namespace Stringutils

/-- The characters of a text with a marker for one of them. -/
def escaped (sep : Char) (mark cs : List Char) : List Char :=
  cs.flatMap fun c => if c = sep then mark else [c]

/-- The characters of a text with its markers taken back. -/
def unescaped (sep : Char) (mark cs : List Char) : List Char := replaceGo mark [sep] 0 cs

variable {sep c : Char} {mark cs w : List Char}

theorem toList_replaceChar_eq_escaped (s : String) (sep : Char) (replacement : String) :
    (replaceChar s sep replacement).toList = escaped sep replacement.toList s.toList :=
  String.toList_ofList

theorem replaceString_eq_unescaped (cs : List Char) (toReplace replacement : String)
    (h : replacement.toList = [sep]) :
    replaceString (String.ofList cs) toReplace replacement =
      String.ofList (unescaped sep toReplace.toList cs) := by
  rw [replaceString, String.toList_ofList, h]
  rfl

theorem escaped_append (cs cs' : List Char) :
    escaped sep mark (cs ++ cs') = escaped sep mark cs ++ escaped sep mark cs' :=
  List.flatMap_append ..

theorem escaped_cons_self (cs : List Char) :
    escaped sep mark (sep :: cs) = mark ++ escaped sep mark cs := by
  rw [escaped, List.flatMap_cons, if_pos rfl]
  rfl

theorem escaped_cons_of_ne (h : c ≠ sep) (cs : List Char) :
    escaped sep mark (c :: cs) = c :: escaped sep mark cs := by
  rw [escaped, List.flatMap_cons, if_neg h]
  rfl

theorem escaped_eq_nil_iff (h : mark ≠ []) : escaped sep mark cs = [] ↔ cs = [] := by
  cases cs with
  | nil => exact iff_of_true rfl rfl
  | cons c cs =>
      refine iff_of_false (fun hnil => ?_) (List.cons_ne_nil c cs)
      by_cases hc : c = sep
      · rw [hc, escaped_cons_self] at hnil
        exact h (List.append_eq_nil_iff.1 hnil).1
      · rw [escaped_cons_of_ne hc] at hnil
        exact List.cons_ne_nil _ _ hnil

/-- The character is gone, if the marker does not have it. -/
theorem not_mem_escaped (h : sep ∉ mark) (cs : List Char) : sep ∉ escaped sep mark cs := by
  induction cs with
  | nil => exact List.not_mem_nil
  | cons c cs ih =>
      by_cases hc : c = sep
      · rw [hc, escaped_cons_self, List.mem_append, not_or]
        exact ⟨h, ih⟩
      · rw [escaped_cons_of_ne hc, List.mem_cons, not_or]
        exact ⟨fun h => hc h.symm, ih⟩

/-- A text without the character stays as it is. -/
theorem escaped_of_not_mem (h : sep ∉ cs) : escaped sep mark cs = cs := by
  induction cs with
  | nil => rfl
  | cons c cs ih =>
      rw [List.mem_cons, not_or] at h
      rw [escaped_cons_of_ne (fun hc => h.1 hc.symm), ih h.2]

/-- A marker in front is taken back. -/
theorem unescaped_mark_append (h : mark ≠ []) (cs : List Char) :
    unescaped sep mark (mark ++ cs) = sep :: unescaped sep mark cs := by
  obtain ⟨m, ms, rfl⟩ := List.exists_cons_of_ne_nil h
  have hskip : ∀ ds : List Char,
      replaceGo (m :: ms) [sep] ds.length (ds ++ cs) = unescaped sep (m :: ms) cs := by
    intro ds
    induction ds with
    | nil => rfl
    | cons d ds ih => exact ih
  rw [unescaped, List.cons_append, replaceGo, if_pos]
  · exact congrArg (sep :: ·) (hskip ms)
  · rw [List.isPrefixOf_iff_prefix]
    exact List.prefix_append (m :: ms) cs

theorem unescaped_cons (h : ¬mark <+: c :: cs) :
    unescaped sep mark (c :: cs) = c :: unescaped sep mark cs := by
  rw [unescaped, replaceGo, if_neg]
  · rfl
  · rwa [List.isPrefixOf_iff_prefix]

/-! ### What starts with a marker -/

/-- What a text without the character and not longer than the marker is the start of: the text itself,
or the character behind the part of it that the marker does not make. -/
theorem prefix_escaped_iff (hsep : sep ∉ w) (hlength : w.length ≤ mark.length) :
    w <+: escaped sep mark cs ↔ w <+: cs ∨
      ∃ k < w.length, w.drop k <+: mark ∧ w.take k ++ [sep] <+: cs := by
  induction cs generalizing w with
  | nil =>
      refine ⟨Or.inl, fun h => h.resolve_right ?_⟩
      rintro ⟨k, -, -, h⟩
      exact absurd (List.prefix_nil.1 h) (List.append_ne_nil_of_right_ne_nil _ (List.cons_ne_nil _ _))
  | cons c cs ih =>
      cases w with
      | nil => exact iff_of_true List.nil_prefix (Or.inl List.nil_prefix)
      | cons d w =>
          rw [List.mem_cons, not_or] at hsep
          by_cases hc : c = sep
          · subst hc
            have hself : ¬d :: w <+: c :: cs := fun h =>
              hsep.1 (List.cons_prefix_cons.1 h).1.symm
            rw [escaped_cons_self, or_iff_right hself]
            constructor
            · intro h
              refine ⟨0, Nat.succ_pos _, ?_, List.prefix_append [c] cs⟩
              exact List.prefix_of_prefix_length_le h (List.prefix_append _ _) hlength
            · rintro ⟨k, -, hdrop, htake⟩
              cases k with
              | zero => exact hdrop.trans (List.prefix_append _ _)
              | succ k => exact absurd (List.cons_prefix_cons.1 htake).1.symm hsep.1
          · rw [escaped_cons_of_ne hc, List.cons_prefix_cons, List.cons_prefix_cons,
              ih hsep.2 (Nat.le_of_succ_le hlength)]
            constructor
            · rintro ⟨rfl, h | ⟨k, hk, hdrop, htake⟩⟩
              · exact Or.inl ⟨rfl, h⟩
              · exact Or.inr ⟨k + 1, Nat.succ_lt_succ hk, hdrop, List.cons_prefix_cons.2 ⟨rfl, htake⟩⟩
            · rintro (⟨rfl, h⟩ | ⟨k, hk, hdrop, htake⟩)
              · exact ⟨rfl, Or.inl h⟩
              · cases k with
                | zero => exact absurd (List.cons_prefix_cons.1 htake).1.symm hc
                | succ k =>
                    obtain ⟨hd, htake'⟩ := List.cons_prefix_cons.1 htake
                    exact ⟨hd, Or.inr ⟨k, Nat.lt_of_succ_lt_succ hk, hdrop, htake'⟩⟩

/-- A text that starts with a marker when the character is replaced, and not by its first one: the
marker, or a part of it that lacks what the marker starts with, and the character. -/
def Completed (sep : Char) (mark p : List Char) : Prop :=
  p = mark ∨ ∃ k < mark.length, k ≠ 0 ∧ mark.drop k <+: mark ∧ p = mark.take k ++ [sep]

theorem mark_prefix_escaped_iff (hsep : sep ∉ mark) (hc : c ≠ sep) (cs : List Char) :
    mark <+: escaped sep mark (c :: cs) ↔ ∃ p, Completed sep mark p ∧ p <+: c :: cs := by
  rw [prefix_escaped_iff hsep Nat.le.refl]
  constructor
  · rintro (h | ⟨k, hk, hdrop, htake⟩)
    · exact ⟨mark, Or.inl rfl, h⟩
    · refine ⟨_, Or.inr ⟨k, hk, ?_, hdrop, rfl⟩, htake⟩
      rintro rfl
      exact hc (List.cons_prefix_cons.1 htake).1.symm
  · rintro ⟨p, rfl | ⟨k, hk, -, hdrop, rfl⟩, h⟩
    · exact Or.inl h
    · exact Or.inr ⟨k, hk, hdrop, h⟩

/-- These texts are found by looking at each position of the marker. -/
theorem completed_iff_mem {p : List Char} {ps : List (List Char)}
    (hall : ∀ k < mark.length, k ≠ 0 → mark.drop k <+: mark → mark.take k ++ [sep] ∈ ps)
    (honly : ∀ p ∈ ps, ∃ k < mark.length, k ≠ 0 ∧ mark.drop k <+: mark ∧ p = mark.take k ++ [sep]) :
    Completed sep mark p ↔ p = mark ∨ p ∈ ps := by
  refine or_congr_right ⟨?_, honly p⟩
  rintro ⟨k, hk, hpos, hdrop, rfl⟩
  exact hall k hk hpos hdrop

/-- Such a text does not start with the character. -/
theorem not_completed_cons (hsep : sep ∉ mark) (hmark : mark ≠ []) (p : List Char) :
    ¬Completed sep mark (sep :: p) := by
  obtain ⟨m, ms, rfl⟩ := List.exists_cons_of_ne_nil hmark
  rw [List.mem_cons, not_or] at hsep
  rintro (h | ⟨k, -, hk, -, h⟩)
  · exact hsep.1 (List.cons.inj h).1
  · obtain ⟨k, rfl⟩ := Nat.exists_eq_succ_of_ne_zero hk
    exact hsep.1 (List.cons.inj h).1

theorem not_completed_nil (hmark : mark ≠ []) : ¬Completed sep mark [] := by
  rintro (h | ⟨k, -, -, -, h⟩)
  · exact hmark h.symm
  · exact absurd h.symm (List.append_ne_nil_of_right_ne_nil _ (List.cons_ne_nil _ _))

/-- **A text is got back** exactly if it has no marker, and none that the marker of the character
completes. -/
theorem unescaped_escaped_iff (hsep : sep ∉ mark) (hmark : mark ≠ []) (cs : List Char) :
    unescaped sep mark (escaped sep mark cs) = cs ↔ ∀ p, Completed sep mark p → ¬p <:+: cs := by
  induction cs with
  | nil =>
      refine iff_of_true rfl fun p hp h => ?_
      rw [List.infix_nil.1 h] at hp
      exact not_completed_nil hmark hp
  | cons c cs ih =>
      simp only [List.infix_cons_iff, not_or, imp_and, forall_and]
      by_cases hc : c = sep
      · subst hc
        rw [escaped_cons_self, unescaped_mark_append hmark, List.cons_inj_right, ih]
        refine (and_iff_right fun p hp h => ?_).symm
        cases p with
        | nil => exact not_completed_nil hmark hp
        | cons d p =>
            obtain ⟨rfl, -⟩ := List.cons_prefix_cons.1 h
            exact not_completed_cons hsep hmark p hp
      · by_cases hpre : mark <+: escaped sep mark (c :: cs)
        · refine iff_of_false (fun heq => hc ?_) fun h => ?_
          · obtain ⟨r, hr⟩ := hpre
            rw [← hr, unescaped_mark_append hmark] at heq
            exact (List.cons.inj heq).1.symm
          · obtain ⟨p, hp, hpre⟩ := (mark_prefix_escaped_iff hsep hc cs).1 hpre
            exact h.1 p hp hpre
        · have hnot : ∀ p, Completed sep mark p → ¬p <+: c :: cs := fun p hp h =>
            hpre ((mark_prefix_escaped_iff hsep hc cs).2 ⟨p, hp, h⟩)
          rw [escaped_cons_of_ne hc] at hpre ⊢
          rw [unescaped_cons hpre, List.cons_inj_right, ih, and_iff_right hnot]

/-! ### Parts of a text made of two -/

/-- A part of two texts is a part of one of them, or made of an end of the first and a start of the
second. -/
theorem infix_append_cases {u v : List Char} (h : w <:+: u ++ v) :
    w <:+: u ∨ w <:+: v ∨ ∃ k < w.length, k ≠ 0 ∧ w.take k <:+ u ∧ w.drop k <+: v := by
  obtain ⟨l, r, hlr⟩ := h
  rw [List.append_assoc] at hlr
  obtain ⟨a, rfl, ha⟩ | ⟨a, rfl, ha⟩ := List.append_eq_append_iff.1 hlr
  · obtain ⟨b, rfl, -⟩ | ⟨b, rfl, rfl⟩ := List.append_eq_append_iff.1 ha
    · exact Or.inl ⟨l, b, by rw [List.append_assoc]⟩
    · cases a with
      | nil => exact Or.inr (Or.inl ⟨[], r, rfl⟩)
      | cons d a =>
          cases b with
          | nil => exact Or.inl ⟨l, [], by rw [List.append_nil, List.append_nil]⟩
          | cons e b =>
              refine Or.inr (Or.inr ⟨(d :: a).length, ?_, Nat.succ_ne_zero _, ?_, ?_⟩)
              · rw [List.length_append]
                exact Nat.lt_add_of_pos_right (Nat.succ_pos _)
              · rw [List.take_left]
                exact List.suffix_append l _
              · rw [List.drop_left]
                exact List.prefix_append _ r
  · exact Or.inr (Or.inl ⟨a, r, by rw [List.append_assoc, ha]⟩)

/-- A part without a character of two texts with this character between them is a part of one of
them. -/
theorem infix_append_cons {u v : List Char} (hsep : sep ∉ w) (h : w <:+: u ++ sep :: v) :
    w <:+: u ∨ w <:+: v := by
  obtain h | h | ⟨k, hk, -, -, hdrop⟩ := infix_append_cases h
  · exact Or.inl h
  · refine (List.infix_cons_iff.1 h).elim (fun hpre => Or.inr ?_) Or.inr
    cases w with
    | nil => exact List.nil_infix
    | cons d w =>
        obtain ⟨rfl, -⟩ := List.cons_prefix_cons.1 hpre
        exact absurd List.mem_cons_self hsep
  · cases hw : w.drop k with
    | nil => exact absurd (List.drop_eq_nil_iff.1 hw) (Nat.not_le_of_lt hk)
    | cons d r =>
        rw [hw] at hdrop
        obtain ⟨rfl, -⟩ := List.cons_prefix_cons.1 hdrop
        exact absurd (List.mem_of_mem_drop (hw ▸ List.mem_cons_self)) hsep

end Stringutils
end LibSwitcher
