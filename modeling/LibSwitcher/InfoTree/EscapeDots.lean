/-
# Keys without dots

`InfoTree::escape_dots` puts `__DOT__` for the dots of a key, so that it is one component of a
path, and `InfoTree::unescape_dots` takes the markers back
(`switcher/infotree/information-tree.cpp`).

A key without the marker is not safe in general: a marker that a dot has become overlaps with what
stands around it, so that `__DOT.` and `.DOT__` become the same text, which is read back as the
second one only.  `escapes_iff` says which keys are read back and have a text of their own: those that
are not empty and in which no `DOT` stands between underscores or dots that make a marker of it.
-/

import LibSwitcher.InfoTree.InformationTree
import LibSwitcher.Utils.Escaping

namespace LibSwitcher
namespace InfoTree

open Stringutils

/-- A key does not contain the marker. -/
def NoMarker (s : String) : Prop := ¬"__DOT__".toList <:+: s.toList

/-- A key is read back, its text is one component of a path, and no other key without the marker has
this text. -/
structure Escapes (s : String) : Prop where
  readBack : unescapeDots (escapeDots s) = s
  component : components (escapeDots s) = [escapeDots s]
  own : ∀ t, NoMarker t → escapeDots t = escapeDots s → t = s

/-- What makes a marker of a `DOT` behind it, and in front of it. -/
def before : List String := ["__", ".", "._"]

/-- What makes a marker of a `DOT` in front of it. -/
def behind : List String := ["__", "_.", "."]

/-- No `DOT` of a key stands between two of these. -/
def Clear (s : String) : Prop :=
  ∀ a ∈ before, ∀ b ∈ behind, ¬(a ++ "DOT" ++ b).toList <:+: s.toList

variable {s t : String} {a b p cs x y : List Char}

/-- The characters of the marker. -/
def dotMark : List Char := "__DOT__".toList

theorem dot_not_mem_dotMark : '.' ∉ dotMark := by decide

theorem toList_escapeDots (s : String) : (escapeDots s).toList = escaped '.' dotMark s.toList :=
  toList_replaceChar_eq_escaped s '.' "__DOT__"

theorem unescapeDots_escapeDots (s : String) : unescapeDots (escapeDots s) =
    String.ofList (unescaped '.' dotMark (escaped '.' dotMark s.toList)) := by
  have hread := replaceString_eq_unescaped (escapeDots s).toList "__DOT__" "."
    (show ".".toList = ['.'] from rfl)
  rw [String.ofList_toList, toList_escapeDots] at hread
  exact hread

theorem escapeDots_inj : escapeDots t = escapeDots s ↔
    escaped '.' dotMark t.toList = escaped '.' dotMark s.toList := by
  rw [← String.toList_inj, toList_escapeDots, toList_escapeDots]

/-- The texts of which an escaped key starts with a marker. -/
theorem completed_iff : Completed '.' dotMark p ↔
    ∃ e ∈ behind, p = ("__DOT" ++ e).toList := by
  have hmem : Completed '.' dotMark p ↔ p = dotMark ∨ p ∈ ["__DOT_.".toList, "__DOT.".toList] :=
    completed_iff_mem (by decide) (by decide)
  rw [hmem]
  simp [behind, dotMark]

/-- A key is read back exactly if no marker is there or completed by a dot. -/
theorem readBack_iff (s : String) : unescapeDots (escapeDots s) = s ↔
    ∀ e ∈ behind, ¬("__DOT" ++ e).toList <:+: s.toList := by
  rw [unescapeDots_escapeDots, ← String.toList_inj, String.toList_ofList,
    unescaped_escaped_iff dot_not_mem_dotMark (by decide)]
  constructor
  · exact fun h e he => h _ (completed_iff.2 ⟨e, he, rfl⟩)
  · rintro h p hp
    obtain ⟨e, he, rfl⟩ := completed_iff.1 hp
    exact h e he

/-- The text of a key is one component of a path unless the key is empty. -/
theorem component_iff (s : String) : components (escapeDots s) = [escapeDots s] ↔ s ≠ "" := by
  have hdot : '.' ∉ (escapeDots s).toList := not_mem_replaceChar dot_not_mem_dotMark
  rw [components, Components.components_of_not_mem hdot]
  constructor
  · rintro h rfl
    exact absurd h (by decide)
  · intro hs
    refine if_neg fun hempty => hs ?_
    have hnil := congrArg String.toList hempty
    rw [toList_escapeDots] at hnil
    exact String.toList_inj.1 ((escaped_eq_nil_iff (by decide)).1 hnil)

/-! ### Keys that share no text -/

/-- What follows a dot in a key if its marker is the first half of another one. -/
theorem behind_of_escaped {e : String} (he : e ∈ ["", "_"])
    (h : (e ++ "DOT__").toList <+: escaped '.' dotMark cs) :
    ∃ b ∈ behind, (e ++ "DOT" ++ b).toList <+: cs := by
  simp only [List.mem_cons, List.not_mem_nil, or_false] at he
  obtain rfl | rfl := he
  · obtain h | ⟨k, hk, hdrop, htake⟩ := (prefix_escaped_iff (by decide) (by decide)).1 h
    · exact ⟨"__", by decide, h⟩
    · have hborders : ∀ k < ("" ++ "DOT__").toList.length,
          ("" ++ "DOT__").toList.drop k <+: dotMark → k = 3 ∨ k = 4 := by decide
      obtain rfl | rfl := hborders k hk hdrop
      · exact ⟨".", by decide, htake⟩
      · exact ⟨"_.", by decide, htake⟩
  · obtain h | ⟨k, hk, hdrop, htake⟩ := (prefix_escaped_iff (by decide) (by decide)).1 h
    · exact ⟨"__", by decide, h⟩
    · have hborders : ∀ k < ("_" ++ "DOT__").toList.length,
          ("_" ++ "DOT__").toList.drop k <+: dotMark → k = 4 ∨ k = 5 := by decide
      obtain rfl | rfl := hborders k hk hdrop
      · exact ⟨".", by decide, htake⟩
      · exact ⟨"_.", by decide, htake⟩

/-- A text without the marker that has the same text escaped as a key is this key, if no `DOT` of the
key stands between two parts of markers. -/
theorem eq_of_escaped_eq {ds : List Char}
    (hclear : ∀ a ∈ before, ∀ b ∈ behind, ¬(a ++ "DOT" ++ b).toList <:+: cs)
    (hmark : ¬dotMark <:+: ds) (h : escaped '.' dotMark ds = escaped '.' dotMark cs) : ds = cs := by
  have hne : dotMark ≠ [] := by decide
  induction cs generalizing ds with
  | nil => exact (escaped_eq_nil_iff hne).1 h
  | cons c cs ih =>
      cases ds with
      | nil => exact absurd ((escaped_eq_nil_iff hne).1 h.symm) (List.cons_ne_nil c cs)
      | cons d ds =>
          have hclear' : ∀ a ∈ before, ∀ b ∈ behind, ¬(a ++ "DOT" ++ b).toList <:+: cs :=
            fun a ha b hb hin => hclear a ha b hb (List.infix_cons hin)
          have hmark' : ¬dotMark <:+: ds := fun hin => hmark (List.infix_cons hin)
          by_cases hc : c = '.'
          · subst hc
            by_cases hd : d = '.'
            · subst hd
              rw [escaped_cons_self, escaped_cons_self, List.append_cancel_left_eq] at h
              rw [ih hclear' hmark' h]
            · -- the marker of the dot is made of characters and of the marker of a later dot
              rw [escaped_cons_self] at h
              have hpre : dotMark <+: escaped '.' dotMark (d :: ds) := h ▸ List.prefix_append _ _
              obtain ⟨p, hp, r, hr⟩ := (mark_prefix_escaped_iff dot_not_mem_dotMark hd ds).1 hpre
              obtain ⟨e, he, rfl⟩ := completed_iff.1 hp
              simp only [behind, List.mem_cons, List.not_mem_nil, or_false] at he
              rw [← hr, escaped_append] at h
              have hcancel : ∀ u v : List Char, dotMark ++ u = dotMark ++ v → u = v := fun u v =>
                List.append_cancel_left
              obtain rfl | rfl | rfl := he
              · exact absurd ⟨[], r, hr⟩ hmark
              · have hrest : ("_" ++ "DOT__").toList ++ escaped '.' dotMark r =
                    escaped '.' dotMark cs := hcancel _ _ h
                obtain ⟨b, hb, hin⟩ := behind_of_escaped (e := "_") (by decide) ⟨_, hrest⟩
                have hfront : ("._" ++ "DOT").toList = '.' :: ("_" ++ "DOT").toList := by decide
                refine absurd ?_ (hclear "._" (by decide) b hb)
                rw [String.toList_append, hfront, List.cons_append, ← String.toList_append]
                exact (List.cons_prefix_cons.2 ⟨rfl, hin⟩).isInfix
              · have hrest : ("" ++ "DOT__").toList ++ escaped '.' dotMark r =
                    escaped '.' dotMark cs := hcancel _ _ h
                obtain ⟨b, hb, hin⟩ := behind_of_escaped (e := "") (by decide) ⟨_, hrest⟩
                have hfront : ("." ++ "DOT").toList = '.' :: ("" ++ "DOT").toList := by decide
                refine absurd ?_ (hclear "." (by decide) b hb)
                rw [String.toList_append, hfront, List.cons_append, ← String.toList_append]
                exact (List.cons_prefix_cons.2 ⟨rfl, hin⟩).isInfix
          · by_cases hd : d = '.'
            · subst hd
              rw [escaped_cons_self] at h
              have hpre : dotMark <+: escaped '.' dotMark (c :: cs) := h ▸ List.prefix_append _ _
              obtain ⟨p, hp, hin⟩ := (mark_prefix_escaped_iff dot_not_mem_dotMark hc cs).1 hpre
              obtain ⟨e, he, rfl⟩ := completed_iff.1 hp
              exact absurd hin.isInfix (hclear "__" (by decide) e he)
            · rw [escaped_cons_of_ne hc, escaped_cons_of_ne hd] at h
              obtain ⟨hhead, htail⟩ := List.cons.inj h
              rw [hhead, ih hclear' hmark' htail]

/-- A part of a key whose text is also that of another part can't be exchanged for this one without
making a marker. -/
theorem infix_of_exchange {part part' : List Char} (h : Escapes s)
    (hs : x ++ part ++ y = s.toList) (hsame : escaped '.' dotMark part' = escaped '.' dotMark part)
    (hne : part' ≠ part) : dotMark <:+: x ++ part' ++ y := by
  by_contra hmark
  have hno : NoMarker (String.ofList (x ++ part' ++ y)) := by
    change ¬dotMark <:+: (String.ofList (x ++ part' ++ y)).toList
    rwa [String.toList_ofList]
  have hown := h.own _ hno (by
    rw [escapeDots_inj, String.toList_ofList, ← hs, escaped_append, escaped_append, escaped_append,
      escaped_append, hsame])
  rw [← String.toList_inj, String.toList_ofList, ← hs] at hown
  exact hne (List.append_cancel_left (List.append_cancel_right hown))

/-- What makes no marker of the end of a marker in front of a dot. -/
theorem not_infix_append_left {e : List Char} (he : e = [] ∨ e = ['_'])
    (hback : ∀ e ∈ behind, ¬("__DOT" ++ e).toList <:+: x ++ '.' :: y)
    (hmark : ¬dotMark <:+: x) : ¬dotMark <:+: x ++ ("__DOT".toList ++ e) := by
  intro h
  have hshort : ¬dotMark <:+: "__DOT".toList ++ e := fun h => by
    have hle := h.length_le
    rw [List.length_append] at hle
    rcases he with rfl | rfl
    · exact absurd hle (by decide)
    · exact absurd hle (by decide)
  have hborders : ∀ k < dotMark.length, k ≠ 0 → dotMark.drop k <+: "__DOT".toList ++ e →
      k = 5 ∨ k = 6 := by
    rcases he with rfl | rfl
    · decide
    · decide
  obtain h | h | ⟨k, hk, hpos, ⟨l, hl⟩, hdrop⟩ := infix_append_cases h
  · exact hmark h
  · exact hshort h
  · subst hl
    obtain rfl | rfl := hborders k hk hpos hdrop
    · refine hback "." (by decide) ⟨l, y, ?_⟩
      rw [List.append_assoc, List.append_assoc]
      rfl
    · refine hback "_." (by decide) ⟨l, y, ?_⟩
      rw [List.append_assoc, List.append_assoc]
      rfl

/-- In a key that has a text of its own, no dot stands in front of a `DOT` that is followed by
underscores. -/
theorem not_infix_dot_of_escapes (hmark : ¬dotMark <:+: s.toList) (h : Escapes s) {e : List Char}
    (he : e = [] ∨ e = ['_']) : ¬ '.' :: e ++ "DOT__".toList <:+: s.toList := by
  have hback := (readBack_iff s).1 h.readBack
  rintro ⟨x, y, hs⟩
  have hsame : escaped '.' dotMark (("__DOT".toList ++ e) ++ ['.']) =
      escaped '.' dotMark ('.' :: e ++ "DOT__".toList) := by
    rcases he with rfl | rfl <;> decide
  have hne : ("__DOT".toList ++ e) ++ ['.'] ≠ '.' :: e ++ "DOT__".toList := by
    rcases he with rfl | rfl <;> decide
  have hinfix := infix_of_exchange h hs hsame hne
  have hsplit : s.toList = x ++ '.' :: (e ++ "DOT__".toList ++ y) := by
    rw [← hs, List.append_assoc]
    rfl
  rw [hsplit] at hback hmark
  have hleft : ¬dotMark <:+: x ++ ("__DOT".toList ++ e) :=
    not_infix_append_left he hback fun hx => hmark (hx.trans (List.infix_append [] x _))
  have hcut : x ++ (("__DOT".toList ++ e) ++ ['.']) ++ y = x ++ ("__DOT".toList ++ e) ++ '.' :: y := by
    simp only [List.append_assoc, List.singleton_append]
  rw [hcut] at hinfix
  rcases infix_append_cons dot_not_mem_dotMark hinfix with hin | hin
  · exact hleft hin
  · refine hmark (hin.trans ?_)
    exact ((List.suffix_append _ y).trans (List.suffix_cons '.' _)).isInfix.trans
      (List.suffix_append x _).isInfix

/-- What makes no marker of the start of a marker behind a dot. -/
theorem not_infix_append_right {e : List Char} (he : e = [] ∨ e = ['_'])
    (hdots : ∀ e, e = [] ∨ e = ['_'] → ¬ '.' :: e ++ "DOT__".toList <:+: x ++ '.' :: y)
    (hmark : ¬dotMark <:+: y) : ¬dotMark <:+: e ++ "DOT__".toList ++ y := by
  intro h
  have hshort : ¬dotMark <:+: e ++ "DOT__".toList := fun h => by
    have hle := h.length_le
    rw [List.length_append] at hle
    rcases he with rfl | rfl
    · exact absurd hle (by decide)
    · exact absurd hle (by decide)
  have hborders : ∀ k < dotMark.length, k ≠ 0 → dotMark.take k <:+ e ++ "DOT__".toList →
      k = 1 ∨ k = 2 := by
    rcases he with rfl | rfl
    · decide
    · decide
  obtain h | h | ⟨k, hk, hpos, htake, ⟨r, hr⟩⟩ := infix_append_cases h
  · exact hshort h
  · exact hmark h
  · subst hr
    obtain rfl | rfl := hborders k hk hpos htake
    · exact hdots ['_'] (Or.inr rfl) ⟨x, r, List.append_assoc _ _ _⟩
    · exact hdots [] (Or.inl rfl) ⟨x, r, List.append_assoc _ _ _⟩

/-- And no `DOT` stands between two dots. -/
theorem not_infix_dots_of_escapes (hmark : ¬dotMark <:+: s.toList) (h : Escapes s)
    {e e' : List Char} (he : e = [] ∨ e = ['_']) (he' : e' = [] ∨ e' = ['_']) :
    ¬ '.' :: e ++ ("DOT".toList ++ e' ++ ['.']) <:+: s.toList := by
  have hback := (readBack_iff s).1 h.readBack
  have hdots : ∀ e, e = [] ∨ e = ['_'] → ¬ '.' :: e ++ "DOT__".toList <:+: s.toList :=
    fun e he => not_infix_dot_of_escapes hmark h he
  rintro ⟨x, y, hs⟩
  have hsame : escaped '.' dotMark (("__DOT".toList ++ e) ++ '.' :: (e' ++ "DOT__".toList)) =
      escaped '.' dotMark ('.' :: e ++ ("DOT".toList ++ e' ++ ['.'])) := by
    rcases he with rfl | rfl <;> rcases he' with rfl | rfl <;> decide
  have hne : ("__DOT".toList ++ e) ++ '.' :: (e' ++ "DOT__".toList) ≠
      '.' :: e ++ ("DOT".toList ++ e' ++ ['.']) := by
    rcases he with rfl | rfl <;> rcases he' with rfl | rfl <;> decide
  have hinfix := infix_of_exchange h hs hsame hne
  have hfirst : s.toList = x ++ '.' :: (e ++ ("DOT".toList ++ e' ++ ['.']) ++ y) := by
    rw [← hs, List.append_assoc]
    rfl
  have hlast : s.toList = (x ++ '.' :: (e ++ ("DOT".toList ++ e'))) ++ '.' :: y := by
    rw [hfirst]
    simp only [List.append_assoc, List.cons_append, List.nil_append]
  have hleft : ¬dotMark <:+: x ++ ("__DOT".toList ++ e) := by
    rw [hfirst] at hback hmark
    exact not_infix_append_left he hback fun hx => hmark (hx.trans (List.infix_append [] x _))
  have hright : ¬dotMark <:+: e' ++ "DOT__".toList ++ y := by
    rw [hlast] at hdots hmark
    refine not_infix_append_right he' hdots fun hy => hmark (hy.trans ?_)
    exact (List.suffix_cons '.' y).isInfix.trans (List.suffix_append _ _).isInfix
  have hcut : x ++ (("__DOT".toList ++ e) ++ '.' :: (e' ++ "DOT__".toList)) ++ y =
      x ++ ("__DOT".toList ++ e) ++ '.' :: (e' ++ "DOT__".toList ++ y) := by
    simp only [List.append_assoc, List.cons_append]
  rw [hcut] at hinfix
  exact (infix_append_cons dot_not_mem_dotMark hinfix).elim hleft hright

/-- A key that is escaped as it should be is clear. -/
theorem clear_of_escapes (hmark : ¬dotMark <:+: s.toList) (h : Escapes s) : Clear s := by
  have hback := (readBack_iff s).1 h.readBack
  have hdot : ∀ e, e = [] ∨ e = ['_'] → ¬ '.' :: e ++ "DOT__".toList <:+: s.toList :=
    fun e he => not_infix_dot_of_escapes hmark h he
  have hdots : ∀ e e', e = [] ∨ e = ['_'] → e' = [] ∨ e' = ['_'] →
      ¬ '.' :: e ++ ("DOT".toList ++ e' ++ ['.']) <:+: s.toList :=
    fun e e' he he' => not_infix_dots_of_escapes hmark h he he'
  intro a ha b hb
  simp only [before, List.mem_cons, List.not_mem_nil, or_false] at ha
  obtain rfl | rfl | rfl := ha
  · exact hback b hb
  · simp only [behind, List.mem_cons, List.not_mem_nil, or_false] at hb
    obtain rfl | rfl | rfl := hb
    · exact hdot [] (Or.inl rfl)
    · exact hdots [] ['_'] (Or.inl rfl) (Or.inr rfl)
    · exact hdots [] [] (Or.inl rfl) (Or.inl rfl)
  · simp only [behind, List.mem_cons, List.not_mem_nil, or_false] at hb
    obtain rfl | rfl | rfl := hb
    · exact hdot ['_'] (Or.inr rfl)
    · exact hdots ['_'] ['_'] (Or.inr rfl) (Or.inr rfl)
    · exact hdots ['_'] [] (Or.inr rfl) (Or.inl rfl)

/-- **A key without the marker is escaped as it should be** exactly if it is not empty and no `DOT` in it
stands between two parts that make a marker of it. -/
theorem escapes_iff (h : NoMarker s) : Escapes s ↔ s ≠ "" ∧ Clear s := by
  constructor
  · exact fun hs => ⟨(component_iff s).1 hs.component, clear_of_escapes h hs⟩
  · rintro ⟨hempty, hclear⟩
    refine ⟨(readBack_iff s).2 (hclear "__" (by decide)), (component_iff s).2 hempty, ?_⟩
    intro t ht hsame
    exact String.toList_inj.1 (eq_of_escaped_eq hclear ht (escapeDots_inj.1 hsame))

instance decidableNoMarker (s : String) : Decidable (NoMarker s) :=
  inferInstanceAs (Decidable (¬_ <:+: _))

instance decidableClear (s : String) : Decidable (Clear s) :=
  inferInstanceAs (Decidable (∀ a ∈ before, ∀ b ∈ behind, _))

/-- A key with dots and underscores. -/
theorem escapes_underscores : Escapes "__DO.T._" :=
  (escapes_iff (by decide)).2 (by decide)

/-- Two keys without the marker share a text, one of which is not read back. -/
theorem not_escapes_dot : NoMarker "__DOT." ∧ NoMarker ".DOT__" ∧
    escapeDots "__DOT." = escapeDots ".DOT__" ∧ ¬Escapes "__DOT." ∧ ¬Escapes ".DOT__" := by
  refine ⟨by decide, by decide, by decide, fun h => ?_, fun h => ?_⟩
  · exact absurd h.readBack (by decide)
  · exact absurd (h.own "__DOT." (by decide) (by decide)) (by decide)

end InfoTree
end LibSwitcher
