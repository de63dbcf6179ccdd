/-
# Components of a string

A path names its components between separators, and empty ones do not count:
`a.b` and `.a..b.` have the components `a` and `b`.  `components sep` reads them
off, and what matters of a path built by concatenation follows from two facts: a
separator splits the components (`components_append_sep`), and a non-empty string
without separator is its own single component (`components_of_plain`).
-/

import Mathlib.Data.List.Basic

namespace Components

variable {sep : Char} {s t : String}

/-- The non-empty pieces of a string between separators. -/
def components (sep : Char) (s : String) : List String :=
  ((s.toList.splitOn sep).filter (· ≠ [])).map String.ofList

/-- A string that is one component. -/
def Plain (sep : Char) (s : String) : Prop := s ≠ "" ∧ sep ∉ s.toList

instance decidablePlain (sep : Char) (s : String) : Decidable (Plain sep s) :=
  inferInstanceAs (Decidable (_ ∧ _))

/-- A separator between two strings separates their components. -/
theorem components_append_sep (s : String) {d : String} (hd : d.toList = [sep]) (t : String) :
    components sep (s ++ d ++ t) = components sep s ++ components sep t := by
  unfold components
  rw [String.toList_append, String.toList_append, hd, List.append_assoc, List.singleton_append,
    List.splitOn_append_cons_self, List.filter_append, List.map_append]

/-- A string without separator has at most one component. -/
theorem components_of_not_mem (hs : sep ∉ s.toList) :
    components sep s = if s = "" then [] else [s] := by
  unfold components
  rw [List.splitOn_eq_singleton hs]
  split_ifs with h
  · subst h
    rfl
  · have hne : s.toList ≠ [] := by simpa using h
    rw [List.filter_cons_of_pos (by simpa using hne), List.filter_nil, List.map_singleton,
      String.ofList_toList]

/-- A non-empty string without separator is its own component. -/
theorem components_of_plain (hs : Plain sep s) : components sep s = [s] := by
  rw [components_of_not_mem hs.2, if_neg hs.1]

/-- Strings without separator are the components of some string. -/
theorem exists_components_eq {ss : List String} (h : ∀ t ∈ ss, Plain sep t) :
    ∃ s, components sep s = ss := by
  induction ss with
  | nil => exact ⟨"", by rw [components_of_not_mem (by simp), if_pos rfl]⟩
  | cons t ss ih =>
      obtain ⟨s, hs⟩ := ih fun t' ht' => h t' (List.mem_cons_of_mem _ ht')
      refine ⟨t ++ String.ofList [sep] ++ s, ?_⟩
      rw [components_append_sep t String.toList_ofList s, hs,
        components_of_plain (h t List.mem_cons_self), List.singleton_append]

/-- A piece between separators has none. -/
theorem not_mem_of_mem_splitOn {cs l : List Char} (hl : l ∈ cs.splitOn sep) : sep ∉ l := by
  induction cs generalizing l with
  | nil =>
      obtain rfl : l = [] := by simpa using hl
      exact List.not_mem_nil
  | cons c cs ih =>
      rw [List.splitOn_cons_eq_if_modifyHead] at hl
      split_ifs at hl with hc
      · rcases List.mem_cons.1 hl with rfl | hl
        · exact List.not_mem_nil
        · exact ih hl
      · obtain ⟨x, xs, hsplit⟩ := List.exists_cons_of_ne_nil (List.splitOn_ne_nil sep cs)
        rw [hsplit, List.modifyHead_cons] at hl
        rcases List.mem_cons.1 hl with rfl | hl
        · rw [List.mem_cons, not_or]
          exact ⟨fun h => hc (by simp [h]), ih (by rw [hsplit]; exact List.mem_cons_self)⟩
        · exact ih (by rw [hsplit]; exact List.mem_cons_of_mem _ hl)

/-- The first piece starts the text, and every piece is a part of it. -/
theorem infix_of_mem_splitOn {cs l : List Char} :
    (∀ ls, cs.splitOn sep = l :: ls → l <+: cs) ∧ (l ∈ cs.splitOn sep → l <:+: cs) := by
  induction cs generalizing l with
  | nil =>
      refine ⟨fun ls h => ?_, fun h => ?_⟩
      · obtain rfl : [] = l := (List.cons.inj h).1
        exact List.prefix_rfl
      · obtain rfl : l = [] := by simpa using h
        exact List.infix_rfl
  | cons c cs ih =>
      obtain ⟨x, xs, hsplit⟩ := List.exists_cons_of_ne_nil (List.splitOn_ne_nil sep cs)
      rw [List.splitOn_cons_eq_if_modifyHead]
      split_ifs with hc
      · refine ⟨fun ls h => ?_, fun h => ?_⟩
        · obtain rfl : [] = l := (List.cons.inj h).1
          exact List.nil_prefix
        · rcases List.mem_cons.1 h with rfl | h
          · exact List.nil_infix
          · exact List.infix_cons (ih.2 h)
      · rw [hsplit, List.modifyHead_cons]
        have hhead : c :: x <+: c :: cs := List.cons_prefix_cons.2 ⟨rfl, ih.1 xs hsplit⟩
        refine ⟨fun ls h => ?_, fun h => ?_⟩
        · rw [← (List.cons.inj h).1]
          exact hhead
        · rcases List.mem_cons.1 h with rfl | h
          · exact hhead.isInfix
          · exact List.infix_cons (ih.2 (by rw [hsplit]; exact List.mem_cons_of_mem _ h))

/-- A component is a part of the text. -/
theorem infix_of_mem (ht : t ∈ components sep s) : t.toList <:+: s.toList := by
  obtain ⟨l, hl, rfl⟩ := List.mem_map.1 ht
  rw [String.toList_ofList]
  exact infix_of_mem_splitOn.2 (List.mem_filter.1 hl).1

/-- A component is its own single component. -/
theorem plain_of_mem (ht : t ∈ components sep s) : Plain sep t := by
  obtain ⟨l, hl, rfl⟩ := List.mem_map.1 ht
  obtain ⟨hl, hne⟩ := List.mem_filter.1 hl
  constructor
  · simpa using hne
  · rw [String.toList_ofList]
    exact not_mem_of_mem_splitOn hl

/-- Separators at the end do not count. -/
theorem components_append_sep_empty (s : String) {d : String} (hd : d.toList = [sep]) :
    components sep (s ++ d) = components sep s := by
  have h := components_append_sep s hd ""
  rwa [String.append_empty, components_of_not_mem (s := "") (by simp), if_pos rfl,
    List.append_nil] at h

/-- The decimal text of a number is one component. -/
theorem plain_toString (hsep : sep.isDigit = false) (n : ℕ) : Plain sep (toString n) := by
  have hlist : (toString n).toList = Nat.toDigits 10 n := by
    change (Nat.repr n).toList = _
    rw [Nat.repr_eq_ofList_toDigits, String.toList_ofList]
  constructor
  · intro h
    rw [h] at hlist
    exact Nat.toDigits_ne_nil hlist.symm
  · intro h
    rw [hlist] at h
    have hdigit := Nat.isDigit_of_mem_toDigits (by decide) (by decide) h
    rw [hsep] at hdigit
    cases hdigit

/-- Numbers of one decimal text are equal. -/
theorem toString_inj {m n : ℕ} : toString m = toString n ↔ m = n := by
  refine ⟨fun h => ?_, fun h => by rw [h]⟩
  have h : Nat.repr m = Nat.repr n := h
  rw [Nat.repr_eq_ofList_toDigits, Nat.repr_eq_ofList_toDigits, String.ofList_inj] at h
  rw [← Nat.ofDigitChars_toDigits (b := 10) (n := m) (by decide) (by decide), h,
    Nat.ofDigitChars_toDigits (by decide) (by decide)]

end Components
