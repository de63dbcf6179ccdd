/-
# Selections

`switcher/quiddity/property/selection.hpp`, `types.hpp` and `property.hpp`: a selection is a list of
names and the index of the current one.  A property that is a selection is set by a text, which is
an index if it starts with a digit or a minus and a name otherwise.  An index that is too large is
refused, a name that is not in the list leaves the current entry, but the call succeeds.

So names that look like numbers are not found, texts that only start like an index select something, and
other texts that select nothing do not fail.  `selects_iff` says which texts do as they should; the
current index is always one of the list.
-/

import LibSwitcher.Utils.IntegerText

namespace LibSwitcher

open Serialize

/-- `IndexOrName`. -/
structure IndexOrName where
  index : ℕ
  name : String
  isIndex : Bool

namespace IndexOrName

/-- The constructor with an index. -/
def ofIndex (idx : ℕ) : IndexOrName := ⟨idx, "", true⟩

/-- The constructor with a name. -/
def ofName (str : String) : IndexOrName := ⟨0, str, false⟩

/-- `from_string`. -/
def fromString (str : String) : IndexOrName :=
  if !startsNumber str then ofName str else ofIndex (readULong str.toList).val

/-- `is_valid_` of the specification of a selection with this largest index. -/
def isValid (max : ℕ) (ion : IndexOrName) : Bool := !(ion.isIndex && decide (max < ion.index))

end IndexOrName

/-- A `Selection`: the names, and the index of the current one. -/
structure Selection where
  list : List String
  currentSelection : ℕ
  deriving DecidableEq

namespace Selection

/-- `get_name_index`. -/
def getNameIndex (name : String) (s : Selection) : ℕ := (s.list.idxOf? name).getD s.currentSelection

/-- `select`. -/
def select (newSelection : IndexOrName) (s : Selection) : Selection :=
  if newSelection.isIndex then { s with currentSelection := newSelection.index }
  else { s with currentSelection := s.getNameIndex newSelection.name }

/-- The largest index that the property accepts, `size() - 1`. -/
def maxIndex (s : Selection) : ℕ := (s.list.length + (2 ^ 64 - 1)) % 2 ^ 64

/-- `Property::set`, where the setter selects. -/
def set (val : IndexOrName) (s : Selection) : Selection × Bool :=
  if !val.isValid s.maxIndex then (s, false) else (s.select val, true)

/-- `Property::set_str`: every text is read. -/
def setStr (val : String) (s : Selection) : Selection × Bool := s.set (IndexOrName.fromString val)

/-- A selection of different names, one of which is the current one. -/
structure Valid (s : Selection) : Prop where
  nodup : s.list.Nodup
  length_lt : s.list.length < 2 ^ 64
  current_lt : s.currentSelection < s.list.length

/-- The text is an index in decimal digits. -/
def IsIndex (str : String) (i : ℕ) : Prop :=
  str.toList ≠ [] ∧ (∀ c ∈ str.toList, c.isDigit = true) ∧ i = Nat.ofDigitChars 10 str.toList 0

/-- What setting a selection by a text should do: select the entry with this name; or else the entry
with this index; or else fail and select nothing. -/
structure Selects (s : Selection) (str : String) (r : Selection × Bool) : Prop where
  name : ∀ i, s.list[i]? = some str → r.1 = { s with currentSelection := i }
  index : str ∉ s.list → ∀ i, IsIndex str i → i < s.list.length →
    r.1 = { s with currentSelection := i }
  other : str ∉ s.list → (∀ i, IsIndex str i → s.list.length ≤ i) → r = (s, false)

/-- The number that a text starts with. -/
def leadingIndex (str : String) : ℕ := (readULong str.toList).val

/-- The condition on a text.  If it starts like a number and is a name, the number is the index of the
name, or refused while the name is the current one; if it is not a name, it consists of digits,
or the number is refused.  If it does not start like a number, it is a name. -/
def SetOk (s : Selection) (str : String) : Prop :=
  if startsNumber str then
    if str ∈ s.list then
      s.list[if leadingIndex str < s.list.length then leadingIndex str else s.currentSelection]? =
        some str
    else (∃ i, IsIndex str i) ∨ s.list.length ≤ leadingIndex str
  else str ∈ s.list

variable {s : Selection} {str : String}

/-! ### Setting by a text -/

/-- The index that a text denotes is the number that it starts with, unless this is too large. -/
theorem IsIndex.leadingIndex {i : ℕ} (h : IsIndex str i) :
    startsNumber str = true ∧ Selection.leadingIndex str = min i (2 ^ 64 - 1) := by
  obtain ⟨hne, hdigits, rfl⟩ := h
  refine ⟨Denotes.startsNumber ⟨_, hne, hdigits, Or.inl ⟨rfl, rfl⟩⟩, ?_⟩
  rw [Selection.leadingIndex, readULong, if_neg (head?_ne_minus hdigits),
    ← readDecimal_of_digits hdigits]

theorem Valid.maxIndex (h : s.Valid) : s.maxIndex = s.list.length - 1 := by
  have hlt := h.length_lt
  have hpos := h.current_lt
  rw [Selection.maxIndex]
  omega

/-- A text that starts like a number is an index. -/
theorem Valid.setStr_number (h : s.Valid) (hstart : startsNumber str = true) :
    s.setStr str = if leadingIndex str < s.list.length
      then ({ s with currentSelection := leadingIndex str }, true) else (s, false) := by
  have hpos := h.current_lt
  have hread : IndexOrName.fromString str = IndexOrName.ofIndex (leadingIndex str) := by
    rw [IndexOrName.fromString, hstart]
    rfl
  rw [setStr, hread, set, IndexOrName.isValid, h.maxIndex]
  by_cases hlt : leadingIndex str < s.list.length
  · have hvalid : decide (s.list.length - 1 < leadingIndex str) = false := by
      rw [decide_eq_false_iff_not]
      omega
    rw [if_pos hlt, IndexOrName.ofIndex, hvalid]
    rfl
  · have hvalid : decide (s.list.length - 1 < leadingIndex str) = true := by
      rw [decide_eq_true_eq]
      omega
    rw [if_neg hlt, IndexOrName.ofIndex, hvalid]
    rfl

/-- Any other text is a name, and the call succeeds. -/
theorem setStr_name (hstart : ¬startsNumber str = true) :
    s.setStr str = ({ s with currentSelection := s.getNameIndex str }, true) := by
  have hread : IndexOrName.fromString str = IndexOrName.ofName str := by
    rw [IndexOrName.fromString, Bool.eq_false_iff.2 hstart]
    rfl
  rw [setStr, hread]
  rfl

/-- A name that is in the list has the index of its place. -/
theorem Valid.getNameIndex_eq (h : s.Valid) {i : ℕ} (hi : s.list[i]? = some str) :
    s.getNameIndex str = i := by
  obtain ⟨hlt, hget⟩ := List.getElem?_eq_some_iff.1 hi
  have hidx : s.list.idxOf? str = some i := by
    rw [List.idxOf?_eq_some_iff]
    refine ⟨hlt, hget, fun j hj heq => ?_⟩
    have hinj := (List.getElem_inj h.nodup).1 (heq.trans hget.symm)
    omega
  rw [getNameIndex, hidx]
  rfl

/-- A text of digits that is no name is read as its index, and any other is not. -/
theorem Valid.selects_number_iff (h : s.Valid) (hstart : startsNumber str = true)
    (hname : str ∉ s.list) : Selects s str (s.setStr str) ↔
      (∃ i, IsIndex str i) ∨ s.list.length ≤ leadingIndex str := by
  have hlength := h.length_lt
  have hleading {i : ℕ} (hi : IsIndex str i) : (i < s.list.length ∧ leadingIndex str = i) ∨
      (s.list.length ≤ i ∧ s.list.length ≤ leadingIndex str) := by
    have hread := hi.leadingIndex.2
    omega
  rw [h.setStr_number hstart]
  constructor
  · intro hselects
    by_contra hbad
    rw [not_or, not_exists, not_le] at hbad
    have hother := hselects.other hname fun i hi => absurd hi (hbad.1 i)
    rw [if_pos hbad.2] at hother
    exact Bool.noConfusion (congrArg Prod.snd hother)
  · intro hor
    refine ⟨fun i hi => absurd (List.mem_of_getElem? hi) hname, fun _ i hi hlt => ?_,
      fun _ hnone => ?_⟩
    · obtain ⟨-, heq⟩ | ⟨hle, -⟩ := hleading hi
      · rw [heq, if_pos hlt]
      · omega
    · rw [if_neg]
      obtain ⟨i, hi⟩ | hle := hor
      · have hle := hnone i hi
        obtain ⟨hlt, -⟩ | ⟨-, hle⟩ := hleading hi
        · omega
        · exact not_lt.2 hle
      · exact not_lt.2 hle

/-- A name that starts like a number is found if the number is its index, or is refused while the name
is the current one. -/
theorem Valid.selects_numberName_iff (h : s.Valid) (hstart : startsNumber str = true)
    (hname : str ∈ s.list) : Selects s str (s.setStr str) ↔
      s.list[if leadingIndex str < s.list.length then leadingIndex str else s.currentSelection]? =
        some str := by
  obtain ⟨k, hk, hget⟩ := List.getElem_of_mem hname
  have hk? : s.list[k]? = some str := List.getElem?_eq_some_iff.2 ⟨hk, hget⟩
  have hplace {i : ℕ} (hi : s.list[i]? = some str) : i = k :=
    (h.getNameIndex_eq hi).symm.trans (h.getNameIndex_eq hk?)
  have hselects {r : Selection × Bool} :
      Selects s str r ↔ r.1 = { s with currentSelection := k } :=
    ⟨fun hselects => hselects.name k hk?, fun hr => ⟨fun i hi => hplace hi ▸ hr,
      fun hnot => absurd hname hnot, fun hnot => absurd hname hnot⟩⟩
  have hiff (i : ℕ) : s.list[i]? = some str ↔ i = k := ⟨hplace, fun heq => heq ▸ hk?⟩
  rw [hselects, h.setStr_number hstart, hiff]
  split_ifs with hlt
  · exact Selection.mk.injEq _ _ _ _ ▸ and_iff_right rfl
  · exact Selection.mk.injEq _ _ _ _ ▸ and_iff_right rfl

/-- A text that does not start like a number selects the entry with this name. -/
theorem Valid.selects_name_iff (h : s.Valid) (hstart : ¬startsNumber str = true) :
    Selects s str (s.setStr str) ↔ str ∈ s.list := by
  rw [setStr_name hstart]
  constructor
  · intro hselects
    by_contra hname
    have hother := hselects.other hname fun i hi => absurd hi.leadingIndex.1 hstart
    exact Bool.noConfusion (congrArg Prod.snd hother)
  · intro hname
    refine ⟨fun i hi => ?_, fun hnot => absurd hname hnot, fun hnot => absurd hname hnot⟩
    rw [h.getNameIndex_eq hi]

/-- What is selected is an entry of the list. -/
theorem Valid.setStr (h : s.Valid) (str : String) : (s.setStr str).1.Valid := by
  by_cases hstart : startsNumber str = true
  · rw [h.setStr_number hstart]
    split_ifs with hlt
    · exact ⟨h.nodup, h.length_lt, hlt⟩
    · exact h
  · rw [setStr_name hstart]
    refine ⟨h.nodup, h.length_lt, ?_⟩
    change s.getNameIndex str < s.list.length
    rw [getNameIndex]
    cases hidx : s.list.idxOf? str with
    | none => exact h.current_lt
    | some i =>
        obtain ⟨hlt, -⟩ := List.idxOf?_eq_some_iff.1 hidx
        exact hlt

/-- The names stay. -/
theorem list_setStr (s : Selection) (str : String) : (s.setStr str).1.list = s.list := by
  rw [Selection.setStr, set, select]
  split_ifs
  · rfl
  · rfl
  · rfl

/-- After any texts an entry of the list is selected. -/
theorem Valid.foldl_setStr (h : s.Valid) (strs : List String) :
    (strs.foldl (fun s str => (s.setStr str).1) s).currentSelection < s.list.length := by
  induction strs generalizing s with
  | nil => exact h.current_lt
  | cons str strs ih =>
      rw [List.foldl_cons, ← list_setStr s str]
      exact ih (h.setStr str)

/-- **A text selects the entry that it should** exactly if it meets the condition, and after any texts
the current index is one of the list. -/
theorem selects_iff (s : Selection) (h : s.Valid) :
    (∀ str, Selects s str (s.setStr str) ↔ SetOk s str) ∧
      ∀ strs : List String, (strs.foldl (fun s str => (s.setStr str).1) s).currentSelection <
        s.list.length := by
  refine ⟨fun str => ?_, h.foldl_setStr⟩
  rw [SetOk]
  by_cases hstart : startsNumber str = true
  · rw [if_pos hstart]
    by_cases hname : str ∈ s.list
    · rw [if_pos hname]
      exact h.selects_numberName_iff hstart hname
    · rw [if_neg hname]
      exact h.selects_number_iff hstart hname
  · rw [if_neg hstart]
    exact h.selects_name_iff hstart

/-- The formats of a source of audio. -/
def formats : Selection := ⟨["F32LE", "S16LE"], 0⟩

/-- Every text is decided for two formats. -/
theorem selects_formats :
    (∀ str, Selects formats str (formats.setStr str) ↔ SetOk formats str) ∧
      ∀ strs : List String, (strs.foldl (fun s str => (s.setStr str).1) formats).currentSelection <
        formats.list.length :=
  selects_iff formats ⟨by decide, by decide, by decide⟩

/-- A resolution is read as the number that it starts with, and a name that is not there does not
fail. -/
theorem not_selects_resolution :
    (¬Selects ⟨["800x600", "1920x1080"], 0⟩ "1920x1080"
      (Selection.setStr "1920x1080" ⟨["800x600", "1920x1080"], 0⟩)) ∧
    ¬Selects formats "S24LE" (formats.setStr "S24LE") := by
  constructor
  · intro h
    exact absurd (h.name 1 rfl) (by decide)
  · intro h
    have hdigit : ∀ i, IsIndex "S24LE" i → formats.list.length ≤ i := fun i hi =>
      absurd (hi.2.1 'S' (by decide)) (by decide)
    exact Bool.noConfusion (congrArg Prod.snd (h.other (by decide) hdigit))

end Selection
end LibSwitcher
