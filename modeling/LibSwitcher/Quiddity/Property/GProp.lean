/-
# Enumerations of GObject properties

`switcher/quiddity/property/gprop-to-prop.cpp`: `to_prop` makes a selection of a property of a
GObject whose type is an enumeration.  The entries are the names of the values, in the order of the
class; the numbers of the values need not be their indexes, so that the getter translates the number
that the object has by a table.

The setter does not: an index is stored as if it were the number.  So an entry that is selected by its
index reads back if numbers and indexes agree, and only then, unless there is nothing to choose
(`reads_back_iff`).

How GObject and GStreamer store a number or a name is not modelled; what the code relies on is a
field of `EnumSetters`.
-/

import LibSwitcher.Lib.KeyTree
import LibSwitcher.Quiddity.Property.Selection

namespace LibSwitcher

open KeyTree

/-- A `GEnumClass`: the numbers and the names of its values, each once. -/
structure GEnumClass where
  values : List (ℤ × String)
  nodup_numbers : (values.map Prod.fst).Nodup
  nodup_names : (values.map Prod.snd).Nodup
  length_lt : values.length < 2 ^ 64

/-- What `g_object_set` and `gst_util_set_object_arg` make of the value of an object: a number of the
class is stored and any other is not, and a name of the class stores its number. -/
structure EnumSetters (c : GEnumClass) where
  gObjectSet : ℤ → ℤ → ℤ
  gstUtilSetObjectArg : ℤ → String → ℤ
  gObjectSet_of_mem : ∀ val number, number ∈ c.values.map Prod.fst → gObjectSet val number = number
  gObjectSet_of_not_mem : ∀ val number, number ∉ c.values.map Prod.fst → gObjectSet val number = val
  gstUtilSetObjectArg_of_mem : ∀ val v, v ∈ c.values → gstUtilSetObjectArg val v.2 = v.1

/-- The property: its entries, the index of the default one, and the indexes of the numbers. -/
structure EnumProperty where
  items : List String
  defaultValue : ℕ
  indexes : List (ℤ × ℕ)

namespace EnumProperty

/-- The loop of `to_prop` over the values of the class, from an index on. -/
def toPropLoop (defaultValueGst : ℤ) : List (ℤ × String) → ℕ → EnumProperty → EnumProperty
  | [], _, p => p
  | v :: values, j, p =>
      toPropLoop defaultValueGst values (j + 1)
        { items := p.items ++ [v.2]
          defaultValue := if defaultValueGst = v.1 then j else p.defaultValue
          indexes := setKey v.1 j p.indexes }

/-- `to_prop`, for an object with this value. -/
def toProp (c : GEnumClass) (val : ℤ) : EnumProperty := toPropLoop val c.values 0 ⟨[], 0, []⟩

/-- The selection that specifies the property. -/
def selection (p : EnumProperty) : Selection := ⟨p.items, p.defaultValue⟩

/-- The index is passed as a `gint`. -/
def gint (i : ℕ) : ℤ := (i : ℤ).bmod (2 ^ 32)

/-- `Property::set`: the value of the object after it, and whether the call succeeds. -/
def set {c : GEnumClass} (o : EnumSetters c) (ion : IndexOrName) (p : EnumProperty) (val : ℤ) :
    ℤ × Bool :=
  if !ion.isValid p.selection.maxIndex then (val, false)
  else if ion.isIndex then (o.gObjectSet val (gint ion.index), true)
  else (o.gstUtilSetObjectArg val ion.name, true)

/-- The getter, undefined for a number that is not in the table. -/
def get (p : EnumProperty) (val : ℤ) : Option IndexOrName :=
  (p.indexes.lookup val).map IndexOrName.ofIndex

/-- What the property of an object should do: an entry that is selected by its index or by its name
reads back, an index that is none selects nothing, the default is the index of the value, and the
getter finds it. -/
structure ReadsBack (c : GEnumClass) (o : EnumSetters c) (init val : ℤ) : Prop where
  index : ∀ i < c.values.length, (toProp c init).get
    ((toProp c init).set o (IndexOrName.ofIndex i) val).1 = some (IndexOrName.ofIndex i)
  name : ∀ i v, c.values[i]? = some v → (toProp c init).get
    ((toProp c init).set o (IndexOrName.ofName v.2) val).1 = some (IndexOrName.ofIndex i)
  outside : ∀ i, c.values.length ≤ i →
    ((toProp c init).set o (IndexOrName.ofIndex i) val).1 = val
  default : (c.values[(toProp c init).defaultValue]?).map Prod.fst = some init
  found : ((toProp c init).get val).isSome

/-! ### The table -/

/-- A number that is not met keeps its index. -/
theorem lookup_toPropLoop_of_not_mem {d n : ℤ} {values : List (ℤ × String)} {j : ℕ}
    {p : EnumProperty} (h : n ∉ values.map Prod.fst) :
    (toPropLoop d values j p).indexes.lookup n = p.indexes.lookup n := by
  induction values generalizing j p with
  | nil => rfl
  | cons v values ih =>
      rw [List.map_cons, List.mem_cons, not_or] at h
      rw [toPropLoop, ih h.2, lookup_setKey_ne h.1]

/-- The number of a value has its index. -/
theorem lookup_toPropLoop {d : ℤ} {values : List (ℤ × String)} {j k : ℕ} {p : EnumProperty}
    {v : ℤ × String} (hnodup : (values.map Prod.fst).Nodup) (hv : values[k]? = some v) :
    (toPropLoop d values j p).indexes.lookup v.1 = some (j + k) := by
  induction values generalizing j k p with
  | nil => cases hv
  | cons w values ih =>
      rw [List.map_cons, List.nodup_cons] at hnodup
      rw [toPropLoop]
      cases k with
      | zero =>
          obtain rfl := Option.some.inj hv
          rw [lookup_toPropLoop_of_not_mem hnodup.1, lookup_setKey_self, Nat.add_zero]
      | succ k =>
          rw [List.getElem?_cons_succ] at hv
          rw [ih hnodup.2 hv, Nat.add_assoc, Nat.add_comm 1 k]

/-- The default is kept if the value is not met. -/
theorem defaultValue_toPropLoop_of_not_mem {d : ℤ} {values : List (ℤ × String)} {j : ℕ}
    {p : EnumProperty} (h : d ∉ values.map Prod.fst) :
    (toPropLoop d values j p).defaultValue = p.defaultValue := by
  induction values generalizing j p with
  | nil => rfl
  | cons v values ih =>
      rw [List.map_cons, List.mem_cons, not_or] at h
      rw [toPropLoop, ih h.2, if_neg h.1]

/-- The default is the index of the value. -/
theorem defaultValue_toPropLoop {d : ℤ} {values : List (ℤ × String)} {j k : ℕ} {p : EnumProperty}
    {v : ℤ × String} (hnodup : (values.map Prod.fst).Nodup) (hv : values[k]? = some v)
    (hd : v.1 = d) : (toPropLoop d values j p).defaultValue = j + k := by
  induction values generalizing j k p with
  | nil => cases hv
  | cons w values ih =>
      rw [List.map_cons, List.nodup_cons] at hnodup
      rw [toPropLoop]
      cases k with
      | zero =>
          obtain rfl := Option.some.inj hv
          rw [defaultValue_toPropLoop_of_not_mem (hd ▸ hnodup.1), if_pos hd.symm, Nat.add_zero]
      | succ k =>
          rw [List.getElem?_cons_succ] at hv
          rw [ih hnodup.2 hv, Nat.add_assoc, Nat.add_comm 1 k]

theorem items_toPropLoop {d : ℤ} {values : List (ℤ × String)} {j : ℕ} {p : EnumProperty} :
    (toPropLoop d values j p).items = p.items ++ values.map Prod.snd := by
  induction values generalizing j p with
  | nil => exact (List.append_nil _).symm
  | cons v values ih =>
      rw [toPropLoop, ih, List.map_cons, List.append_assoc, List.singleton_append]

variable {c : GEnumClass} {o : EnumSetters c} {init val : ℤ}

/-- The getter finds the index of each number of the class. -/
theorem get_toProp {i : ℕ} {v : ℤ × String} (hv : c.values[i]? = some v) :
    (toProp c init).get v.1 = some (IndexOrName.ofIndex i) := by
  rw [get, toProp, lookup_toPropLoop c.nodup_numbers hv, Nat.zero_add]
  rfl

theorem maxIndex_toProp (hpos : 0 < c.values.length) :
    (toProp c init).selection.maxIndex = c.values.length - 1 := by
  have hitems : (toProp c init).selection.list = c.values.map Prod.snd := by
    rw [selection, toProp, items_toPropLoop, List.nil_append]
  have hlt := c.length_lt
  rw [Selection.maxIndex, hitems, List.length_map]
  omega

/-- An index of the list is stored as a number. -/
theorem set_ofIndex_of_lt {i : ℕ} (hi : i < c.values.length) :
    ((toProp c init).set o (IndexOrName.ofIndex i) val).1 = o.gObjectSet val (gint i) := by
  have hvalid : decide (c.values.length - 1 < i) = false := by
    rw [decide_eq_false_iff_not]
    omega
  rw [set, maxIndex_toProp (Nat.zero_lt_of_lt hi), IndexOrName.isValid, IndexOrName.ofIndex, hvalid]
  rfl

/-- Any other index is refused. -/
theorem set_ofIndex_of_le {i : ℕ} (hpos : 0 < c.values.length) (hi : c.values.length ≤ i) :
    ((toProp c init).set o (IndexOrName.ofIndex i) val).1 = val := by
  have hvalid : decide (c.values.length - 1 < i) = true := by
    rw [decide_eq_true_eq]
    omega
  rw [set, maxIndex_toProp hpos, IndexOrName.isValid, IndexOrName.ofIndex, hvalid]
  rfl

/-- A name stores its number. -/
theorem set_ofName {v : ℤ × String} (hv : v ∈ c.values) :
    ((toProp c init).set o (IndexOrName.ofName v.2) val).1 = v.1 :=
  o.gstUtilSetObjectArg_of_mem val v hv

/-- What remains to be asked of a property: that indexes read back. -/
theorem readsBack_iff (hinit : init ∈ c.values.map Prod.fst) (hval : val ∈ c.values.map Prod.fst) :
    ReadsBack c o init val ↔ ∀ i v, c.values[i]? = some v →
      (toProp c init).get (o.gObjectSet val (gint i)) = some (IndexOrName.ofIndex i) := by
  constructor
  · intro h i v hv
    obtain ⟨hi, -⟩ := List.getElem?_eq_some_iff.1 hv
    rw [← set_ofIndex_of_lt hi]
    exact h.index i hi
  · intro h
    obtain ⟨v, hv, rfl⟩ := List.mem_map.1 hinit
    obtain ⟨w, hw, rfl⟩ := List.mem_map.1 hval
    obtain ⟨k, hk⟩ := List.mem_iff_getElem?.1 hv
    obtain ⟨l, hl⟩ := List.mem_iff_getElem?.1 hw
    refine ⟨fun i hi => ?_, fun i v' hv' => ?_, fun i hi => ?_, ?_, ?_⟩
    · rw [set_ofIndex_of_lt hi]
      exact h i _ (List.getElem?_eq_getElem hi)
    · rw [set_ofName (List.mem_of_getElem? hv')]
      exact get_toProp hv'
    · exact set_ofIndex_of_le (List.length_pos_of_mem hw) hi
    · rw [toProp, defaultValue_toPropLoop c.nodup_numbers hk rfl, Nat.zero_add, hk]
      rfl
    · rw [get_toProp hl]
      rfl

/-- **An enumeration reads back** from every value of its class exactly if its numbers are their
indexes, or there is at most one. -/
theorem reads_back_iff (c : GEnumClass) (o : EnumSetters c) :
    (∀ init ∈ c.values.map Prod.fst, ∀ val ∈ c.values.map Prod.fst, ReadsBack c o init val) ↔
      (c.values.length ≤ 1 ∨ ∀ i v, c.values[i]? = some v → v.1 = gint i) := by
  constructor
  · intro h
    refine or_iff_not_imp_left.2 fun hlength i v hv => ?_
    obtain ⟨hi, -⟩ := List.getElem?_eq_some_iff.1 hv
    -- Another value than the one that is selected.
    obtain ⟨j, hj, hne⟩ : ∃ j, j < c.values.length ∧ j ≠ i := by
      by_cases hzero : i = 0
      · exact ⟨1, by omega, by omega⟩
      · exact ⟨0, by omega, fun heq => hzero heq.symm⟩
    have hw : c.values[j]? = some c.values[j] := List.getElem?_eq_getElem hj
    have hmem : c.values[j].1 ∈ c.values.map Prod.fst :=
      List.mem_map_of_mem (List.mem_of_getElem? hw)
    have hread := (readsBack_iff hmem hmem).1 (h _ hmem _ hmem) i v hv
    have hindex {k : ℕ} {u : ℤ × String} (hu : c.values[k]? = some u)
        (heq : (toProp c c.values[j].1).get u.1 = some (IndexOrName.ofIndex i)) : k = i :=
      congrArg IndexOrName.index (Option.some.inj ((get_toProp hu).symm.trans heq))
    by_cases hnumber : gint i ∈ c.values.map Prod.fst
    · rw [o.gObjectSet_of_mem _ _ hnumber] at hread
      obtain ⟨u, hu, heq⟩ := List.mem_map.1 hnumber
      obtain ⟨k, hk⟩ := List.mem_iff_getElem?.1 hu
      obtain rfl := hindex hk (heq ▸ hread)
      rw [← heq, Option.some.inj (hv.symm.trans hk)]
    · rw [o.gObjectSet_of_not_mem _ _ hnumber] at hread
      exact absurd (hindex hw hread) hne
  · intro h init hinit val hval
    refine (readsBack_iff hinit hval).2 fun i v hv => ?_
    obtain ⟨hi, -⟩ := List.getElem?_eq_some_iff.1 hv
    have hmem : v.1 ∈ c.values.map Prod.fst := List.mem_map_of_mem (List.mem_of_getElem? hv)
    have hstored : o.gObjectSet val (gint i) = v.1 := by
      rcases h with hlength | hnumbers
      · have honly : ∀ n ∈ c.values.map Prod.fst, n = v.1 := by
          intro n hn
          obtain ⟨u, hu, rfl⟩ := List.mem_map.1 hn
          obtain ⟨k, hk⟩ := List.mem_iff_getElem?.1 hu
          obtain ⟨hk', -⟩ := List.getElem?_eq_some_iff.1 hk
          obtain rfl : k = i := by omega
          rw [Option.some.inj (hv.symm.trans hk)]
        by_cases hnumber : gint i ∈ c.values.map Prod.fst
        · rw [o.gObjectSet_of_mem _ _ hnumber, honly _ hnumber]
        · rw [o.gObjectSet_of_not_mem _ _ hnumber, honly _ hval]
      · rw [← hnumbers i v hv, o.gObjectSet_of_mem _ _ hmem]
    rw [hstored]
    exact get_toProp hv

/-- The frame sizes of an audio codec, in the order of their lengths. -/
def frameSizes : GEnumClass where
  values := [(2, "2.5"), (5, "5"), (10, "10"), (20, "20")]
  nodup_numbers := by decide
  nodup_names := by decide
  length_lt := by decide

/-- Setters of a class that do as they should. -/
def ofClass (c : GEnumClass) : EnumSetters c where
  gObjectSet := fun val number => if number ∈ c.values.map Prod.fst then number else val
  gstUtilSetObjectArg := fun val name => ((c.values.find? fun v => v.2 = name).map Prod.fst).getD val
  gObjectSet_of_mem := fun _ _ h => if_pos h
  gObjectSet_of_not_mem := fun _ _ h => if_neg h
  gstUtilSetObjectArg_of_mem := fun val v hv => by
    cases hfind : c.values.find? fun w => w.2 = v.2 with
    | none => exact absurd (List.find?_eq_none.1 hfind v hv) (by simp)
    | some w =>
        have hname : w.2 = v.2 := by simpa using List.find?_some hfind
        rw [List.inj_on_of_nodup_map c.nodup_names (List.mem_of_find?_eq_some hfind) hv hname]
        rfl

/-- The entry with index 2 is not read back: the number 2 is that of the first entry. -/
theorem not_reads_back_frameSizes :
    ¬∀ init ∈ frameSizes.values.map Prod.fst, ∀ val ∈ frameSizes.values.map Prod.fst,
      ReadsBack frameSizes (ofClass frameSizes) init val := by
  intro h
  have hread := (h 20 (by decide) 20 (by decide)).index 2 (by decide)
  have hfirst : (toProp frameSizes 20).get ((toProp frameSizes 20).set
      (ofClass frameSizes) (IndexOrName.ofIndex 2) 20).1 =
        some (IndexOrName.ofIndex 0) := by rfl
  exact absurd (congrArg IndexOrName.index (Option.some.inj (hfirst.symm.trans hread))) (by decide)

end EnumProperty
end LibSwitcher
