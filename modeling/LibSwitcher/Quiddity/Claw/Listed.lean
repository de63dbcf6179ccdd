/-
# Points and elements in step

The invariant that ties the maps of a specification to its tree (`Listed`): a
section has an element for each point, with its identifier, first those of the
document under the keys `0`, `1`, … and then the dynamic ones under their own
identifiers.  What else an element shows of its point is a parameter.

Each function that changes both keeps the invariant; that an identifier is new
makes the key of a new element new, which is why a graft adds an element and a
pruning takes the right one out.
-/

import LibSwitcher.Quiddity.Claw.Sections

namespace LibSwitcher
namespace Claw

open InfoTree ConnectionSpec

variable {τ : Type}

/-- The identifiers of the `n` points of the document, then the dynamic ones. -/
def Points.listed (p : Points τ) (n : ℕ) : List ℕ := List.range' 1 n ++ p.dynamic

/-- The key of the element of a point. -/
def elementKey (n id : ℕ) : String := toString (if id ≤ n then id - 1 else id)

/-- The element `c` of a section is that of the point `id`. -/
structure IsElement (shows : InfoTree → String → List τ → Prop) (role : Role) (p : Points τ) (n : ℕ)
    (id : ℕ) (c : String × InfoTree) : Prop where
  key : c.1 = elementKey n id
  idValue : branchGetValue role.idKey c.2 = .id id
  shown : shows c.2 (p.labelOf id) (p.typesOf id)

/-- The points and the elements of a section are in step. -/
structure Listed (shows : InfoTree → String → List τ → Prop) (role : Role) (n : ℕ) (p : Points τ)
    (t : InfoTree) : Prop where
  mem_listed : ∀ id, id ∈ p.listed n ↔ id ∈ p.ids
  lt_of_dynamic : ∀ id ∈ p.dynamic, n < id
  elements : List.Forall₂ (IsElement shows role p n) (p.listed n) (sectionOf role t)

/-- The keys of two points are different. -/
theorem elementKey_inj {n id id' : ℕ} (hid : id ≠ 0) (hid' : id' ≠ 0) :
    elementKey n id = elementKey n id' ↔ id = id' := by
  unfold elementKey
  rw [Components.toString_inj]
  split_ifs <;> omega

theorem elementKey_of_lt {n id : ℕ} (h : n < id) : elementKey n id = toString id := by
  rw [elementKey, if_neg (by omega)]

namespace Listed

variable {shows : InfoTree → String → List τ → Prop} {role : Role} {n : ℕ} {p : Points τ}
  {t t' leaf : InfoTree} {label : String} {types : List τ} {id : ℕ}

/-- The identifiers listed are different. -/
theorem nodup_listed (h : Listed shows role n p t) : (p.listed n).Nodup := by
  refine List.nodup_append.2 ⟨List.nodup_range', p.dynamic_nodup, fun a ha b hb hab => ?_⟩
  have := h.lt_of_dynamic b hb
  have := List.mem_range'_1.1 ha
  omega

theorem ne_zero_of_mem_listed (h : Listed shows role n p t) (hid : id ∈ p.listed n) : id ≠ 0 :=
  p.ne_zero_of_mem ((h.mem_listed id).1 hid)

/-- A specification with a point has an element for it. -/
theorem sectionOf_ne_nil (h : Listed shows role n p t) (hid : id ∈ p.ids) :
    sectionOf role t ≠ [] := by
  intro hnil
  have hlist : p.listed n = [] := List.forall₂_nil_right_iff.1 (hnil ▸ h.elements)
  have hmem := (h.mem_listed id).2 hid
  rw [hlist] at hmem
  cases hmem

/-- The next identifier comes after those of the document. -/
theorem lt_nextId (h : Listed shows role n p t) (hleft : p.Left) : n < p.nextId hleft := by
  by_contra hle
  have hpos := p.nextId_ne_zero hleft
  refine p.nextId_not_mem hleft ((h.mem_listed _).1 (List.mem_append_left _ ?_))
  refine List.mem_range'_1.2 ⟨Nat.one_le_iff_ne_zero.2 hpos, ?_⟩
  omega

/-- The key of the next element is new. -/
theorem nextId_key_not_mem (h : Listed shows role n p t) (hleft : p.Left) :
    toString (p.nextId hleft) ∉ (sectionOf role t).map Prod.fst := by
  rw [List.mem_map]
  rintro ⟨c, hc, hkey⟩
  obtain ⟨id, hid, hel⟩ := KeyTree.exists_of_forall₂_of_mem h.elements hc
  rw [hel.key, ← elementKey_of_lt (h.lt_nextId hleft),
    elementKey_inj (h.ne_zero_of_mem_listed hid) (p.nextId_ne_zero hleft)] at hkey
  exact p.nextId_not_mem hleft (hkey ▸ (h.mem_listed id).1 hid)

/-- Only the section of the role matters. -/
theorem congr (h : Listed shows role n p t) (hsec : sectionOf role t' = sectionOf role t) :
    Listed shows role n p t' :=
  ⟨h.mem_listed, h.lt_of_dynamic, hsec ▸ h.elements⟩

/-- A new dynamic point gets the element that is grafted under its identifier. -/
theorem addDynamic (h : Listed shows role n p t) {hleft : p.Left} (hne : sectionOf role t ≠ [])
    (hid : branchGetValue role.idKey leaf = .id (p.nextId hleft)) (hshown : shows leaf label types) :
    Listed shows role n (p.addDynamic hleft label types)
      (graft (role.name ++ "." ++ toString (p.nextId hleft)) leaf t) := by
  have hlisted : (p.addDynamic hleft label types).listed n = p.listed n ++ [p.nextId hleft] :=
    (List.append_assoc _ _ _).symm
  constructor
  · intro id
    rw [hlisted, List.mem_append, List.mem_singleton, Points.mem_ids_addDynamic, h.mem_listed,
      or_comm]
  · intro id hmem
    rcases List.mem_append.1 hmem with hmem | hmem
    · exact h.lt_of_dynamic id hmem
    · rw [List.mem_singleton.1 hmem]
      exact h.lt_nextId hleft
  · rw [hlisted, sectionOf_graft hne (h.nextId_key_not_mem hleft)]
    refine List.rel_append ?_ (List.Forall₂.cons ⟨?_, hid, ?_⟩ List.Forall₂.nil)
    · refine KeyTree.forall₂_imp_of_mem h.elements fun id hmem c hc => ⟨hc.key, hc.idValue, ?_⟩
      have hid := (h.mem_listed id).1 hmem
      rw [Points.labelOf_addDynamic hid, Points.typesOf_addDynamic hid]
      exact hc.shown
    · exact (elementKey_of_lt (h.lt_nextId hleft)).symm
    · rw [Points.labelOf_addDynamic_nextId, Points.typesOf_addDynamic_nextId]
      exact hshown

/-- With a dynamic point goes the element under its identifier. -/
theorem remove (h : Listed shows role n p t) (hid : id ∈ p.dynamic) :
    Listed shows role n (p.remove id) (prune (role.name ++ "." ++ toString id) t) := by
  have hlt := h.lt_of_dynamic id hid
  have hlisted : (p.remove id).listed n = (p.listed n).erase id := by
    refine (List.erase_append_right _ fun hmem => ?_).symm
    have := List.mem_range'_1.1 hmem
    omega
  constructor
  · intro id'
    rw [hlisted, h.nodup_listed.mem_erase_iff, h.mem_listed, Points.mem_ids_remove]
  · exact fun id' hmem => h.lt_of_dynamic id' (List.mem_of_mem_erase hmem)
  · rw [hlisted, sectionOf_prune]
    have helements := KeyTree.forall₂_erase_eraseKey (a := id) (k := toString id) h.elements
      fun id' hmem c hc => by
        rw [hc.key, ← elementKey_of_lt hlt, elementKey_inj (h.ne_zero_of_mem_listed hmem) (by omega)]
    refine KeyTree.forall₂_imp_of_mem helements fun id' hmem c hc => ⟨hc.key, hc.idValue, ?_⟩
    have hne := (h.nodup_listed.mem_erase_iff.1 hmem).1
    rw [Points.labelOf_remove hne, Points.typesOf_remove hne]
    exact hc.shown

/-- A function that replaces what is shown of a point, applied to all elements,
follows a change of its types. -/
theorem setTypes (h : Listed shows role n p t) (hid : id ∈ p.ids) {f : InfoTree → InfoTree}
    (hsec : sectionOf role t' = (sectionOf role t).map fun c =>
      (c.1, if branchGetValue role.idKey c.2 = .id id then f c.2 else c.2))
    (hf : ∀ e, branchGetValue role.idKey (f e) = branchGetValue role.idKey e)
    (hshown : ∀ e label ts, shows e label ts → shows (f e) label types) :
    Listed shows role n (p.setTypes id hid types) t' := by
  refine ⟨h.mem_listed, h.lt_of_dynamic, ?_⟩
  rw [hsec, List.forall₂_map_right_iff]
  refine h.elements.imp fun id' c hc => ?_
  by_cases heq : id' = id
  · subst heq
    rw [if_pos hc.idValue]
    refine ⟨hc.key, (hf c.2).trans hc.idValue, ?_⟩
    rw [Points.typesOf_setTypes_self]
    exact hshown c.2 _ _ hc.shown
  · have hidValue : branchGetValue role.idKey c.2 ≠ .id id := by
      rw [hc.idValue]
      simpa using heq
    rw [if_neg hidValue]
    refine ⟨hc.key, hc.idValue, ?_⟩
    rw [Points.typesOf_setTypes_ne hid heq]
    exact hc.shown

end Listed
end Claw
end LibSwitcher
