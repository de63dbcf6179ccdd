/-
# Connection points

The followers, or the writers, of a connection specification: the generator of
their identifiers, the maps from identifiers to labels and to types, and the list
of the dynamic identifiers, those allocated from a meta point
(`switcher/quiddity/claw/connection-spec.hpp`, the members `follower_ids_`,
`follower_can_do_`, `dynamic_sfids_` and `follower_id_generator_`, and those of the
writers).

The structure carries what the code relies on when it looks an identifier up
without a check: both maps have the same keys, which are allocated, and the dynamic
identifiers are among them.
-/

import LibSwitcher.Utils.IdMap
import LibSwitcher.Utils.Ids

namespace LibSwitcher
namespace Claw

/-- The followers or the writers, with types in `τ`. -/
structure Points (τ : Type) where
  idGenerator : Ids
  ids : IdMap String
  canDo : IdMap (List τ)
  dynamic : List ℕ
  mem_canDo : ∀ id, id ∈ canDo ↔ id ∈ ids
  allocated : ∀ id ∈ ids, id ∈ idGenerator.ids
  dynamic_mem : ∀ id ∈ dynamic, id ∈ ids
  dynamic_nodup : dynamic.Nodup

namespace Points

variable {τ : Type}

/-- No point. -/
def empty : Points τ where
  idGenerator := Ids.empty
  ids := ∅
  canDo := ∅
  dynamic := []
  mem_canDo := by simp
  allocated := by simp
  dynamic_mem := by simp
  dynamic_nodup := List.nodup_nil

/-- There is an identifier left to allocate. -/
def Left (p : Points τ) : Prop := p.idGenerator.ids.length ≠ Ids.kMaxNumOfIds

instance decidableLeft (p : Points τ) : Decidable p.Left := inferInstanceAs (Decidable (_ ≠ _))

/-- The identifier of the next point. -/
def nextId (p : Points τ) (h : p.Left) : ℕ := p.idGenerator.free h

theorem nextId_not_mem (p : Points τ) (h : p.Left) : p.nextId h ∉ p.ids := fun hmem =>
  (p.idGenerator.free_spec h).1 (p.allocated _ hmem)

/-- Allocate an identifier for a new point and enter it in the maps. -/
def add (p : Points τ) (h : p.Left) (label : String) (types : List τ) : Points τ where
  idGenerator := p.idGenerator.allocate h
  ids := p.ids.insertIfNew (p.nextId h) label
  canDo := p.canDo.insertIfNew (p.nextId h) types
  dynamic := p.dynamic
  mem_canDo := fun id => by
    rw [IdMap.mem_emplace, IdMap.mem_emplace, p.mem_canDo]
  allocated := fun id hid => by
    change id ∈ p.idGenerator.ids ++ [p.nextId h]
    rw [List.mem_append, List.mem_singleton]
    exact (IdMap.mem_emplace.1 hid).symm.imp_left (p.allocated id)
  dynamic_mem := fun id hid => IdMap.mem_emplace.2 (Or.inr (p.dynamic_mem id hid))
  dynamic_nodup := p.dynamic_nodup

/-- Allocate an identifier for a new dynamic point. -/
def addDynamic (p : Points τ) (h : p.Left) (label : String) (types : List τ) : Points τ where
  idGenerator := (p.add h label types).idGenerator
  ids := (p.add h label types).ids
  canDo := (p.add h label types).canDo
  dynamic := p.dynamic ++ [p.nextId h]
  mem_canDo := (p.add h label types).mem_canDo
  allocated := (p.add h label types).allocated
  dynamic_mem := fun id hid => by
    rcases List.mem_append.1 hid with hid | hid
    · exact (p.add h label types).dynamic_mem id hid
    · rw [List.mem_singleton.1 hid]
      exact IdMap.mem_emplace.2 (Or.inl rfl)
  dynamic_nodup := List.nodup_append.2 ⟨p.dynamic_nodup, List.nodup_singleton _,
    fun a ha b hb hab => p.nextId_not_mem h (by
      rw [← List.mem_singleton.1 hb, ← hab]
      exact p.dynamic_mem a ha)⟩

/-- Take a dynamic point out of the maps. -/
def remove (p : Points τ) (id : ℕ) : Points τ where
  idGenerator := p.idGenerator
  ids := p.ids.erase id
  canDo := p.canDo.erase id
  dynamic := p.dynamic.erase id
  mem_canDo := fun id' => by
    rw [IdMap.mem_erase, IdMap.mem_erase, p.mem_canDo]
  allocated := fun id' hid => p.allocated id' (IdMap.mem_erase.1 hid).2
  dynamic_mem := fun id' hid => by
    obtain ⟨hne, hmem⟩ := p.dynamic_nodup.mem_erase_iff.1 hid
    exact IdMap.mem_erase.2 ⟨hne, p.dynamic_mem id' hmem⟩
  dynamic_nodup := p.dynamic_nodup.erase id

/-- Replace the types of a point. -/
def setTypes (p : Points τ) (id : ℕ) (h : id ∈ p.ids) (types : List τ) : Points τ where
  idGenerator := p.idGenerator
  ids := p.ids
  canDo := p.canDo.insert id types
  dynamic := p.dynamic
  mem_canDo := fun id' => by
    rw [Std.ExtTreeMap.mem_insert, p.mem_canDo]
    refine ⟨fun hid => hid.elim (fun heq => ?_) fun hid => hid, Or.inr⟩
    rwa [← Std.LawfulEqCmp.eq_of_compare heq]
  allocated := p.allocated
  dynamic_mem := p.dynamic_mem
  dynamic_nodup := p.dynamic_nodup

/-- The label of a point, empty if there is none. -/
def labelOf (p : Points τ) (id : ℕ) : String := p.ids[id]?.getD ""

/-- The types of a point. -/
def typesOf (p : Points τ) (id : ℕ) : List τ := p.canDo[id]?.getD []

/-- A point whose label contains a `%` is a model for dynamic ones. -/
def IsMeta (p : Points τ) (id : ℕ) : Prop := id ∈ p.ids ∧ '%' ∈ (p.labelOf id).toList

instance decidableIsMeta (p : Points τ) (id : ℕ) : Decidable (p.IsMeta id) :=
  inferInstanceAs (Decidable (_ ∧ _))

/-- The labels, in the order of the identifiers. -/
def labels (p : Points τ) : List String := p.ids.toList.map Prod.snd

/-! ### What the operations change -/

variable {p : Points τ} {id : ℕ} {label : String} {types : List τ}

theorem ne_zero_of_mem (h : id ∈ p.ids) : id ≠ Ids.kInvalid :=
  p.idGenerator.valid id (p.allocated id h)

theorem nextId_ne_zero (p : Points τ) (h : p.Left) : p.nextId h ≠ Ids.kInvalid :=
  (p.idGenerator.free_spec h).2.1

section

variable {hleft : p.Left}

theorem mem_ids_addDynamic :
    id ∈ (p.addDynamic hleft label types).ids ↔ id = p.nextId hleft ∨ id ∈ p.ids :=
  IdMap.mem_emplace

theorem labelOf_addDynamic (h : id ∈ p.ids) :
    (p.addDynamic hleft label types).labelOf id = p.labelOf id :=
  congrArg (Option.getD · "") (IdMap.getElem?_emplace_of_mem h)

theorem typesOf_addDynamic (h : id ∈ p.ids) :
    (p.addDynamic hleft label types).typesOf id = p.typesOf id :=
  congrArg (Option.getD · []) (IdMap.getElem?_emplace_of_mem ((p.mem_canDo id).2 h))

theorem labelOf_addDynamic_nextId :
    (p.addDynamic hleft label types).labelOf (p.nextId hleft) = label :=
  congrArg (Option.getD · "") (IdMap.getElem?_emplace_self (p.nextId_not_mem hleft))

theorem typesOf_addDynamic_nextId :
    (p.addDynamic hleft label types).typesOf (p.nextId hleft) = types :=
  congrArg (Option.getD · []) (IdMap.getElem?_emplace_self
    ((p.mem_canDo _).not.2 (p.nextId_not_mem hleft)))

end

theorem mem_ids_remove {id' : ℕ} : id' ∈ (p.remove id).ids ↔ id' ≠ id ∧ id' ∈ p.ids :=
  IdMap.mem_erase

theorem labelOf_remove {id' : ℕ} (h : id' ≠ id) : (p.remove id).labelOf id' = p.labelOf id' :=
  congrArg (Option.getD · "") (IdMap.getElem?_erase_ne h)

theorem typesOf_remove {id' : ℕ} (h : id' ≠ id) : (p.remove id).typesOf id' = p.typesOf id' :=
  congrArg (Option.getD · []) (IdMap.getElem?_erase_ne h)

theorem typesOf_setTypes_self (h : id ∈ p.ids) : (p.setTypes id h types).typesOf id = types :=
  congrArg (Option.getD · []) Std.ExtTreeMap.getElem?_insert_self

theorem typesOf_setTypes_ne (h : id ∈ p.ids) {id' : ℕ} (hne : id' ≠ id) :
    (p.setTypes id h types).typesOf id' = p.typesOf id' :=
  congrArg (Option.getD · []) (IdMap.getElem?_insert_ne hne)

end Points
end Claw
end LibSwitcher
