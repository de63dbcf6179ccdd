/-
# Properties

`switcher/quiddity/property/property.cpp`: a property holds its identifier, the tree
that specifies it, and the callbacks that are called when its value changes, under the
register identifiers that `subscribe` has given out.

The value is known by its text.  What `set_str` makes of a text is given by `accept`:
the text of the value that is set, or nothing where the text is not that of a value,
the value is not valid, the property is read-only, or the setter refuses.
-/

import LibSwitcher.InfoTree.InformationTree
import LibSwitcher.Utils.IdMap

namespace LibSwitcher

/-- A call of a callback: the register identifier it is under, and the callback. -/
abbrev Notified := ℕ × ℕ

/-- A property.  A callback is known by a number, and an identifier of a property is
not bounded here. -/
structure Property where
  id : ℕ
  spec : InfoTree
  counter : ℕ
  toNotify : IdMap ℕ
  value : String
  accept : String → Option String

namespace Property

/-- The constructor: a property without identifier and without callbacks. -/
def make (spec : InfoTree) (value : String) (accept : String → Option String) : Property :=
  ⟨0, spec, 0, ∅, value, accept⟩

/-- `subscribe`. -/
def subscribe (f : ℕ) (p : Property) : Property × ℕ :=
  ({ p with counter := p.counter + 1, toNotify := p.toNotify.insert (p.counter + 1) f },
    p.counter + 1)

/-- `unsubscribe`. -/
def unsubscribe (rid : ℕ) (p : Property) : Property × Bool :=
  if rid ∈ p.toNotify then ({ p with toNotify := p.toNotify.erase rid }, true) else (p, false)

/-- `notify`: the callbacks that are called, in their order. -/
def notify (p : Property) : List Notified := p.toNotify.toList

/-- `set_str`: the property after it, whether the value is set, and the callbacks that
are called. -/
def setStr (val : String) (p : Property) : Property × Bool × List Notified :=
  match p.accept val with
  | none => (p, false, [])
  | some value => ({ p with value := value }, true, p.notify)

/-- The trees that a property bag grafts into the specification of a property. -/
def specialize (strid : Any) (propId order parent enabled : Any) (spec : InfoTree) : InfoTree :=
  ((((spec.vgraft "id" strid).vgraft "prop_id" propId).vgraft "order" order).vgraft
    "parent" parent).vgraft "enabled" enabled

/-- The part of `replace_impl` about the two properties: the new one takes over the
callbacks, the value and the place of the old one.  Its counter stays as it is. -/
def replacing (propId : ℕ) (old new : Property) : Property × List Notified :=
  let prop : Property := { new with toNotify := old.toNotify, id := propId }
  let r := prop.setStr old.value
  ({ r.1 with
      spec := specialize (old.spec.branchGetValue "id") (old.spec.branchGetValue "prop_id")
        (old.spec.branchGetValue "order") (old.spec.branchGetValue "parent")
        (old.spec.branchGetValue "enabled") r.1.spec }, r.2.2)

/-! ### What the operations leave -/

variable {p old new : Property} {val : String} {propId : ℕ}

@[simp] theorem toNotify_setStr : (p.setStr val).1.toNotify = p.toNotify := by
  unfold setStr
  split <;> rfl

@[simp] theorem counter_setStr : (p.setStr val).1.counter = p.counter := by
  unfold setStr
  split <;> rfl

@[simp] theorem spec_setStr : (p.setStr val).1.spec = p.spec := by
  unfold setStr
  split <;> rfl

@[simp] theorem id_setStr : (p.setStr val).1.id = p.id := by
  unfold setStr
  split <;> rfl

@[simp] theorem toNotify_replacing : (replacing propId old new).1.toNotify = old.toNotify := by
  simp [replacing]

@[simp] theorem id_replacing : (replacing propId old new).1.id = propId := by
  simp [replacing]

theorem spec_replacing : (replacing propId old new).1.spec =
    specialize (old.spec.branchGetValue "id") (old.spec.branchGetValue "prop_id")
      (old.spec.branchGetValue "order") (old.spec.branchGetValue "parent")
      (old.spec.branchGetValue "enabled") new.spec := by
  simp [replacing]

end Property
end LibSwitcher
