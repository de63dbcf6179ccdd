/-
# Using the properties of a bag

`switcher/quiddity/property/pbag.cpp`: the functions that read, set and watch a property
go through the map of addresses, so that a mirrored property is the one of the other bag.
They write property objects only, and leave the bags as they are (`use_bag`).
-/

import LibSwitcher.Quiddity.Property.PBagInvariant

namespace LibSwitcher
namespace PBags

/-- What a function does with the object of an identifier, which must be there. -/
def onObject {α : Type} (n id : ℕ) (f : Property → Property × α) (w : PBags) : Option (PBags × α) :=
  (w.object n id).bind fun ref => w.heap[ref]?.map fun p =>
    (w.modifyObject ref fun _ => (f p).1, (f p).2)

/-- `get_str`. -/
def getStr (n id : ℕ) (w : PBags) : Option (PBags × String) := w.onObject n id fun p => (p, p.value)

/-- `set_str`. -/
def setStr (n id : ℕ) (val : String) (w : PBags) : Option (PBags × Bool × List Notified) :=
  if id = 0 then some (w, false, []) else w.onObject n id fun p => p.setStr val

/-- `subscribe`. -/
def subscribe (n id f : ℕ) (w : PBags) : Option (PBags × ℕ) :=
  if id ∈ (w.bag n).props then w.onObject n id fun p => p.subscribe f else some (w, 0)

/-- `unsubscribe`. -/
def unsubscribe (n id rid : ℕ) (w : PBags) : Option (PBags × Bool) :=
  if id ∈ (w.bag n).props then w.onObject n id fun p => p.unsubscribe rid else some (w, false)

/-- `notify`. -/
def notify (n id : ℕ) (w : PBags) : Option (PBags × List Notified) :=
  w.onObject n id fun p => (p, p.notify)

/-- A call of one of these functions. -/
inductive Use
  | getStr (id : ℕ)
  | setStr (id : ℕ) (val : String)
  | subscribe (id f : ℕ)
  | unsubscribe (id rid : ℕ)
  | notify (id : ℕ)

/-- What they return and call. -/
inductive UseResult
  | str (val : String)
  | set (b : Bool) (calls : List Notified)
  | id (rid : ℕ)
  | bool (b : Bool)
  | calls (calls : List Notified)

/-- One call on one of the bags. -/
def use (w : PBags) (i : ℕ × Use) : Option (PBags × UseResult) :=
  match i.2 with
  | .getStr id => (w.getStr i.1 id).map fun r => (r.1, .str r.2)
  | .setStr id val => (w.setStr i.1 id val).map fun r => (r.1, .set r.2.1 r.2.2)
  | .subscribe id f => (w.subscribe i.1 id f).map fun r => (r.1, .id r.2)
  | .unsubscribe id rid => (w.unsubscribe i.1 id rid).map fun r => (r.1, .bool r.2)
  | .notify id => (w.notify i.1 id).map fun r => (r.1, .calls r.2)

/-- A property object with another value or other callbacks. -/
def SameSpec (p q : Property) : Prop := q.spec = p.spec

/-- What a call leads to: the same bags, and a heap in which one object may have changed,
but not its specification. -/
inductive Used (w : PBags) : PBags → Prop
  | idle : Used w w
  | write (ref : ℕ) (p q : Property) (hp : w.heap[ref]? = some p) (hq : SameSpec p q) :
      Used w (w.modifyObject ref fun _ => q)

variable {w : PBags} {n id : ℕ}

/-- The callbacks of a registered property are called, and nothing changes. -/
theorem Whole.notify (h : Whole w) {strid : String} (hid : (w.bag n).strids[id]? = some strid) :
    ∃ ref p, w.object n id = some ref ∧ w.heap[ref]? = some p ∧
      w.notify n id = some (w, p.notify) := by
  obtain ⟨ref, p, href, -, hp, -⟩ := h.exists_object hid
  have hsame : w.heap.modify ref (fun _ => p) = w.heap := List.ext_getElem? fun i => by
    rw [List.getElem?_modify]
    split_ifs with hi
    · rw [← hi, hp]
      rfl
    · exact Option.map_id'
  refine ⟨ref, p, href, hp, ?_⟩
  rw [PBags.notify, onObject, href, Option.bind_some, hp, Option.map_some, modifyObject, hsame]

theorem used_onObject {α : Type} {f : Property → Property × α} {r : PBags × α}
    (h : w.onObject n id f = some r) (hf : ∀ p, SameSpec p (f p).1) : Used w r.1 := by
  obtain ⟨ref, -, h⟩ := Option.bind_eq_some_iff.1 h
  obtain ⟨p, hp, rfl⟩ := Option.map_eq_some_iff.1 h
  exact Used.write ref p (f p).1 hp (hf p)

theorem used_of_use {i : ℕ × Use} {r : PBags × UseResult} (h : use w i = some r) : Used w r.1 := by
  obtain ⟨n, u⟩ := i
  cases u with
  | getStr id =>
      obtain ⟨r', hr', rfl⟩ := Option.map_eq_some_iff.1 h
      have hused := used_onObject (f := fun p => (p, p.value)) hr' fun _ => rfl
      exact hused
  | setStr id val =>
      obtain ⟨r', hr', rfl⟩ := Option.map_eq_some_iff.1 h
      rw [setStr] at hr'
      split_ifs at hr'
      · obtain rfl := Option.some.inj hr'
        exact Used.idle
      · have hused := used_onObject hr' fun _ => Property.spec_setStr
        exact hused
  | subscribe id f =>
      obtain ⟨r', hr', rfl⟩ := Option.map_eq_some_iff.1 h
      rw [subscribe] at hr'
      split_ifs at hr'
      · have hused := used_onObject hr' fun _ => rfl
        exact hused
      · obtain rfl := Option.some.inj hr'
        exact Used.idle
  | unsubscribe id rid =>
      obtain ⟨r', hr', rfl⟩ := Option.map_eq_some_iff.1 h
      rw [unsubscribe] at hr'
      split_ifs at hr'
      · have hused := used_onObject hr' fun p => by
          rw [Property.unsubscribe, SameSpec]
          split_ifs <;> rfl
        exact hused
      · obtain rfl := Option.some.inj hr'
        exact Used.idle
  | notify id =>
      obtain ⟨r', hr', rfl⟩ := Option.map_eq_some_iff.1 h
      have hused := used_onObject (f := fun p => (p, p.notify)) hr' fun _ => rfl
      exact hused

theorem Used.bag {w' : PBags} (h : Used w w') : w'.bag = w.bag := by
  cases h <;> rfl

/-- The bags stay as they are. -/
theorem use_bag {i : ℕ × Use} {r : PBags × UseResult} (h : use w i = some r) :
    r.1.bag = w.bag :=
  (used_of_use h).bag

theorem Sound.used {w' : PBags} (h : Sound w) (hw : Used w w') : Sound w' := by
  cases hw with
  | idle => exact h
  | write ref p q hp hq =>
      refine ⟨h.consistent, fun m => ?_, fun ref' p' hp' => ?_⟩
      · change (w.bag m).Owns (w.heap.modify ref _).length m
        rw [List.length_modify]
        exact h.owns m
      · have hp' : (w.heap.modify ref fun _ => q)[ref']? = some p' := hp'
        rw [List.getElem?_modify] at hp'
        obtain ⟨p'', hp'', rfl⟩ := Option.map_eq_some_iff.1 hp'
        split_ifs with heq
        · change Property.Labelled q.spec
          rw [hq]
          exact h.labelled ref p hp
        · exact h.labelled ref' p'' hp''

/-- The states of any calls, of mirroring too. -/
inductive Reached : PBags → Prop
  | empty : Reached empty
  | step {w : PBags} {r : PBags × Result} (i : ℕ × Op) (hw : Reached w) (h : step w i = some r) :
      Reached r.1
  | use {w : PBags} {r : PBags × UseResult} (i : ℕ × Use) (hw : Reached w) (h : use w i = some r) :
      Reached r.1

/-- Mirroring keeps the bags sound. -/
theorem Sound.mirrored {strid : String} {pc : ℕ} {r : PBags × Result} (h : Sound w)
    (hr : Mirrored w n strid pc id r) : Sound r.1 := by
  obtain ⟨hfree, ref, pos, parent, howned, rfl⟩ := hr
  refine h.write ((h.consistent n).enter hfree (pc, id) ref) ?_ (by simp) ?_
  · rw [List.length_modify]
    exact (h.owns n).enter (h.consistent n) hfree (pc, id) ref
  · exact forall_getElem?_modify h.labelled fun p _ => Property.labelled_specialize

theorem Reached.sound (h : Reached w) : Sound w := by
  induction h with
  | empty => exact sound_empty
  | step i _ hr ih =>
      obtain hstep | ⟨strid, parent, pc, id, -, hmirror⟩ := step_cases (n := i.1) hr
      · exact ih.stepped hstep
      · exact ih.mirrored hmirror
  | use i _ hr ih => exact ih.used (used_of_use hr)

end PBags
end LibSwitcher
