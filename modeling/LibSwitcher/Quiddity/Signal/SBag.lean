/-
# Signal bags

`switcher/quiddity/signal/sig.cpp` and `sbag.cpp`: a bag makes signals under identifiers
and names, and documents them under `signal` in the tree of its quiddity.

Nothing refuses a name that is taken: the newer signal takes the name over in `ids_`, while the
older one keeps its entry in `strids_`, and the removal of either takes the name away
(`Consistent`).  The tree signals are not part of the state.
-/

import LibSwitcher.InfoTree.InformationTree
import LibSwitcher.Lib.Machine
import LibSwitcher.Utils.IdMap
import LibSwitcher.Utils.NameMap
import LibSwitcher.Utils.StringUtils

namespace LibSwitcher

open InfoTree

/-- A `Sig`.  A callback is known by a number. -/
structure Sig where
  counter : ℕ
  toNotify : IdMap ℕ

namespace Sig

/-- A signal that nobody has subscribed to. -/
def empty : Sig := ⟨0, ∅⟩

/-- `subscribe`. -/
def subscribe (f : ℕ) (sig : Sig) : Sig × ℕ :=
  (⟨sig.counter + 1, sig.toNotify.insert (sig.counter + 1) f⟩, sig.counter + 1)

/-- `unsubscribe`. -/
def unsubscribe (rid : ℕ) (sig : Sig) : Sig × Bool :=
  if rid ∈ sig.toNotify then (⟨sig.counter, sig.toNotify.erase rid⟩, true) else (sig, false)

end Sig

/-- An `SBag`, with the tree of its quiddity.  Identifiers are not bounded here. -/
structure SBag where
  counter : ℕ
  sigs : IdMap Sig
  ids : NameMap ℕ
  strids : IdMap String
  tree : InfoTree

namespace SBag

/-- The constructor. -/
def init (tree : InfoTree) : SBag :=
  ⟨0, ∅, ∅, ∅, tagAsArray ".signal" true (graft ".signal" InfoTree.make tree)⟩

/-- `make`. -/
def make (strid description : String) (b : SBag) : SBag × ℕ :=
  let id := b.counter + 1
  let key := "signal." ++ strid
  ({ counter := id
     sigs := b.sigs.insert id Sig.empty
     ids := b.ids.insert strid id
     strids := b.strids.insert id strid
     tree := graft (key ++ ".description") (makeValue (.str description))
      (graft (key ++ ".name") (makeValue (.str strid)) b.tree) }, id)

/-- `remove`. -/
def remove (id : ℕ) (b : SBag) : SBag × Bool :=
  match b.strids[id]? with
  | none => (b, false)
  | some strid =>
      ({ b with
          tree := prune ("signal." ++ strid) b.tree
          ids := b.ids.erase strid
          strids := b.strids.erase id
          sigs := b.sigs.erase id }, true)

/-- `get_id`, which accepts an identifier written as a text. -/
def getId (strid : String) (b : SBag) : Option ℕ :=
  match b.ids[strid]? with
  | some id => some id
  | none => (Stringutils.idFromString strid).map fun id => if id ∈ b.sigs then id else 0

/-- `get_name`. -/
def getName (id : ℕ) (b : SBag) : String := b.strids[id]?.getD ""

/-- `subscribe`. -/
def subscribe (id f : ℕ) (b : SBag) : SBag × ℕ :=
  match b.sigs[id]? with
  | none => (b, 0)
  | some sig => ({ b with sigs := b.sigs.insert id (sig.subscribe f).1 }, (sig.subscribe f).2)

/-- `unsubscribe`. -/
def unsubscribe (id rid : ℕ) (b : SBag) : SBag × Bool :=
  match b.sigs[id]? with
  | none => (b, false)
  | some sig => ({ b with sigs := b.sigs.insert id (sig.unsubscribe rid).1 }, (sig.unsubscribe rid).2)

/-- `subscribe_by_name`. -/
def subscribeByName (name : String) (f : ℕ) (b : SBag) : Option (SBag × ℕ) :=
  (b.getId name).map fun id => b.subscribe id f

/-- `unsubscribe_by_name`. -/
def unsubscribeByName (name : String) (rid : ℕ) (b : SBag) : Option (SBag × Bool) :=
  (b.getId name).map fun id => b.unsubscribe id rid

/-- A call of a function that changes the signals. -/
inductive Op
  | make (strid description : String)
  | remove (id : ℕ)
  | subscribe (id f : ℕ)
  | unsubscribe (id rid : ℕ)
  | subscribeByName (name : String) (f : ℕ)
  | unsubscribeByName (name : String) (rid : ℕ)

/-- What these functions return. -/
inductive Result
  | id (id : ℕ)
  | bool (b : Bool)

/-- One call. -/
def step (b : SBag) : Op → Option (SBag × Result)
  | .make strid description => some (Prod.map id .id (b.make strid description))
  | .remove id' => some (Prod.map id .bool (b.remove id'))
  | .subscribe id' f => some (Prod.map id .id (b.subscribe id' f))
  | .unsubscribe id' rid => some (Prod.map id .bool (b.unsubscribe id' rid))
  | .subscribeByName name f => (b.subscribeByName name f).map (Prod.map id .id)
  | .unsubscribeByName name rid => (b.unsubscribeByName name rid).map (Prod.map id .bool)

/-! ### What the maps owe to each other -/

/-- A name leads to a signal of that name, and the signals are those with a name, under
identifiers that have been given out. -/
structure Consistent (b : SBag) : Prop where
  named : ∀ (strid : String) (id : ℕ), b.ids[strid]? = some id → b.strids[id]? = some strid
  sigs : ∀ id : ℕ, id ∈ b.sigs ↔ id ∈ b.strids
  bound : ∀ id ∈ b.strids, 0 < id ∧ id ≤ b.counter

variable {b : SBag}

theorem consistent_init (tree : InfoTree) : (init tree).Consistent := by
  constructor <;> simp [init]

theorem Consistent.make (h : b.Consistent) (strid description : String) :
    (b.make strid description).1.Consistent where
  named := fun s id => by
    change (b.ids.insert strid (b.counter + 1))[s]? = some id →
      (b.strids.insert (b.counter + 1) strid)[id]? = some s
    rw [NameMap.getElem?_insert, IdMap.getElem?_insert]
    split_ifs with hs hid hid
    · exact fun _ => congrArg some hs.symm
    · exact fun heq => absurd (Option.some.inj heq).symm hid
    · intro heq
      -- the new identifier has had no name
      have hmem : id ∈ b.strids := Std.ExtTreeMap.mem_iff_isSome_getElem?.2
        (by rw [h.named s id heq]; rfl)
      exact absurd (h.bound id hmem).2 (by omega)
    · exact h.named s id
  sigs := fun id => by
    change id ∈ b.sigs.insert (b.counter + 1) _ ↔ id ∈ b.strids.insert (b.counter + 1) strid
    rw [IdMap.mem_insert, IdMap.mem_insert, h.sigs]
  bound := fun id hid => by
    change 0 < id ∧ id ≤ b.counter + 1
    rcases IdMap.mem_insert.1 hid with rfl | hid
    · exact ⟨Nat.succ_pos _, Nat.le_refl _⟩
    · have := h.bound id hid
      omega

theorem Consistent.remove (h : b.Consistent) (id : ℕ) : (b.remove id).1.Consistent := by
  rw [SBag.remove]
  cases hid : b.strids[id]? with
  | none => exact h
  | some strid =>
      constructor
      · intro s id'
        change (b.ids.erase strid)[s]? = some id' → (b.strids.erase id)[id']? = some s
        rw [NameMap.getElem?_erase, IdMap.getElem?_erase]
        by_cases hs : s = strid
        · rw [if_pos hs]
          exact fun heq => by cases heq
        · rw [if_neg hs]
          intro heq
          rw [if_neg, h.named s id' heq]
          rintro rfl
          exact hs (Option.some.inj ((h.named s id' heq).symm.trans hid))
      · intro id'
        change id' ∈ b.sigs.erase id ↔ id' ∈ b.strids.erase id
        rw [IdMap.mem_erase, IdMap.mem_erase, h.sigs]
      · exact fun id' hid' => h.bound id' (IdMap.mem_erase.1 hid').2

/-- Writing a signal that is there leaves the maps in step. -/
theorem Consistent.insert (h : b.Consistent) {id : ℕ} {sig : Sig} (hid : b.sigs[id]? = some sig)
    (sig' : Sig) : Consistent { b with sigs := b.sigs.insert id sig' } where
  named := h.named
  sigs := fun id' => by
    have hmem : id ∈ b.sigs := Std.ExtTreeMap.mem_iff_isSome_getElem?.2 (by rw [hid]; rfl)
    rw [IdMap.mem_insert, ← h.sigs]
    exact or_iff_right_of_imp fun heq => heq ▸ hmem
  bound := h.bound

theorem Consistent.subscribe (h : b.Consistent) (id f : ℕ) : (b.subscribe id f).1.Consistent := by
  rw [SBag.subscribe]
  cases hid : b.sigs[id]? with
  | none => exact h
  | some sig => exact h.insert hid _

theorem Consistent.unsubscribe (h : b.Consistent) (id rid : ℕ) :
    (b.unsubscribe id rid).1.Consistent := by
  rw [SBag.unsubscribe]
  cases hid : b.sigs[id]? with
  | none => exact h
  | some sig => exact h.insert hid _

/-- A call keeps the maps in step. -/
theorem Consistent.step (h : b.Consistent) {op : Op} {r : SBag × Result}
    (hr : b.step op = some r) : r.1.Consistent := by
  cases op with
  | make strid description =>
      obtain rfl := Option.some.inj hr
      exact h.make strid description
  | remove id =>
      obtain rfl := Option.some.inj hr
      exact h.remove id
  | subscribe id f =>
      obtain rfl := Option.some.inj hr
      exact h.subscribe id f
  | unsubscribe id rid =>
      obtain rfl := Option.some.inj hr
      exact h.unsubscribe id rid
  | subscribeByName name f =>
      obtain ⟨r', hr', rfl⟩ := Option.map_eq_some_iff.1 hr
      obtain ⟨id, -, rfl⟩ := Option.map_eq_some_iff.1 hr'
      exact h.subscribe id f
  | unsubscribeByName name rid =>
      obtain ⟨r', hr', rfl⟩ := Option.map_eq_some_iff.1 hr
      obtain ⟨id, -, rfl⟩ := Option.map_eq_some_iff.1 hr'
      exact h.unsubscribe id rid

/-- The maps are in step after any calls. -/
theorem consistent_of_run {tree : InfoTree} {ops : List Op} {results : List Result}
    (h : Machine.run step (init tree) ops = some (b, results)) : b.Consistent :=
  Machine.run_invariant (I := Consistent) (fun _ _ _ hs hr => hs.step hr) (consistent_init tree) h

end SBag
end LibSwitcher
