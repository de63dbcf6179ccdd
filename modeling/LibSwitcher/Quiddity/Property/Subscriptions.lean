/-
# Subscriptions

A callback that is subscribed to a property is called once at each notification, until
it is unsubscribed under the identifier it was given.

`PBag::replace_impl` moves the callbacks to the new property, but not the counter that
gives out their identifiers: a subscription after a replacement is entered under an
identifier that may be in use, and its callback takes the place of the one that was
there.  `stepCorrect_iff_subscribeOk` says that this is all that goes wrong.
-/

import LibSwitcher.Lib.Machine
import LibSwitcher.Quiddity.Property.Property

namespace LibSwitcher
namespace Property

/-- What is done with a property of a bag. -/
inductive Op
  | subscribe (f : ℕ)
  | unsubscribe (rid : ℕ)
  | setStr (val : String)
  | notify
  | replace (prop : Property)

/-- What this returns and calls. -/
inductive Result
  | id (rid : ℕ)
  | bool (b : Bool)
  | set (b : Bool) (calls : List Notified)
  | calls (calls : List Notified)

/-- One operation on the property of a given identifier, none of which is undefined. -/
def step (propId : ℕ) (p : Property) : Op → Option (Property × Result)
  | .subscribe f => some ((p.subscribe f).1, .id (p.subscribe f).2)
  | .unsubscribe rid => some ((p.unsubscribe rid).1, .bool (p.unsubscribe rid).2)
  | .setStr val => some ((p.setStr val).1, .set (p.setStr val).2.1 (p.setStr val).2.2)
  | .notify => some (p, .calls p.notify)
  | .replace prop => some ((replacing propId p prop).1, .calls (replacing propId p prop).2)

/-- The calls are one for each callback. -/
def CallsAll (callbacks : IdMap ℕ) (calls : List Notified) : Prop :=
  calls.Nodup ∧ ∀ rid f, (rid, f) ∈ calls ↔ callbacks[rid]? = some f

/-- What an operation should do to the callbacks: a subscription adds one under an
identifier that none has, an unsubscription takes out the one of its identifier and says
whether there was one, a notification calls each of them once, as does a value that is
set, and nothing else changes them. -/
def Promised (p : Property) : Op → Property × Result → Prop
  | .subscribe f, r => ∃ rid, r.2 = .id rid ∧ rid ∉ p.toNotify ∧
      ∀ rid', r.1.toNotify[rid']? = if rid' = rid then some f else p.toNotify[rid']?
  | .unsubscribe rid, r => r.2 = .bool (decide (rid ∈ p.toNotify)) ∧
      ∀ rid', r.1.toNotify[rid']? = if rid' = rid then none else p.toNotify[rid']?
  | .setStr _, r => r.1.toNotify = p.toNotify ∧ ∃ b calls, r.2 = .set b calls ∧
      if b then CallsAll p.toNotify calls else calls = []
  | .notify, r => r.1.toNotify = p.toNotify ∧ ∃ calls, r.2 = .calls calls ∧
      CallsAll p.toNotify calls
  | .replace _, r => r.1.toNotify = p.toNotify

/-- An operation does what it should. -/
def StepCorrect (propId : ℕ) (p : Property) (op : Op) : Prop :=
  ∃ r, step propId p op = some r ∧ Promised p op r

/-! ### The history of subscriptions -/

/-- What the operations so far say: the number of subscriptions to the present property
object, and the identifiers given out and not yet given back, those by the present object
and those by the objects it has replaced. -/
structure Ledger where
  made : ℕ
  fresh : List ℕ
  old : List ℕ

/-- The history of a property object that is made. -/
def Ledger.start : Ledger := ⟨0, [], []⟩

/-- The history with one more operation. -/
def Ledger.step (l : Ledger) : Op → Option (Ledger × Unit)
  | .subscribe _ => some (⟨l.made + 1, (l.made + 1) :: l.fresh, l.old⟩, ())
  | .unsubscribe rid =>
      some (⟨l.made, l.fresh.filter (· ≠ rid), l.old.filter (· ≠ rid)⟩, ())
  | .replace prop => some (⟨prop.counter, [], l.fresh ++ l.old⟩, ())
  | _ => some (l, ())

/-- The subscription that is made next to the present object is not one whose number an
object it has replaced gave to a callback that is still there. -/
def Ledger.SubscribeOk (l : Ledger) : Op → Prop
  | .subscribe _ => l.made + 1 ∉ l.old
  | _ => True

instance Ledger.decidableSubscribeOk (l : Ledger) (op : Op) : Decidable (l.SubscribeOk op) := by
  cases op <;> unfold SubscribeOk <;> infer_instance

/-- The history of a property. -/
structure Records (p : Property) (l : Ledger) : Prop where
  made : l.made = p.counter
  mem : ∀ rid, rid ∈ p.toNotify ↔ rid ∈ l.fresh ∨ rid ∈ l.old
  le : ∀ rid ∈ l.fresh, rid ≤ l.made

variable {p : Property} {propId : ℕ}

/-- A notification calls all callbacks. -/
theorem callsAll_notify (p : Property) : CallsAll p.toNotify p.notify :=
  ⟨IdMap.nodup_toList _, fun _ _ => Std.ExtTreeMap.mem_toList_iff_getElem?_eq_some⟩

/-- An operation does what it should exactly when a subscription is given an identifier
that is not in use. -/
theorem stepCorrect_iff (p : Property) (op : Op) : StepCorrect propId p op ↔
    ∀ f, op = .subscribe f → p.counter + 1 ∉ p.toNotify := by
  cases op with
  | subscribe f =>
      constructor
      · rintro ⟨r, hr, rid, hrid, hfree, -⟩ f' -
        obtain rfl := Option.some.inj hr
        obtain rfl := Result.id.inj hrid
        exact hfree
      · exact fun hfree => ⟨_, rfl, p.counter + 1, rfl, hfree f rfl,
          fun rid' => IdMap.getElem?_insert⟩
  | unsubscribe rid =>
      refine ⟨fun _ _ hop => (by cases hop), fun _ => ⟨_, rfl, ?_⟩⟩
      rw [Property.unsubscribe]
      split_ifs with hmem
      · exact ⟨by rw [decide_eq_true hmem], fun rid' => IdMap.getElem?_erase⟩
      · refine ⟨by rw [decide_eq_false hmem], fun rid' => ?_⟩
        split_ifs with heq
        · rw [heq, IdMap.getElem?_eq_none_iff.2 hmem]
        · rfl
  | setStr val =>
      refine ⟨fun _ _ hop => (by cases hop), fun _ => ⟨_, rfl, toNotify_setStr, _, _, rfl, ?_⟩⟩
      rw [Property.setStr]
      cases p.accept val with
      | none => exact rfl
      | some value => exact callsAll_notify p
  | notify =>
      exact ⟨fun _ _ hop => (by cases hop), fun _ => ⟨_, rfl, rfl, _, rfl, callsAll_notify p⟩⟩
  | replace prop =>
      exact ⟨fun _ _ hop => (by cases hop), fun _ => ⟨_, rfl, toNotify_replacing⟩⟩

variable {l : Ledger}

/-- The identifier of the next subscription is in use if it was given out before the last
replacement, since those given out after it are smaller. -/
theorem Records.stepCorrect_iff (h : Records p l) (op : Op) :
    StepCorrect propId p op ↔ l.SubscribeOk op := by
  rw [Property.stepCorrect_iff]
  cases op with
  | subscribe f =>
      have hnext : l.made + 1 ∉ l.fresh := fun hmem => by
        have := h.le _ hmem
        omega
      rw [Ledger.SubscribeOk, ← h.made, h.mem]
      constructor
      · exact fun hfree hold => hfree f rfl (Or.inr hold)
      · exact fun hold f' _ hmem => hmem.elim hnext hold
  | unsubscribe rid => exact ⟨fun _ => trivial, fun _ _ hop => (by cases hop)⟩
  | setStr val => exact ⟨fun _ => trivial, fun _ _ hop => (by cases hop)⟩
  | notify => exact ⟨fun _ => trivial, fun _ _ hop => (by cases hop)⟩
  | replace prop => exact ⟨fun _ => trivial, fun _ _ hop => (by cases hop)⟩

/-- Every operation is recorded. -/
theorem Records.step (h : Records p l) (op : Op) :
    Option.Rel (fun r r' => Records r.1 r'.1) (step propId p op) (l.step op) := by
  cases op with
  | subscribe f =>
      refine Option.Rel.some ⟨congrArg (· + 1) h.made, fun rid => ?_, fun rid hrid => ?_⟩
      · change rid ∈ p.toNotify.insert (p.counter + 1) f ↔ rid ∈ (l.made + 1) :: l.fresh ∨ _
        rw [Std.ExtTreeMap.mem_insert, IdMap.compare_eq_iff, h.mem, List.mem_cons, or_assoc, h.made,
          eq_comm]
      · change rid ≤ l.made + 1
        rcases List.mem_cons.1 hrid with rfl | hrid
        · exact Nat.le_refl _
        · exact Nat.le_succ_of_le (h.le rid hrid)
  | unsubscribe rid =>
      refine Option.Rel.some ⟨?_, fun rid' => ?_, fun rid' hrid' => ?_⟩
      · change l.made = (p.unsubscribe rid).1.counter
        rw [Property.unsubscribe]
        split_ifs <;> exact h.made
      · have hmem : rid' ∈ (p.unsubscribe rid).1.toNotify ↔ rid' ≠ rid ∧ rid' ∈ p.toNotify := by
          rw [Property.unsubscribe]
          split_ifs with hin
          · exact IdMap.mem_erase
          · exact ⟨fun hrid' => ⟨fun heq => hin (heq ▸ hrid'), hrid'⟩, And.right⟩
        rw [hmem, h.mem, and_or_left]
        simp [and_comm]
      · exact h.le rid' (List.mem_filter.1 hrid').1
  | setStr val =>
      exact Option.Rel.some ⟨h.made.trans counter_setStr.symm,
        fun rid => by rw [toNotify_setStr, h.mem], h.le⟩
  | notify => exact Option.Rel.some h
  | replace prop =>
      refine Option.Rel.some ⟨?_, fun rid => ?_, fun rid hrid => absurd hrid List.not_mem_nil⟩
      · simp [replacing]
      · rw [toNotify_replacing, h.mem]
        simp

/-- For a property object that is made, all operations do what they should exactly when
every subscription is made while no callback has its number from an object that the
present one has replaced. -/
theorem stepCorrect_iff_subscribeOk (propId : ℕ) (spec : InfoTree) (value : String)
    (accept : String → Option String) (ops : List Op) :
    Machine.Admits (step propId) (StepCorrect propId) (make spec value accept) ops ↔
      Machine.Admits Ledger.step Ledger.SubscribeOk Ledger.start ops := by
  refine Machine.admits_iff_admits_of_rel (R := Records) (fun p l op h => h.stepCorrect_iff op)
    (fun p l op h _ => h.step op) ⟨rfl, fun rid => ?_, fun rid hrid => ?_⟩ ops
  · simp [make, Ledger.start]
  · exact absurd hrid List.not_mem_nil

/-- A callback that is subscribed after a replacement takes the place of the one that was
subscribed before it. -/
theorem not_stepCorrect_replace :
    ¬Machine.Admits (step 1) (StepCorrect 1) (make InfoTree.make "" some)
      [.subscribe 10, .replace (make InfoTree.make "" some), .subscribe 20] := by
  rintro ⟨-, h⟩
  obtain ⟨-, h⟩ := h _ rfl
  obtain ⟨h, -⟩ := h _ rfl
  exact (Property.stepCorrect_iff _ _).1 h 20 rfl (by decide +kernel)

end Property
end LibSwitcher
