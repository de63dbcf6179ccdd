/-
# The builder calls of a tree

What json-glib's builder accepts (`Builds`): one scalar, or an array or an object from its
begin to its end, with a member name before each member of an object and nowhere else.
`serialize` opens a node in `on_visiting_node` and closes it in `on_node_visited`.  The two
agree but on a leaf that has a value and the tag of an array: a value is added for it and
then an array is ended (`Clashes`).  So there is an end too many for each such leaf
(`count_endArray`), and the calls are well bracketed exactly where no leaf below the root is
one (`wellBracketed_iff`).
-/

import LibSwitcher.InfoTree.JsonBuilder

namespace LibSwitcher

/-! ### The grammar -/

namespace BuilderCall

/-- A call that adds a value at once. -/
def isScalar : BuilderCall → Bool
  | addNullValue => true
  | addBooleanValue _ => true
  | addIntValue _ => true
  | addDoubleValue _ => true
  | addStringValue _ => true
  | _ => false

/-- What a sequence of calls builds. -/
inductive Part
  | value
  | elements
  | members

/-- The words of the grammar. -/
inductive Builds : Part → List BuilderCall → Prop
  | scalar {c : BuilderCall} (hc : c.isScalar = true) : Builds .value [c]
  | array {w : List BuilderCall} (hw : Builds .elements w) :
      Builds .value (beginArray :: w ++ [endArray])
  | object {w : List BuilderCall} (hw : Builds .members w) :
      Builds .value (beginObject :: w ++ [endObject])
  | noElement : Builds .elements []
  | element {v w : List BuilderCall} (hv : Builds .value v) (hw : Builds .elements w) :
      Builds .elements (v ++ w)
  | noMember : Builds .members []
  | member (name : String) {v w : List BuilderCall} (hv : Builds .value v)
      (hw : Builds .members w) : Builds .members (setMemberName name :: v ++ w)

/-- Calls that build one complete root, if there are any. -/
def WellBracketed (calls : List BuilderCall) : Prop := calls = [] ∨ Builds .value calls

/-- As many arrays are ended as begun. -/
theorem Builds.count_eq {part : Part} {w : List BuilderCall} (h : Builds part w) :
    w.count endArray = w.count beginArray := by
  induction h with
  | @scalar c hc => cases c <;> first | rfl | cases hc
  | array hw ih => simp [ih]
  | object hw ih => simp [ih]
  | noElement => rfl
  | element hv hw ihv ihw => rw [List.count_append, List.count_append, ihv, ihw]
  | noMember => rfl
  | member name hv hw ihv ihw => simp [ihv, ihw]

end BuilderCall

namespace InfoTree

open BuilderCall

/-! ### The property and the condition -/

/-- The calls that `serialize` makes; the text of a leaf is made without any. -/
def builderCalls (repeatArrayIndexes : Bool) (tree : InfoTree) : List BuilderCall :=
  if tree.isLeaf then [] else rootCalls repeatArrayIndexes tree

/-- A leaf with a value and the tag of an array. -/
def Clashes (t : InfoTree) : Prop := t.isLeaf = true ∧ t.isArray = true ∧ t.data ≠ .null

instance decidableClashes (t : InfoTree) : Decidable t.Clashes :=
  inferInstanceAs (Decidable (_ ∧ _ ∧ _))

/-- A node below another one. -/
inductive Below : InfoTree → InfoTree → Prop
  | child {t : InfoTree} {e : String × InfoTree} (he : e ∈ t.children) : Below t e.2
  | step {t n : InfoTree} {e : String × InfoTree} (he : e ∈ t.children) (hn : Below e.2 n) :
      Below t n

variable {t n : InfoTree} {d : NodeData} {e : String × InfoTree} {cs : List (String × InfoTree)}

theorem below_cons_iff :
    (∀ n, Below (.node d (e :: cs)) n → ¬n.Clashes) ↔
      (¬e.2.Clashes ∧ ∀ n, Below e.2 n → ¬n.Clashes) ∧
        ∀ n, Below (.node d cs) n → ¬n.Clashes := by
  constructor
  · intro h
    refine ⟨⟨h _ (.child List.mem_cons_self), fun n hn => h n (.step List.mem_cons_self hn)⟩,
      fun n hn => ?_⟩
    cases hn with
    | child he => exact h _ (.child (List.mem_cons_of_mem _ he))
    | step he hn => exact h _ (.step (List.mem_cons_of_mem _ he) hn)
  · rintro ⟨⟨hself, hbelow⟩, hrest⟩ n hn
    cases hn with
    | child he =>
        rcases List.mem_cons.1 he with rfl | he
        · exact hself
        · exact hrest _ (.child he)
    | step he hn =>
        rcases List.mem_cons.1 he with rfl | he
        · exact hbelow n hn
        · exact hrest n (.step he hn)

/-! ### Ends without a begin -/

mutual

/-- The number of leaves below a node that clash. -/
def clashCount : InfoTree → ℕ
  | .node _ cs => clashCountChildren cs

/-- Their number among children and below them. -/
def clashCountChildren : List (String × InfoTree) → ℕ
  | [] => 0
  | (_, c) :: cs => (if c.Clashes then 1 else 0) + clashCount c + clashCountChildren cs

end

/-- What is called before and after the nodes below. -/
theorem count_visit (key : String) (t : InfoTree) (isArrayElement repeatArrayIndexes : Bool) :
    (onVisitingNode key t isArrayElement repeatArrayIndexes).count endArray +
        (onNodeVisited t).count endArray =
      (onVisitingNode key t isArrayElement repeatArrayIndexes).count beginArray +
        (onNodeVisited t).count beginArray + if t.Clashes then 1 else 0 := by
  have htyped : ∀ v, (writeTypedMember v == endArray) = false ∧
      (writeTypedMember v == beginArray) = false := by
    intro v
    cases v <;> exact ⟨rfl, rfl⟩
  simp only [onVisitingNode, onNodeVisited, Clashes]
  by_cases hleaf : t.isLeaf = true <;> by_cases harray : t.isArray = true <;>
    by_cases hdata : t.data = .null <;> cases isArrayElement <;> cases repeatArrayIndexes <;>
      simp [hleaf, harray, hdata, List.count_cons, htyped]

mutual

/-- There is an end of an array too many for each leaf that clashes. -/
theorem count_writeWalk (r : Bool) : (t : InfoTree) →
    (writeWalk r t).count endArray = (writeWalk r t).count beginArray + clashCount t
  | .node d cs => by
      rw [writeWalk, clashCount]
      exact count_writeChildren r d.isArray cs

theorem count_writeChildren (r isArray : Bool) : (cs : List (String × InfoTree)) →
    (writeChildren r isArray cs).count endArray =
      (writeChildren r isArray cs).count beginArray + clashCountChildren cs
  | [] => rfl
  | (key, c) :: cs => by
      have hc := count_writeWalk r c
      have hcs := count_writeChildren r isArray cs
      have hvisit := count_visit key c isArray r
      rw [writeChildren, clashCountChildren]
      simp only [List.count_append]
      omega

end

mutual

/-- No leaf below a node clashes if their number is zero. -/
theorem clashCount_eq_zero_iff : (t : InfoTree) →
    (clashCount t = 0 ↔ ∀ n, Below t n → ¬n.Clashes)
  | .node d cs => by
      rw [clashCount]
      exact clashCountChildren_eq_zero_iff d cs

theorem clashCountChildren_eq_zero_iff (d : NodeData) : (cs : List (String × InfoTree)) →
    (clashCountChildren cs = 0 ↔ ∀ n, Below (.node d cs) n → ¬n.Clashes)
  | [] => by
      refine iff_of_true rfl fun n hn => ?_
      cases hn with
      | child he => cases he
      | step he _ => cases he
  | (key, c) :: cs => by
      have hc := clashCount_eq_zero_iff c
      have hcs := clashCountChildren_eq_zero_iff d cs
      rw [below_cons_iff, ← hc, ← hcs, clashCountChildren, Nat.add_eq_zero_iff,
        Nat.add_eq_zero_iff]
      simp

end

/-! ### Words -/

theorem isScalar_writeTypedMember (v : Any) : (writeTypedMember v).isScalar = true := by
  cases v <;> rfl

mutual

/-- The calls for a node with all that is below it, without its name. -/
theorem builds_node (key : String) (r r' : Bool) : (t : InfoTree) → ¬t.Clashes →
    (∀ n, Below t n → ¬n.Clashes) →
    Builds .value (onVisitingNode key t true r ++ writeWalk r' t ++ onNodeVisited t)
  | .node d [], hself, _ => by
      obtain ⟨v, isArray⟩ := d
      by_cases hv : v = .null
      · subst hv
        cases isArray with
        | true => exact Builds.array .noElement
        | false => exact Builds.scalar rfl
      · have harray : isArray = false := by
          cases isArray with
          | true => exact absurd ⟨rfl, rfl, hv⟩ hself
          | false => rfl
        subst harray
        have hcalls : onVisitingNode key (.node ⟨v, false⟩ []) true r ++
            writeWalk r' (.node ⟨v, false⟩ []) ++ onNodeVisited (.node ⟨v, false⟩ []) =
              [writeTypedMember v] := by
          simp [onVisitingNode, onNodeVisited, writeWalk, writeChildren, isLeaf, data,
            InfoTree.isArray, hv]
        rw [hcalls]
        exact Builds.scalar (isScalar_writeTypedMember v)
  | .node ⟨v, true⟩ (e :: cs), _, hbelow => by
      have hcalls : onVisitingNode key (.node ⟨v, true⟩ (e :: cs)) true r ++
          writeWalk r' (.node ⟨v, true⟩ (e :: cs)) ++ onNodeVisited (.node ⟨v, true⟩ (e :: cs)) =
            beginArray :: writeChildren r' true (e :: cs) ++ [endArray] := by
        simp [onVisitingNode, onNodeVisited, writeWalk, isLeaf, InfoTree.isArray]
      rw [hcalls]
      exact Builds.array (builds_elements r' ⟨v, true⟩ (e :: cs) hbelow)
  | .node ⟨v, false⟩ (e :: cs), _, hbelow => by
      have hmembers := builds_members r' ⟨v, false⟩ (e :: cs) hbelow
      have hvalue : Builds .members
          ((if v ≠ .null then [setMemberName "key_value", writeTypedMember v] else []) ++
            writeChildren r' false (e :: cs)) := by
        split_ifs
        · exact Builds.member "key_value" (.scalar (isScalar_writeTypedMember v)) hmembers
        · exact hmembers
      have hid : Builds .members
          ((if r then [setMemberName "id",
              addStringValue (Stringutils.cStr (unescapeDots key))] else []) ++
            ((if v ≠ .null then [setMemberName "key_value", writeTypedMember v] else []) ++
              writeChildren r' false (e :: cs))) := by
        split_ifs at hvalue ⊢
        · exact Builds.member "id" (.scalar rfl) hvalue
        · exact Builds.member "id" (.scalar rfl) hvalue
        · exact hvalue
        · exact hvalue
      have hcalls : onVisitingNode key (.node ⟨v, false⟩ (e :: cs)) true r ++
          writeWalk r' (.node ⟨v, false⟩ (e :: cs)) ++
            onNodeVisited (.node ⟨v, false⟩ (e :: cs)) =
          beginObject :: ((if r then [setMemberName "id",
              addStringValue (Stringutils.cStr (unescapeDots key))] else []) ++
            ((if v ≠ .null then [setMemberName "key_value", writeTypedMember v] else []) ++
              writeChildren r' false (e :: cs))) ++ [endObject] := by
        by_cases hv : v = .null <;>
          simp [onVisitingNode, onNodeVisited, writeWalk, isLeaf, InfoTree.isArray, data, hv]
      rw [hcalls]
      exact Builds.object hid

/-- The calls for the elements of an array. -/
theorem builds_elements (r : Bool) (d : NodeData) : (cs : List (String × InfoTree)) →
    (∀ n, Below (.node d cs) n → ¬n.Clashes) → Builds .elements (writeChildren r true cs)
  | [], _ => Builds.noElement
  | (key, c) :: cs, h => by
      obtain ⟨⟨hself, hbelow⟩, hrest⟩ := below_cons_iff.1 h
      rw [writeChildren]
      exact Builds.element (builds_node key r r c hself hbelow) (builds_elements r d cs hrest)

/-- The calls for the members of an object. -/
theorem builds_members (r : Bool) (d : NodeData) : (cs : List (String × InfoTree)) →
    (∀ n, Below (.node d cs) n → ¬n.Clashes) → Builds .members (writeChildren r false cs)
  | [], _ => Builds.noMember
  | (key, c) :: cs, h => by
      obtain ⟨⟨hself, hbelow⟩, hrest⟩ := below_cons_iff.1 h
      rw [writeChildren, onVisitingNode_named]
      exact Builds.member _ (builds_node key false r c hself hbelow)
        (builds_members r d cs hrest)

end

/-- The calls for a tree are well bracketed exactly if no leaf below its root has a value and
the tag of an array. -/
theorem wellBracketed_iff (repeatArrayIndexes : Bool) (t : InfoTree) :
    WellBracketed (builderCalls repeatArrayIndexes t) ↔ ∀ n, Below t n → ¬n.Clashes := by
  obtain ⟨d, cs⟩ := t
  cases cs with
  | nil =>
      refine iff_of_true (Or.inl rfl) fun n hn => ?_
      cases hn with
      | child he => cases he
      | step he _ => cases he
  | cons e cs =>
      have hroot : builderCalls repeatArrayIndexes (.node d (e :: cs)) =
          rootCalls repeatArrayIndexes (.node d (e :: cs)) := rfl
      rw [hroot, rootCalls, writeWalk]
      constructor
      · rintro (hnil | hbuilds)
        · simp at hnil
        · have hcount := hbuilds.count_eq
          have hwalk := count_writeChildren repeatArrayIndexes d.isArray (e :: cs)
          rw [← clashCount_eq_zero_iff, clashCount]
          cases harray : isArray (.node d (e :: cs)) <;>
            simp [harray] at hcount <;> omega
      · intro h
        obtain ⟨v, isArray⟩ := d
        cases isArray with
        | true => exact Or.inr (Builds.array (builds_elements repeatArrayIndexes _ _ h))
        | false => exact Or.inr (Builds.object (builds_members repeatArrayIndexes _ _ h))

/-- An array tagged on a value: its array is ended, but was never begun. -/
theorem not_wellBracketed_tagged : ¬WellBracketed
    (builderCalls true (.node emptyNode [("volume", .node ⟨.int 1, true⟩ [])])) := by
  rintro (hnil | hbuilds)
  · cases hnil
  · exact absurd hbuilds.count_eq (by decide +kernel)

end InfoTree
end LibSwitcher
