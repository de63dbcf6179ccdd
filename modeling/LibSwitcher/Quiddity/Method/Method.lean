/-
# Methods called by texts

`switcher/quiddity/method/method.hpp`: a method can be called with a tuple
(`invoke_from_tuple`), or with the text of one, and then gives its result as a text (`invoke`) or as
an `Any` (`invoke_any`).  The functions that make these results come in two specialisations, and
those for `void` do not call the function.

The texts are read component by component, as far as the method has arguments: what is missing is
read from the empty text, and what is left is not looked at.  `invokes_iff` says for which tuples the
three ways agree, and which texts of no tuple are refused.
-/

import LibSwitcher.Utils.TupleRoundTrip

namespace LibSwitcher

open Serialize Stringutils

/-- The type of an argument. -/
inductive ArgTy
  | string
  | int (t : IntTy)
  | bool

namespace ArgTy

/-- The values of an argument. -/
def Val : ArgTy → Type
  | string => String
  | int t => t.Val
  | bool => Bool

/-- `serialize::apply`. -/
def apply : (t : ArgTy) → t.Val → String
  | string, s => s
  | int t, v => t.apply v
  | bool, (b : Bool) => if b then "true" else "false"

/-- `deserialize::apply`. -/
def deserialize : (t : ArgTy) → String → Option t.Val
  | string, str => some str
  | int t, str => t.deserialize str
  | bool, str =>
      if str.toList.head?.any fun c => c.toLower = 't' then some true
      else if str.toList.head?.any fun c => c.toLower = 'f' then some false
      else none

end ArgTy

/-- The tuples of arguments, `args_t`. -/
def Args : List ArgTy → Type
  | [] => Unit
  | t :: ts => t.Val × Args ts

namespace Args

/-- `serialize::append_targs`. -/
def appendTargs : (ts : List ArgTy) → ℕ → Args ts → String
  | [], _, _ => ""
  | t :: ts, pos, vs =>
      (if pos = 0 then "" else ",") ++ replaceChar (t.apply vs.1) ',' tupleCommaEscString ++
        appendTargs ts (pos + 1) vs.2

/-- `serialize::apply` for the tuple. -/
def text {ts : List ArgTy} (vs : Args ts) : String := appendTargs ts 0 vs

/-- The text of the first component of a tuple, with commas in place of the markers. -/
def firstText (res : String) : String :=
  replaceString (String.ofList (res.toList.takeWhile (· ≠ ','))) tupleCommaEscString ","

/-- What follows the first comma, if there is one. -/
def nextText (res : String) : String := String.ofList (res.toList.dropWhile (· ≠ ',')).tail

/-- `deserialize::apply` for the tuple, by `deserialize::append_targs`. -/
def deserialize : (ts : List ArgTy) → String → Option (Args ts)
  | [], _ => some ()
  | t :: ts, res => (t.deserialize (firstText res)).bind fun v =>
      (deserialize ts (nextText res)).map fun vs => (v, vs)

end Args

/-- The type of a result: none, or a type with the texts of its values. -/
inductive ReturnTy
  | void
  | value (R : Type) (serialize : R → String)

namespace ReturnTy

/-- The values that are returned. -/
def Val : ReturnTy → Type
  | void => Unit
  | value R _ => R

/-- A method returns something. -/
def IsValue : ReturnTy → Prop
  | void => False
  | value _ _ => True

end ReturnTy

/-- What is returned, and the tuples that the function of the method was called with. -/
structure Called (A α : Type) where
  calls : List A
  result : α

/-- A `BoolLog`. -/
structure BoolLog where
  isValid : Bool
  msg : String
  deriving DecidableEq

/-- A `BoolAny`, whose `Any` holds nothing or a value of a type. -/
structure BoolAny (α : Type) where
  isValid : Bool
  msg : String
  any : Option α

namespace ReturnTy

/-- The `BoolLog` of a value. -/
def boolLog : (ret : ReturnTy) → ret.Val → BoolLog
  | void, _ => ⟨true, ""⟩
  | value _ serialize, r => ⟨true, serialize r⟩

/-- The `BoolAny` of a value. -/
def boolAny : (ret : ReturnTy) → ret.Val → BoolAny ret.Val
  | void, _ => ⟨true, "", none⟩
  | value _ _, r => ⟨true, "", some r⟩

end ReturnTy

/-- A `Method`: what its function returns when it is called. -/
structure Method (ts : List ArgTy) (ret : ReturnTy) where
  function : Args ts → ret.Val

namespace Method

variable {ts : List ArgTy} {ret : ReturnTy}

/-- `invoke_from_tuple`. -/
def invokeFromTuple (m : Method ts ret) (t : Args ts) : Called (Args ts) ret.Val :=
  ⟨[t], m.function t⟩

/-- `make_valid_boollog`, the specialisation for `void` and the other one. -/
def makeValidBoollog : {ret : ReturnTy} → Method ts ret → Args ts → Called (Args ts) BoolLog
  | .void, _, _ => ⟨[], ⟨true, ""⟩⟩
  | .value _ serialize, m, tup =>
      ⟨(m.invokeFromTuple tup).calls, ⟨true, serialize (m.invokeFromTuple tup).result⟩⟩

/-- `make_valid_boolany`, the specialisation for `void` and the other one. -/
def makeValidBoolany : {ret : ReturnTy} → Method ts ret → Args ts →
    Called (Args ts) (BoolAny ret.Val)
  | .void, _, _ => ⟨[], ⟨true, "", none⟩⟩
  | .value _ _, m, tup =>
      ⟨(m.invokeFromTuple tup).calls, ⟨true, "", some (m.invokeFromTuple tup).result⟩⟩

/-- What is said of a text that is refused. -/
def failedMessage (serializedTuple : String) : String :=
  "invoke failed to deserialize following arguments: " ++ serializedTuple

/-- `invoke`. -/
def invoke (m : Method ts ret) (serializedTuple : String) : Called (Args ts) BoolLog :=
  match Args.deserialize ts serializedTuple with
  | none => ⟨[], ⟨false, failedMessage serializedTuple⟩⟩
  | some tup => m.makeValidBoollog tup

/-- `invoke_any`. -/
def invokeAny (m : Method ts ret) (serializedTuple : String) :
    Called (Args ts) (BoolAny ret.Val) :=
  match Args.deserialize ts serializedTuple with
  | none => ⟨[], ⟨false, failedMessage serializedTuple, none⟩⟩
  | some tup => m.makeValidBoolany tup

/-! ### What the texts should do -/

/-- The text of a tuple calls the function with the tuple, once, and gives what it returns. -/
def AgreesOn (m : Method ts ret) (t : Args ts) : Prop :=
  m.invoke t.text = ⟨(m.invokeFromTuple t).calls, ret.boolLog (m.invokeFromTuple t).result⟩ ∧
    m.invokeAny t.text = ⟨(m.invokeFromTuple t).calls, ret.boolAny (m.invokeFromTuple t).result⟩

/-- A text is refused, and the function is not called. -/
def Refuses (m : Method ts ret) (text : String) : Prop :=
  (m.invoke text).calls = [] ∧ (m.invoke text).result.isValid = false ∧
    (m.invokeAny text).calls = [] ∧ (m.invokeAny text).result.isValid = false

end Method

/-- A text of a component denotes a value: a string denotes itself, and an integer is denoted in
decimal.  Which texts denote booleans is left open. -/
def ArgTy.Denoted (isBool : String → Bool → Prop) : (t : ArgTy) → String → t.Val → Prop
  | .string, str, s => str = s
  | .int _, str, v => Denotes str v.val
  | .bool, str, b => isBool str b

/-- A text denotes a tuple: it has as many parts between commas as the tuple has components, and each
of them, with commas in place of the markers, denotes the component. -/
def Args.Denoted (isBool : String → Bool → Prop) : (ts : List ArgTy) → String → Args ts → Prop
  | [], text, _ => text = ""
  | [t], text, vs => ',' ∉ text.toList ∧ t.Denoted isBool (Args.firstText text) vs.1
  | t :: t' :: ts, text, vs => ',' ∈ text.toList ∧ t.Denoted isBool (Args.firstText text) vs.1 ∧
      Args.Denoted isBool (t' :: ts) (Args.nextText text) vs.2

/-- A text is refused for a component: that of an integer starts neither with a digit nor with a
minus, that of a boolean with none of the letters `t` and `f`. -/
def ArgTy.Refused : ArgTy → String → Prop
  | string, _ => False
  | int _, str => startsNumber str = false
  | bool, str => ∀ c ∈ str.toList.head?, c.toLower ≠ 't' ∧ c.toLower ≠ 'f'

/-- One of the components is refused, those that are missing being empty. -/
def Args.Refused : List ArgTy → String → Prop
  | [], _ => False
  | t :: ts, text => t.Refused (Args.firstText text) ∨ Args.Refused ts (Args.nextText text)

/-- A string has no marker, and none that lacks its last characters before a comma. -/
def ArgTy.Unmarked : (t : ArgTy) → t.Val → Prop
  | string, (s : String) => Serialize.Unmarked s
  | _, _ => True

/-- The strings of a tuple are unmarked. -/
def Args.Unmarked : (ts : List ArgTy) → Args ts → Prop
  | [], _ => True
  | t :: ts, vs => t.Unmarked vs.1 ∧ Args.Unmarked ts vs.2

/-! ### Tuples that are read back -/

namespace ArgTy

/-- The text of an integer or of a boolean has no commas and no underscores, so that it is read back
as it is. -/
theorem unesc_esc_of_plain {str : String} (h : ∀ c ∈ str.toList, c ≠ ',' ∧ c ≠ '_') :
    String.ofList (unesc (esc str.toList)) = str := by
  have hmark : ¬mark <:+: str.toList := fun hin => (h '_' (hin.subset (by decide))).2 rfl
  rw [esc_of_not_mem fun hmem => (h _ hmem).1 rfl, unesc_of_plain hmark, String.ofList_toList]

/-- A component is read back from its text with markers in place of the commas, unless it is a
string with a marker of its own. -/
theorem deserialize_apply_iff (t : ArgTy) (v : t.Val) :
    t.deserialize (String.ofList (unesc (esc (t.apply v).toList))) = some v ↔ t.Unmarked v := by
  cases t with
  | string =>
      have hstring : ∀ s : String, some (String.ofList (unesc (esc s.toList))) = some s ↔
          Serialize.Unmarked s := fun s => by
        rw [Option.some.injEq, ← unesc_esc_iff, ← String.toList_inj, String.toList_ofList]
      exact hstring v
  | int t =>
      have hint : ∀ v : t.Val,
          t.deserialize (String.ofList (unesc (esc (t.apply v).toList))) = some v := fun v => by
        rw [IntTy.apply, unesc_esc_of_plain (plain_toString v.val)]
        exact IntTy.deserialize_apply v
      exact iff_of_true (hint v) trivial
  | bool =>
      have hbool : ∀ b : Bool, bool.deserialize
          (String.ofList (unesc (esc (bool.apply b).toList))) = some b := by
        intro b
        cases b
        · rw [unesc_esc_of_plain (List.forall_iff_forall_mem.1 (by decide))]
          rfl
        · rw [unesc_esc_of_plain (List.forall_iff_forall_mem.1 (by decide))]
          rfl
      exact iff_of_true (hbool v) trivial

/-- What is read from a text is none if it is refused. -/
theorem deserialize_eq_none_iff (t : ArgTy) (str : String) :
    t.deserialize str = none ↔ t.Refused str := by
  cases t with
  | string => exact iff_of_false (fun h => by cases h) not_false
  | int t =>
      rw [deserialize, IntTy.deserialize, Refused]
      split_ifs with h
      · exact iff_of_false (fun h => by cases h) (by simp [h])
      · exact iff_of_true rfl (Bool.eq_false_iff.2 h)
  | bool =>
      rw [deserialize, Refused]
      cases str.toList.head? with
      | none => simp
      | some c =>
          by_cases ht : c.toLower = 't'
          · simp [ht]
          · by_cases hf : c.toLower = 'f' <;> simp [ht, hf]

end ArgTy

namespace Args

/-- What is read from a text is none if a component is refused. -/
theorem deserialize_eq_none_iff : ∀ (ts : List ArgTy) (text : String),
    deserialize ts text = none ↔ Refused ts text
  | [], _ => iff_of_false (fun h => by cases h) not_false
  | t :: ts, text => by
      rw [deserialize, Refused, ← t.deserialize_eq_none_iff, ← deserialize_eq_none_iff ts]
      exact bind_map_eq_none

theorem appendTargs_succ : ∀ (ts : List ArgTy) (pos pos' : ℕ) (vs : Args ts),
    appendTargs ts (pos + 1) vs = appendTargs ts (pos' + 1) vs
  | [], _, _, _ => rfl
  | t :: ts, pos, pos', vs => by
      rw [appendTargs, appendTargs, if_neg (Nat.succ_ne_zero _), if_neg (Nat.succ_ne_zero _),
        appendTargs_succ ts (pos + 1) (pos' + 1)]

/-- The text of a component, which has no commas, is followed by a comma and the texts of the others,
if there are any. -/
theorem toList_text (t : ArgTy) (ts : List ArgTy) (vs : Args (t :: ts)) :
    (text vs).toList = esc (t.apply vs.1).toList ++
      (if ts = [] then [] else ',' :: (text vs.2).toList) := by
  cases ts with
  | nil => simp [text, appendTargs, toList_replaceChar]
  | cons t' ts => simp [text, appendTargs, toList_replaceChar, appendTargs_succ ts 1 0]

theorem firstText_eq {text : String} {u r : List Char} (hu : ',' ∉ u)
    (h : text.toList = u ++ r) (hr : r = [] ∨ ∃ r', r = ',' :: r') :
    firstText text = String.ofList (unesc u) ∧ nextText text = String.ofList r.tail := by
  have hne : ∀ c ∈ u, decide (c ≠ ',') = true := fun c hc =>
    decide_eq_true fun heq => hu (heq ▸ hc)
  rw [firstText, nextText, h, replaceString_ofList, List.takeWhile_append_of_pos hne,
    List.dropWhile_append_of_pos hne]
  rcases hr with rfl | ⟨r', rfl⟩
  · rw [List.takeWhile_nil, List.append_nil]
    exact ⟨rfl, rfl⟩
  · rw [List.takeWhile_cons_of_neg (by decide), List.append_nil,
      List.dropWhile_cons_of_neg (by decide)]
    exact ⟨rfl, rfl⟩

/-- A tuple is read back from its text exactly if its strings are unmarked. -/
theorem deserialize_text_iff : ∀ (ts : List ArgTy) (vs : Args ts),
    deserialize ts vs.text = some vs ↔ Unmarked ts vs
  | [], _ => iff_of_true rfl trivial
  | t :: ts, vs => by
      obtain ⟨hfirst, hnext⟩ := firstText_eq (comma_not_mem_esc _) (toList_text t ts vs) (by
        split_ifs
        · exact Or.inl rfl
        · exact Or.inr ⟨_, rfl⟩)
      have hrest : deserialize ts (nextText vs.text) = some vs.2 ↔ Unmarked ts vs.2 := by
        rw [← deserialize_text_iff ts vs.2, hnext]
        split_ifs with hts
        · subst hts
          rfl
        · rw [List.tail_cons, String.ofList_toList]
      rw [deserialize, Unmarked, ← hrest, ← t.deserialize_apply_iff, ← hfirst]
      exact bind_map_eq_some

end Args

/-! ### The three ways to call a method -/

namespace Method

variable {ts : List ArgTy} {ret : ReturnTy} {m : Method ts ret} {t : Args ts} {text : String}

/-- The three ways agree if the method returns something and the text is read back. -/
theorem agreesOn_iff : m.AgreesOn t ↔ ret.IsValue ∧ Args.Unmarked ts t := by
  rw [AgreesOn, invoke, invokeAny, ← Args.deserialize_text_iff]
  cases hread : Args.deserialize ts t.text with
  | none => exact iff_of_false (fun h => by cases h.1) (fun h => by cases h.2)
  | some tup =>
      cases ret with
      | void => exact iff_of_false (fun h => by cases h.1) fun h => h.1
      | value R serialize =>
          rw [Option.some_inj]
          constructor
          · intro h
            exact ⟨trivial, List.singleton_inj.1 (congrArg Called.calls h.1)⟩
          · rintro ⟨-, rfl⟩
            exact ⟨rfl, rfl⟩

/-- A text is refused if it is refused for a component. -/
theorem refuses_iff : m.Refuses text ↔ Args.Refused ts text := by
  rw [Refuses, invoke, invokeAny, ← Args.deserialize_eq_none_iff]
  cases hread : Args.deserialize ts text with
  | none => exact iff_of_true ⟨rfl, rfl, rfl, rfl⟩ rfl
  | some tup =>
      refine iff_of_false (fun h => ?_) (Option.some_ne_none _)
      cases ret with
      | void => exact Bool.noConfusion h.2.1
      | value R serialize => exact absurd h.1 (List.cons_ne_nil _ _)

/-- **The texts call the function** as the tuples do where it returns something and the strings are
unmarked, and a text of no tuple is refused where it is refused for a component. -/
theorem invokes_iff (m : Method ts ret) (isBool : String → Bool → Prop) :
    (∀ t, m.AgreesOn t ↔ ret.IsValue ∧ Args.Unmarked ts t) ∧
      ∀ text, ((¬∃ t, Args.Denoted isBool ts text t) → m.Refuses text) ↔
        Args.Refused ts text ∨ ∃ t, Args.Denoted isBool ts text t := by
  refine ⟨fun t => agreesOn_iff, fun text => ?_⟩
  rw [refuses_iff, ← or_iff_not_imp_left, or_comm]

/-- A method that returns nothing is not called by the text of its arguments, and one that takes a
string and returns something is called by a text of two. -/
theorem not_invokes :
    (¬∀ (ts : List ArgTy) (ret : ReturnTy) (m : Method ts ret) (t : Args ts), m.AgreesOn t) ∧
      ∀ isBool, ¬∀ (ts : List ArgTy) (ret : ReturnTy) (m : Method ts ret) (text : String),
        (¬∃ t, Args.Denoted isBool ts text t) → m.Refuses text := by
  refine ⟨fun h => ?_, fun isBool h => ?_⟩
  · have hcalls := h [] .void ⟨fun _ => ()⟩ ()
    exact absurd (congrArg (List.length ∘ Called.calls) hcalls.1) (by decide)
  · have hrefused := h [.string] (.value Bool toString) ⟨fun _ => true⟩ "a,b" fun ⟨t, hdenoted⟩ =>
      hdenoted.1 (by decide)
    exact absurd (congrArg List.length hrefused.1) (by decide)

end Method
end LibSwitcher
