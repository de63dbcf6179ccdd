/-
# Dynamic values

`switcher/utils/any.hpp`: the values an information tree holds.  An integer read
from a document is an `int`, an identifier stored by the code is a `size_t`, and a
double is known by its text only.
-/

import Mathlib.Algebra.Group.Int.Defs
import Mathlib.Algebra.Group.Nat.Defs
import Mathlib.Data.Int.Notation
import Mathlib.Data.Nat.Notation
import Mathlib.Tactic.Common

namespace LibSwitcher

/-- An `Any`, for the types that the code stores. -/
inductive Any
  | null
  | bool (b : Bool)
  | int (i : ℤ)
  | id (n : ℕ)
  | double (text : String)
  | str (s : String)
  deriving DecidableEq

namespace Any

/-- `is<std::string>()`. -/
def isString : Any → Bool
  | str _ => true
  | _ => false

/-- `as<std::string>()`: the empty string for a value of another type. -/
def asString : Any → String
  | str s => s
  | _ => ""

/-- The conversion to `bool`; the source leaves the result for a value of another type
undetermined. -/
def asBool : Any → Bool
  | bool b => b
  | _ => false

/-- `copy_as<size_t>()`: zero for a value that is not a number; a double, which is known
by its text only, is not converted here. -/
def asId : Any → ℕ
  | id n => n
  | int i => (i % 2 ^ 64).toNat
  | _ => 0

/-- `to_string`. -/
protected def toString : Any → String
  | null => "null"
  | bool b => if b then "true" else "false"
  | int i => ToString.toString i
  | id n => ToString.toString n
  | double text => text
  | str s => s

theorem isString_iff {a : Any} : a.isString = true ↔ ∃ s, a = .str s := by
  cases a <;> simp [isString]

end Any
end LibSwitcher
