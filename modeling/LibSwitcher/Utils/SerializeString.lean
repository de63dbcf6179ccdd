/-
# Values as texts

`switcher/utils/serialize-string.hpp`: the text of a value, and the value of a text.  The values
here are strings, integers of 64 bits, booleans, and tuples of such values.

The text of a tuple is made of the texts of its components with commas between them, and the
commas of the components are replaced by a marker (`Serialize.tupleCommaEscString`).  To read a
tuple, the text is cut at its commas and the markers of the parts become commas again.
-/

import LibSwitcher.Utils.StringUtils
import Mathlib.Algebra.Ring.Int.Defs

namespace LibSwitcher
namespace Serialize

open Stringutils

mutual

/-- The types of the values. -/
inductive Ty
  | string
  | long
  | ulong
  | bool
  | tuple (ts : Tys)

/-- The types of the components of a tuple. -/
inductive Tys
  | nil
  | cons (t : Ty) (ts : Tys)

end

/-- A `long`. -/
structure Long where
  val : ℤ
  lower : -2 ^ 63 ≤ val
  upper : val < 2 ^ 63

/-- An `unsigned long`. -/
structure ULong where
  val : ℕ
  upper : val < 2 ^ 64

mutual

/-- The values of a type. -/
def Ty.Val : Ty → Type
  | .string => String
  | .long => Long
  | .ulong => ULong
  | .bool => Bool
  | .tuple ts => ts.Vals

/-- The components of a tuple. -/
def Tys.Vals : Tys → Type
  | .nil => Unit
  | .cons t ts => t.Val × ts.Vals

end

/-- `tuple_comma_esc_string`. -/
def tupleCommaEscString : String := "__comma__"

mutual

/-- `serialize::apply`. -/
def Ty.apply : (t : Ty) → t.Val → String
  | .string, s => s
  | .long, z => toString z.val
  | .ulong, n => toString n.val
  | .bool, (b : Bool) => if b then "true" else "false"
  | .tuple ts, vs => ts.appendTargs 0 vs

/-- `serialize::append_targs`: the text of the components from a position on. -/
def Tys.appendTargs : (ts : Tys) → ℕ → ts.Vals → String
  | .nil, _, _ => ""
  | .cons t ts, pos, vs =>
      (if pos = 0 then "" else ",") ++ replaceChar (t.apply vs.1) ',' tupleCommaEscString ++
        ts.appendTargs (pos + 1) vs.2

end

/-- The number that the operator `>>` reads from digits. -/
def readDecimal (cs : List Char) : ℕ := Nat.ofDigitChars 10 (cs.takeWhile Char.isDigit) 0

/-- What the operator `>>` reads into a `long`: a number that is too large or too small becomes
the largest or the smallest one, and zero is read where there are no digits. -/
def readLong (cs : List Char) : Long :=
  if cs.head? = some '-' then ⟨-(min (readDecimal cs.tail) (2 ^ 63) : ℕ), by omega, by omega⟩
  else ⟨(min (readDecimal cs) (2 ^ 63 - 1) : ℕ), by omega, by omega⟩

/-- What the operator `>>` reads into an `unsigned long`; a number with a sign is negated. -/
def readULong (cs : List Char) : ULong :=
  if cs.head? = some '-' then
    if readDecimal cs.tail < 2 ^ 64 then ⟨(2 ^ 64 - readDecimal cs.tail) % 2 ^ 64, by omega⟩
    else ⟨2 ^ 64 - 1, by omega⟩
  else ⟨min (readDecimal cs) (2 ^ 64 - 1), by omega⟩

/-- A text that integers are read from: it starts with a digit or a minus. -/
def startsNumber (str : String) : Bool := str.toList.head?.any fun c => c.isDigit || c == '-'

mutual

/-- `deserialize::apply`. -/
def Ty.deserialize : (t : Ty) → String → Option t.Val
  | .string, str => some str
  | .long, str => if startsNumber str then some (readLong str.toList) else none
  | .ulong, str => if startsNumber str then some (readULong str.toList) else none
  | .bool, str =>
      if str.toList.head?.any fun c => c.toLower = 't' then some true
      else if str.toList.head?.any fun c => c.toLower = 'f' then some false
      else none
  | .tuple ts, str => ts.readTargs str

/-- `deserialize::append_targs`: the components that a text has from the first comma on, or
where there is no comma, those of the empty text. -/
def Tys.readTargs : (ts : Tys) → String → Option ts.Vals
  | .nil, _ => some ()
  | .cons t ts, res =>
      let first := String.ofList (res.toList.takeWhile (· ≠ ','))
      let next := String.ofList (res.toList.dropWhile (· ≠ ',')).tail
      (t.deserialize (replaceString first tupleCommaEscString ",")).bind fun v =>
        (ts.readTargs next).map fun vs => (v, vs)

end

end Serialize
end LibSwitcher
