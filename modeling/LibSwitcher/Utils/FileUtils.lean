/-
# Files and directories

`switcher/utils/file-utils.cpp`, and what the code uses of `std::filesystem`.
A file system answers `opendir` with the entries `readdir` then returns, in its
order; an entry is a non-empty name without `/` and a type.
-/

import LibSwitcher.Lib.Components
import LibSwitcher.Utils.StringUtils

namespace LibSwitcher
namespace Fileutils

/-- The operator `/` of `std::filesystem::path`: an absolute path replaces what
it is appended to, and the separator is added where it is missing. -/
def pathAppend (p q : String) : String :=
  if q.toList.head? = some '/' then q
  else if p = "" ∨ p.toList.getLast? = some '/' then p ++ q
  else p ++ "/" ++ q

/-- `filename()`: what follows the last separator. -/
def filename (path : String) : String :=
  String.ofList (path.toList.reverse.takeWhile (· ≠ '/')).reverse

/-- A file name before and from its last dot on, which is not its first character; `.` and
`..` have no extension. -/
def splitExtension (name : String) : Option (String × String) :=
  let stem := (name.toList.reverse.dropWhile (· ≠ '.')).tail
  if name = "." ∨ name = ".." ∨ stem = [] then none
  else some (String.ofList stem.reverse,
    "." ++ String.ofList (name.toList.reverse.takeWhile (· ≠ '.')).reverse)

/-- `extension()` of a path with this file name. -/
def extension (name : String) : String := ((splitExtension name).map Prod.snd).getD ""

/-- `replace_extension(ext)`, for an extension with its dot. -/
def replaceExtension (name ext : String) : String :=
  ((splitExtension name).map Prod.fst).getD name ++ ext

/-- The file a path denotes, in a file system without links: several separators
count as one. -/
def fileOf (path : String) : Bool × List String :=
  (path.toList.head? == some '/', Components.components '/' path)

/-- Two paths of the same file. -/
def SameFile (p q : String) : Prop := fileOf p = fileOf q

instance decidableSameFile (p q : String) : Decidable (SameFile p q) :=
  inferInstanceAs (Decidable (_ = _))

end Fileutils
end LibSwitcher
