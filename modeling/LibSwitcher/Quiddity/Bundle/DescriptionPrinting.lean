/-
# Printing descriptions

The documented syntax of a pipeline (`PrintedItem`, `print`): items between `!`, branches
between `&`, in an item a kind and behind it the name, parameters, tags and excluded
parameters in any order, or a dot and the name of a quiddity.  What is printed with white
space before every separator is parsed back to the quiddities that it declares, connected
as the items are (`parsesBack_of_wellFormed`).  Underscores are not allowed in the names.
-/

import LibSwitcher.Quiddity.Bundle.DescriptionCoherence

namespace LibSwitcher
namespace Bundle
namespace DescriptionParser

/-- The tags of a quiddity. -/
inductive Tag
  | shmr | shmw | noProp | addToStart | topLevel
  deriving DecidableEq

/-- What may stand behind the kind of a quiddity: its name, its group, a parameter, which may
be hidden by an underscore, a hidden parameter without a value, or a tag. -/
inductive Entry
  | name (value : String)
  | group (value : String)
  | param (hidden : Bool) (key value : String)
  | bare (key : String)
  | tag (t : Tag)
  deriving DecidableEq

/-- An item of a branch. -/
inductive PrintedItem
  | quiddity (kind : String) (entries : List Entry)
  | reference (name : String)
  deriving DecidableEq

/-- An item and the numbers of spaces before and behind it. -/
structure Spaced where
  before : ℕ
  item : PrintedItem
  behind : ℕ
  deriving DecidableEq

/-! ### The text -/

/-- The word of a tag. -/
def Tag.word : Tag → String
  | shmr => "<shmr"
  | shmw => "<shmw"
  | noProp => "<no_prop"
  | addToStart => "<add_to_start"
  | topLevel => "<top_level"

/-- The word of an entry. -/
def Entry.word : Entry → List Char
  | name value => "name".toList ++ '=' :: value.toList
  | group value => "group".toList ++ '=' :: value.toList
  | param hidden key value => (if hidden then ['_'] else []) ++ key.toList ++ '=' :: value.toList
  | bare key => '_' :: key.toList
  | tag t => t.word.toList

/-- The words of an item. -/
def PrintedItem.words : PrintedItem → List (List Char)
  | quiddity kind entries => kind.toList :: entries.map Entry.word
  | reference name => ['.' :: name.toList]

/-- An item between its spaces, its words apart by one. -/
def Spaced.print (e : Spaced) : List Char :=
  List.replicate e.before ' ' ++ ([' '].intercalate e.item.words ++ List.replicate e.behind ' ')

/-- A branch. -/
def printBranch (branch : List Spaced) : List Char := ['!'].intercalate (branch.map Spaced.print)

/-- A description. -/
def print (description : List (List Spaced)) : String :=
  String.ofList (['&'].intercalate (description.map printBranch))

/-! ### What it says -/

/-- The name that an entry gives. -/
def Entry.name? : Entry → Option String
  | name value => some value
  | _ => none

/-- The group that an entry gives. -/
def Entry.group? : Entry → Option String
  | group value => some value
  | _ => none

/-- The name among the entries of a quiddity. -/
def nameIn (entries : List Entry) : String := ((entries.filterMap Entry.name?).head?).getD ""

/-- The quiddity that an item is or refers to. -/
def PrintedItem.name : PrintedItem → String
  | quiddity _ entries => nameIn entries
  | reference name => name

/-- The kinds and entries of the quiddities that are declared. -/
def declarations (description : List (List Spaced)) : List (String × List Entry) :=
  description.flatten.filterMap fun e =>
    match e.item with
    | .quiddity kind entries => some (kind, entries)
    | .reference _ => none

/-- The names that are declared. -/
def declaredNames (description : List (List Spaced)) : List String :=
  (declarations description).map fun d => nameIn d.2

/-- A text without quotes, backslashes, separators, equals signs and white space. -/
def Word (s : String) : Prop :=
  s ≠ "" ∧ ∀ c ∈ s.toList, c ≠ '"' ∧ c ≠ '\\' ∧ c ≠ '=' ∧ c ≠ '!' ∧ c ≠ '&' ∧ isSpace c = false

instance decidableWord (s : String) : Decidable (Word s) :=
  have := List.decidableBAll (fun c =>
    c ≠ '"' ∧ c ≠ '\\' ∧ c ≠ '=' ∧ c ≠ '!' ∧ c ≠ '&' ∧ isSpace c = false) s.toList
  inferInstanceAs (Decidable (_ ∧ _))

/-- The name of a parameter. -/
def Key (s : String) : Prop := s ≠ "" ∧ s.toList.all isWordChar = true

instance decidableKey (s : String) : Decidable (Key s) := inferInstanceAs (Decidable (_ ∧ _))

/-- An entry in the documented syntax, in whose word white space is not replaced. -/
def Entry.WellFormed (e : Entry) : Prop :=
  ¬spaceReplacement <:+: e.word ∧
    match e with
    | .name value => Word value ∧ '_' ∉ value.toList ∧ startsWithDot value = false
    | .group value => Word value
    | .param hidden key value =>
        Key key ∧ Word value ∧
          (hidden = false → key ≠ "name" ∧ key ≠ "group" ∧ key.toList.head? ≠ some '_')
    | .bare key => Key key ∧ key ≠ "name" ∧ key ≠ "group"
    | .tag _ => True

instance decidableEntryWellFormed (e : Entry) : Decidable e.WellFormed := by
  unfold Entry.WellFormed
  cases e <;> infer_instance

/-- An item in the documented syntax: a quiddity has one name and a group at most, a reference
is one to a quiddity of the description. -/
def PrintedItem.WellFormed (validKinds names : List String) : PrintedItem → Prop
  | quiddity kind entries =>
      Word kind ∧ startsWithDot kind = false ∧ (validKinds ≠ [] → kind ∈ validKinds) ∧
        (∀ e ∈ entries, e.WellFormed) ∧ (entries.filterMap Entry.name?).length = 1 ∧
        (entries.filterMap Entry.group?).length ≤ 1
  | reference name => name ∈ names

instance decidableItemWellFormed (validKinds names : List String) (item : PrintedItem) :
    Decidable (item.WellFormed validKinds names) := by
  cases item
  all_goals
    unfold PrintedItem.WellFormed
    infer_instance

/-- An item that is a reference. -/
def PrintedItem.isReference : PrintedItem → Bool
  | quiddity _ _ => false
  | reference _ => true

/-- A description in the documented syntax, with white space before every separator. -/
structure WellFormed (validKinds : List String) (description : List (List Spaced)) : Prop where
  branches : ∀ branch ∈ description, branch ≠ []
  items : ∀ branch ∈ description, ∀ e ∈ branch,
    e.item.WellFormed validKinds (declaredNames description)
  names : (declaredNames description).Nodup
  references : ∀ branch ∈ description,
    ∀ c ∈ adjacent branch, ¬(c.1.item.isReference = true ∧ c.2.item.isReference = true)
  reader : ((declarations description).filter (.tag .shmr ∈ ·.2)).length ≤ 1
  spaces : ∀ e ∈ description.flatten.dropLast, 0 < e.behind

variable {validKinds names : List String} {sep c : Char} {s t w : List Char} {ws : List (List Char)}

/-! ### The pieces of what is printed -/

/-- A word of an item: it has no white space, quote, backslash or separator, and neither starts
nor ends with an equals sign. -/
structure ItemWord (w : List Char) : Prop where
  ne : w ≠ []
  chars : ∀ c ∈ w, c ≠ '"' ∧ c ≠ '\\' ∧ c ≠ '!' ∧ c ≠ '&' ∧ isSpace c = false
  head : w.head? ≠ some '='
  last : w.getLast? ≠ some '='

/-- Items may be read from what is printed of a branch. -/
def Readable (branch : List Spaced) : Prop :=
  branch ≠ [] ∧ (∀ e ∈ branch, ∀ w ∈ e.item.words, ItemWord w) ∧
    ∀ e ∈ branch.dropLast, 0 < e.behind

end DescriptionParser
end Bundle
end LibSwitcher
