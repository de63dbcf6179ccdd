/-
# Descriptions of bundles

`switcher/quiddity/bundle/description-parser.cpp`: the pipeline of a bundle is read in
three levels, branches between `&`, items between `!` and words between white space.  An
item declares a quiddity, or stands for one declared elsewhere by its name after a dot.

The texts are cut by regular expressions.  A separator is one that follows a character
which is not a backslash, and this character belongs to the separator: it is lost, and a
separator at the start of a text is not one.  The expressions are written here as
functions on lists of characters; `\s`, `\w` and `.` are those of the C locale.
-/

import LibSwitcher.Utils.StringUtils
import Mathlib.Logic.Function.Iterate

namespace LibSwitcher
namespace Bundle

/-- `quiddity_spec_t`. -/
structure QuiddSpec where
  kind : String := ""
  name : String := ""
  groupName : String := ""
  params : List (String × String) := []
  blacklistedParams : List String := []
  whitelistedParams : List String := []
  exposeShmr : Bool := false
  exposeShmw : Bool := false
  exposeProp : Bool := true
  exposeStart : Bool := false
  topLevel : Bool := false
  connectsTo : List String := []
  connectedTo : List String := []
  deriving DecidableEq

/-- `shm_connection_t`. -/
structure ShmConnection where
  src : String
  sink : String
  deriving DecidableEq

/-- The members of a parser that are read. -/
structure DescriptionParser where
  previousQuid : String := ""
  quiddities : List QuiddSpec := []
  connections : List ShmConnection := []
  readerQuid : String := ""
  deriving DecidableEq

namespace DescriptionParser

/-- `\s`. -/
def isSpace (c : Char) : Bool :=
  c = ' ' || c = '\t' || c = '\n' || c = Char.ofNat 11 || c = Char.ofNat 12 || c = '\r'

/-- `[\w-]`. -/
def isWordChar (c : Char) : Bool := c.isAlphanum || c = '_' || c = '-'

/-- `spaceReplacement`. -/
def spaceReplacement : List Char := "__SPACE__".toList

/-- The pieces of a text between the matches of `[^\\]` and a separator. -/
def pieces (sep : Char) : List Char → List (List Char)
  | [] => [[]]
  | [c] => [[c]]
  | c :: d :: s =>
      if d = sep ∧ c ≠ '\\' then [] :: pieces sep s
      else (pieces sep (d :: s)).modifyHead (c :: ·)

/-- The pieces that are not skipped. -/
def tokens (sep : Char) (s : List Char) : List (List Char) := (pieces sep s).filter (· ≠ [])

/-- The words between white space. -/
def words (s : List Char) : List (List Char) := (s.splitOnP isSpace).filter (· ≠ [])

/-! ### Rewriting an item -/

/-- An equals sign is next, apart from white space. -/
def beforeEqual (s : List Char) : Bool := (s.dropWhile isSpace).head? = some '='

/-- `prepare_item`, after an equals sign or not: white space around it is dropped. -/
def prepareFrom (afterEqual : Bool) : List Char → List Char
  | [] => []
  | c :: s =>
      if isSpace c ∧ (afterEqual ∨ beforeEqual s) then prepareFrom afterEqual s
      else c :: prepareFrom (c = '=') s

/-- `prepare_item`. -/
def prepareItem (s : List Char) : List Char := prepareFrom false s

/-- The last white space replaced, if there is any. -/
def protectLast : List Char → List Char
  | [] => []
  | c :: s =>
      if s.any isSpace then c :: protectLast s
      else if isSpace c then spaceReplacement ++ s
      else c :: s

/-- One `regex_replace` of `protect_space_in_quote`, on what follows a quote and is cut at
quotes: a match is a part with white space before another quote, its white space is the
last one there, and the search goes on behind that quote. -/
def protectParts : List (List Char) → List (List Char)
  | s :: s' :: ss =>
      if s.any isSpace then protectLast s :: s' :: protectParts ss
      else s :: protectParts (s' :: ss)
  | ss => ss

/-- One `regex_replace` of `protect_space_in_quote`. -/
def protectQuoted (s : List Char) : List Char :=
  match s.splitOn '"' with
  | s :: ss => ['"'].intercalate (s :: protectParts ss)
  | [] => []

/-- `protect_space_in_quote`.  Each round replaces white space as long as some is found, so
that it is done when there have been as many as there is white space. -/
def protectSpaceInQuote (s : List Char) : List Char := protectQuoted^[s.countP isSpace] s

/-- `protect_escaped_spaces`.  The replacement makes no new match, so one round is enough. -/
def protectEscapedSpaces : List Char → List Char
  | '\\' :: c :: s =>
      if isSpace c then spaceReplacement ++ protectEscapedSpaces s
      else '\\' :: protectEscapedSpaces (c :: s)
  | c :: s => c :: protectEscapedSpaces s
  | [] => []

/-- `restore_spaces`. -/
def restoreSpaces (s : List Char) : List Char := Stringutils.replaceGo spaceReplacement [' '] 0 s

/-- The words that `parse_item` goes through. -/
def itemWords (rawItem : List Char) : List (List Char) :=
  words (protectEscapedSpaces (protectSpaceInQuote (prepareItem rawItem)))

/-! ### Parsing -/

/-- A match of `_[\w-]+`. -/
def isBare : List Char → Bool
  | '_' :: c :: s => (c :: s).all isWordChar
  | _ => false

/-- A match of `[\w-]+=[^=]+`: what is before the equals sign, and what is behind it. -/
def keyValue (s : List Char) : Option (List Char × List Char) :=
  match s.dropWhile (· ≠ '=') with
  | [] => none
  | _ :: value =>
      let key := s.takeWhile (· ≠ '=')
      if key ≠ [] ∧ key.all isWordChar ∧ value ≠ [] ∧ '=' ∉ value then some (key, value) else none

/-- `parse_param`. -/
def parseParam (rawParam : List Char) (quid : QuiddSpec) : Except String QuiddSpec :=
  let param := restoreSpaces rawParam
  if isBare param then
    if String.ofList param = "_name" ∨ String.ofList param = "_group" then
      .error ("parameter " ++ String.ofList param ++ " cannot be blacklisted (got " ++
        String.ofList param ++ ")")
    else .ok { quid with params := quid.params ++ [(String.ofList param, "")] }
  else
    match keyValue param with
    | none =>
        .error ("wrong parameter syntax (expecting param_name=param_value, but got " ++
          String.ofList param)
    | some (key, value) =>
        if String.ofList key = "name" then .ok { quid with name := String.ofList value }
        else if String.ofList key = "group" then
          .ok { quid with groupName := String.ofList value }
        else .ok { quid with params := quid.params ++ [(String.ofList key, String.ofList value)] }

/-- A word of an item after its kind. -/
def parseWord (readerQuid : String) (quid : QuiddSpec) (word : List Char) :
    Except String QuiddSpec :=
  if String.ofList word = "<shmr" then
    if readerQuid ≠ "" then
      .error ("bundle description can get only one shmdata reader (" ++ readerQuid ++ " and " ++
        (if quid.name = "" then "an other unknown quiddity" else quid.name) ++
        " are labelled as shmreader)")
    else .ok { quid with exposeShmr := true }
  else if String.ofList word = "<shmw" then .ok { quid with exposeShmw := true }
  else if String.ofList word = "<no_prop" then .ok { quid with exposeProp := false }
  else if String.ofList word = "<add_to_start" then .ok { quid with exposeStart := true }
  else if String.ofList word = "<top_level" then .ok { quid with topLevel := true }
  else parseParam word quid

/-- The words of an item after its kind. -/
def parseWords (readerQuid : String) : QuiddSpec → List (List Char) → Except String QuiddSpec
  | quid, [] => .ok quid
  | quid, word :: ws =>
      match parseWord readerQuid quid word with
      | .error e => .error e
      | .ok quid => parseWords readerQuid quid ws

/-- A name starts with a dot. -/
def startsWithDot (name : String) : Bool := name.toList.head? = some '.'

/-- The connections, with one from the item before if there is any. -/
def connected (s : DescriptionParser) (name : String) : List ShmConnection :=
  if s.previousQuid = "" then s.connections else s.connections ++ [⟨s.previousQuid, name⟩]

/-- An item that is a placeholder: its name is saved with the dot. -/
def parsePlaceholder (str : String) (s : DescriptionParser) : Except String DescriptionParser :=
  if str.length = 1 then .error "wrong placeholder name (\".\")"
  else if s.previousQuid ≠ "" ∧ startsWithDot s.previousQuid then
    .error ("placeholders cannot be connected to each others (" ++ s.previousQuid ++ " and " ++
      str ++ ")")
  else .ok { s with connections := connected s str, previousQuid := str }

/-- The end of `parse_item`, for a quiddity whose words have been read. -/
def addQuiddity (quid : QuiddSpec) (s : DescriptionParser) : Except String DescriptionParser :=
  if ∃ q ∈ s.quiddities, q.name = quid.name then
    .error ("quiddity name " ++ quid.name ++ " is not unique in bundle description")
  else if '_' ∈ quid.name.toList then
    .error ("underscores are not allowed in quiddity names " ++ quid.name)
  else if quid.name = "" then
    .error ("quiddity name is missing for quiddity specified with kind " ++ quid.kind)
  else .ok
    { previousQuid := quid.name
      quiddities := s.quiddities ++ [quid]
      connections := connected s quid.name
      readerQuid := if quid.exposeShmr then quid.name else s.readerQuid }

/-- `parse_item`. -/
def parseItem (validKinds : List String) (s : DescriptionParser) (rawItem : List Char) :
    Except String DescriptionParser :=
  match itemWords rawItem with
  | [] => addQuiddity {} s
  | word :: ws =>
      let str := String.ofList word
      if startsWithDot str then parsePlaceholder str s
      else if validKinds ≠ [] ∧ str ∉ validKinds then
        .error (str ++ " is not a valid quiddity kind")
      else
        match parseWords s.readerQuid { kind := str } ws with
        | .error e => .error e
        | .ok quid => addQuiddity quid s

/-- A loop that stops at the first error. -/
def eachToken (f : DescriptionParser → List Char → Except String DescriptionParser) :
    DescriptionParser → List (List Char) → Except String DescriptionParser
  | s, [] => .ok s
  | s, token :: ts =>
      match f s token with
      | .error e => .error e
      | .ok s => eachToken f s ts

/-- `parse_branch`. -/
def parseBranch (validKinds : List String) (s : DescriptionParser) (branch : List Char) :
    Except String DescriptionParser :=
  (eachToken (parseItem validKinds) s (tokens '!' branch)).map fun s =>
    { s with previousQuid := "" }

/-- `parse_description`. -/
def parseDescription (validKinds : List String) (description : List Char) :
    Except String DescriptionParser :=
  eachToken (parseBranch validKinds) {} (tokens '&' description)

/-! ### After the parsing -/

/-- A name without its first character. -/
def dropDot (name : String) : String := String.ofList (name.toList.drop 1)

/-- The name of a quiddity of the description. -/
def Declares (quiddities : List QuiddSpec) (name : String) : Prop :=
  ∃ q ∈ quiddities, q.name = name

instance decidableDeclares (quiddities : List QuiddSpec) (name : String) :
    Decidable (Declares quiddities name) :=
  inferInstanceAs (Decidable (∃ q ∈ quiddities, q.name = name))

/-- A connection whose placeholder, if there is one, is replaced; an empty name is not looked
for. -/
def resolveOne (quiddities : List QuiddSpec) (c : ShmConnection) : Except String ShmConnection :=
  let check (placeholder : String) (c : ShmConnection) : Except String ShmConnection :=
    if placeholder = "" ∨ Declares quiddities placeholder then .ok c
    else .error ("placeholder name " ++ placeholder ++ " is not a valid quiddity name")
  if startsWithDot c.src then check (dropDot c.src) { c with src := dropDot c.src }
  else if startsWithDot c.sink then check (dropDot c.sink) { c with sink := dropDot c.sink }
  else .ok c

/-- The loop on the placeholders. -/
def resolve (quiddities : List QuiddSpec) : List ShmConnection → Except String (List ShmConnection)
  | [] => .ok []
  | c :: cs =>
      match resolveOne quiddities c with
      | .error e => .error e
      | .ok c => (resolve quiddities cs).map (c :: ·)

/-- The first quiddity of a name gets a sink; nothing when there is none. -/
def pushSink (c : ShmConnection) : List QuiddSpec → Option (List QuiddSpec)
  | [] => none
  | q :: qs =>
      if q.name = c.src then some ({ q with connectsTo := q.connectsTo ++ [c.sink] } :: qs)
      else (pushSink c qs).map (q :: ·)

/-- The loop that feeds the connections into the quiddities. -/
def feed : List ShmConnection → List QuiddSpec → Except String (List QuiddSpec)
  | [], qs => .ok qs
  | c :: cs, qs =>
      match pushSink c qs with
      | none => .error "BUG during analysis of connections"
      | some qs => feed cs qs

/-- A match of `_.+`. -/
def isHidden (param : String) : Bool :=
  match param.toList with
  | '_' :: c :: s => (c :: s).all fun c => c ≠ '\n' && c ≠ '\r'
  | _ => false

/-- The parameters of a quiddity without their underscores, which are listed. -/
def checkParams (q : QuiddSpec) : QuiddSpec :=
  let hidden := ((q.params.map Prod.fst).filter isHidden).map dropDot
  { q with
    params := q.params.map fun p => (if isHidden p.1 then dropDot p.1 else p.1, p.2)
    blacklistedParams := q.blacklistedParams ++ if q.exposeProp then hidden else []
    whitelistedParams := q.whitelistedParams ++ if q.exposeProp then [] else hidden }

/-- A `DescriptionParser`: the error, or the parser when it is true. -/
def parse (description : String) (validKinds : List String) : Except String DescriptionParser :=
  match parseDescription validKinds description.toList with
  | .error e => .error e
  | .ok s =>
      match resolve s.quiddities s.connections with
      | .error e => .error e
      | .ok connections =>
          (feed connections s.quiddities).map fun quiddities =>
            { s with connections := connections, quiddities := quiddities.map checkParams }

end DescriptionParser
end Bundle
end LibSwitcher
