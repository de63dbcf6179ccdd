/-
# Connection specifications

`switcher/quiddity/claw/connection-spec.cpp`: the followers and the writers of a
quiddity, kept twice.  The maps are what the code decides with (`Points`), and the
tree, read from the specification of the quiddity and updated by hand, is what is
shown to users.

The constructor and the six functions that change a specification are translated
one by one.  Followers and writers have the same data under other names, which are
those of their `Role`.  The parser of documents, the text of a tree in an error
message and `shmdata::Type` are not part of the code (`Externals`).
-/

import LibSwitcher.InfoTree.JsonSerializer
import LibSwitcher.Quiddity.Claw.Points
import LibSwitcher.Utils.StringUtils

namespace LibSwitcher
namespace Claw

/-- What the specifications use of other libraries: `shmdata::Type`, whose text is
the one it was made from, and the text of a tree. -/
structure Externals (τ : Type) where
  ofString : String → τ
  str : τ → String
  parsingErrors : τ → String
  str_ofString : ∀ s, str (ofString s) = s
  serialize : InfoTree → String

/-- The names of a section of the tree, of the keys the code adds to its elements,
and of two errors. -/
structure Role where
  name : String
  idKey : String
  fromKey : String
  tooMany : String
  duplicate : String
  plain_name : Components.Plain '.' name
  plain_idKey : Components.Plain '.' idKey
  plain_fromKey : Components.Plain '.' fromKey
  idKey_ne : idKey ≠ "label" ∧ idKey ≠ "can_do"
  fromKey_ne : fromKey ≠ "label" ∧ fromKey ≠ "can_do" ∧ fromKey ≠ idKey
  tooMany_ne : tooMany ≠ ""

/-- The names of the followers. -/
def followerRole : Role where
  name := "follower"
  idKey := "sfid"
  fromKey := "from_sfid"
  tooMany := "to many followers, no more ids"
  duplicate := "duplicate in shmdata follower labels"
  plain_name := by decide
  plain_idKey := by decide
  plain_fromKey := by decide
  idKey_ne := by decide
  fromKey_ne := by decide
  tooMany_ne := by decide

/-- The names of the writers. -/
def writerRole : Role where
  name := "writer"
  idKey := "swid"
  fromKey := "from_swid"
  tooMany := "to many writers, no more ids"
  duplicate := "duplicate in shmdata writer labels"
  plain_name := by decide
  plain_idKey := by decide
  plain_fromKey := by decide
  idKey_ne := by decide
  fromKey_ne := by decide
  tooMany_ne := by decide

/-- A `ConnectionSpec`. -/
structure ConnectionSpec (τ : Type) where
  isValid : Bool
  msg : String
  follower : Points τ
  writer : Points τ
  tree : InfoTree

/-- A `shm_spec_t`. -/
structure ShmSpec where
  label : String
  description : String
  canDos : List String

namespace ConnectionSpec

variable {τ : Type} (x : Externals τ)

/-! ### The constructor -/

/-- What is wrong with an entry of `can_do`. -/
def capsMessage (caps : InfoTree) : Option String :=
  if x.parsingErrors (x.ofString caps.data.asString) ≠ "" then
    some ("caps parsing error: " ++ x.parsingErrors (x.ofString caps.data.asString) ++ "(" ++
      caps.data.asString ++ ")")
  else if caps.data.isString = false then
    some ("caps must be string value: " ++ x.serialize caps)
  else none

/-- The loop over the entries of `can_do`: the message of the last wrong one. -/
def checkCaps : List InfoTree → Option String
  | [] => none
  | caps :: rest => (checkCaps rest).or (capsMessage x caps)

/-- `check_shmdata_spec`: what is wrong with an element, if anything is. -/
def checkShmdataSpec (tree : InfoTree) : Option String :=
  if (tree.getChildKeys ".").length ≠ 3 then
    some ("unexpected number of key for " ++ x.serialize tree)
  else if (tree.branchGetValue "label").isString = false then
    some ("label must be a string: " ++ x.serialize tree)
  else if (tree.branchGetValue "label").asString = "" then some "label must not be empty"
  else if (tree.branchGetValue "description").isString = false then
    some ("description must be a string: " ++ x.serialize tree)
  else if tree.branchIsArray "can_do" = false then
    some ("can_do entry must be an array of caps in " ++ x.serialize tree)
  else if (tree.elements "can_do").length = 0 then
    some "can_do must contain at least one entry, please use \"all\" is anything is accepted"
  else checkCaps x (tree.elements "can_do")

/-- The types of the entries of `can_do`. -/
def typesIn (tree : InfoTree) : List τ :=
  (tree.elements "can_do").map fun caps => x.ofString caps.data.asString

/-- The identifiers the constructor adds to an element. -/
def identify (role : Role) (id fromId : ℕ) (tree : InfoTree) : InfoTree :=
  (tree.vgraft role.idKey (.id id)).vgraft role.fromKey (.id fromId)

/-- The function the constructor applies to the elements of a section, on the
message of the last error and the points found so far. -/
def registerPoint (role : Role) (s : String × Points τ) (shmspec : InfoTree) :
    (String × Points τ) × InfoTree :=
  match checkShmdataSpec x shmspec with
  | some msg => ((msg, s.2), shmspec)
  | none =>
      if h : s.2.Left then
        ((s.1, s.2.add h (shmspec.branchGetValue "label").asString
            (typesIn x (identify role (s.2.nextId h) Ids.kInvalid shmspec))),
          identify role (s.2.nextId h) Ids.kInvalid shmspec)
      else ((role.tooMany, s.2), shmspec)

/-- The constructor on one section: the elements are registered in their order. -/
def registerSection (role : Role) (tree : InfoTree) : (String × Points τ) × InfoTree :=
  tree.forEachInArray ("." ++ role.name) (registerPoint x role) ("", Points.empty)

/-- What `std::unique` finds: two equal labels that follow each other. -/
def hasAdjacentEqual : List String → Bool
  | a :: b :: l => a = b || hasAdjacentEqual (b :: l)
  | _ => false

/-- The loop over the keys of the root. -/
def checkKeys (tree : InfoTree) : List String → Option String
  | [] => none
  | key :: keys =>
      if key ≠ "follower" ∧ key ≠ "writer" then some ("unexpected key: " ++ key)
      else if tree.branchIsArray key = false then some ("key " ++ key ++ " must be an array")
      else checkKeys tree keys

/-- The error of a section, if there is one. -/
def sectionError (role : Role) (s : String × Points τ) : Option String :=
  if s.1 ≠ "" then some s.1
  else if hasAdjacentEqual s.2.labels then some role.duplicate
  else none

/-- The constructor on the tree of the specification. -/
def ofTree (tree : InfoTree) : ConnectionSpec τ :=
  if tree.branchHasData ".parsing_error" then
    ⟨false, (tree.branchGetValue ".parsing_error").asString, Points.empty, Points.empty, tree⟩
  else
    match checkKeys tree (tree.getChildKeys ".") with
    | some msg => ⟨false, msg, Points.empty, Points.empty, tree⟩
    | none =>
        let f := registerSection x followerRole tree
        match sectionError followerRole f.1 with
        | some msg => ⟨false, msg, f.1.2, Points.empty, f.2⟩
        | none =>
            let w := registerSection x writerRole f.2
            match sectionError writerRole w.1 with
            | some msg => ⟨false, msg, f.1.2, w.1.2, w.2⟩
            | none => ⟨true, "", f.1.2, w.1.2, w.2⟩

/-- `ConnectionSpec(spec)`, given what the parser makes of the text. -/
def ofDocument (doc : Except String (Option Json)) : Option (ConnectionSpec τ) :=
  (InfoTree.deserialize true doc).map (ofTree x)

/-! ### The functions that change a specification -/

/-- `is_allocated_follower`. -/
def IsAllocatedFollower (s : ConnectionSpec τ) (sfid : ℕ) : Prop := sfid ∈ s.follower.ids

/-- `is_allocated_writer`. -/
def IsAllocatedWriter (s : ConnectionSpec τ) (swid : ℕ) : Prop := swid ∈ s.writer.ids

instance decidableIsAllocatedFollower (s : ConnectionSpec τ) (sfid : ℕ) :
    Decidable (s.IsAllocatedFollower sfid) := inferInstanceAs (Decidable (_ ∈ _))

instance decidableIsAllocatedWriter (s : ConnectionSpec τ) (swid : ℕ) :
    Decidable (s.IsAllocatedWriter swid) := inferInstanceAs (Decidable (_ ∈ _))

/-- `is_meta_follower`.  The iterator of an identifier that is not allocated is
compared with the end of the map of the *writers*, and then dereferenced. -/
def isMetaFollower (s : ConnectionSpec τ) (sfid : ℕ) : Option Bool :=
  if sfid ∈ s.follower.ids then some ('%' ∈ (s.follower.labelOf sfid).toList) else none

/-- The element of a dynamic follower. -/
def followerTree (label : String) (id sfid : ℕ) : InfoTree :=
  ((InfoTree.make.vgraft "label" (.str label)).vgraft "sfid" (.id id)).vgraft "from_sfid" (.id sfid)

/-- `allocate_sfid_from_meta`: the specification after it and the new identifier. -/
def allocateSfidFromMeta (sfid : ℕ) (s : ConnectionSpec τ) : ConnectionSpec τ × ℕ :=
  if h : s.follower.IsMeta sfid ∧ s.follower.Left then
    let id := s.follower.nextId h.2
    let label := Stringutils.replaceChar (s.follower.labelOf sfid) '%' (toString id)
    ({ s with
        follower := s.follower.addDynamic h.2 label (s.follower.typesOf sfid)
        tree := InfoTree.graft ("follower" ++ "." ++ toString id) (followerTree label id sfid)
          s.tree }, id)
  else (s, Ids.kInvalid)

/-- `deallocate_sfid_from_meta`. -/
def deallocateSfidFromMeta (sfid : ℕ) (s : ConnectionSpec τ) : ConnectionSpec τ × Bool :=
  if sfid ∈ s.follower.dynamic then
    ({ s with
        follower := s.follower.remove sfid
        tree := s.tree.prune ("follower" ++ "." ++ toString sfid) }, true)
  else (s, false)

/-- The loop that grafts the entries of `can_do`, from the index `i`. -/
def graftCanDo : ℕ → List String → InfoTree → InfoTree
  | _, [], t => t
  | i, canDo :: rest, t =>
      graftCanDo (i + 1) rest (t.vgraft ("can_do" ++ "." ++ toString i) (.str canDo))

/-- The element of a dynamic writer. -/
def writerTree (label : String) (id swid : ℕ) (description : String) (canDos : List String) :
    InfoTree :=
  (graftCanDo 0 canDos ((((InfoTree.make.vgraft "label" (.str label)).vgraft "swid" (.id id)).vgraft
    "description" (.str description)).vgraft "from_swid" (.id swid))).tagAsArray "can_do" true

/-- `allocate_swid_from_meta`.  The types of the tree are those of the specification
if it has any, and the stored ones are always those of the meta writer. -/
def allocateSwidFromMeta (swid : ℕ) (spec : ShmSpec) (s : ConnectionSpec τ) :
    ConnectionSpec τ × ℕ :=
  if h : s.writer.IsMeta swid ∧ s.writer.Left then
    let id := s.writer.nextId h.2
    let label := if spec.label = "" then
        Stringutils.replaceChar (s.writer.labelOf swid) '%' (toString id)
      else spec.label
    let canDos := if spec.canDos = [] then (s.writer.typesOf swid).map x.str else spec.canDos
    ({ s with
        writer := s.writer.addDynamic h.2 label (s.writer.typesOf swid)
        tree := InfoTree.graft ("writer" ++ "." ++ toString id)
          (writerTree label id swid spec.description canDos) s.tree }, id)
  else (s, Ids.kInvalid)

/-- `deallocate_swid_from_meta`. -/
def deallocateSwidFromMeta (swid : ℕ) (s : ConnectionSpec τ) : ConnectionSpec τ × Bool :=
  if swid ∈ s.writer.dynamic then
    ({ s with
        writer := s.writer.remove swid
        tree := s.tree.prune ("writer" ++ "." ++ toString swid) }, true)
  else (s, false)

/-- The tree of types that the `replace_` functions graft: the loop does not
increment its index, and every type goes to the same place. -/
def typesTree (types : List τ) : InfoTree :=
  types.foldl (fun t type => t.vgraft (toString 0) (.str (x.str type))) InfoTree.make

/-- What the `replace_` functions do to the element they look for. -/
def replaceCanDo (types : List τ) (e : InfoTree) : InfoTree :=
  (InfoTree.graft "can_do" (typesTree x types) e).tagAsArray "can_do" true

/-- The loop of the `replace_` functions over the elements of a section. -/
def replaceInTree (role : Role) (id : ℕ) (types : List τ) (tree : InfoTree) : InfoTree :=
  (tree.forEachInArray role.name (fun (_ : Unit) e =>
    ((), if e.branchGetValue role.idKey = .id id then replaceCanDo x types e else e)) ()).2

/-- `replace_follower_can_do`. -/
def replaceFollowerCanDo (sfid : ℕ) (types : List τ) (s : ConnectionSpec τ) :
    ConnectionSpec τ × Bool :=
  if h : types ≠ [] ∧ sfid ∈ s.follower.ids then
    ({ s with
        follower := s.follower.setTypes sfid h.2 types
        tree := replaceInTree x followerRole sfid types s.tree }, true)
  else (s, false)

/-- `replace_writer_can_do`. -/
def replaceWriterCanDo (swid : ℕ) (types : List τ) (s : ConnectionSpec τ) :
    ConnectionSpec τ × Bool :=
  if h : types ≠ [] ∧ swid ∈ s.writer.ids then
    ({ s with
        writer := s.writer.setTypes swid h.2 types
        tree := replaceInTree x writerRole swid types s.tree }, true)
  else (s, false)

end ConnectionSpec
end Claw
end LibSwitcher
