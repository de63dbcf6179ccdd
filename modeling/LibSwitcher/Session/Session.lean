/-
# Session files

`switcher/session/session.cpp`: sessions are files of one directory, which the constructor
creates.  Each operation makes the name of a file of the session name it is given.

The directory is a list of file names and contents; the file system does not fail, and the
directory is given by an absolute path.  `remove` goes through the entries in the order of the
directory iterator, which may be any (`Op.remove`).  A name is cut at a zero character where
it is handed to the operating system.  `g_file_replace`, by which `write` saves, is asked to
make a backup of a file that it replaces; the name of the backup is a parameter.
-/

import LibSwitcher.Lib.KeyTree
import LibSwitcher.Utils.FileUtils

namespace LibSwitcher
namespace Session

open Fileutils

/-- The session directory: the names of its files with their contents. -/
abbrev Directory := List (String × String)

/-- The file of a session name, which all functions but `list` and `remove` compute. -/
def sessionFile (name : String) : String :=
  let fname := filename name
  Stringutils.cStr (if extension fname ≠ ".json" then replaceExtension fname ".json" else fname)

/-- What `list` goes through. -/
def list (d : Directory) : List String := d.map Prod.fst

/-- Open a file for writing, and write its content. -/
def put (file content : String) (d : Directory) : Directory := KeyTree.setKey file content d

/-- `fileutils::save`, for a content that is not empty. -/
def save (backupName : String → String) (content file : String) (d : Directory) : Directory :=
  put file (Stringutils.cStr content)
    (match d.lookup file with
      | some old => put (backupName file) old d
      | none => d)

/-- The operations with their arguments: the text of the state for `save_as`, and the order of
the directory entries for `remove`. -/
inductive Op
  | saveAs (name state : String)
  | copy (src dst : String)
  | write (content name : String)
  | read (name : String)
  | load (name : String)
  | list
  | remove (name : String) (order : List String)

/-- What an operation returns: a file of the directory, a boolean, the content read, or the
content loaded, if there is a file. -/
inductive Result
  | path (file : String)
  | done (b : Bool)
  | content (text : String)
  | loaded (text : Option String)
  | listed
  deriving DecidableEq

/-- Perform an operation; none is performed if the order is not one of the entries. -/
def step (backupName : String → String) (d : Directory) : Op → Option (Directory × Result)
  | .saveAs name state =>
      some (put (sessionFile name) (state ++ "\n") d, .path (sessionFile name))
  | .copy src dst =>
      match d.lookup (sessionFile src) with
      | none => some (d, .done false)
      | some content => some (put (sessionFile dst) (content ++ "\n") d, .done true)
  | .write content name =>
      if content = "" then some (d, .done false)
      else some (save backupName content (sessionFile name) d, .done true)
  | .read name => some (d, .content ((d.lookup (sessionFile name)).getD ""))
  | .load name => some (d, .loaded (d.lookup (sessionFile name)))
  | .list => some (d, .listed)
  | .remove name order =>
      if order.isPerm (list d) then
        match order.find? fun fname => fname = name || fname = name ++ ".json" with
        | some fname => some (KeyTree.eraseKey fname d, .done true)
        | none => some (d, .done false)
      else none

/-! ### A store of sessions -/

/-- What a session name stands for: its final path component, without a suffix `.json`. -/
def sessionName (name : String) : String :=
  let fname := filename name
  if ".json".toList <:+ fname.toList then String.ofList (fname.toList.take (fname.length - 5))
  else fname

/-- The contents of sessions, by what their names stand for. -/
abbrev Store := String → Option String

/-- What the operations should do: they read, set and clear the content of a session, and touch
no other one.  Saving and copying end the content with a newline; nothing empty is
written. -/
def storeStep (t : Store) : Op → Store × Result
  | .saveAs name state =>
      (Function.update t (sessionName name) (some (state ++ "\n")), .path (sessionName name ++ ".json"))
  | .copy src dst =>
      match t (sessionName src) with
      | none => (t, .done false)
      | some content => (Function.update t (sessionName dst) (some (content ++ "\n")), .done true)
  | .write content name =>
      if content = "" then (t, .done false)
      else (Function.update t (sessionName name) (some content), .done true)
  | .read name => (t, .content ((t (sessionName name)).getD ""))
  | .load name => (t, .loaded (t (sessionName name)))
  | .list => (t, .listed)
  | .remove name _ =>
      (Function.update t (sessionName name) none, .done (t (sessionName name)).isSome)

/-- A file name with the extension `.json`, or without one. -/
def NameOk (fname : String) : Prop :=
  (fname ≠ "" ∧ fname ≠ ".json") ∧ Char.ofNat 0 ∉ fname.toList ∧
    (extension fname = "" ∨ extension fname = ".json")

instance decidableNameOk (fname : String) : Decidable (NameOk fname) :=
  inferInstanceAs (Decidable (_ ∧ _))

/-- The directory holds the sessions of a store: each has its content in its file, the files of
sessions are listed, and only files that are loaded by their names. -/
structure Holds (d : Directory) (t : Store) : Prop where
  content : ∀ name, NameOk (filename name) → d.lookup (sessionFile name) = t (sessionName name)
  listed : ∀ name, NameOk (filename name) →
    ((t (sessionName name)).isSome ↔ sessionName name ++ ".json" ∈ list d)
  loadable : ∀ fname ∈ list d, (d.lookup (sessionFile fname)).isSome

/-- An operation on names with the extension `.json` or without one.  What is written is a C
string.  A name that is removed has no directory part, and no other file has this name, with or
without the suffix `.json`, or is loaded in the place of its file, as its backup is. -/
def ok (d : Directory) : Op → Prop
  | .saveAs name _ => NameOk (filename name)
  | .copy src dst => NameOk (filename src) ∧ NameOk (filename dst)
  | .write content name => NameOk (filename name) ∧ Char.ofNat 0 ∉ content.toList
  | .read name => NameOk (filename name)
  | .load name => NameOk (filename name)
  | .list => True
  | .remove name order => order.isPerm (list d) ∧ ('/' ∉ name.toList ∧ NameOk name) ∧
      ∀ fname ∈ list d, fname = name ∨ fname = name ++ ".json" ∨
        sessionFile fname = sessionFile name → fname = sessionFile name

instance decidableOk (d : Directory) : (op : Op) → Decidable (ok d op)
  | .saveAs _ _ => inferInstanceAs (Decidable (NameOk _))
  | .copy _ _ => inferInstanceAs (Decidable (_ ∧ _))
  | .write _ _ => inferInstanceAs (Decidable (_ ∧ _))
  | .read _ => inferInstanceAs (Decidable (NameOk _))
  | .load _ => inferInstanceAs (Decidable (NameOk _))
  | .list => inferInstanceAs (Decidable True)
  | .remove _ _ => inferInstanceAs (Decidable (_ ∧ _))

end Session
end LibSwitcher
