/-
# What shmdata writers and readers keep in the information tree

`switcher/shmdata/{writer,follower,gst-tree-updater,stat}.cpp` and the tree functions of
`switcher/quiddity/quiddity.cpp`.  A quiddity has an entry in its information tree for each shmdata
it writes or reads, under `.shmdata.writer.` or `.shmdata.reader.` and the path of the shmdata.
The constructors make the entry, the callbacks of the shmdata library and the periodic tasks
update it, the destructors prune it; all of them run in threads of their own.

A function is what its thread does next to the tree and to the subscribers of the quiddity,
followed by what comes after.  `graft_tree` with its signal is an edit and an announcement: the lock
of the tree is not held from one to the other.
-/

import LibSwitcher.InfoTree.InformationTree
import LibSwitcher.Lib.TreeMirror

namespace LibSwitcher
namespace ShmdataTree

open InfoTree

/-- What a thread does to the information tree and tells the subscribers. -/
abbrev Program := KeyTree.Program String NodeData

/-! ### The quiddity -/

/-- `graft_tree`, of a pointer to a tree; what follows is told whether it has grafted. -/
def graftTree (path : String) (tree : Option InfoTree) (doSignal : Bool)
    (next : Bool → Program) : Program :=
  match tree with
  | none => next false
  | some leaf =>
      if components path = [] then next false
      else .graft (components path) leaf
        (if doSignal then .grafted (components path) (next true) else next true)

/-- `notify_tree_updated`: a subscriber copies nothing to a path without key. -/
def notifyTreeUpdated (path : String) (next : Program) : Program :=
  if components path = [] then next else .grafted (components path) next

/-- `prune_tree`; what follows gets the tree. -/
def pruneTree (path : String) (doSignal : Bool) (next : Option InfoTree → Program) : Program :=
  if components path = [] then next none
  else .prune (components path) fun result =>
    if result.isSome && doSignal then .pruned (components path) (next result) else next result

/-! ### Statistics -/

/-- `Stat`: the bytes and the buffers since the last update. -/
structure Stat where
  bytes : ℕ
  accesses : ℕ
  deriving DecidableEq

namespace Stat

/-- `Stat()`, and what `reset` leaves. -/
def zero : Stat := ⟨0, 0⟩

/-- `count_buffer`. -/
def countBuffer (s : Stat) (bufferSize : ℕ) : Stat := ⟨s.bytes + bufferSize, s.accesses + 1⟩

/-- `update_tree`; `rate n` is the floating point quotient of `n` by the update interval. -/
def updateTree (rate : ℕ → Any) (s : Stat) (key : String) (tree : InfoTree) : InfoTree :=
  graft (key ++ ".stat.rate") (makeValue (rate s.accesses))
    (graft (key ++ ".stat.byte_rate") (makeValue (rate s.bytes)) tree)

/-- The function that `make_tree_updater` makes. -/
def makeTreeUpdater (rate : ℕ → Any) (key : String) (doSignal : Bool) (s : Stat)
    (next : Program) : Program :=
  graftTree (key ++ ".stat") (some (graft ".rate" (makeValue (rate s.accesses))
    (graft ".byte_rate" (makeValue (rate s.bytes)) make))) doSignal fun _ => next

end Stat

/-- `get_shm_information_template`. -/
def getShmInformationTemplate (rate : ℕ → Any) : InfoTree :=
  Stat.zero.updateTree rate "." (graft ".category" make (graft ".caps" make make))

/-- `caps::get_category`. -/
def getCategory (caps : String) : String :=
  let mimeType := caps.toList.takeWhile (· ≠ ',')
  let has (text : String) : Bool := (Stringutils.find text.toList mimeType).isSome
  if has "video/x-raw" then "video"
  else if has "video/x-" then "compressed video"
  else if has "audio/midi" then "midi"
  else if has "audio/x-raw" then "audio"
  else if has "audio/x-" then "compressed audio"
  else if has "application/x-libloserialized-osc" then "osc"
  else if has "application/x-" then
    match (mimeType.dropWhile (· ≠ '-')).drop 1 with
    | [] => "unknown"
    | rest => String.ofList rest
  else String.ofList mimeType

/-- The loop that grafts the children of a pruned tree again. -/
def regraft (path : String) : List String → InfoTree → Program → Program
  | [], _, next => next
  | it :: its, tree, next =>
      graftTree (path ++ "." ++ it) (pruned it tree) false fun _ =>
        regraft path its (prune it tree) next

/-- `initialize_tree`, which the constructors of the writer and of the updater repeat: the
template takes the place of the entry, under the children that the entry had. -/
def initializeTree (rate : ℕ → Any) (path : String) (next : Program) : Program :=
  pruneTree path false fun tree =>
    graftTree path (some (getShmInformationTemplate rate)) false fun _ =>
      match tree with
      | none => next
      | some tree => regraft path (getChildKeys "." tree) tree next

/-- The edits that tell what an entry holds, and their announcement. -/
def updateCaps (path caps : String) (next : Program) : Program :=
  graftTree (path ++ ".caps") (some (makeValue (.str caps))) false fun _ =>
    graftTree (path ++ ".category") (some (makeValue (.str (getCategory caps)))) false fun _ =>
      notifyTreeUpdated path next

/-! ### Writers -/

/-- A `Writer`: `attached` tells whether it has a shmdata and a quiddity. -/
structure Writer where
  shmpath : String
  dataType : String
  attached : Bool

namespace Writer

/-- Where the entry of the writer is. -/
def parentPath (w : Writer) : String := ".shmdata.writer." ++ w.shmpath

/-- The constructor; `quiddityCaps` is what `get_quiddity_caps` gives. -/
def make (rate : ℕ → Any) (quiddityCaps : String) (w : Writer) (next : Program) : Program :=
  if w.attached then
    initializeTree rate w.parentPath
      (updateCaps w.parentPath (w.dataType ++ ", " ++ quiddityCaps) next)
  else next

/-- The destructor. -/
def destroy (w : Writer) (next : Program) : Program :=
  if w.attached then pruneTree w.parentPath true fun _ => next else next

/-- `update_quid_stats`, of the buffers counted since the last time. -/
def updateQuidStats (rate : ℕ → Any) (w : Writer) (s : Stat) (next : Program) : Program :=
  s.makeTreeUpdater rate w.parentPath true next

end Writer

/-! ### Followers -/

/-- `Follower::Direction` and `GstTreeUpdater::Direction`. -/
inductive Direction
  | writer
  | reader
  deriving DecidableEq

/-- The section of a direction. -/
def Direction.key : Direction → String
  | writer => ".shmdata.writer."
  | reader => ".shmdata.reader."

/-- A `Follower`, with the type of the data it has last connected to. -/
structure Follower where
  path : String
  dir : Direction
  getShmdataOnConnect : Bool
  dataType : String

namespace Follower

/-- `tree_path_`. -/
def treePath (f : Follower) : String := f.dir.key ++ f.path

/-- The body of the constructor. -/
def make (rate : ℕ → Any) (f : Follower) (next : Program) : Program :=
  if f.getShmdataOnConnect then next else initializeTree rate f.treePath next

/-- `on_server_connected`; what follows gets the follower. -/
def onServerConnected (rate : ℕ → Any) (f : Follower) (dataType : String)
    (next : Follower → Program) : Program :=
  let connected : Program :=
    if dataType ≠ f.dataType then
      updateCaps f.treePath dataType (next { f with dataType := dataType })
    else next f
  if f.getShmdataOnConnect then initializeTree rate f.treePath connected else connected

/-- `update_quid_stats`. -/
def updateQuidStats (rate : ℕ → Any) (f : Follower) (s : Stat) (next : Program) : Program :=
  s.makeTreeUpdater rate f.treePath (f.dir = .writer) next

/-- The destructor. -/
def destroy (f : Follower) (next : Program) : Program :=
  if f.dataType ≠ "" then pruneTree f.treePath true fun _ => next else next

end Follower

/-! ### Updaters of GStreamer elements -/

/-- A `GstTreeUpdater`. -/
structure GstTreeUpdater where
  shmpath : String
  dir : Direction

namespace GstTreeUpdater

/-- Where the entry of the updater is. -/
def treePath (u : GstTreeUpdater) : String := u.dir.key ++ u.shmpath

/-- The body of the constructor. -/
def make (rate : ℕ → Any) (u : GstTreeUpdater) (next : Program) : Program :=
  initializeTree rate u.treePath next

/-- The callback for the caps of the element. -/
def onCaps (u : GstTreeUpdater) (caps : String) (next : Program) : Program :=
  updateCaps u.treePath caps next

/-- The callback of the statistics. -/
def onStat (rate : ℕ → Any) (u : GstTreeUpdater) (s : Stat) (next : Program) : Program :=
  s.makeTreeUpdater rate u.treePath (u.dir = .writer) next

/-- The destructor. -/
def destroy (u : GstTreeUpdater) (next : Program) : Program :=
  pruneTree u.treePath true fun _ => next

end GstTreeUpdater

example : getCategory "application/x-h264, width=(int)1920" = "h264" := by decide

end ShmdataTree
end LibSwitcher
