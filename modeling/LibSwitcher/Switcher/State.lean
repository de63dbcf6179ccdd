/-
# Saving and loading a switcher

`switcher/switcher.cpp`: `get_state` writes the quiddities of a switcher into a tree,
`load_state` makes them again from the tree.  The nickname of a quiddity is a key of
every section of this tree: of `quiddities`, which has the kinds, of `custom_states`,
`nicknames`, `userdata`, `properties` and `readers`.

What a constructor makes, the methods of a quiddity and what a property takes from a text
depend on the kind only and are given by a `Factory`, whose kinds are those that can be made; a
constructor does not act on the container.  The properties of a quiddity are read from its tree, where `get_state` reads
them, and a property that is set has its new value there.  Callbacks, logs and the
notifications `on_saved` and `on_loaded` are left out.

Loading a state should make the quiddities that have been saved (`RoundTrips`).
-/

import LibSwitcher.InfoTree.Copy
import LibSwitcher.Quiddity.ContainerInvariant

namespace LibSwitcher

open InfoTree

namespace Switcher

/-- A call of one of the two methods by which `load_state` connects a quiddity. -/
inductive Call
  | connectQuid (name suffix : String)
  | connect (shmpath : String)
  deriving DecidableEq

/-- What `get_state` and `load_state` see of a quiddity besides its nickname and its kind:
its tree, its user data, what its `on_saving` returns and the properties that are not
saved; what its `on_loading` has been called with, and its methods that connect it. -/
structure Body where
  tree : InfoTree
  userData : InfoTree
  customState : Option InfoTree
  propertiesBlacklist : List String
  loaded : List InfoTree
  calls : List Call

/-- The quiddities that can be made: their kinds, and for each kind what its constructor
makes, the methods and what `set_str` makes of a text. -/
structure Factory where
  kinds : List String
  tree : String → InfoTree
  customState : String → Option InfoTree
  propertiesBlacklist : String → List String
  methods : String → List String
  setStr : String → String → String → Option Any

/-- A quiddity just made. -/
def Factory.make (f : Factory) (kind : String) : Body :=
  ⟨f.tree kind, InfoTree.make, f.customState kind, f.propertiesBlacklist kind, [], []⟩

/-- The names of the properties. -/
def Body.properties (b : Body) : List String := getChildKeys "property" b.tree

/-- The value of a property. -/
def Body.value (b : Body) (prop : String) : Any :=
  branchGetValue ("property." ++ prop ++ ".value") b.tree

/-- A property that `get_state` saves. -/
def Body.Saves (b : Body) (prop : String) : Prop :=
  (branchGetValue ("property." ++ prop ++ ".writable") b.tree).asBool = true ∧
    prop ∉ b.propertiesBlacklist

instance decidableSaves (b : Body) (prop : String) : Decidable (b.Saves prop) :=
  inferInstanceAs (Decidable (_ ∧ _))

/-! ### Saving -/

/-- The custom tree, if some is provided. -/
def saveCustomState (q : Quiddity Body) (state : InfoTree) : InfoTree :=
  match q.body.customState with
  | none => state
  | some tree => if tree.isEmpty then state else graft (".custom_states." ++ q.nickname) tree state

/-- The kind and the nickname, unless the quiddity is one of the last reset. -/
def saveNames (atReset : Bool) (q : Quiddity Body) (state : InfoTree) : InfoTree :=
  if atReset then state
  else
    let state := graft (".quiddities." ++ q.nickname) (makeValue (.str q.kind)) state
    graft (".nicknames." ++ q.nickname) (makeValue (.str q.nickname)) state

/-- The user data. -/
def saveUserData (q : Quiddity Body) (state : InfoTree) : InfoTree :=
  if q.body.userData.isEmpty then state
  else graft (".userdata." ++ q.nickname) q.body.userData state

/-- What is saved of a property. -/
def saveProperty (q : Quiddity Body) (state : InfoTree) (prop : String) : InfoTree :=
  if q.body.Saves prop then
    graft (".properties." ++ q.nickname ++ "." ++ prop) (makeValue (q.body.value prop)) state
  else state

/-- The description of the writer a quiddity reads from, if it has one. -/
def writerInfo (b : Body) (reader : String) : Option InfoTree :=
  branchGetCopy ("shmdata.reader." ++ reader ++ ".writer") b.tree

/-- The loop on the readers. -/
def saveReaders (q : Quiddity Body) : ℕ → List String → InfoTree → InfoTree
  | _, [], state => state
  | nb, reader :: readers, state =>
      let nb := nb + 1
      let key := ".readers." ++ q.nickname
      let state :=
        match writerInfo q.body reader with
        | some info => graft (key ++ ".shm_from_quid.reader_" ++ toString nb) info state
        | none => graft (key ++ ".raw_shm.reader_" ++ toString nb) (makeValue (.str reader)) state
      saveReaders q nb readers state

/-- The connections, if the quiddity has a method to make them again. -/
def saveConnections (f : Factory) (q : Quiddity Body) (state : InfoTree) : InfoTree :=
  if "connect-quid" ∉ f.methods q.kind then state
  else
    let state := saveReaders q 0 (getChildKeys "shmdata.reader" q.body.tree) state
    let state := tagAsArray (".readers." ++ q.nickname ++ ".shm_from_quid") true state
    tagAsArray (".readers." ++ q.nickname ++ ".raw_shm") true state

/-- What is saved of a quiddity. -/
def saveQuiddity (f : Factory) (atReset : Bool) (q : Quiddity Body) (state : InfoTree) : InfoTree :=
  let state := saveCustomState q state
  let state := saveNames atReset q state
  let state := saveUserData q state
  let state := q.body.properties.foldl (saveProperty q) state
  saveConnections f q state

/-- The loop of `get_state` on the identifiers, undefined for one without quiddity. -/
def saveAll (f : Factory) (quidditiesAtReset : List ℕ) (c : Container Body) :
    List ℕ → InfoTree → Option InfoTree
  | [], state => some state
  | id :: ids, state =>
      (c.quiddities.lookup id).bind fun q =>
        saveAll f quidditiesAtReset c ids (saveQuiddity f (id ∈ quidditiesAtReset) q state)

/-- `get_state`. -/
def getState (f : Factory) (quidditiesAtReset : List ℕ) (c : Container Body) : Option InfoTree :=
  saveAll f quidditiesAtReset c c.ids.ids InfoTree.make

/-! ### Loading -/

/-- Act on the quiddity of an identifier, if there is one. -/
def onQuiddity (id : ℕ) (act : Quiddity Body → Quiddity Body) (c : Container Body) :
    Container Body :=
  match c.quiddities.lookup id with
  | none => c
  | some q => { c with quiddities := c.quiddities.replace id (act q) }

/-- `on_loading`. -/
def onLoading (tree : InfoTree) (q : Quiddity Body) : Quiddity Body :=
  { q with body := { q.body with loaded := q.body.loaded ++ [tree] } }

/-- `set_str_str`. -/
def setStr (f : Factory) (prop text : String) (q : Quiddity Body) : Quiddity Body :=
  if prop ∈ q.body.properties then
    match f.setStr q.kind prop text with
    | none => q
    | some v =>
        { q with body := { q.body with
            tree := vgraft ("property." ++ prop ++ ".value") v q.body.tree } }
  else q

/-- `user_data<&InfoTree::graft>`. -/
def graftUserData (key : String) (tree : InfoTree) (q : Quiddity Body) : Quiddity Body :=
  { q with body := { q.body with userData := graft key tree q.body.userData } }

/-- `invoke` of a method that the quiddity has. -/
def invoke (f : Factory) (meth : String) (call : Call) (q : Quiddity Body) : Quiddity Body :=
  if meth ∈ f.methods q.kind then
    { q with body := { q.body with calls := q.body.calls ++ [call] } }
  else q

/-- Act on the quiddity that `get_id` finds. -/
def onNickname (nick : String) (act : Quiddity Body → Quiddity Body) (c : Container Body) :
    Container Body :=
  onQuiddity (c.getId nick) act c

/-- Act on the quiddity whose identifier `get_id` returns, unless this is 0. -/
def onFound (nick : String) (act : Quiddity Body → Quiddity Body) (c : Container Body) :
    Container Body :=
  if c.getId nick = 0 then c else onNickname nick act c

/-- The creation of the quiddities. -/
def createAll (f : Factory) (quiddities : InfoTree) :
    List String → Container Body → Option (Container Body)
  | [], c => some c
  | it :: quids, c =>
      let kind := (branchGetValue it quiddities).asString
      (c.quietCreate f.kinds kind it fun c => some (c, .valid (f.make kind))).bind fun r =>
        createAll f quiddities quids r.1

/-- The loading of the custom states. -/
def loadCustomStates (customStates : InfoTree) (quids : List String) (c : Container Body) :
    Container Body :=
  quids.foldl (fun c it =>
    onFound it
      (onLoading (if customStates.isEmpty then InfoTree.make else getTree it customStates)) c) c

/-- The nicknames. -/
def applyNicknames (nicknames : InfoTree) (c : Container Body) : Container Body :=
  (getChildKeys "." nicknames).foldl (fun c it =>
    (c.setNickname (c.getId it) (branchGetValue it nicknames).asString).1) c

/-- A property is set, unless it says that its quiddity is to be started later. -/
def applyProperty (f : Factory) (properties : InfoTree) (name : String)
    (r : Container Body × List String) (prop : String) : Container Body × List String :=
  if prop = "started" ∧ (branchGetValue (name ++ ".started") properties).asBool = true then
    (r.1, r.2 ++ [name])
  else
    (onNickname name (setStr f prop (branchGetValue (name ++ "." ++ prop) properties).toString) r.1,
      r.2)

/-- The properties, and the quiddities to start. -/
def applyProperties (f : Factory) (properties : InfoTree) (c : Container Body) :
    Container Body × List String :=
  (getChildKeys "." properties).foldl (fun r name =>
    (getChildKeys name properties).foldl (applyProperty f properties name) r) (c, [])

/-- The user data. -/
def applyUserData (userData : InfoTree) (c : Container Body) : Container Body :=
  (getChildKeys "." userData).foldl (fun c it =>
    (getChildKeys it userData).foldl (fun c kit =>
      onFound it (graftUserData kit (getTree (it ++ "." ++ kit) userData)) c) c) c

/-- The quiddities are started. -/
def startAll (f : Factory) (quidToStart : List String) (c : Container Body) : Container Body :=
  quidToStart.foldl (fun c name => onNickname name (setStr f "started" "true") c) c

/-- The call by which a saved reader that has a writer is connected. -/
def fromQuidCall (readers : InfoTree) (quid reader : String) : Call :=
  .connectQuid (branchGetValue (quid ++ ".shm_from_quid." ++ reader ++ ".name") readers).toString
    (branchGetValue (quid ++ ".shm_from_quid." ++ reader ++ ".suffix") readers).toString

/-- The call by which another saved reader is connected. -/
def rawCall (readers : InfoTree) (quid reader : String) : Call :=
  .connect (branchGetValue (quid ++ "." ++ reader) readers).toString

/-- The quiddity that `get_id` finds, if there is one, has a method. -/
def Answers (f : Factory) (quid meth : String) (c : Container Body) : Prop :=
  ∀ q ∈ c.quiddities.lookup (c.getId quid), meth ∈ f.methods q.kind

instance decidableAnswers (f : Factory) (quid meth : String) (c : Container Body) :
    Decidable (Answers f quid meth c) :=
  match h : c.quiddities.lookup (c.getId quid) with
  | none => isTrue fun q hq => by rw [h] at hq; cases hq
  | some q => decidable_of_iff (meth ∈ f.methods q.kind)
      ⟨fun hq q' hq' => by rw [h] at hq'; cases hq'; exact hq, fun hall => hall q h⟩

/-- The call of a method by its name on the quiddity that `get_id` finds.  Without the quiddity
nothing is called; without the method its identifier is 0, and the entry of 0 in the map of the
methods is used without a test. -/
def callMethod (f : Factory) (quid meth : String) (call : Call) (c : Container Body) :
    Option (Container Body) :=
  if Answers f quid meth c then some (onNickname quid (invoke f meth call) c) else none

/-- The readers. -/
def connectReaders (f : Factory) (readers : InfoTree) (c : Container Body) :
    Option (Container Body) :=
  (getChildKeys "." readers).foldlM (fun c quid =>
    ((getChildKeys (quid ++ ".shm_from_quid") readers).foldlM (fun c reader =>
      callMethod f quid "connect-quid" (fromQuidCall readers quid reader) c) c).bind fun c =>
    (getChildKeys (quid ++ ".raw_shm") readers).foldlM (fun c reader =>
      callMethod f quid "connect" (rawCall readers quid reader) c) c) c

/-- `load_state`. -/
def loadState (f : Factory) (state : InfoTree) (c : Container Body) : Option (Container Body) :=
  let quiddities := getTree ".quiddities" state
  let quids := getChildKeys "." quiddities
  (createAll f quiddities quids c).bind fun c =>
    let c := loadCustomStates (getTree ".custom_states" state) quids c
    let c := applyNicknames (getTree ".nicknames" state) c
    let r := applyProperties f (getTree ".properties" state) c
    let c := applyUserData (getTree "userdata." state) r.1
    let c := startAll f r.2 c
    connectReaders f (getTree ".readers" state) c

/-! ### The property -/

/-- The readers of a quiddity with the description of their writers, for the quiddities that
have a method to connect them. -/
def savedReaders (f : Factory) (q : Quiddity Body) : List (String × Option InfoTree) :=
  if "connect-quid" ∈ f.methods q.kind then
    (getChildKeys "shmdata.reader" q.body.tree).map fun reader => (reader, writerInfo q.body reader)
  else []

/-- The calls that connect the saved readers of a quiddity again. -/
def savedCalls (f : Factory) (q : Quiddity Body) : List Call :=
  (savedReaders f q).filterMap (fun r => r.2.map fun info =>
    .connectQuid (branchGetValue "name" info).toString (branchGetValue "suffix" info).toString) ++
  (savedReaders f q).filterMap fun r => if r.2 = none then some (.connect r.1) else none

/-- A quiddity is the one that has been saved. -/
structure Restores (f : Factory) (q q' : Quiddity Body) : Prop where
  nickname : q'.nickname = q.nickname
  kind : q'.kind = q.kind
  customState : ∀ tree, q.body.customState = some tree → tree.isEmpty = false →
    q'.body.loaded = [tree]
  userData : q'.body.userData = q.body.userData
  value : ∀ prop ∈ q.body.properties, q.body.Saves prop → q'.body.value prop = q.body.value prop
  calls : q'.body.calls = savedCalls f q

/-- Loading the state of a switcher into a new one makes its quiddities again. -/
def RoundTrips (f : Factory) (quidditiesAtReset : List ℕ) (c : Container Body) : Prop :=
  ∃ state, getState f quidditiesAtReset c = some state ∧
    ∃ c', loadState f state Container.empty = some c' ∧
      ∀ e ∈ c.quiddities.entries, ∃ e' ∈ c'.quiddities.entries, Restores f e.2 e'.2

end Switcher
end LibSwitcher
