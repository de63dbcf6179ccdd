/-
# The wiring inside a bundle

`switcher/quiddity/bundle/bundle.cpp`, what `on_tree_grafted` and `on_tree_pruned` do when a writer
of an inner quiddity comes, is updated or goes.  A quiddity has sinks to connect or sinks that
are connected, and *any* writer event exchanges the two lists: a graft connects the first
follower of each sink to the writer, and a prune disconnects the first follower of each sink for
which a connection to the writer is recorded.  The connections are those of the claws; the record
is only by sink and path, and is made whether or not `connect_raw` succeeds.

The callbacks of the inner quiddities are known by their results, one for each call.  The caps of
a writer are those of the information tree of its quiddity, and a graft below a writer, as that
of its `stat`, runs the same code.  The bundle is not being destroyed.
-/

import LibSwitcher.Quiddity.Bundle.DescriptionParser
import LibSwitcher.Quiddity.Claw.FirstFollower

namespace LibSwitcher
namespace Bundle

open Claw

/-- The wiring of a bundle: `connects_to_` and `connected_to_` of each inner quiddity, its claw,
`connected_shms_`, and the caps of its writers. -/
structure Wiring (τ : Type) where
  connectsTo : String → List String
  connectedTo : String → List String
  claws : String → Claw τ
  connectedShms : List (String × String)
  writers : String → String → Option τ

/-- What happens to a writer of an inner quiddity: it comes with its caps, something below it is
grafted, or it goes.  The callbacks of the sinks return the given results, in the order of
the calls. -/
inductive WriterEvent (τ : Type)
  | graft (src shmpath : String) (shmtype : τ) (cb : ℕ → Bool)
  | stat (src shmpath : String) (cb : ℕ → Bool)
  | prune (src shmpath : String) (cb : ℕ → Bool)

/-- The sinks that a description declares for a quiddity. -/
def sinksOf (quids : List QuiddSpec) (src : String) : List String :=
  ((quids.find? fun quid => quid.name = src).map QuiddSpec.connectsTo).getD []

variable {τ : Type} {x : Externals τ} (caps : Caps x)

namespace Wiring

/-- A bundle with the given sinks, before there are writers. -/
def make (sinks : String → List String) (spec : String → ConnectionSpec τ) : Wiring τ where
  connectsTo := sinks
  connectedTo := fun _ => []
  claws := fun name => Claw.make (spec name)
  connectedShms := []
  writers := fun _ _ => none

variable (s : Wiring τ)

/-- The claw of a quiddity has changed. -/
def setClaw (name : String) (c : Claw τ) : Wiring τ :=
  { s with claws := Function.update s.claws name c }

/-- The caps of a writer have changed. -/
def setWriter (src shmpath : String) (shmtype : Option τ) : Wiring τ :=
  { s with writers :=
      Function.update s.writers src (Function.update (s.writers src) shmpath shmtype) }

/-- The exchange of `connects_to_` and `connected_to_`. -/
def swapSinks (src : String) : Wiring τ :=
  { s with
    connectsTo := Function.update s.connectsTo src (s.connectedTo src)
    connectedTo := Function.update s.connectedTo src (s.connectsTo src) }

/-- The loop of `on_tree_grafted` on one sink. -/
def connectSink (shmpath : String) (shmtype : τ) (cb : Bool) (it : String) : Option (Wiring τ) :=
  match (s.claws it).getSfids with
  | [] => some s
  | sfid :: _ =>
      if sfidCanDoShmtype caps (s.claws it) sfid shmtype = false then some s
      else ((s.claws it).connectRaw sfid shmpath cb).map fun r =>
        { s.setClaw it r.1 with connectedShms := s.connectedShms ++ [(it, shmpath)] }

/-- The loop of `on_tree_grafted`. -/
def connectSinks (shmpath : String) (shmtype : τ) :
    List String → (ℕ → Bool) → Wiring τ → Option (Wiring τ)
  | [], _, s => some s
  | it :: rest, cb, s => (s.connectSink caps shmpath shmtype (cb 0) it).bind
      (connectSinks shmpath shmtype rest fun n => cb (n + 1))

/-- `on_tree_grafted`, for a key below a writer. -/
def onTreeGrafted (src shmpath : String) (cb : ℕ → Bool) : Option (Wiring τ) :=
  if s.connectsTo src = [] then some s
  else
    match s.writers src shmpath with
    | none => some s
    | some shmtype =>
        (connectSinks caps shmpath shmtype (s.connectsTo src) cb s).map (swapSinks · src)

/-- The loop of `on_tree_pruned` on one sink, undefined if the sink has no follower. -/
def disconnectSink (cb : Bool) (it : String) : Option (Wiring τ) :=
  match (s.claws it).getSfids with
  | [] => none
  | sfid :: _ => some (s.setClaw it ((s.claws it).disconnect sfid cb).1)

/-- The loop of `on_tree_pruned`. -/
def disconnectSinks : List String → (ℕ → Bool) → Wiring τ → Option (Wiring τ)
  | [], _, s => some s
  | it :: rest, cb, s => (s.disconnectSink (cb 0) it).bind (disconnectSinks rest fun n => cb (n + 1))

/-- `to_disconnect`: the sinks for which a connection to the path is recorded. -/
def toDisconnect (shmpath : String) : List String :=
  (s.connectedShms.filter fun c => c.2 = shmpath).map Prod.fst

/-- `on_tree_pruned`, for the key of a writer. -/
def onTreePruned (src shmpath : String) (cb : ℕ → Bool) : Option (Wiring τ) :=
  disconnectSinks (s.toDisconnect shmpath) cb
    (swapSinks { s with connectedShms := s.connectedShms.filter fun c => c.2 ≠ shmpath } src)

/-- A writer event. -/
def step (s : Wiring τ) : WriterEvent τ → Option (Wiring τ × Unit)
  | .graft src shmpath shmtype cb =>
      ((s.setWriter src shmpath (some shmtype)).onTreeGrafted caps src shmpath cb).map (·, ())
  | .stat src shmpath cb => (s.onTreeGrafted caps src shmpath cb).map (·, ())
  | .prune src shmpath cb => ((s.setWriter src shmpath none).onTreePruned src shmpath cb).map (·, ())

/-! ### What the wiring should be -/

/-- A follower of a quiddity is connected to a path. -/
def Held (it shmpath : String) : Prop :=
  ∃ sfid : ℕ, (s.claws it).followerShmpaths[sfid]? = some shmpath

/-- The first follower of a sink can do a type. -/
def CanDo (it : String) (shmtype : τ) : Prop :=
  ∃ sfid ∈ (s.claws it).getSfids.head?, sfidCanDoShmtype caps (s.claws it) sfid shmtype = true

/-- A sink is connected to a writer of a quiddity. -/
def Served (src it : String) : Prop :=
  ∃ shmpath, s.writers src shmpath ≠ none ∧ s.Held it shmpath

/-- The wiring follows the writers: a sink is connected to a writer of its quiddity if there is one
that it can do, and only once to each. -/
structure Wired (sinks : String → List String) : Prop where
  served : ∀ src, ∀ it ∈ sinks src, ∀ shmpath shmtype,
    s.writers src shmpath = some shmtype → s.CanDo caps it shmtype → s.Served src it
  once : ∀ it, (s.claws it).Once

/-- The followers that were connected to a path, and no others, have been disconnected. -/
def Disconnects (shmpath : String) (s' : Wiring τ) : Prop :=
  ∀ it (sfid : ℕ) path, (s'.claws it).followerShmpaths[sfid]? = some path ↔
    (s.claws it).followerShmpaths[sfid]? = some path ∧ path ≠ shmpath

/-- After a writer event the wiring follows the writers, and when a writer goes exactly the followers
that were connected to it are disconnected. -/
def Follows (sinks : String → List String) (s : Wiring τ) :
    WriterEvent τ → Wiring τ × Unit → Prop
  | .prune _ shmpath _, r => r.1.Wired caps sinks ∧ s.Disconnects shmpath r.1
  | _, r => r.1.Wired caps sinks

/-! ### When it is -/

/-- The first follower of a sink is a meta one. -/
def IsMeta (it : String) : Prop := (s.claws it).connectionSpec.follower.IsMeta 1

/-- The condition on a graft.  If the sinks count as connected, those that can do the writer are.
Otherwise each of them is, or a connection succeeds and its first follower is free, or a meta
one with an identifier left; and a meta one is connected once. -/
structure FitsGraft (src shmpath : String) (shmtype : τ) (cb : ℕ → Bool) : Prop where
  counted : s.connectsTo src = [] → ∀ it ∈ s.connectedTo src, s.CanDo caps it shmtype →
    s.Served src it
  connects : ∀ it ∈ s.connectsTo src, s.CanDo caps it shmtype → s.Served src it ∨
    ∃ i, (s.connectsTo src)[i]? = some it ∧ cb i = true ∧ (s.claws it).Open
  single : ∀ it ∈ s.connectsTo src, s.CanDo caps it shmtype → s.IsMeta it →
    (s.connectsTo src).count it ≤ 1 ∧
      ∀ i, (s.connectsTo src)[i]? = some it → cb i = true → ¬s.Held it shmpath

/-- A callback that disconnects a sink succeeds. -/
def Releases (shmpath : String) (cb : ℕ → Bool) (it : String) : Prop :=
  ∃ i, (s.toDisconnect shmpath)[i]? = some it ∧ cb i = true

/-- The condition on a prune.  The followers that are connected to the writer are the first ones of
the sinks recorded for it, and these are not connected elsewhere; and a sink that can do
another writer of its quiddity is connected to another one. -/
structure FitsPrune (sinks : String → List String) (src shmpath : String) (cb : ℕ → Bool) :
    Prop where
  recorded : ∀ it (sfid : ℕ), (s.claws it).followerShmpaths[sfid]? = some shmpath →
    s.Releases shmpath cb it ∧ sfid = 1
  released : ∀ it, s.Releases shmpath cb it → ∀ path,
    (s.claws it).followerShmpaths[1]? = some path → path = shmpath
  others : ∀ src', ∀ it ∈ sinks src', ∀ path shmtype,
    (s.setWriter src shmpath none).writers src' path = some shmtype → s.CanDo caps it shmtype →
      ∃ path', (s.setWriter src shmpath none).writers src' path' ≠ none ∧ path' ≠ shmpath ∧
        s.Held it path'

/-- The condition on a writer event. -/
def Fits (sinks : String → List String) (s : Wiring τ) : WriterEvent τ → Prop
  | .graft src shmpath shmtype cb =>
      (s.setWriter src shmpath (some shmtype)).FitsGraft caps src shmpath shmtype cb
  | .stat src shmpath cb =>
      ∀ shmtype, s.writers src shmpath = some shmtype → s.FitsGraft caps src shmpath shmtype cb
  | .prune src shmpath cb => s.FitsPrune caps sinks src shmpath cb

end Wiring
end Bundle
end LibSwitcher
