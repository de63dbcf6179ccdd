/-
# Claws

`switcher/quiddity/claw/claw.cpp`: a claw owns a connection specification and the
paths of the shmdata its followers are connected to.  Connecting a meta follower
allocates a dynamic one, which is taken out again if the callback of the quiddity
fails, and which goes when it is disconnected.

The callbacks are known by their results.  The notifications are those of the signals
`on-connection-spec-grafted` and `on-connection-spec-pruned`, in the order they are
sent.
-/

import LibSwitcher.Quiddity.Claw.ConnectionSpecRuns

namespace LibSwitcher
namespace Claw

/-- A notification: the path that was grafted, or the one that was pruned. -/
inductive Notification
  | grafted (path : String)
  | pruned (path : String)
  deriving DecidableEq

end Claw

open Claw in
/-- The state of a `Claw`. -/
structure Claw (τ : Type) where
  connectionSpec : ConnectionSpec τ
  followerShmpaths : IdMap String
  notifications : List Notification

namespace Claw

open InfoTree

variable {τ : Type} (x : Externals τ)

/-- A new claw. -/
def make (spec : ConnectionSpec τ) : Claw τ := ⟨spec, ∅, []⟩

/-- `smanage<&signal::SBag::notify>`. -/
def notify (n : Notification) (c : Claw τ) : Claw τ :=
  { c with notifications := c.notifications ++ [n] }

/-- `connect_raw`, given what the callback returns.  The function is undefined where
`is_meta_follower` is. -/
def connectRaw (sfid : ℕ) (shmpath : String) (cb : Bool) (c : Claw τ) : Option (Claw τ × ℕ) :=
  (c.connectionSpec.isMetaFollower sfid).map fun isMeta =>
    let r := if isMeta then c.connectionSpec.allocateSfidFromMeta sfid else (c.connectionSpec, sfid)
    if r.2 ∉ r.1.follower.ids then ({ c with connectionSpec := r.1 }, Ids.kInvalid)
    else if cb = false then
      ({ c with
          connectionSpec := if isMeta then (r.1.deallocateSfidFromMeta r.2).1 else r.1 },
        Ids.kInvalid)
    else
      let c' : Claw τ := { c with
        connectionSpec := r.1
        followerShmpaths := c.followerShmpaths.insertIfNew r.2 shmpath }
      (if isMeta then c'.notify (.grafted ("follower." ++ toString r.2)) else c', r.2)

/-- `disconnect`, given what the callback returns. -/
def disconnect (sfid : ℕ) (cb : Bool) (c : Claw τ) : Claw τ × Bool :=
  if sfid ∉ c.connectionSpec.follower.ids then (c, false)
  else if cb = false then (c, false)
  else
    let r := c.connectionSpec.deallocateSfidFromMeta sfid
    let c' : Claw τ := { c with
      connectionSpec := r.1
      followerShmpaths := c.followerShmpaths.erase sfid }
    (if r.2 then c'.notify (.pruned ("follower." ++ toString sfid)) else c', true)

/-- `get_follower_shmpath`. -/
def getFollowerShmpath (c : Claw τ) (sfid : ℕ) : String := c.followerShmpaths[sfid]?.getD ""

/-- `add_writer_to_meta`. -/
def addWriterToMeta (swid : ℕ) (spec : ShmSpec) (c : Claw τ) : Claw τ × ℕ :=
  let r := c.connectionSpec.allocateSwidFromMeta x swid spec
  let c' : Claw τ := { c with connectionSpec := r.1 }
  if r.2 = Ids.kInvalid then (c', r.2) else (c'.notify (.grafted ("writer." ++ toString r.2)), r.2)

/-- `remove_writer_from_meta`. -/
def removeWriterFromMeta (swid : ℕ) (c : Claw τ) : Claw τ × Bool :=
  let r := c.connectionSpec.deallocateSwidFromMeta swid
  let c' : Claw τ := { c with connectionSpec := r.1 }
  (if r.2 then c'.notify (.pruned ("writer." ++ toString swid)) else c', r.2)

/-- `replace_follower_can_do`. -/
def replaceFollowerCanDo (sfid : ℕ) (types : List τ) (c : Claw τ) : Claw τ × Bool :=
  let r := c.connectionSpec.replaceFollowerCanDo x sfid types
  ({ c with connectionSpec := r.1 }, r.2)

/-- `replace_writer_can_do`. -/
def replaceWriterCanDo (swid : ℕ) (types : List τ) (c : Claw τ) : Claw τ × Bool :=
  let r := c.connectionSpec.replaceWriterCanDo x swid types
  ({ c with connectionSpec := r.1 }, r.2)

/-- A call of a function that changes a claw, with the result of its callback. -/
inductive Op (τ : Type)
  | connectRaw (sfid : ℕ) (shmpath : String) (cb : Bool)
  | disconnect (sfid : ℕ) (cb : Bool)
  | addWriterToMeta (swid : ℕ) (spec : ShmSpec)
  | removeWriterFromMeta (swid : ℕ)
  | replaceFollowerCanDo (sfid : ℕ) (types : List τ)
  | replaceWriterCanDo (swid : ℕ) (types : List τ)

/-- The machine of these calls. -/
def step (c : Claw τ) : Op τ → Option (Claw τ × SpecResult)
  | .connectRaw sfid shmpath cb => (c.connectRaw sfid shmpath cb).map (Prod.map id .id)
  | .disconnect sfid cb => some ((c.disconnect sfid cb).map id .bool)
  | .addWriterToMeta swid spec => some ((c.addWriterToMeta x swid spec).map id .id)
  | .removeWriterFromMeta swid => some ((c.removeWriterFromMeta swid).map id .bool)
  | .replaceFollowerCanDo sfid types => some ((c.replaceFollowerCanDo x sfid types).map id .bool)
  | .replaceWriterCanDo swid types => some ((c.replaceWriterCanDo x swid types).map id .bool)

end Claw
end LibSwitcher
