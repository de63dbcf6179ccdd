/-
# The container of quiddities

`switcher/quiddity/container.cpp`: the map of the live quiddities and the
identifiers allocated for them.  `quiet_create` allocates an identifier, chooses a
nickname and calls the factory; the constructor of a quiddity may itself create
and remove quiddities in the same container, so the call of the factory is a
function on the state.  Each early return gives back *the last allocated*
identifier, and when none is left the `return` before the error value is missing,
so that the creation goes on with the invalid identifier.

`quiddities_` is an unordered map: the order of its entries here is one of those
its iteration may follow.  What a quiddity is besides its nickname and its kind is
a parameter `β`.  Callbacks are the operations they perform.
-/

import Mathlib.Data.List.AList
import LibSwitcher.Utils.Ids

namespace LibSwitcher

/-- A quiddity: its nickname, its kind and the rest of its state. -/
structure Quiddity (β : Type) where
  nickname : String
  kind : String
  body : β

/-- The state of a `Container`. -/
structure Container (β : Type) where
  ids : Ids
  quiddities : AList fun _ : ℕ => Quiddity β

/-- The value that `create` returns. -/
structure Qrox where
  isValid : Bool
  msg : String
  id : ℕ
  deriving DecidableEq

/-- The error value `Qrox(false, msg)`. -/
def Qrox.error (msg : String) : Qrox := ⟨false, msg, 0⟩

/-- What a factory returns: no quiddity, one that fails its `is_valid` check, or
one that passes it. -/
inductive Outcome (β : Type)
  | null
  | invalid
  | valid (body : β)

namespace Container

variable {β : Type}

/-- A new container. -/
def empty : Container β := ⟨Ids.empty, ∅⟩

/-- Some live quiddity has this nickname. -/
def NicknameTaken (s : Container β) (nick : String) : Prop :=
  ∃ e ∈ s.quiddities.entries, e.2.nickname = nick

instance decidableNicknameTaken (s : Container β) (nick : String) :
    Decidable (s.NicknameTaken nick) :=
  inferInstanceAs (Decidable (∃ e ∈ s.quiddities.entries, e.2.nickname = nick))

/-- The nickname a creation gives: an empty one is replaced by the kind followed by
the identifier. -/
def chooseNickname (kind rawNickname : String) (id : ℕ) : String :=
  if rawNickname = "" then kind ++ toString id else rawNickname

/-- The creation fails before the factory is called: an explicit nickname must not
be that of a live quiddity. -/
def Refused (s : Container β) (rawNickname : String) : Prop :=
  rawNickname ≠ "" ∧ s.NicknameTaken rawNickname

instance decidableRefused (s : Container β) (rawNickname : String) :
    Decidable (s.Refused rawNickname) :=
  inferInstanceAs (Decidable (_ ∧ _))

/-- `ids_.release_last_allocated_id()` and an error value. -/
def releaseLast (s : Container β) (msg : String) : Option (Container β × Qrox) :=
  s.ids.releaseLastAllocatedId.map fun ids => ({ s with ids := ids }, Qrox.error msg)

/-- The state in which the factory is called. -/
def allocated (s : Container β) : Container β := { s with ids := s.ids.allocateId.2 }

/-- What `quiet_create` does with the quiddity the factory returns. -/
def finish (kind nick : String) (id : ℕ) (s : Container β) :
    Outcome β → Option (Container β × Qrox)
  | .null => s.releaseLast "Quiddity creation error"
  | .invalid => s.releaseLast "Quiddity initialization error"
  | .valid body =>
      some ({ s with quiddities := s.quiddities.insert id ⟨nick, kind, body⟩ }, ⟨true, nick, id⟩)

/-- `quiet_create` of a quiddity whose constructor acts on the container as
`construct`. -/
def quietCreate (kinds : List String) (kind rawNickname : String)
    (construct : Container β → Option (Container β × Outcome β)) (s : Container β) :
    Option (Container β × Qrox) :=
  if kind ∉ kinds then some (s, Qrox.error "unknown Quiddity kind")
  else if s.Refused rawNickname then s.allocated.releaseLast "nickname unavailable"
  else (construct s.allocated).bind fun r =>
    r.1.finish kind (chooseNickname kind rawNickname s.ids.allocateId.1) s.ids.allocateId.1 r.2

/-- `quiet_remove`: the state after it and whether the quiddity was found. -/
def quietRemove (id : ℕ) (s : Container β) : Container β × Bool :=
  match s.ids.releaseId id with
  | none => (s, false)
  | some ids => (⟨ids, s.quiddities.erase id⟩, true)

/-- `Quiddity::set_nickname` on the quiddity of an identifier, if there is one. -/
def setNickname (id : ℕ) (nickname : String) (s : Container β) : Container β × Bool :=
  match s.quiddities.lookup id with
  | none => (s, false)
  | some q => ({ s with quiddities := s.quiddities.replace id { q with nickname := nickname } }, true)

/-- `get_id`. -/
def getId (s : Container β) (nickname : String) : ℕ :=
  ((s.quiddities.entries.find? fun e => e.2.nickname = nickname).map Sigma.fst).getD 0

/-- `get_nickname`, undefined when there is no such quiddity. -/
def getNickname (s : Container β) (id : ℕ) : Option String :=
  (s.quiddities.lookup id).map Quiddity.nickname

/-- `get_qrox`, which takes the nickname and so is undefined when there is no such quiddity. -/
def getQrox (s : Container β) (id : ℕ) : Option Qrox :=
  (s.getNickname id).map fun nickname => ⟨true, nickname, id⟩

/-- The operations on a container.  A creation comes with the operations its
constructor performs and what the factory returns; `create` and `remove` also with
those the registered callbacks perform, after a creation that succeeds and before
a removal. -/
inductive Op (β : Type)
  | quietCreate (kind nickname : String) (ctor : List (Op β)) (outcome : Outcome β)
  | create (kind nickname : String) (ctor : List (Op β)) (outcome : Outcome β)
      (onCreated : List (Op β))
  | quietRemove (id : ℕ)
  | remove (id : ℕ) (onRemoved : List (Op β))
  | setNickname (id : ℕ) (nickname : String)

mutual

/-- Perform an operation: the state after it and whether it succeeds. -/
def exec (kinds : List String) : Op β → Container β → Option (Container β × Bool)
  | .quietCreate kind nick ctor outcome, s =>
      (quietCreate kinds kind nick
        (fun s => (execAll kinds ctor s).map fun s' => (s', outcome)) s).map
          fun r => (r.1, r.2.isValid)
  | .create kind nick ctor outcome onCreated, s =>
      (quietCreate kinds kind nick
        (fun s => (execAll kinds ctor s).map fun s' => (s', outcome)) s).bind
          fun r => if r.2.isValid then (execAll kinds onCreated r.1).map fun s' => (s', true)
            else some (r.1, false)
  | .quietRemove id, s => some (quietRemove id s)
  | .remove id onRemoved, s => (execAll kinds onRemoved s).map fun s' => quietRemove id s'
  | .setNickname id nick, s => some (setNickname id nick s)

/-- Perform a list of operations. -/
def execAll (kinds : List String) : List (Op β) → Container β → Option (Container β)
  | [], s => some s
  | op :: ops, s => (exec kinds op s).bind fun r => execAll kinds ops r.1

end

/-- Perform an operation, as a step of a machine. -/
def step (kinds : List String) (s : Container β) (op : Op β) : Option (Container β × Bool) :=
  exec kinds op s

end Container
end LibSwitcher
