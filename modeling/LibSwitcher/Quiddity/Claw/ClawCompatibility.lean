/-
# Finding a writer to connect to

`switcher/quiddity/claw/claw.cpp`: a follower is connected to another quiddity
without naming a writer.  `connect_quid` goes through the types of the follower and
takes the first writer that accepts one of them, and `try_connect` does this for the
followers in turn, until one is connected.

Two tests say whether a point takes a type.  They treat their two sides differently:
the type that is asked for is *named* `all`, the types of the point are compared with
the *text* `all`.  A type is known by its text and its name, and by what
`gst_caps_can_intersect` says of two texts (`Caps`).

The functions return the calls of `connect` they make, besides what the code returns.  They test
what `get_qrox` returns, but that function is undefined for an identifier that is not that of a
quiddity, and so are they.
-/

import LibSwitcher.Quiddity.Claw.ClawAtomicity

namespace LibSwitcher
namespace Claw

variable {τ : Type}

/-- The names of types, and the caps that intersect.  The text of a type is its name
followed by its properties. -/
structure Caps (x : Externals τ) where
  name : τ → String
  canIntersect : String → String → Bool
  name_eq : ∀ t, x.str t = "all" → name t = "all"
  canIntersect_comm : ∀ a b, canIntersect a b = canIntersect b a

/-- A quiddity, its claw, and the claws of the other quiddities of its container. -/
structure Peers (τ : Type) where
  qid : ℕ
  claw : Claw τ
  others : IdMap (Claw τ)

/-- A call of `connect`. -/
structure ConnectCall where
  sfid : ℕ
  quid : ℕ
  swid : ℕ
  deriving DecidableEq

/-- What a function that connects leaves behind: the quiddities, the identifier it
returns and the calls of `connect` it has made. -/
structure Outcome (τ : Type) where
  peers : Peers τ
  id : ℕ
  connects : List ConnectCall

variable {x : Externals τ} (caps : Caps x)

/-- The loop of `sfid_can_do_shmtype` and `swid_can_do_shmtype` over the types of a
point. -/
def canDoShmtype (canDos : List τ) (shmtype : τ) : Bool :=
  if caps.name shmtype = "all" then true
  else canDos.any fun canDo =>
    x.str canDo = "all" || caps.canIntersect (x.str canDo) (x.str shmtype)

/-- `sfid_can_do_shmtype`. -/
def sfidCanDoShmtype (c : Claw τ) (sfid : ℕ) (shmtype : τ) : Bool :=
  canDoShmtype caps (c.connectionSpec.follower.typesOf sfid) shmtype

/-- `swid_can_do_shmtype`. -/
def swidCanDoShmtype (c : Claw τ) (swid : ℕ) (shmtype : τ) : Bool :=
  canDoShmtype caps (c.connectionSpec.writer.typesOf swid) shmtype

/-- `get_sfids`. -/
def getSfids (c : Claw τ) : List ℕ := c.connectionSpec.follower.ids.toList.map Prod.fst

/-- `get_swids`. -/
def getSwids (c : Claw τ) : List ℕ := c.connectionSpec.writer.ids.toList.map Prod.fst

/-- `get_compatible_swids`. -/
def getCompatibleSwids (c : Claw τ) (type : τ) : List ℕ :=
  c.getSwids.filter fun swid => swidCanDoShmtype caps c swid type &&
    !decide (c.connectionSpec.writer.IsMeta swid)

namespace Peers

/-- `get_qrox`: the claw of a quiddity, undefined when there is none. -/
def getQrox (q : Peers τ) (quid : ℕ) : Option (Claw τ) :=
  if quid = q.qid then some q.claw else q.others[quid]?

/-- `can_do_swid`. -/
def canDoSwid (q : Peers τ) (sfid quid swid : ℕ) : Option Bool :=
  (q.getQrox quid).map fun w =>
    (w.connectionSpec.writer.typesOf swid).any (sfidCanDoShmtype caps q.claw sfid)

end Peers

/-- `get_writer_shmpath`, given the path that is forced or generated. -/
def getWriterShmpath (path : String) (c : Claw τ) (swid : ℕ) : String :=
  if swid ∉ c.connectionSpec.writer.ids then ""
  else if c.connectionSpec.writer.IsMeta swid then ""
  else path

namespace Peers

variable (path : ℕ → ℕ → String)

/-- `connect`, given the paths of the writers and what the callback returns. -/
def connect (cb : Bool) (sfid quid swid : ℕ) (q : Peers τ) : Option (Peers τ × ℕ) :=
  (q.getQrox quid).bind fun w =>
    let shmpath := getWriterShmpath (path quid swid) w swid
    if shmpath = "" then some (q, Ids.kInvalid)
    else (q.claw.connectRaw sfid shmpath cb).map fun r => ({ q with claw := r.1 }, r.2)

/-- The loop of `connect_quid` over the types of the follower. -/
def chooseSwid (w : Claw τ) : List τ → ℕ
  | [] => Ids.kInvalid
  | canDo :: rest =>
      match getCompatibleSwids caps w canDo with
      | [] => chooseSwid w rest
      | swid :: _ => swid

/-- `connect_quid`. -/
def connectQuid (cb : Bool) (sfid quid : ℕ) (q : Peers τ) : Option (Outcome τ) :=
  (q.getQrox quid).bind fun w =>
    let swid := chooseSwid caps w (q.claw.connectionSpec.follower.typesOf sfid)
    if swid = Ids.kInvalid then some ⟨q, Ids.kInvalid, []⟩
    else (q.connect path cb sfid quid swid).map fun r => ⟨r.1, r.2, [⟨sfid, quid, swid⟩]⟩

/-- The loop of `try_connect`, given what the callback returns for each follower. -/
def tryConnectLoop (cb : ℕ → Bool) (quid : ℕ) : List ℕ → Peers τ → Option (Outcome τ)
  | [], q => some ⟨q, Ids.kInvalid, []⟩
  | sfid :: rest, q =>
      (q.connectQuid caps path (cb sfid) sfid quid).bind fun o =>
        if o.id ≠ Ids.kInvalid then some o
        else (tryConnectLoop cb quid rest o.peers).map fun o' =>
          { o' with connects := o.connects ++ o'.connects }

/-- `try_connect`. -/
def tryConnect (cb : ℕ → Bool) (quid : ℕ) (q : Peers τ) : Option (Outcome τ) :=
  q.tryConnectLoop caps path cb quid q.claw.getSfids

end Peers
end Claw
end LibSwitcher
