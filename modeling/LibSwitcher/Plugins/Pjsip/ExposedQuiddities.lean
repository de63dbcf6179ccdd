/-
# The quiddities of received streams

`plugins/pjsip/pj-sip-plugin.cpp`: for each stream of a call the plugin creates a quiddity of the
kind `extshmsrc` and records its name with the peer; `expose_stream_to_quiddity` gives it the path
of the shmdata, and the quiddities go with their streams.  The removal callback of the container
takes the name of a quiddity that the user removes out of the record.

The record is by the name that the quiddity is created with.  The quiddity is then renamed to the
label of the stream, so that the name does not find it any more, and a creation that fails leaves
its name recorded.  Every other step does what it should: a run does exactly if each creation
succeeds and is given no other label (`exposed_quiddities_iff`).

What is kept of a quiddity is its property `shmdata-path`, if it has one, and the stream that it was
created for, which the source does not write down.
-/

import LibSwitcher.Lib.Machine
import LibSwitcher.Quiddity.ContainerRollback

namespace LibSwitcher

/-- What a quiddity is here: the value of `shmdata-path`, and the peer and the name of the stream
that it was created for. -/
structure StreamBody where
  shmdataPath : Option String
  stream : Option (String × String)
  deriving DecidableEq

/-- What the plugin shares with the container.  A peer that is not in `exposed_quiddities_` has no
names. -/
structure SIPPlugin where
  qcontainer : Container StreamBody
  exposedQuiddities : String → List String

namespace SIPPlugin

/-- The quiddity that the factory makes for a stream. -/
def streamOutcome (peerUri quidNickname : String) : Outcome Unit → Outcome StreamBody
  | .null => .null
  | .invalid => .invalid
  | .valid () => .valid ⟨some "", some (peerUri, quidNickname)⟩

/-- `create_quiddity_stream`, where the factory knows `kinds` and returns `outcome`. -/
def createQuiddityStream (kinds : List String) (peerUri quidNickname nickname : String)
    (outcome : Outcome Unit) (s : SIPPlugin) : Option SIPPlugin :=
  if quidNickname ∈ s.exposedQuiddities peerUri then some s
  else
    (Container.quietCreate kinds "extshmsrc" quidNickname
      (fun c => some (c, streamOutcome peerUri quidNickname outcome)) s.qcontainer).map fun r =>
        { qcontainer :=
            if r.2.isValid ∧ nickname ≠ "" then (Container.setNickname r.2.id nickname r.1).1
            else r.1
          exposedQuiddities := Function.update s.exposedQuiddities peerUri
            (s.exposedQuiddities peerUri ++ [quidNickname]) }

/-- `expose_stream_to_quiddity`. -/
def exposeStreamToQuiddity (quidName shmpath : String) (s : SIPPlugin) : SIPPlugin :=
  match s.qcontainer.quiddities.lookup (s.qcontainer.getId quidName) with
  | none => s
  | some q =>
      { s with
        qcontainer := { s.qcontainer with
          quiddities := s.qcontainer.quiddities.replace (s.qcontainer.getId quidName)
            { q with body := { q.body with shmdataPath := q.body.shmdataPath.map fun _ => shmpath } } } }

/-- `Container::remove`: the removal callback takes the nickname, which is undefined if there is no
such quiddity, out of the record. -/
def remove (id : ℕ) (s : SIPPlugin) : Option SIPPlugin :=
  (s.qcontainer.getNickname id).map fun quiddityName =>
    { qcontainer := (Container.quietRemove id s.qcontainer).1
      exposedQuiddities := fun peer => (s.exposedQuiddities peer).erase quiddityName }

/-- `remove_exposed_quiddity`, and the identifier that it removes. -/
def removeExposedQuiddity (peerUri quidNickname : String) (s : SIPPlugin) :
    Option (SIPPlugin × List ℕ) :=
  if quidNickname ∉ s.exposedQuiddities peerUri then some (s, [])
  else
    (remove (s.qcontainer.getId quidNickname)
      { s with
        exposedQuiddities := Function.update s.exposedQuiddities peerUri
          ((s.exposedQuiddities peerUri).erase quidNickname) }).map fun s' =>
        (s', [s.qcontainer.getId quidNickname])

/-- The loop of `remove_exposed_quiddities`, and the identifiers that it removes. -/
def removeAll : List String → SIPPlugin → Option (SIPPlugin × List ℕ)
  | [], s => some (s, [])
  | it :: quidsToRemove, s =>
      if s.qcontainer.getId it = 0 then removeAll quidsToRemove s
      else (remove (s.qcontainer.getId it) s).bind fun s' =>
        (removeAll quidsToRemove s').map fun r => (r.1, s.qcontainer.getId it :: r.2)

/-- `remove_exposed_quiddities`. -/
def removeExposedQuiddities (peerUri : String) (s : SIPPlugin) : Option (SIPPlugin × List ℕ) :=
  removeAll (s.exposedQuiddities peerUri)
    { s with exposedQuiddities := Function.update s.exposedQuiddities peerUri [] }

/-- The operations: those on streams, and the removal of a quiddity by the user. -/
inductive Op
  | createQuiddityStream (peerUri quidNickname nickname : String) (outcome : Outcome Unit)
  | exposeStreamToQuiddity (quidName shmpath : String)
  | removeExposedQuiddity (peerUri quidNickname : String)
  | removeExposedQuiddities (peerUri : String)
  | remove (id : ℕ)

/-- Perform an operation: the state after it, and the identifiers that it removes. -/
def step (kinds : List String) (s : SIPPlugin) : Op → Option (SIPPlugin × List ℕ)
  | .createQuiddityStream peer name nickname outcome =>
      (createQuiddityStream kinds peer name nickname outcome s).map (·, [])
  | .exposeStreamToQuiddity name shmpath => some (exposeStreamToQuiddity name shmpath s, [])
  | .removeExposedQuiddity peer name => removeExposedQuiddity peer name s
  | .removeExposedQuiddities peer => removeExposedQuiddities peer s
  | .remove id => (remove id s).map (·, [id])

/-! ### The property and the condition -/

/-- The name finds a live quiddity that was created for this stream.  `get_id` returns 0 when it
finds none. -/
def Designates (s : SIPPlugin) (peer name : String) : Prop :=
  s.qcontainer.getId name ≠ 0 ∧
    ∃ q, s.qcontainer.quiddities.lookup (s.qcontainer.getId name) = some q ∧
      q.body.stream = some (peer, name)

/-- The identifiers removed are those of the quiddities in question, each once, and the others
stay. -/
structure Removes (s : SIPPlugin) (p : Quiddity StreamBody → Bool) (r : SIPPlugin × List ℕ) :
    Prop where
  once : r.2.Nodup
  mem_iff : ∀ id, id ∈ r.2 ↔ ∃ q, s.qcontainer.quiddities.lookup id = some q ∧ p q
  rest : ∀ id, r.1.qcontainer.quiddities.lookup id =
    (s.qcontainer.quiddities.lookup id).filter fun q => !p q

/-- What an operation should do besides. -/
def Does (s : SIPPlugin) : Op → SIPPlugin × List ℕ → Prop
  | .createQuiddityStream .., r =>
      r.2 = [] ∧ ∀ id q, s.qcontainer.quiddities.lookup id = some q →
        r.1.qcontainer.quiddities.lookup id = some q
  | .exposeStreamToQuiddity name shmpath, r =>
      r.2 = [] ∧ ∀ peer, name ∈ s.exposedQuiddities peer →
        ∃ q, r.1.qcontainer.quiddities.lookup (s.qcontainer.getId name) = some q ∧
          q.body = ⟨some shmpath, some (peer, name)⟩
  | .removeExposedQuiddity peer name, r => Removes s (fun q => q.body.stream = some (peer, name)) r
  | .removeExposedQuiddities peer, r =>
      Removes s (fun q => q.body.stream.map Prod.fst = some peer) r
  | .remove id, r =>
      r.2 = [id] ∧ (∀ id', r.1.qcontainer.quiddities.lookup id' =
        if id' = id then none else s.qcontainer.quiddities.lookup id') ∧
      ∀ q peer name, s.qcontainer.quiddities.lookup id = some q →
        q.body.stream = some (peer, name) → name ∉ r.1.exposedQuiddities peer

/-- After an operation, each recorded name designates a live quiddity of its peer, and the operation
has done what it should. -/
def Follows (s : SIPPlugin) (op : Op) (r : SIPPlugin × List ℕ) : Prop :=
  (∀ peer name, name ∈ r.1.exposedQuiddities peer → r.1.Designates peer name) ∧ Does s op r

/-- The creation succeeds: the kind is known, the name is there and not in use, an identifier is
left, and the factory makes the quiddity. -/
def Creates (kinds : List String) (s : SIPPlugin) (name : String) (outcome : Outcome Unit) : Prop :=
  "extshmsrc" ∈ kinds ∧ name ≠ "" ∧ ¬s.qcontainer.NicknameTaken name ∧
    s.qcontainer.ids.ids.length ≠ Ids.kMaxNumOfIds ∧ outcome = .valid ()

/-- The condition on an operation: a creation for a name that is not recorded succeeds, and its label
is empty or the name itself; the user removes a quiddity that there is. -/
def OpOk (kinds : List String) (s : SIPPlugin) : Op → Prop
  | .createQuiddityStream peer name nickname outcome =>
      name ∈ s.exposedQuiddities peer ∨
        Creates kinds s name outcome ∧ (nickname = "" ∨ nickname = name)
  | .remove id => id ∈ s.qcontainer.quiddities
  | _ => True

/-- The state before the first call: no name is recorded, no quiddity is that of a stream, and the
identifiers allocated are those of the quiddities. -/
structure Started (s : SIPPlugin) : Prop where
  exposed : ∀ peer, s.exposedQuiddities peer = []
  stream : ∀ id q, s.qcontainer.quiddities.lookup id = some q → q.body.stream = none
  mem_ids : ∀ id, id ∈ s.qcontainer.ids.ids ↔ id ∈ s.qcontainer.quiddities

/-! ### The invariant -/

/-- In a run that meets the condition, a name is recorded exactly for the quiddities of the streams
of the peer, which still have that name, and no other quiddity has it. -/
structure Coherent (s : SIPPlugin) : Prop where
  mem_ids : ∀ id, id ∈ s.qcontainer.ids.ids ↔ id ∈ s.qcontainer.quiddities
  recorded : ∀ peer name, name ∈ s.exposedQuiddities peer → ∃ id q,
    s.qcontainer.quiddities.lookup id = some q ∧ q.body.stream = some (peer, name)
  stream : ∀ id q peer name, s.qcontainer.quiddities.lookup id = some q →
    q.body.stream = some (peer, name) →
      name ∈ s.exposedQuiddities peer ∧ q.nickname = name ∧ q.body.shmdataPath.isSome
  unique : ∀ id q id' q', s.qcontainer.quiddities.lookup id = some q →
    s.qcontainer.quiddities.lookup id' = some q' → q.body.stream.isSome →
      q'.nickname = q.nickname → id' = id
  nodup : ∀ peer, (s.exposedQuiddities peer).Nodup

variable {s : SIPPlugin} {kinds : List String} {peer name : String} {id : ℕ}
  {q : Quiddity StreamBody}

theorem Started.coherent (h : s.Started) : s.Coherent where
  mem_ids := h.mem_ids
  recorded := fun peer name hname => by
    rw [h.exposed peer] at hname
    cases hname
  stream := fun id q peer name hq hstream => by
    rw [h.stream id q hq] at hstream
    cases hstream
  unique := fun id q id' q' hq _ hstream _ => by
    rw [h.stream id q hq] at hstream
    cases hstream
  nodup := fun peer => by
    rw [h.exposed peer]
    exact List.nodup_nil

/-- `get_id` finds an entry with the nickname, or there is none. -/
theorem getId_cases (c : Container StreamBody) (name : String) :
    (c.getId name = 0 ∧ ∀ id q, c.quiddities.lookup id = some q → q.nickname ≠ name) ∨
      ∃ q, c.quiddities.lookup (c.getId name) = some q ∧ q.nickname = name := by
  unfold Container.getId
  cases hfind : c.quiddities.entries.find? fun e => e.2.nickname = name with
  | none =>
      refine Or.inl ⟨rfl, fun id q hq hname => ?_⟩
      have hnone := List.find?_eq_none.1 hfind _ (AList.mem_lookup_iff.1 hq)
      exact hnone (by simpa using hname)
  | some e =>
      refine Or.inr ⟨e.2, AList.mem_lookup_iff.2 (List.mem_of_find?_eq_some hfind), ?_⟩
      simpa using List.find?_some hfind

theorem mem_of_lookup (h : s.qcontainer.quiddities.lookup id = some q) :
    id ∈ s.qcontainer.quiddities := AList.lookup_isSome.1 (by rw [h]; rfl)

/-- A live quiddity has a valid identifier. -/
theorem Coherent.ne_zero (h : s.Coherent) (hq : s.qcontainer.quiddities.lookup id = some q) :
    id ≠ 0 := s.qcontainer.ids.valid id ((h.mem_ids id).2 (mem_of_lookup hq))

/-- The nickname of the quiddity of a stream finds it. -/
theorem Coherent.getId_eq (h : s.Coherent) (hq : s.qcontainer.quiddities.lookup id = some q)
    (hstream : q.body.stream.isSome) : s.qcontainer.getId q.nickname = id := by
  rcases getId_cases s.qcontainer q.nickname with ⟨-, hnone⟩ | ⟨q', hq', hname⟩
  · exact absurd rfl (hnone id q hq)
  · exact h.unique id q _ q' hq hq' hstream hname

/-- A recorded name finds the quiddity of its stream. -/
theorem Coherent.found (h : s.Coherent) (hname : name ∈ s.exposedQuiddities peer) :
    ∃ q, s.qcontainer.quiddities.lookup (s.qcontainer.getId name) = some q ∧
      q.body.stream = some (peer, name) ∧ q.nickname = name ∧ q.body.shmdataPath.isSome := by
  obtain ⟨id, q, hq, hstream⟩ := h.recorded peer name hname
  obtain ⟨-, hnick, hpath⟩ := h.stream id q peer name hq hstream
  have hid := h.getId_eq hq (by rw [hstream]; rfl)
  rw [hnick] at hid
  exact ⟨q, hid ▸ hq, hstream, hnick, hpath⟩

theorem Coherent.designates (h : s.Coherent) (hname : name ∈ s.exposedQuiddities peer) :
    s.Designates peer name := by
  obtain ⟨q, hq, hstream, -⟩ := h.found hname
  exact ⟨h.ne_zero hq, q, hq, hstream⟩

/-- A name is recorded for the quiddity of a live identifier if that is the quiddity of the stream. -/
theorem Coherent.eq_nickname_iff (h : s.Coherent) (hq : s.qcontainer.quiddities.lookup id = some q)
    (hname : name ∈ s.exposedQuiddities peer) :
    name = q.nickname ↔ q.body.stream = some (peer, name) := by
  constructor
  · rintro rfl
    obtain ⟨q', hq', hstream, hnick, -⟩ := h.found hname
    have hid := h.unique _ q' id q hq' hq (by rw [hstream]; rfl) hnick.symm
    rw [← hid, hq] at hq'
    obtain rfl := Option.some.inj hq'
    exact hstream
  · exact fun hstream => (h.stream id q peer name hq hstream).2.1.symm

/-! ### Removals -/

/-- The state after the removal of a live quiddity. -/
theorem Coherent.remove_eq (h : s.Coherent) (hq : s.qcontainer.quiddities.lookup id = some q)
    (exposed : String → List String) :
    ∃ c : Container StreamBody, (∀ id', id' ∈ c.ids.ids ↔ id' ∈ c.quiddities) ∧
      (∀ id', c.quiddities.lookup id' =
        if id' = id then none else s.qcontainer.quiddities.lookup id') ∧
      remove id { s with exposedQuiddities := exposed } =
        some ⟨c, fun peer => (exposed peer).erase q.nickname⟩ := by
  have hid : id ∈ s.qcontainer.ids.ids := (h.mem_ids id).2 (mem_of_lookup hq)
  refine ⟨(Container.quietRemove id s.qcontainer).1, fun id' => ?_, fun id' => ?_, ?_⟩
  · rw [Container.quietRemove, Ids.releaseId, if_pos hid]
    change id' ∈ s.qcontainer.ids.ids.erase id ↔ id' ∈ s.qcontainer.quiddities.erase id
    rw [s.qcontainer.ids.nodup.mem_erase_iff, h.mem_ids, AList.mem_erase]
  · rw [Container.quietRemove, Ids.releaseId, if_pos hid]
    change (s.qcontainer.quiddities.erase id).lookup id' = _
    split_ifs with heq
    · rw [heq, AList.lookup_erase]
    · exact AList.lookup_erase_ne heq
  · rw [remove, Container.getNickname, hq]
    rfl

/-- After the removal of a quiddity, its name is not recorded for its stream any more, and the
others are. -/
theorem Coherent.removed (h : s.Coherent) (hq : s.qcontainer.quiddities.lookup id = some q)
    {c : Container StreamBody} (hids : ∀ id', id' ∈ c.ids.ids ↔ id' ∈ c.quiddities)
    (hlookup : ∀ id', c.quiddities.lookup id' =
      if id' = id then none else s.qcontainer.quiddities.lookup id') :
    Coherent ⟨c, fun peer => (s.exposedQuiddities peer).erase q.nickname⟩ := by
  have hold {id' : ℕ} {q' : Quiddity StreamBody} (h' : c.quiddities.lookup id' = some q') :
      id' ≠ id ∧ s.qcontainer.quiddities.lookup id' = some q' := by
    rw [hlookup] at h'
    split_ifs at h' with heq
    exact ⟨heq, h'⟩
  refine ⟨hids, fun peer name hname => ?_, fun id' q' peer name hq' hstream => ?_,
    fun id₁ q₁ id₂ q₂ h₁ h₂ => h.unique id₁ q₁ id₂ q₂ (hold h₁).2 (hold h₂).2,
    fun peer => (h.nodup peer).erase _⟩
  · obtain ⟨hne, hname⟩ := (h.nodup peer).mem_erase_iff.1 hname
    obtain ⟨id', q', hq', hstream⟩ := h.recorded peer name hname
    refine ⟨id', q', ?_, hstream⟩
    rw [hlookup, if_neg, hq']
    rintro rfl
    rw [hq] at hq'
    obtain rfl := Option.some.inj hq'
    exact hne ((h.eq_nickname_iff hq hname).2 hstream)
  · obtain ⟨hne, hq'⟩ := hold hq'
    obtain ⟨hname, hnick, hpath⟩ := h.stream id' q' peer name hq' hstream
    refine ⟨(h.nodup peer).mem_erase_iff.2 ⟨fun heq => hne ?_, hname⟩, hnick, hpath⟩
    exact (h.unique id' q' id q hq' hq (by rw [hstream]; rfl) (heq ▸ hnick).symm).symm

/-- The user removes a quiddity. -/
theorem Coherent.remove (h : s.Coherent) (hid : id ∈ s.qcontainer.quiddities) :
    ∃ r, step kinds s (.remove id) = some r ∧ Follows s (.remove id) r ∧ r.1.Coherent := by
  obtain ⟨q, hq⟩ := Option.isSome_iff_exists.1 (AList.lookup_isSome.2 hid)
  obtain ⟨c, hids, hlookup, heq⟩ := h.remove_eq hq s.exposedQuiddities
  have hcoherent := h.removed hq hids hlookup
  refine ⟨(_, [id]), ?_, ⟨fun peer name hname => hcoherent.designates hname, rfl, hlookup,
    fun q' peer name hq' hstream hname => ?_⟩, hcoherent⟩
  · rw [step]
    exact congrArg (Option.map (·, [id])) heq
  · obtain rfl := Option.some.inj (hq.symm.trans hq')
    obtain ⟨hne, hname⟩ := (h.nodup peer).mem_erase_iff.1 hname
    exact hne ((h.eq_nickname_iff hq hname).2 hstream)

/-- Nothing is removed if there is nothing to remove. -/
theorem removes_nil {p : Quiddity StreamBody → Bool}
    (h : ∀ id q, s.qcontainer.quiddities.lookup id = some q → p q = false) : Removes s p (s, []) := by
  refine ⟨List.nodup_nil, fun id => iff_of_false List.not_mem_nil ?_, fun id => ?_⟩
  · rintro ⟨q, hq, hp⟩
    rw [h id q hq] at hp
    cases hp
  · cases hq : s.qcontainer.quiddities.lookup id with
    | none => rfl
    | some q => rw [Option.filter_some, h id q hq]; rfl

/-- One quiddity is removed before the others. -/
theorem Removes.cons {s₁ : SIPPlugin} {p : Quiddity StreamBody → Bool} {r : SIPPlugin × List ℕ}
    (h : Removes s₁ p r) (hq : s.qcontainer.quiddities.lookup id = some q) (hp : p q = true)
    (hlookup : ∀ id', s₁.qcontainer.quiddities.lookup id' =
      if id' = id then none else s.qcontainer.quiddities.lookup id') :
    Removes s p (r.1, id :: r.2) := by
  have hgone : s₁.qcontainer.quiddities.lookup id = none := by rw [hlookup, if_pos rfl]
  refine ⟨List.nodup_cons.2 ⟨fun hmem => ?_, h.once⟩, fun id' => ?_, fun id' => ?_⟩
  · obtain ⟨q', hq', -⟩ := (h.mem_iff id).1 hmem
    cases hgone.symm.trans hq'
  · rw [List.mem_cons, h.mem_iff]
    by_cases hid : id' = id
    · obtain rfl := hid
      exact iff_of_true (Or.inl rfl) ⟨q, hq, hp⟩
    · rw [hlookup, if_neg hid, or_iff_right hid]
  · rw [h.rest, hlookup]
    by_cases hid : id' = id
    · obtain rfl := hid
      rw [if_pos rfl, hq, Option.filter_some, hp]
      rfl
    · rw [if_neg hid]

/-- The removal of the quiddity of a stream. -/
theorem Coherent.removeExposedQuiddity (h : s.Coherent) (peer name : String) :
    ∃ r, step kinds s (.removeExposedQuiddity peer name) = some r ∧
      Follows s (.removeExposedQuiddity peer name) r ∧ r.1.Coherent := by
  have hnone {t : SIPPlugin} (ht : t.Coherent) (hname : name ∉ t.exposedQuiddities peer) :
      Removes t (fun q => q.body.stream = some (peer, name)) (t, []) :=
    removes_nil fun id q hq => decide_eq_false fun hstream =>
      hname (ht.stream id q peer name hq hstream).1
  rw [step, SIPPlugin.removeExposedQuiddity]
  by_cases hname : name ∈ s.exposedQuiddities peer
  · obtain ⟨q, hq, hstream, hnick, -⟩ := h.found hname
    obtain ⟨c, hids, hlookup, heq⟩ := h.remove_eq hq (Function.update s.exposedQuiddities peer
      ((s.exposedQuiddities peer).erase name))
    have hcoherent := h.removed hq hids hlookup
    -- The callback finds that the name is gone already.
    have hexposed : (fun p => (Function.update s.exposedQuiddities peer
        ((s.exposedQuiddities peer).erase name) p).erase q.nickname) =
          fun p => (s.exposedQuiddities p).erase q.nickname := by
      funext p
      by_cases hp : p = peer
      · obtain rfl := hp
        rw [Function.update_self, hnick, List.erase_of_not_mem]
        exact (h.nodup p).not_mem_erase
      · rw [Function.update_of_ne hp]
    rw [hexposed] at heq
    have hgone : name ∉ (s.exposedQuiddities peer).erase q.nickname :=
      hnick ▸ (h.nodup peer).not_mem_erase
    refine ⟨_, by rw [if_neg (not_not.2 hname), heq]; rfl,
      ⟨fun p n hn => hcoherent.designates hn, ?_⟩, hcoherent⟩
    exact (hnone hcoherent hgone).cons hq (decide_eq_true hstream) hlookup
  · exact ⟨_, if_pos hname, ⟨fun p n hn => h.designates hn, hnone h hname⟩, h⟩

/-- The loop removes the quiddities of the streams of a peer. -/
theorem Coherent.removeAll {names : List String} (h : s.Coherent)
    (hnames : s.exposedQuiddities peer = names) :
    ∃ r, removeAll names
        { s with exposedQuiddities := Function.update s.exposedQuiddities peer [] } = some r ∧
      Removes s (fun q => q.body.stream.map Prod.fst = some peer) r ∧ r.1.Coherent := by
  induction names generalizing s with
  | nil =>
      have hs : ({ s with
          exposedQuiddities := Function.update s.exposedQuiddities peer [] } : SIPPlugin) = s := by
        rw [← hnames, Function.update_eq_self]
      rw [hs]
      refine ⟨_, rfl, removes_nil fun id q hq => decide_eq_false fun hstream => ?_, h⟩
      obtain ⟨⟨p, name⟩, hq', rfl⟩ := Option.map_eq_some_iff.1 hstream
      have hname := (h.stream id q p name hq hq').1
      rw [hnames] at hname
      cases hname
  | cons name names ih =>
      obtain ⟨q, hq, hstream, hnick, -⟩ := h.found (hnames ▸ List.mem_cons_self)
      obtain ⟨c, hids, hlookup, heq⟩ :=
        h.remove_eq hq (Function.update s.exposedQuiddities peer [])
      have hcoherent := h.removed hq hids hlookup
      have hexposed : (fun p => (Function.update s.exposedQuiddities peer [] p).erase q.nickname) =
          Function.update (fun p => (s.exposedQuiddities p).erase q.nickname) peer [] := by
        funext p
        by_cases hp : p = peer
        · obtain rfl := hp
          rw [Function.update_self, Function.update_self, List.erase_nil]
        · rw [Function.update_of_ne hp, Function.update_of_ne hp]
      have hrest : (s.exposedQuiddities peer).erase q.nickname = names := by
        rw [hnames, hnick, List.erase_cons_head]
      obtain ⟨r, hr, hremoves, hr'⟩ := ih hcoherent hrest
      refine ⟨_, ?_, hremoves.cons hq (decide_eq_true ?_) hlookup, hr'⟩
      · rw [SIPPlugin.removeAll, if_neg (h.ne_zero hq), heq, hexposed, Option.bind_some, hr]
        rfl
      · rw [hstream]
        rfl

/-- The removal of the quiddities of the streams of a peer. -/
theorem Coherent.removeExposedQuiddities (h : s.Coherent) (peer : String) :
    ∃ r, step kinds s (.removeExposedQuiddities peer) = some r ∧
      Follows s (.removeExposedQuiddities peer) r ∧ r.1.Coherent := by
  obtain ⟨r, hr, hremoves, hcoherent⟩ := h.removeAll (show s.exposedQuiddities peer = _ from rfl)
  exact ⟨r, hr, ⟨fun p n hn => hcoherent.designates hn, hremoves⟩, hcoherent⟩

/-! ### The path of a stream -/

/-- A quiddity is replaced by one with the same name, for the same stream, that still has a path if it
had one. -/
theorem Coherent.replace (h : s.Coherent) (hq : s.qcontainer.quiddities.lookup id = some q)
    (body : StreamBody) (hstream : body.stream = q.body.stream)
    (hpath : q.body.shmdataPath.isSome → body.shmdataPath.isSome) :
    Coherent { s with
      qcontainer := { s.qcontainer with
        quiddities := s.qcontainer.quiddities.replace id { q with body := body } } } := by
  have hold {id' : ℕ} {q' : Quiddity StreamBody}
      (h' : (s.qcontainer.quiddities.replace id { q with body := body }).lookup id' = some q') :
      ∃ q'', s.qcontainer.quiddities.lookup id' = some q'' ∧ q'.nickname = q''.nickname ∧
        q'.body.stream = q''.body.stream ∧
        (q''.body.shmdataPath.isSome → q'.body.shmdataPath.isSome) := by
    rw [Container.lookup_replace, hq, Option.map_some] at h'
    split_ifs at h' with hid
    · obtain rfl := Option.some.inj h'
      exact ⟨q, hid ▸ hq, rfl, hstream, hpath⟩
    · exact ⟨q', h', rfl, rfl, fun h => h⟩
  refine ⟨fun id' => ?_, fun peer name hname => ?_, fun id' q' peer name hq' hstream' => ?_,
    fun id₁ q₁ id₂ q₂ h₁ h₂ hstream' hnick => ?_, h.nodup⟩
  · change id' ∈ s.qcontainer.ids.ids ↔ id' ∈ s.qcontainer.quiddities.replace id _
    rw [h.mem_ids, AList.mem_replace]
  · obtain ⟨id', q', hq', hstream'⟩ := h.recorded peer name hname
    by_cases hid : id' = id
    · obtain rfl := hid
      obtain rfl := Option.some.inj (hq.symm.trans hq')
      refine ⟨id', { q with body := body }, ?_, hstream.trans hstream'⟩
      change (s.qcontainer.quiddities.replace id' _).lookup id' = _
      rw [Container.lookup_replace, if_pos rfl, hq, Option.map_some]
    · refine ⟨id', q', ?_, hstream'⟩
      change (s.qcontainer.quiddities.replace id _).lookup id' = _
      rw [Container.lookup_replace, if_neg hid, hq']
  · obtain ⟨q'', hq'', hnick, hsame, hkept⟩ := hold hq'
    obtain ⟨hname, hnick', hsome⟩ := h.stream id' q'' peer name hq'' (hsame.symm.trans hstream')
    exact ⟨hname, hnick.trans hnick', hkept hsome⟩
  · obtain ⟨q₁', h₁', hnick₁, hsame₁, -⟩ := hold h₁
    obtain ⟨q₂', h₂', hnick₂, -⟩ := hold h₂
    refine h.unique id₁ q₁' id₂ q₂' h₁' h₂' (hsame₁ ▸ hstream') ?_
    rw [← hnick₁, ← hnick₂, hnick]

/-- The path is set on the quiddity of the stream. -/
theorem Coherent.exposeStreamToQuiddity (h : s.Coherent) (name shmpath : String) :
    ∃ r, step kinds s (.exposeStreamToQuiddity name shmpath) = some r ∧
      Follows s (.exposeStreamToQuiddity name shmpath) r ∧ r.1.Coherent := by
  rw [step, SIPPlugin.exposeStreamToQuiddity]
  cases hq : s.qcontainer.quiddities.lookup (s.qcontainer.getId name) with
  | none =>
      refine ⟨_, rfl, ⟨fun p n hn => h.designates hn, rfl, fun peer hname => ?_⟩, h⟩
      obtain ⟨q, hq', -⟩ := h.found hname
      cases hq.symm.trans hq'
  | some q =>
      have hcoherent := h.replace hq
        { q.body with shmdataPath := q.body.shmdataPath.map fun _ => shmpath } rfl
        fun hsome => by rwa [Option.isSome_map]
      refine ⟨_, rfl, ⟨fun p n hn => hcoherent.designates hn, rfl, fun peer hname => ?_⟩, hcoherent⟩
      obtain ⟨q', hq', hstream, -, hpath⟩ := h.found hname
      obtain rfl := Option.some.inj (hq.symm.trans hq')
      obtain ⟨path, hpath⟩ := Option.isSome_iff_exists.1 hpath
      refine ⟨_, (Container.lookup_replace ..).trans ((if_pos rfl).trans (by rw [hq]; rfl)), ?_⟩
      rw [hpath, ← hstream]
      rfl

/-! ### Creations -/

/-- What a creation leaves: a quiddity that is not made leaves the others, and one that is made is
added to them. -/
theorem quietCreate_cases {c : Container StreamBody} {outcome : Outcome Unit}
    {r : Container StreamBody × Qrox}
    (hr : Container.quietCreate kinds "extshmsrc" name
      (fun c => some (c, streamOutcome peer name outcome)) c = some r) :
    (r.2.isValid = false ∧ r.1.quiddities = c.quiddities ∧
        ¬("extshmsrc" ∈ kinds ∧ ¬c.Refused name ∧ outcome = .valid ())) ∨
      ("extshmsrc" ∈ kinds ∧ ¬c.Refused name ∧ outcome = .valid () ∧
        r = ({ c.allocated with
          quiddities := c.quiddities.insert c.ids.allocateId.1
            ⟨Container.chooseNickname "extshmsrc" name c.ids.allocateId.1, "extshmsrc",
              ⟨some "", some (peer, name)⟩⟩ },
          ⟨true, Container.chooseNickname "extshmsrc" name c.ids.allocateId.1,
            c.ids.allocateId.1⟩)) := by
  have hrelease {c' : Container StreamBody} {msg : String} (h : c'.releaseLast msg = some r)
      (hc : c'.quiddities = c.quiddities) : r.2.isValid = false ∧ r.1.quiddities = c.quiddities := by
    obtain ⟨ids, -, rfl⟩ := Option.map_eq_some_iff.1 h
    exact ⟨rfl, hc⟩
  rw [Container.quietCreate] at hr
  split_ifs at hr with hkind hrefused
  · obtain ⟨hinvalid, hsame⟩ := hrelease hr rfl
    exact Or.inl ⟨hinvalid, hsame, fun h => h.2.1 hrefused⟩
  · rw [Option.bind_some] at hr
    cases outcome with
    | null =>
        obtain ⟨hinvalid, hsame⟩ := hrelease hr rfl
        exact Or.inl ⟨hinvalid, hsame, fun h => by cases h.2.2⟩
    | invalid =>
        obtain ⟨hinvalid, hsame⟩ := hrelease hr rfl
        exact Or.inl ⟨hinvalid, hsame, fun h => by cases h.2.2⟩
    | valid body => exact Or.inr ⟨hkind, hrefused, rfl, (Option.some.inj hr).symm⟩
  · obtain rfl := Option.some.inj hr
    exact Or.inl ⟨rfl, rfl, fun h => hkind h.1⟩

/-- The quiddity that is made for a stream, once it is renamed. -/
def streamQuiddity (peer name nickname : String) (id : ℕ) : Quiddity StreamBody where
  nickname := if nickname = "" then Container.chooseNickname "extshmsrc" name id else nickname
  kind := "extshmsrc"
  body := ⟨some "", some (peer, name)⟩

/-- What a creation leaves, renaming included. -/
theorem createQuiddityStream_cases {nickname : String} {outcome : Outcome Unit} {s' : SIPPlugin}
    (hname : name ∉ s.exposedQuiddities peer)
    (hs' : createQuiddityStream kinds peer name nickname outcome s = some s') :
    s'.exposedQuiddities = Function.update s.exposedQuiddities peer
        (s.exposedQuiddities peer ++ [name]) ∧
      ((s'.qcontainer.quiddities = s.qcontainer.quiddities ∧
          ¬("extshmsrc" ∈ kinds ∧ ¬s.qcontainer.Refused name ∧ outcome = .valid ())) ∨
        ("extshmsrc" ∈ kinds ∧ ¬s.qcontainer.Refused name ∧ outcome = .valid () ∧
          s'.qcontainer.ids = s.qcontainer.allocated.ids ∧
          (∀ id, id ∈ s'.qcontainer.quiddities ↔
            id = s.qcontainer.ids.allocateId.1 ∨ id ∈ s.qcontainer.quiddities) ∧
          ∀ id, s'.qcontainer.quiddities.lookup id =
            if id = s.qcontainer.ids.allocateId.1 then some (streamQuiddity peer name nickname id)
            else s.qcontainer.quiddities.lookup id)) := by
  rw [createQuiddityStream, if_neg hname] at hs'
  obtain ⟨r, hr, rfl⟩ := Option.map_eq_some_iff.1 hs'
  refine ⟨rfl, ?_⟩
  obtain ⟨hinvalid, hsame, hfails⟩ | ⟨hkind, hrefused, rfl, rfl⟩ := quietCreate_cases hr
  · refine Or.inl ⟨?_, hfails⟩
    change (if r.2.isValid = true ∧ nickname ≠ "" then _ else r.1).quiddities = _
    rw [if_neg (fun h => Bool.false_ne_true (hinvalid.symm.trans h.1)), hsame]
  · right
    refine ⟨hkind, hrefused, rfl, ?_⟩
    by_cases hnick : nickname = ""
    · rw [if_neg (fun h => h.2 hnick)]
      refine ⟨rfl, fun id => AList.mem_insert _, fun id => ?_⟩
      by_cases hid : id = s.qcontainer.ids.allocateId.1
      · rw [if_pos hid, hid, AList.lookup_insert, streamQuiddity, if_pos hnick]
      · rw [if_neg hid, AList.lookup_insert_ne hid]
    · rw [if_pos ⟨rfl, hnick⟩, Container.setNickname, AList.lookup_insert]
      refine ⟨rfl, fun id => (AList.mem_replace).trans (AList.mem_insert _), fun id => ?_⟩
      refine (Container.lookup_replace ..).trans ?_
      by_cases hid : id = s.qcontainer.ids.allocateId.1
      · rw [if_pos hid, if_pos hid, AList.lookup_insert, Option.map_some, streamQuiddity,
          if_neg hnick]
      · rw [if_neg hid, if_neg hid, AList.lookup_insert_ne hid]

theorem nicknameTaken_of_lookup (hq : s.qcontainer.quiddities.lookup id = some q) :
    s.qcontainer.NicknameTaken q.nickname := ⟨_, AList.mem_lookup_iff.1 hq, rfl⟩

/-- A creation that meets the condition is defined. -/
theorem Creates.exists_createQuiddityStream {outcome : Outcome Unit}
    (h : Creates kinds s name outcome) (peer nickname : String) :
    ∃ s', createQuiddityStream kinds peer name nickname outcome s = some s' := by
  obtain ⟨hkind, -, htaken, -, rfl⟩ := h
  rw [createQuiddityStream]
  split_ifs with hname
  · exact ⟨s, rfl⟩
  · rw [Container.quietCreate, if_neg (not_not.2 hkind), if_neg fun h => htaken h.2]
    exact ⟨_, rfl⟩

/-- A quiddity is created for a stream, with its own name. -/
theorem Coherent.created {nickname : String} {outcome : Outcome Unit} {s' : SIPPlugin}
    (h : s.Coherent) (hname : name ∉ s.exposedQuiddities peer)
    (hcreates : Creates kinds s name outcome) (hnick : nickname = "" ∨ nickname = name)
    (hs' : SIPPlugin.createQuiddityStream kinds peer name nickname outcome s = some s') :
    s'.Coherent ∧ ∀ id q, s.qcontainer.quiddities.lookup id = some q →
      s'.qcontainer.quiddities.lookup id = some q := by
  obtain ⟨hkind, hne, htaken, hleft, hvalid⟩ := hcreates
  obtain ⟨hexposed, ⟨-, hfails⟩ | ⟨-, -, -, hids, hmem, hlookup⟩⟩ :=
    createQuiddityStream_cases hname hs'
  · exact absurd ⟨hkind, fun h => htaken h.2, hvalid⟩ hfails
  obtain ⟨-, hnew, hallocated⟩ := s.qcontainer.allocated_ids.resolve_left fun h => hleft h.1
  generalize s.qcontainer.ids.allocateId.1 = own at hnew hallocated hmem hlookup
  have hown : (streamQuiddity peer name nickname own).nickname = name := by
    rw [streamQuiddity, Container.chooseNickname, if_neg hne]
    rcases hnick with rfl | rfl
    · rw [if_pos rfl]
    · rw [if_neg hne]
  have hfresh {id : ℕ} {q : Quiddity StreamBody}
      (hq : s.qcontainer.quiddities.lookup id = some q) : id ≠ own ∧ q.nickname ≠ name := by
    refine ⟨?_, fun heq => htaken (heq ▸ nicknameTaken_of_lookup hq)⟩
    rintro rfl
    exact hnew ((h.mem_ids id).2 (mem_of_lookup hq))
  have hcases {id : ℕ} {q : Quiddity StreamBody}
      (hq : s'.qcontainer.quiddities.lookup id = some q) :
      (id = own ∧ q = streamQuiddity peer name nickname own) ∨
        (id ≠ own ∧ s.qcontainer.quiddities.lookup id = some q) := by
    rw [hlookup] at hq
    split_ifs at hq with hid
    · exact Or.inl ⟨hid, hid ▸ (Option.some.inj hq).symm⟩
    · exact Or.inr ⟨hid, hq⟩
  have hold {id : ℕ} {q : Quiddity StreamBody} (hq : s.qcontainer.quiddities.lookup id = some q) :
      s'.qcontainer.quiddities.lookup id = some q := by
    rw [hlookup, if_neg (hfresh hq).1, hq]
  refine ⟨⟨fun id => ?_, fun p n hn => ?_, fun id q p n hq hstream => ?_,
    fun id₁ q₁ id₂ q₂ h₁ h₂ hstream heq => ?_, fun p => ?_⟩, fun id q => hold⟩
  · rw [hids, hallocated, List.mem_append, List.mem_singleton, h.mem_ids, hmem, or_comm]
  · rw [hexposed] at hn
    have hn : n ∈ s.exposedQuiddities p ∨ (p = peer ∧ n = name) := by
      by_cases hp : p = peer
      · obtain rfl := hp
        rw [Function.update_self, List.mem_append, List.mem_singleton] at hn
        exact hn.imp_right fun hn => ⟨rfl, hn⟩
      · rw [Function.update_of_ne hp] at hn
        exact Or.inl hn
    rcases hn with hn | ⟨rfl, rfl⟩
    · obtain ⟨id, q, hq, hstream⟩ := h.recorded p n hn
      exact ⟨id, q, hold hq, hstream⟩
    · exact ⟨own, _, (hlookup own).trans (if_pos rfl), rfl⟩
  · rw [hexposed]
    obtain ⟨rfl, rfl⟩ | ⟨-, hq⟩ := hcases hq
    · obtain ⟨rfl, rfl⟩ := Prod.mk.inj (Option.some.inj hstream)
      rw [Function.update_self]
      exact ⟨List.mem_append_right _ (List.mem_singleton_self _), hown, rfl⟩
    · obtain ⟨hn, hrest⟩ := h.stream id q p n hq hstream
      refine ⟨?_, hrest⟩
      by_cases hp : p = peer
      · obtain rfl := hp
        rw [Function.update_self]
        exact List.mem_append_left _ hn
      · rwa [Function.update_of_ne hp]
  · obtain ⟨rfl, rfl⟩ | ⟨-, h₁⟩ := hcases h₁
    · obtain ⟨rfl, -⟩ | ⟨-, h₂⟩ := hcases h₂
      · rfl
      · exact absurd (heq.trans hown) (hfresh h₂).2
    · obtain ⟨rfl, rfl⟩ | ⟨-, h₂⟩ := hcases h₂
      · exact absurd (heq.symm.trans hown) (hfresh h₁).2
      · exact h.unique id₁ q₁ id₂ q₂ h₁ h₂ hstream heq
  · rw [hexposed]
    by_cases hp : p = peer
    · obtain rfl := hp
      rw [Function.update_self]
      exact List.concat_eq_append ▸ (h.nodup p).concat hname
    · rw [Function.update_of_ne hp]
      exact h.nodup p

/-- A creation that meets the condition does what it should. -/
theorem Coherent.createQuiddityStream (h : s.Coherent) {nickname : String} {outcome : Outcome Unit}
    (hok : OpOk kinds s (.createQuiddityStream peer name nickname outcome)) :
    ∃ r, step kinds s (.createQuiddityStream peer name nickname outcome) = some r ∧
      Follows s (.createQuiddityStream peer name nickname outcome) r ∧ r.1.Coherent := by
  rw [step]
  by_cases hname : name ∈ s.exposedQuiddities peer
  · rw [SIPPlugin.createQuiddityStream, if_pos hname]
    exact ⟨_, rfl, ⟨fun p n hn => h.designates hn, rfl, fun id q hq => hq⟩, h⟩
  · obtain ⟨hcreates, hnick⟩ := hok.resolve_left hname
    obtain ⟨s', hs'⟩ := hcreates.exists_createQuiddityStream peer nickname
    obtain ⟨hcoherent, hold⟩ := h.created hname hcreates hnick hs'
    rw [hs']
    exact ⟨_, rfl, ⟨fun p n hn => hcoherent.designates hn, rfl, hold⟩, hcoherent⟩

/-- A creation after which the recorded name designates its quiddity meets the condition. -/
theorem Coherent.opOk_createQuiddityStream (h : s.Coherent) {nickname : String}
    {outcome : Outcome Unit} {s' : SIPPlugin} (hname : name ∉ s.exposedQuiddities peer)
    (hs' : SIPPlugin.createQuiddityStream kinds peer name nickname outcome s = some s')
    (hdesignates : s'.Designates peer name) :
    Creates kinds s name outcome ∧ (nickname = "" ∨ nickname = name) := by
  obtain ⟨hzero, q, hq, hstream⟩ := hdesignates
  have hold (hq : s.qcontainer.quiddities.lookup (s'.qcontainer.getId name) = some q) : False :=
    hname (h.stream _ q peer name hq hstream).1
  obtain ⟨-, ⟨hsame, -⟩ | ⟨hkind, hrefused, hvalid, -, -, hlookup⟩⟩ :=
    createQuiddityStream_cases hname hs'
  · exact (hold (hsame ▸ hq)).elim
  have hnick : q.nickname = name := by
    obtain ⟨hnone, -⟩ | ⟨q', hq', hnick⟩ := getId_cases s'.qcontainer name
    · exact absurd hnone hzero
    · rwa [Option.some.inj (hq.symm.trans hq')]
  rw [hlookup] at hq
  split_ifs at hq with hid
  · rw [← Option.some.inj hq] at hnick
    rw [hid] at hzero
    have hleft : s.qcontainer.ids.ids.length ≠ Ids.kMaxNumOfIds := by
      intro hfull
      obtain ⟨-, hinvalid, -⟩ := s.qcontainer.allocated_ids.resolve_right fun h => h.1 hfull
      exact hzero hinvalid
    have hname : name ≠ "" ∧ (nickname = "" ∨ nickname = name) := by
      rw [streamQuiddity] at hnick
      dsimp only at hnick
      split_ifs at hnick with hempty
      · refine ⟨?_, Or.inl hempty⟩
        rintro rfl
        rw [Container.chooseNickname, if_pos rfl] at hnick
        exact absurd (congrArg String.toList hnick) (by rw [String.toList_append]; simp)
      · exact ⟨hnick ▸ hempty, Or.inr hnick⟩
    exact ⟨⟨hkind, hname.1, fun htaken => hrefused ⟨hname.1, htaken⟩, hleft, hvalid⟩, hname.2⟩
  · exact (hold hq).elim

/-! ### Runs -/

/-- An operation that meets the condition does what it should. -/
theorem Coherent.step (h : s.Coherent) (op : Op) (hok : OpOk kinds s op) :
    ∃ r, SIPPlugin.step kinds s op = some r ∧ Follows s op r ∧ r.1.Coherent := by
  cases op with
  | createQuiddityStream peer name nickname outcome => exact h.createQuiddityStream hok
  | exposeStreamToQuiddity name shmpath => exact h.exposeStreamToQuiddity name shmpath
  | removeExposedQuiddity peer name => exact h.removeExposedQuiddity peer name
  | removeExposedQuiddities peer => exact h.removeExposedQuiddities peer
  | remove id => exact h.remove hok

/-- An operation that does what it should meets the condition. -/
theorem Coherent.opOk (h : s.Coherent) {op : Op} {r : SIPPlugin × List ℕ}
    (hr : SIPPlugin.step kinds s op = some r) (hfollows : Follows s op r) : OpOk kinds s op := by
  cases op with
  | createQuiddityStream peer name nickname outcome =>
      by_cases hname : name ∈ s.exposedQuiddities peer
      · exact Or.inl hname
      obtain ⟨s', hs', rfl⟩ := Option.map_eq_some_iff.1 hr
      refine Or.inr (h.opOk_createQuiddityStream hname hs' (hfollows.1 peer name ?_))
      rw [(createQuiddityStream_cases hname hs').1, Function.update_self]
      exact List.mem_append_right _ (List.mem_singleton_self _)
  | remove id =>
      obtain ⟨s', hs', -⟩ := Option.map_eq_some_iff.1 hr
      obtain ⟨nickname, hnick, -⟩ := Option.map_eq_some_iff.1 hs'
      obtain ⟨q, hq, -⟩ := Option.map_eq_some_iff.1 hnick
      exact mem_of_lookup hq
  | exposeStreamToQuiddity | removeExposedQuiddity | removeExposedQuiddities => exact trivial

/-- **The record follows the quiddities** along a run exactly if every creation succeeds and is given
no label but its name, and the user removes only quiddities that there are. -/
theorem exposed_quiddities_iff (kinds : List String) (s : SIPPlugin) (h : s.Started)
    (ops : List Op) :
    Machine.Meets (SIPPlugin.step kinds) Follows s ops ↔
      Machine.Admits (SIPPlugin.step kinds) (OpOk kinds) s ops :=
  Machine.meets_iff_admits (fun _ op hs hok => hs.step op hok)
    (fun _ _ _ hs hr hfollows => hs.opOk hr hfollows) h.coherent ops

/-- The plugin with an empty container. -/
def initial : SIPPlugin := ⟨Container.empty, fun _ => []⟩

theorem started_initial : initial.Started where
  exposed := fun _ => rfl
  stream := fun _ _ hq => by cases hq
  mem_ids := fun _ => iff_of_false List.not_mem_nil (AList.notMem_empty _)

/-- A stream without a label, from its creation to the end of the calls of its peer. -/
theorem exposed_quiddities_unlabelled :
    Machine.Meets (SIPPlugin.step ["extshmsrc"]) Follows initial
        [.createQuiddityStream "bob" "sipMedia0" "" (.valid ()),
          .exposeStreamToQuiddity "sipMedia0" "/tmp/a", .removeExposedQuiddities "bob"] ↔
      Machine.Admits (SIPPlugin.step ["extshmsrc"]) (OpOk ["extshmsrc"]) initial
        [.createQuiddityStream "bob" "sipMedia0" "" (.valid ()),
          .exposeStreamToQuiddity "sipMedia0" "/tmp/a", .removeExposedQuiddities "bob"] :=
  exposed_quiddities_iff ["extshmsrc"] initial started_initial _

/-- A stream with a label is not found by its recorded name. -/
theorem not_exposed_quiddities_labelled : ¬∀ ops : List Op,
    Machine.Meets (SIPPlugin.step ["extshmsrc"]) Follows initial ops := by
  intro h
  obtain ⟨r, hr, ⟨hdesignates, -⟩, -⟩ :=
    h [.createQuiddityStream "bob" "sipMedia0" "camera" (.valid ())]
  have hlost : ∀ r ∈ SIPPlugin.step ["extshmsrc"] initial
      (.createQuiddityStream "bob" "sipMedia0" "camera" (.valid ())),
      "sipMedia0" ∈ r.1.exposedQuiddities "bob" ∧ r.1.qcontainer.getId "sipMedia0" = 0 := by
    decide +kernel
  obtain ⟨hname, hzero⟩ := hlost r hr
  exact (hdesignates "bob" "sipMedia0" hname).1 hzero

end SIPPlugin
end LibSwitcher
