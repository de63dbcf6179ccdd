/-
# The connections that the JACK audio source ends up with

A port of the list is connected by `connect_ports` when it is there during `start`,
and through `on_port`, the queue and `jack_process` when it appears.  The port may
come and go anywhere between, and its notice may be handled long after: that none is
missed is `Complete`, which follows every port of the list from its registration to
its connection (`Owed`).

The queue survives `stop`, while its entries name the ports of the client and of the
list as they were.  A session that begins with an empty queue connects nothing but
the ports that its properties name (`Listed`).  When nothing is left to do, the
connections are then those of the ports of the list that exist (`connections_agree`):
`on_port` looks for the first port of a name, so the later ones of a list that names
a port twice are only connected by `start`.
-/

import LibSwitcher.Plugins.Jack.JackToShmdataSteps

namespace LibSwitcher
namespace JackToShmdata

open Machine

variable {α : Type*} {snprintf : String → ℕ → String} {s s' : State} {e : Event α}

/-- `jack_connect` adds nothing but a connection between existing ports. -/
theorem mem_jackConnect {c d : String × String} :
    c ∈ (s.jackConnect d).connections ↔ c ∈ s.connections ∨
      (c = d ∧ ⟨d.1, true⟩ ∈ s.ports ∧ ∃ i < s.inputPorts, d.2 = portName s.clientName i) := by
  rw [State.jackConnect]
  dsimp only
  split
  · rename_i hnew
    rw [List.mem_cons, or_comm]
    exact or_congr_right ⟨fun h => ⟨h, hnew.2⟩, And.left⟩
  · rename_i hold
    refine ⟨Or.inl, fun h => h.elim id ?_⟩
    rintro ⟨rfl, hports⟩
    by_contra hnot
    exact hold ⟨hnot, hports⟩

/-! ### Every connection is one that the properties name -/

/-- The connection goes from a port of the list to the port of the same number. -/
def Names (s : State) (c : String × String) : Prop :=
  ∃ i, s.portsToConnect[i]? = some c.1 ∧ c.2 = portName s.clientName i

/-- The connections that `jack_process` is still to make in this cycle. -/
def Process.todo : Process → List (String × String)
  | .draining rest => rest
  | _ => []

/-- What holds of every state of a run whose sessions begin with an empty queue. -/
structure Listed (s : State) : Prop where
  /-- a connection goes with its ports -/
  exist : ∀ c ∈ s.connections, ⟨c.1, true⟩ ∈ s.ports
  none : s.inputPorts = 0 → s.connections = []
  names : s.main ≠ .stopped → ∀ c, c ∈ s.connections ∨ c ∈ s.queue ∨ c ∈ s.process.todo → Names s c

/-- The step that begins a session. -/
def Event.begins : Event α → Bool
  | .activate _ _ => true
  | _ => false

/-- A session begins with an empty queue. -/
def Fresh (s : State) (e : Event α) : Prop :=
  e.begins = true → s.main = .stopped → s.queue = []

instance (s : State) (e : Event α) : Decidable (Fresh s e) :=
  inferInstanceAs (Decidable (_ → _ → _))

/-- `jack_connect` of a port of the list. -/
theorem Listed.jackConnect (h : Listed s) {d : String × String} (hd : s.main ≠ .stopped → Names s d) :
    Listed (s.jackConnect d) where
  exist c hc := by
    rcases mem_jackConnect.1 hc with hc | ⟨rfl, hport, -⟩
    · exact h.exist c hc
    · exact hport
  none hzero := by
    refine List.eq_nil_iff_forall_not_mem.2 fun c hc => ?_
    rcases mem_jackConnect.1 hc with hc | ⟨-, -, i, hi, -⟩
    · rw [h.none hzero] at hc
      cases hc
    · rw [show s.inputPorts = 0 from hzero] at hi
      cases hi
  names hmain c hc := by
    rcases hc with hc | hc
    · rcases mem_jackConnect.1 hc with hc | ⟨rfl, -⟩
      · exact h.names hmain c (Or.inl hc)
      · exact hd hmain
    · exact h.names hmain c (Or.inr hc)

theorem Listed.move (h : Listed s) (hs : Consistent snprintf s) (hfresh : Fresh s e)
    (hmove : Moves snprintf s e s') : Listed s' := by
  obtain ⟨hexist, hnone, hnames⟩ := h
  cases hmove with
  | set hmain => exact ⟨hexist, hnone, fun hne => absurd hmain hne⟩
  | activate hmain =>
      have hhas := hs.has
      rw [hmain] at hhas
      refine ⟨hexist, hnone, fun _ c hc => ?_⟩
      rw [show s.connections = [] from hnone hhas, show s.queue = [] from hfresh rfl hmain,
        show s.process = .idle from (hs.quiet hmain).2.1] at hc
      rcases hc with hc | hc | hc <;> cases hc
  | lockInputPorts hmain hfree =>
      have hhas := hs.has
      rw [hmain] at hhas
      exact ⟨hexist, fun _ => hnone hhas, fun _ => hnames (by rw [hmain]; decide)⟩
  | registerPort hmain hlt =>
      exact ⟨hexist, fun hzero => (by cases hzero), fun hne => hnames hne⟩
  | started hmain hall hskip => exact ⟨hexist, hnone, fun _ => hnames (by rw [hmain]; decide)⟩
  | connectPorts hmain hall hauto hfree hlength =>
      exact ⟨hexist, hnone, fun _ => hnames (by rw [hmain]; decide)⟩
  | @connect i name hmain hname =>
      have hne : s.main ≠ .stopped := by simp [hmain]
      have hd : Names s (name, portName s.clientName i) := ⟨i, hname, rfl⟩
      obtain ⟨hexist', hnone', hnames'⟩ :=
        Listed.jackConnect ⟨hexist, hnone, hnames⟩ fun _ => hd
      exact ⟨hexist', hnone', fun _ => hnames' hne⟩
  | connected hmain hname => exact ⟨hexist, hnone, fun _ => hnames (by simp [hmain])⟩
  | stop hmain hfree =>
      refine ⟨fun c hc => (by cases hc), fun _ => rfl, fun _ c hc => ?_⟩
      exact hnames (by simp [hmain]) c (hc.imp (fun hc => (by cases hc)) id)
  | close hmain hidle hprocess => exact ⟨hexist, hnone, fun hne => absurd rfl hne⟩
  | notice hidle hnotices hout hmem => exact ⟨hexist, hnone, hnames⟩
  | ignore hidle hnotices hnot => exact ⟨hexist, hnone, hnames⟩
  | lockQueue hfound hfree => exact ⟨hexist, hnone, hnames⟩
  | push hlocked hfree hlt hname =>
      refine ⟨hexist, hnone, fun hne c hc => ?_⟩
      rcases hc with hc | hc | hc
      · exact hnames hne c (Or.inl hc)
      · rcases List.mem_append.1 hc with hc | hc
        · exact hnames hne c (Or.inr (Or.inl hc))
        · rw [List.mem_singleton.1 hc]
          exact ⟨_, hname, rfl⟩
      · exact hnames hne c (Or.inr (Or.inr hc))
  | cycle hactive hprocess hfree =>
      refine ⟨hexist, hnone, fun hne c hc => hnames hne c ?_⟩
      exact hc.imp id fun hc => Or.inl (or_self_iff.1 hc)
  | drain hprocess =>
      have htodo : ∀ c, c ∈ s.process.todo ↔ c ∈ Process.todo (.draining (_ :: _)) :=
        fun c => by rw [hprocess]
      obtain ⟨hexist', hnone', hnames'⟩ :=
        Listed.jackConnect ⟨hexist, hnone, hnames⟩ fun hne =>
          hnames hne _ (Or.inr (Or.inr ((htodo _).2 List.mem_cons_self)))
      refine ⟨hexist', hnone', fun hne c hc => hnames' hne c ?_⟩
      exact hc.imp id (Or.imp id fun hc => (htodo c).2 (List.mem_cons_of_mem _ hc))
  | drained hprocess =>
      refine ⟨hexist, hnone, fun hne c hc => hnames hne c (hc.imp id fun hc => ?_)⟩
      rcases hc with hc | hc
      · cases hc
      · change c ∈ Process.todo (if s.main.hasPorts then .idle else .copying) at hc
        split at hc <;> cases hc
  | copy hprocess =>
      refine ⟨hexist, hnone, fun hne c hc => hnames hne c (hc.imp id fun hc => ?_)⟩
      exact hc.imp id fun hc => (by cases hc)
  | appear =>
      exact ⟨fun c hc => List.mem_cons_of_mem _ (hexist c hc), hnone, hnames⟩
  | vanish =>
      refine ⟨fun c hc => ?_, fun hzero => ?_, fun hne c hc => hnames hne c (hc.imp ?_ id)⟩
      · obtain ⟨hc, hname⟩ := List.mem_filter.1 hc
        exact List.mem_filter.2 ⟨hexist c hc, hname⟩
      · rw [show s.connections = [] from hnone hzero]
        rfl
      · exact fun hc => (List.mem_filter.1 hc).1

/-! ### Every port of the list is connected -/

/-- `connect_ports` has still to come to port `i`. -/
def Main.Before (i : ℕ) : Main → Prop
  | .activated => True
  | .registering => True
  | .connecting k => k ≤ i
  | _ => False

/-- The number that `on_port` finds for a port: that of the first port of the list with its name. -/
def State.number (s : State) (name : String) : ℕ := s.portsToConnect.idxOf name

/-- The connection that belongs to a port of the list. -/
def State.connection (s : State) (name : String) : String × String :=
  (name, portName s.clientName (s.number name))

/-- What is still to be connected. -/
def State.pending (s : State) : List (String × String) :=
  match s.process with
  | .draining rest => rest
  | _ => s.queue

/-- Where a port of the list stands between its registration and its connection. -/
inductive Owed (s : State) (name : String) : Prop
  | made (h : s.connection name ∈ s.connections)
  | starting (h : s.main.Before (s.number name))
  | noticed (h : ⟨name, true⟩ ∈ s.notices)
  | found (h : s.onPort = .found (s.number name))
  | locked (h : s.onPort = .locked (s.number name))
  | queued (h : s.connection name ∈ s.pending)

/-- In a session no port of the list is forgotten. -/
def Complete (s : State) : Prop :=
  s.main ≠ .stopped → s.main ≠ .cleared →
    ∀ name, ⟨name, true⟩ ∈ s.ports → name ∈ s.portsToConnect → Owed s name

theorem pending_eq_queue (h : s.process.hasQueue = false) : s.pending = s.queue := by
  rw [State.pending]
  split
  · rename_i hprocess
    rw [hprocess] at h
    cases h
  · rfl

theorem getElem?_number {name : String} (h : name ∈ s.portsToConnect) :
    s.portsToConnect[s.number name]? = some name := by
  have hlt : s.portsToConnect.idxOf name < s.portsToConnect.length := List.idxOf_lt_length_iff.2 h
  rw [State.number, List.getElem?_eq_getElem hlt, List.getElem_idxOf hlt]

/-- `std::find` stops at the first port of the name. -/
theorem number_eq {name : String} {i : ℕ} (h : s.portsToConnect[i]? = some name)
    (hfirst : ∀ j < i, s.portsToConnect[j]? ≠ some name) : s.number name = i := by
  refine Nat.le_antisymm (Nat.not_lt.1 fun hlt => ?_) (Nat.not_lt.1 fun hlt => ?_)
  · obtain ⟨hi, hname⟩ := List.getElem?_eq_some_iff.1 h
    have hne := List.not_of_lt_findIdx hlt
    rw [hname, beq_self_eq_true] at hne
    cases hne
  · exact hfirst _ hlt (getElem?_number (List.mem_of_getElem? h))

/-- Where the client has all its ports, `jack_connect` makes the connection of a port of the list. -/
theorem Consistent.connection_mem (hs : Consistent snprintf s) {name : String}
    (hport : ⟨name, true⟩ ∈ s.ports) (hname : name ∈ s.portsToConnect)
    (hall : s.inputPorts = s.settings.numChannels) :
    s.connection name ∈ (s.jackConnect (s.connection name)).connections := by
  have hlt : s.number name < s.portsToConnect.length := List.idxOf_lt_length_iff.2 hname
  refine mem_jackConnect.2 (Or.inr ⟨rfl, hport, s.number name, ?_, rfl⟩)
  rw [hall, ← (hs.length_names hlt).2]
  exact hlt

theorem Complete.move (h : Complete s) (hs : Consistent snprintf s)
    (hmove : Moves snprintf s e s') : Complete s' := by
  intro hstopped hcleared name hport hname
  cases hmove with
  | set hmain => exact absurd hmain hstopped
  | activate hmain => exact .starting trivial
  | lockInputPorts hmain hfree => exact .starting trivial
  | registerPort hmain hlt =>
      refine .starting ?_
      change s.main.Before _
      rw [hmain]
      trivial
  | started hmain hall hskip =>
      have hlt : s.number name < s.portsToConnect.length := List.idxOf_lt_length_iff.2 hname
      obtain ⟨hauto, hlength⟩ := hs.length_names hlt
      rcases hskip with hoff | hne
      · rw [hauto] at hoff
        cases hoff
      · exact absurd (hlength.trans hall.symm) hne
  | connectPorts hmain hall hauto hfree hlength => exact .starting (Nat.zero_le _)
  | @connect i other hmain hother =>
      cases h (by simp [hmain]) (by simp [hmain]) name hport hname with
      | made hmade => exact .made (mem_jackConnect.2 (Or.inl hmade))
      | starting hbefore =>
          rw [hmain] at hbefore
          rcases Nat.eq_or_lt_of_le hbefore with rfl | hlt
          · have hhas := hs.has
            rw [hmain] at hhas
            obtain rfl : other = name :=
              Option.some.inj (hother.symm.trans (getElem?_number hname))
            exact .made (hs.connection_mem hport hname hhas)
          · exact .starting hlt
      | noticed hnoticed => exact .noticed hnoticed
      | found hfound => exact .found hfound
      | locked hlocked => exact .locked hlocked
      | queued hqueued => exact .queued hqueued
  | @connected i hmain hnone =>
      have hlt : s.number name < s.portsToConnect.length := List.idxOf_lt_length_iff.2 hname
      cases h (by simp [hmain]) (by simp [hmain]) name hport hname with
      | starting hbefore =>
          rw [hmain] at hbefore
          exact absurd (Nat.lt_of_lt_of_le hlt (List.getElem?_eq_none_iff.1 hnone))
            (Nat.not_lt.2 hbefore)
      | made hmade => exact .made hmade
      | noticed hnoticed => exact .noticed hnoticed
      | found hfound => exact .found hfound
      | locked hlocked => exact .locked hlocked
      | queued hqueued => exact .queued hqueued
  | stop hmain hfree => exact absurd rfl hcleared
  | close hmain hidle hprocess => exact absurd rfl hstopped
  | notice hidle hnotices hout hmem =>
      cases h hstopped hcleared name hport hname with
      | noticed hnoticed =>
          rw [hnotices] at hnoticed
          rcases List.mem_cons.1 hnoticed with rfl | hnoticed
          · exact .found rfl
          · exact .noticed hnoticed
      | found hfound => rw [hidle] at hfound; cases hfound
      | locked hlocked => rw [hidle] at hlocked; cases hlocked
      | made hmade => exact .made hmade
      | starting hbefore => exact .starting hbefore
      | queued hqueued => exact .queued hqueued
  | ignore hidle hnotices hnot =>
      cases h hstopped hcleared name hport hname with
      | noticed hnoticed =>
          rw [hnotices] at hnoticed
          rcases List.mem_cons.1 hnoticed with rfl | hnoticed
          · exact absurd ⟨rfl, hname⟩ hnot
          · exact .noticed hnoticed
      | made hmade => exact .made hmade
      | starting hbefore => exact .starting hbefore
      | found hfound => exact .found hfound
      | locked hlocked => exact .locked hlocked
      | queued hqueued => exact .queued hqueued
  | lockQueue hat hfree =>
      cases h hstopped hcleared name hport hname with
      | found hfound =>
          rw [hat] at hfound
          exact .locked (congrArg OnPort.locked (OnPort.found.inj hfound))
      | locked hlocked => rw [hat] at hlocked; cases hlocked
      | made hmade => exact .made hmade
      | starting hbefore => exact .starting hbefore
      | noticed hnoticed => exact .noticed hnoticed
      | queued hqueued => exact .queued hqueued
  | @push i other hat hfree hlt hother =>
      have hprocess : s.process.hasQueue = false := hs.queue_owner.2 (by rw [hat]; rfl)
      have hpending : State.pending { s with
          onPort := .idle, queue := s.queue ++ [(other, portName s.clientName i)] } =
            s.queue ++ [(other, portName s.clientName i)] := pending_eq_queue hprocess
      have hmem : ∀ c ∈ s.queue ++ [(other, portName s.clientName i)], c ∈ State.pending { s with
          onPort := .idle, queue := s.queue ++ [(other, portName s.clientName i)] } :=
        fun c hc => by rwa [hpending]
      cases h hstopped hcleared name hport hname with
      | locked hlocked =>
          rw [hat] at hlocked
          obtain rfl : i = s.number name := OnPort.locked.inj hlocked
          obtain rfl : other = name :=
            Option.some.inj (hother.symm.trans (getElem?_number hname))
          exact .queued (hmem _ (List.mem_append_right _ (List.mem_singleton.2 rfl)))
      | queued hqueued =>
          rw [pending_eq_queue hprocess] at hqueued
          exact .queued (hmem _ (List.mem_append_left _ hqueued))
      | found hfound => rw [hat] at hfound; cases hfound
      | made hmade => exact .made hmade
      | starting hbefore => exact .starting hbefore
      | noticed hnoticed => exact .noticed hnoticed
  | cycle hactive hidle hfree =>
      cases h hstopped hcleared name hport hname with
      | queued hqueued =>
          rw [pending_eq_queue (by rw [hidle]; rfl)] at hqueued
          exact .queued hqueued
      | made hmade => exact .made hmade
      | starting hbefore => exact .starting hbefore
      | noticed hnoticed => exact .noticed hnoticed
      | found hfound => exact .found hfound
      | locked hlocked => exact .locked hlocked
  | @drain c rest hprocess =>
      cases h hstopped hcleared name hport hname with
      | queued hqueued =>
          rw [State.pending, hprocess] at hqueued
          rcases List.mem_cons.1 hqueued with rfl | hqueued
          · have hhas := hs.has
            cases hmain : s.main with
            | activated => exact .starting (show s.main.Before _ by rw [hmain]; trivial)
            | registering => exact .starting (show s.main.Before _ by rw [hmain]; trivial)
            | running =>
                rw [hmain] at hhas
                exact .made (hs.connection_mem hport hname hhas)
            | connecting i =>
                have howner := (hs.queue_owner.1 (by rw [hmain]; rfl)).2
                rw [hprocess] at howner
                cases howner
            | stopped => exact absurd hmain hstopped
            | cleared => exact absurd hmain hcleared
          · exact .queued hqueued
      | made hmade => exact .made (mem_jackConnect.2 (Or.inl hmade))
      | starting hbefore => exact .starting hbefore
      | noticed hnoticed => exact .noticed hnoticed
      | found hfound => exact .found hfound
      | locked hlocked => exact .locked hlocked
  | drained hprocess =>
      cases h hstopped hcleared name hport hname with
      | queued hqueued =>
          rw [State.pending, hprocess] at hqueued
          cases hqueued
      | made hmade => exact .made hmade
      | starting hbefore => exact .starting hbefore
      | noticed hnoticed => exact .noticed hnoticed
      | found hfound => exact .found hfound
      | locked hlocked => exact .locked hlocked
  | copy hprocess =>
      cases h hstopped hcleared name hport hname with
      | queued hqueued =>
          rw [pending_eq_queue (by rw [hprocess]; rfl)] at hqueued
          exact .queued hqueued
      | made hmade => exact .made hmade
      | starting hbefore => exact .starting hbefore
      | noticed hnoticed => exact .noticed hnoticed
      | found hfound => exact .found hfound
      | locked hlocked => exact .locked hlocked
  | @appear p =>
      have hnotices : ∀ q, q ∈ s.notices ∨ q = p →
          q ∈ if s.active = true then s.notices ++ [p] else s.notices := by
        have hactive : s.active = true := active_eq_true_iff.2 hstopped
        intro q hq
        rw [if_pos hactive, List.mem_append, List.mem_singleton]
        exact hq
      rcases List.mem_cons.1 hport with heq | hport
      · exact .noticed (hnotices _ (Or.inr heq))
      · cases h hstopped hcleared name hport hname with
        | noticed hnoticed => exact .noticed (hnotices _ (Or.inl hnoticed))
        | made hmade => exact .made hmade
        | starting hbefore => exact .starting hbefore
        | found hfound => exact .found hfound
        | locked hlocked => exact .locked hlocked
        | queued hqueued => exact .queued hqueued
  | vanish =>
      obtain ⟨hport, hother⟩ := List.mem_filter.1 hport
      cases h hstopped hcleared name hport hname with
      | made hmade => exact .made (List.mem_filter.2 ⟨hmade, hother⟩)
      | starting hbefore => exact .starting hbefore
      | noticed hnoticed => exact .noticed hnoticed
      | found hfound => exact .found hfound
      | locked hlocked => exact .locked hlocked
      | queued hqueued => exact .queued hqueued

/-! ### When nothing is left to do -/

/-- The three threads have nothing to do: no call is in progress, the queue is empty, and there is
no notice of a port of the list. -/
structure Settled (s : State) : Prop where
  running : s.main = .running
  onPort : s.onPort = .idle
  process : s.process = .idle
  queue : s.queue = []
  notices : ∀ name ∈ s.portsToConnect, ⟨name, true⟩ ∉ s.notices

/-- Nothing is owed any more. -/
theorem Complete.made (h : Complete s) (hsettled : Settled s) {name : String}
    (hport : ⟨name, true⟩ ∈ s.ports) (hname : name ∈ s.portsToConnect) :
    s.connection name ∈ s.connections := by
  obtain ⟨hmain, honPort, hprocess, hqueue, hnotices⟩ := hsettled
  cases h (by simp [hmain]) (by simp [hmain]) name hport hname with
  | made hmade => exact hmade
  | starting hbefore =>
      rw [hmain] at hbefore
      exact hbefore.elim
  | noticed hnoticed => exact absurd hnoticed (hnotices name hname)
  | found hfound => rw [honPort] at hfound; cases hfound
  | locked hlocked => rw [honPort] at hlocked; cases hlocked
  | queued hqueued =>
      rw [pending_eq_queue (by rw [hprocess]; rfl), hqueue] at hqueued
      cases hqueued

theorem listed_init (c : Settings) (ports : List Port) : Listed (init snprintf c ports) where
  exist _ h := by cases h
  none _ := rfl
  names h := absurd rfl h

theorem Complete.run {c : Settings} {ports : List Port} {is : List (Event α)}
    {os : List (Option (List α))}
    (hrun : run (step snprintf) (init snprintf c ports) is = some (s, os)) : Complete s := by
  refine (run_invariant (I := fun t => Consistent snprintf t ∧ Complete t) ?_
    ⟨consistent_init c ports, fun h => absurd rfl h⟩ hrun).2
  exact preserved_of_moves fun _ _ _ h hmove => ⟨h.1.move hmove, h.2.move h.1 hmove⟩

theorem Listed.run {c : Settings} {ports : List Port} {is : List (Event α)}
    {os : List (Option (List α))} (hfresh : Admits (step snprintf) Fresh (init snprintf c ports) is)
    (hrun : run (step snprintf) (init snprintf c ports) is = some (s, os)) : Listed s := by
  have halways := hfresh.always (I := fun t => Consistent snprintf t ∧ Listed t) (P := Listed)
    (fun _ h => h.2) (fun t e r ht hok hr => ?_) ⟨consistent_init c ports, listed_init c ports⟩
  · exact halways.run hrun
  · obtain heq | hmove := moves_of_step hr
    · rw [heq]
      exact ht
    · exact ⟨ht.1.move hmove, ht.2.move ht.1 hok hmove⟩

/-- When the three threads have nothing left to do, every port that is there and that `connect_to`
names for a channel is connected to the input port of the first channel it is named for; and there
are no other connections than between a port and the input port of a channel it is named for, if
every session of the run has begun with an empty queue. -/
theorem connections_agree {c : Settings} {ports : List Port} {is : List (Event α)}
    {os : List (Option (List α))}
    (hrun : run (step snprintf) (init snprintf c ports) is = some (s, os)) (hsettled : Settled s) :
    (∀ i < s.settings.numChannels, s.settings.autoConnect = true →
      ⟨snprintf s.settings.connectTo (s.settings.index + i), true⟩ ∈ s.ports →
      (∀ j < i, snprintf s.settings.connectTo (s.settings.index + j) ≠
        snprintf s.settings.connectTo (s.settings.index + i)) →
      (snprintf s.settings.connectTo (s.settings.index + i), portName s.clientName i) ∈
        s.connections) ∧
    (Admits (step snprintf) Fresh (init snprintf c ports) is → ∀ d ∈ s.connections,
      s.settings.autoConnect = true ∧ ⟨d.1, true⟩ ∈ s.ports ∧ ∃ i < s.settings.numChannels,
        d = (snprintf s.settings.connectTo (s.settings.index + i), portName s.clientName i)) := by
  have hs : Consistent snprintf s := (consistent_init c ports).run hrun
  constructor
  · intro i hi hauto hport hfirst
    have hname : (updatePortToConnect snprintf s.settings)[i]? =
        some (snprintf s.settings.connectTo (s.settings.index + i)) :=
      getElem?_updatePortToConnect.2 ⟨hauto, hi, rfl⟩
    rw [← hs.names] at hname
    have hnumber : s.number (snprintf s.settings.connectTo (s.settings.index + i)) = i := by
      refine number_eq hname fun j hj hsame => ?_
      rw [hs.names] at hsame
      exact hfirst j hj (getElem?_updatePortToConnect.1 hsame).2.2.symm
    have hmade := (Complete.run hrun).made hsettled hport (List.mem_of_getElem? hname)
    rwa [State.connection, hnumber] at hmade
  · intro hfresh d hd
    have hlisted := Listed.run hfresh hrun
    obtain ⟨i, hname, heq⟩ := hlisted.names (by simp [hsettled.running]) d (Or.inl hd)
    rw [hs.names] at hname
    obtain ⟨hauto, hi, hname⟩ := getElem?_updatePortToConnect.1 hname
    exact ⟨hauto, hlisted.exist d hd, i, hi, Prod.ext hname heq⟩

/-- A port that appears after `start` is connected by the three threads together. -/
theorem connections_agree_late :
    ∃ s os, run (step fun name _ => name)
        (init (fun name _ => name) ⟨true, "a", 1, 1, by decide⟩ [])
        ([.activate "b" 2, .lockInputPorts, .registerPort, .connectPorts, .connect, .connect,
          .appear ⟨"a", true⟩, .notice, .lockQueue, .push, .cycle, .drain, .drain,
          .copy 1 fun _ j => j] : List (Event ℕ)) = some (s, os) ∧
      ("a", portName "b" 0) ∈ s.connections ∧
      ∀ d ∈ s.connections, ∃ i < 1, d = ("a", portName "b" i) := by
  refine ⟨_, _, rfl, ?_⟩
  have hrun : run (step fun name _ => name)
      (init (fun name _ => name) ⟨true, "a", 1, 1, by decide⟩ [])
      ([.activate "b" 2, .lockInputPorts, .registerPort, .connectPorts, .connect, .connect,
        .appear ⟨"a", true⟩, .notice, .lockQueue, .push, .cycle, .drain, .drain,
        .copy 1 fun _ j => j] : List (Event ℕ)) = some (_, _) := rfl
  obtain ⟨hmade, hnone⟩ := connections_agree hrun ⟨rfl, rfl, rfl, rfl, fun _ _ h => by cases h⟩
  refine ⟨hmade 0 (by decide) rfl (List.mem_cons_self) (fun j hj => absurd hj (Nat.not_lt_zero j)),
    fun d hd => ?_⟩
  obtain ⟨-, -, hd⟩ := hnone (by decide +kernel) d hd
  exact hd

end JackToShmdata
end LibSwitcher
