/-
# What the threads of the JACK audio source may do

`Moves` lists what a defined step does, with the conditions under which its thread
goes on; a step that none of its cases covers leaves the state alone
(`moves_of_step`).  From it follows what holds of every state a run reaches
(`Consistent`): how many ports there are at each point of `start` and `stop`, that
no mutex has two owners, and that `ports_to_connect_` is what the properties say.

A step is undefined in two cases only (`step_eq_none_iff`): `on_port` asks for the
name of a port before `start` has made it or after `stop` has taken it down, or
the server's period has grown since the activation.  Without them every block that
`jack_process` writes has all the channels that were announced (`meets_iff`).
-/

import LibSwitcher.Plugins.Jack.JackToShmdata

namespace LibSwitcher
namespace JackToShmdata

open Machine

variable {α : Type*} {snprintf : String → ℕ → String} {s s' : State} {e : Event α}

/-! ### One case for each thing that a thread does -/

/-- What the steps do, where they do something. -/
inductive Moves (snprintf : String → ℕ → String) (s : State) : Event α → State → Prop
  | set {c : Settings} (hmain : s.main = .stopped) :
      Moves snprintf s (.set c)
        { s with settings := c, portsToConnect := updatePortToConnect snprintf c }
  | activate {client : String} {bufferSize : ℕ} (hmain : s.main = .stopped) :
      Moves snprintf s (.activate client bufferSize)
        { s with
          main := .activated
          clientName := client
          bufferSize := bufferSize
          buf := s.settings.numChannels * bufferSize }
  | lockInputPorts (hmain : s.main = .activated) (hfree : s.portsTaken = false) :
      Moves snprintf s .lockInputPorts { s with main := .registering, inputPorts := 0 }
  | registerPort (hmain : s.main = .registering) (hlt : s.inputPorts < s.settings.numChannels) :
      Moves snprintf s .registerPort { s with inputPorts := s.inputPorts + 1 }
  | started (hmain : s.main = .registering) (hall : s.inputPorts = s.settings.numChannels)
      (hskip : s.settings.autoConnect = false ∨ s.portsToConnect.length ≠ s.inputPorts) :
      Moves snprintf s .connectPorts { s with main := .running }
  | connectPorts (hmain : s.main = .registering) (hall : s.inputPorts = s.settings.numChannels)
      (hauto : s.settings.autoConnect = true) (hfree : s.queueTaken = false)
      (hlength : s.portsToConnect.length = s.inputPorts) :
      Moves snprintf s .connectPorts { s with main := .connecting 0 }
  | connect {i : ℕ} {name : String} (hmain : s.main = .connecting i)
      (hname : s.portsToConnect[i]? = some name) :
      Moves snprintf s .connect
        { s.jackConnect (name, portName s.clientName i) with main := .connecting (i + 1) }
  | connected {i : ℕ} (hmain : s.main = .connecting i) (hname : s.portsToConnect[i]? = none) :
      Moves snprintf s .connect { s with main := .running }
  | stop (hmain : s.main = .running) (hfree : s.portsTaken = false) :
      Moves snprintf s .stop { s with main := .cleared, inputPorts := 0, connections := [] }
  | close (hmain : s.main = .cleared) (honPort : s.onPort = .idle) (hprocess : s.process = .idle) :
      Moves snprintf s .close { s with main := .stopped, notices := [] }
  | notice {p : Port} {ps : List Port} (honPort : s.onPort = .idle) (hnotices : s.notices = p :: ps)
      (hout : p.isOutput = true) (hmem : p.name ∈ s.portsToConnect) :
      Moves snprintf s .notice
        { s with notices := ps, onPort := .found (s.portsToConnect.idxOf p.name) }
  | ignore {p : Port} {ps : List Port} (honPort : s.onPort = .idle) (hnotices : s.notices = p :: ps)
      (hnot : ¬(p.isOutput = true ∧ p.name ∈ s.portsToConnect)) :
      Moves snprintf s .notice { s with notices := ps }
  | lockQueue {i : ℕ} (honPort : s.onPort = .found i) (hfree : s.queueTaken = false) :
      Moves snprintf s .lockQueue { s with onPort := .locked i }
  | push {i : ℕ} {name : String} (honPort : s.onPort = .locked i) (hfree : s.portsTaken = false)
      (hlt : i < s.inputPorts) (hname : s.portsToConnect[i]? = some name) :
      Moves snprintf s .push
        { s with onPort := .idle, queue := s.queue ++ [(name, portName s.clientName i)] }
  | cycle (hactive : s.main ≠ .stopped) (hprocess : s.process = .idle)
      (hfree : s.queueTaken = false) :
      Moves snprintf s .cycle { s with process := .draining s.queue }
  | drain {c : String × String} {rest : List (String × String)}
      (hprocess : s.process = .draining (c :: rest)) :
      Moves snprintf s .drain { s.jackConnect c with process := .draining rest }
  | drained (hprocess : s.process = .draining []) :
      Moves snprintf s .drain
        { s with queue := [], process := if s.main.hasPorts then .idle else .copying }
  | copy {nframes : ℕ} {bufs : ℕ → ℕ → α} (hprocess : s.process = .copying) :
      Moves snprintf s (.copy nframes bufs) { s with process := .idle }
  | appear {p : Port} :
      Moves snprintf s (.appear p)
        { s with
          ports := p :: s.ports
          notices := if s.active then s.notices ++ [p] else s.notices }
  | vanish {name : String} :
      Moves snprintf s (.vanish name)
        { s with
          ports := s.ports.filter fun q => q.name ≠ name
          connections := s.connections.filter fun c => c.1 ≠ name }

theorem active_eq_true_iff : s.active = true ↔ s.main ≠ .stopped := by
  rw [State.active, bne_iff_ne]

/-- A step leaves the state alone or is one of the moves. -/
theorem moves_of_step {o : Option (List α)} (h : step snprintf s e = some (s', o)) :
    s' = s ∨ Moves snprintf s e s' := by
  have hcond : ∀ {c : Prop} [Decidable c] {t : State}, (c → Moves snprintf s e t) →
      some (if c then t else s, none) = some (s', o) → s' = s ∨ Moves snprintf s e s' := by
    intro c _ t hmove heq
    obtain ⟨rfl, -⟩ := Prod.mk.inj (Option.some.inj heq)
    split
    · exact Or.inr (hmove ‹_›)
    · exact Or.inl rfl
  cases e with
  | set c => exact hcond .set h
  | activate client bufferSize => exact hcond .activate h
  | lockInputPorts => exact hcond (fun hc => .lockInputPorts hc.1 hc.2) h
  | registerPort => exact hcond (fun hc => .registerPort hc.1 hc.2) h
  | connectPorts =>
      obtain ⟨rfl, -⟩ := Prod.mk.inj (Option.some.inj h)
      rw [State.connectPorts]
      split_ifs with hc hauto hfree hlength
      · exact Or.inr (.started hc.1 hc.2 (Or.inl hauto))
      · exact Or.inl rfl
      · exact Or.inr (.started hc.1 hc.2 (Or.inr hlength))
      · exact Or.inr (.connectPorts hc.1 hc.2 (by simpa using hauto)
          (Bool.eq_false_iff.2 hfree) (not_not.1 hlength))
      · exact Or.inl rfl
  | connect =>
      obtain ⟨rfl, -⟩ := Prod.mk.inj (Option.some.inj h)
      rw [State.connect]
      split
      · split
        · exact Or.inr (.connect ‹_› ‹_›)
        · exact Or.inr (.connected ‹_› ‹_›)
      · exact Or.inl rfl
  | stop => exact hcond (fun hc => .stop hc.1 hc.2) h
  | close => exact hcond (fun hc => .close hc.1 hc.2.1 hc.2.2) h
  | notice =>
      obtain ⟨rfl, -⟩ := Prod.mk.inj (Option.some.inj h)
      rw [State.notice]
      split
      · split
        · exact Or.inr (.notice ‹_› ‹_› (And.left ‹_›) (And.right ‹_›))
        · exact Or.inr (.ignore ‹_› ‹_› ‹_›)
      · exact Or.inl rfl
  | lockQueue =>
      obtain ⟨rfl, -⟩ := Prod.mk.inj (Option.some.inj h)
      rw [State.lockQueue]
      split
      · split
        · exact Or.inl rfl
        · exact Or.inr (.lockQueue ‹_› (Bool.eq_false_iff.2 ‹_›))
      · exact Or.inl rfl
  | push =>
      obtain ⟨t, ht, heq⟩ := Option.map_eq_some_iff.1 h
      obtain ⟨rfl, -⟩ := Prod.mk.inj heq
      rw [State.push] at ht
      split at ht
      · split_ifs at ht with hfree hlt
        · exact Or.inl (Option.some.inj ht).symm
        · obtain ⟨name, hname, rfl⟩ := Option.map_eq_some_iff.1 ht
          exact Or.inr (.push ‹_› (Bool.eq_false_iff.2 hfree) hlt hname)
      · exact Or.inl (Option.some.inj ht).symm
  | cycle => exact hcond (fun hc => .cycle (active_eq_true_iff.1 hc.1) hc.2.1 hc.2.2) h
  | drain =>
      obtain ⟨rfl, -⟩ := Prod.mk.inj (Option.some.inj h)
      rw [State.drain]
      split
      · exact Or.inr (.drain ‹_›)
      · exact Or.inr (.drained ‹_›)
      · exact Or.inl rfl
  | copy nframes bufs =>
      change s.copy nframes bufs = some (s', o) at h
      rw [State.copy] at h
      split_ifs at h with hprocess hports hfits
      · obtain ⟨rfl, -⟩ := Prod.mk.inj (Option.some.inj h)
        exact Or.inr (.copy hprocess)
      · obtain ⟨rfl, -⟩ := Prod.mk.inj (Option.some.inj h)
        exact Or.inr (.copy hprocess)
      · exact Or.inl (Prod.mk.inj (Option.some.inj h)).1.symm
  | appear p =>
      obtain ⟨rfl, -⟩ := Prod.mk.inj (Option.some.inj h)
      rw [State.appear]
      split
      · exact Or.inl rfl
      · exact Or.inr .appear
  | vanish name =>
      obtain ⟨rfl, -⟩ := Prod.mk.inj (Option.some.inj h)
      exact Or.inr .vanish

/-- What every move and standing still preserve, every step preserves. -/
theorem preserved_of_moves {P : State → Prop} (h : ∀ s (e : Event α) s', P s →
    Moves snprintf s e s' → P s') (s : State) (e : Event α) (r : State × Option (List α)) (hs : P s)
    (hr : step snprintf s e = some r) : P r.1 := by
  obtain heq | hmove := moves_of_step hr
  · exact heq ▸ hs
  · exact h s e r.1 hs hmove

/-! ### What holds throughout -/

/-- The number of ports that the client has, at this point of `start` and `stop`, when it is to
have `n`. -/
def Main.Has (n : ℕ) : Main → ℕ → Prop
  | .registering, k => k ≤ n
  | .connecting _, k => k = n
  | .running, k => k = n
  | _, k => k = 0

/-- What holds of every state that a run reaches. -/
structure Consistent (snprintf : String → ℕ → String) (s : State) : Prop where
  names : s.portsToConnect = updatePortToConnect snprintf s.settings
  has : s.main.Has s.settings.numChannels s.inputPorts
  /-- without the client there are no callbacks -/
  quiet : s.main = .stopped → s.onPort = .idle ∧ s.process = .idle ∧ s.notices = []
  onPort : ∀ i, s.onPort = .found i ∨ s.onPort = .locked i → i < s.portsToConnect.length
  buf : s.main ≠ .stopped → s.buf = s.settings.numChannels * s.bufferSize
  /-- no mutex has two owners -/
  ports_owner : s.main.hasPorts = true → s.process ≠ .copying
  queue_owner : (s.main.hasQueue = true → s.onPort.hasQueue = false ∧ s.process.hasQueue = false) ∧
    (s.onPort.hasQueue = true → s.process.hasQueue = false)

theorem length_updatePortToConnect {c : Settings} (h : c.autoConnect = true) :
    (updatePortToConnect snprintf c).length = c.numChannels := by
  rw [updatePortToConnect, if_pos h, List.length_map, List.length_range']

/-- Every name of the list is that of a channel. -/
theorem getElem?_updatePortToConnect {c : Settings} {i : ℕ} {name : String} :
    (updatePortToConnect snprintf c)[i]? = some name ↔
      c.autoConnect = true ∧ i < c.numChannels ∧ name = snprintf c.connectTo (c.index + i) := by
  rw [updatePortToConnect]
  split
  · rename_i hauto
    rw [List.getElem?_map, Option.map_eq_some_iff]
    constructor
    · rintro ⟨k, hk, rfl⟩
      obtain ⟨hlt, hk⟩ := List.getElem?_eq_some_iff.1 hk
      rw [List.length_range'] at hlt
      rw [List.getElem_range', Nat.one_mul] at hk
      exact ⟨hauto, hlt, by rw [hk]⟩
    · rintro ⟨-, hlt, rfl⟩
      refine ⟨c.index + i, ?_, rfl⟩
      rw [List.getElem?_eq_getElem (by rwa [List.length_range']), List.getElem_range', Nat.one_mul]
  · rename_i hauto
    exact ⟨fun h => (by cases h), fun h => absurd h.1 hauto⟩

/-- The quiddity is constructed consistent. -/
theorem consistent_init (c : Settings) (ports : List Port) :
    Consistent snprintf (init snprintf c ports) where
  names := rfl
  has := rfl
  quiet _ := ⟨rfl, rfl, rfl⟩
  onPort i h := by rcases h with h | h <;> cases h
  buf h := absurd rfl h
  ports_owner h := by cases h
  queue_owner := ⟨fun h => (by cases h), fun h => (by cases h)⟩

theorem portsTaken_eq_false_iff :
    s.portsTaken = false ↔ s.main.hasPorts = false ∧ s.process ≠ .copying := by
  rw [State.portsTaken, Bool.or_eq_false_iff, beq_eq_false_iff_ne]

theorem queueTaken_eq_false_iff :
    s.queueTaken = false ↔
      s.main.hasQueue = false ∧ s.onPort.hasQueue = false ∧ s.process.hasQueue = false := by
  rw [State.queueTaken, Bool.or_eq_false_iff, Bool.or_eq_false_iff, and_assoc]

/-- Every move keeps the state consistent. -/
theorem Consistent.move (h : Consistent snprintf s) (hmove : Moves snprintf s e s') :
    Consistent snprintf s' := by
  obtain ⟨hnames, hhas, hquiet, honPort, hbuf, hports, hqueue⟩ := h
  cases hmove with
  | set hmain =>
      obtain ⟨hidle, hprocess, hnotices⟩ := hquiet hmain
      refine ⟨rfl, ?_, hquiet, ?_, fun hne => absurd hmain hne, hports, hqueue⟩
      · rw [hmain] at hhas ⊢
        exact hhas
      · intro i hi
        rw [hidle] at hi
        rcases hi with hi | hi <;> cases hi
  | activate hmain =>
      obtain ⟨hidle, hprocess, hnotices⟩ := hquiet hmain
      rw [hmain] at hhas
      exact ⟨hnames, hhas, fun hne => (by cases hne), honPort, fun _ => rfl,
        fun hne => (by cases hne), fun hne => (by cases hne), hqueue.2⟩
  | lockInputPorts hmain hfree =>
      exact ⟨hnames, Nat.zero_le _, fun hne => (by cases hne), honPort,
        fun _ => hbuf (by simp [hmain]), fun _ => (portsTaken_eq_false_iff.1 hfree).2,
        fun hne => (by cases hne), hqueue.2⟩
  | registerPort hmain hlt =>
      refine ⟨hnames, ?_, hquiet, honPort, hbuf, hports, hqueue⟩
      change s.main.Has _ _
      rw [hmain]
      exact hlt
  | started hmain hall hskip =>
      exact ⟨hnames, hall, fun hne => (by cases hne), honPort,
        fun _ => hbuf (by simp [hmain]), fun hne => (by cases hne),
        fun hne => (by cases hne), hqueue.2⟩
  | connectPorts hmain hall hauto hfree hlength =>
      refine ⟨hnames, hall, fun hne => (by cases hne), honPort,
        fun _ => hbuf (by simp [hmain]), fun _ => hports (by rw [hmain]; rfl),
        fun _ => (queueTaken_eq_false_iff.1 hfree).2, hqueue.2⟩
  | connect hmain hname =>
      rw [hmain] at hhas
      exact ⟨hnames, hhas, fun hne => (by cases hne), honPort,
        fun _ => hbuf (by simp [hmain]), fun _ => hports (by rw [hmain]; rfl),
        fun _ => hqueue.1 (by rw [hmain]; rfl), hqueue.2⟩
  | connected hmain hname =>
      rw [hmain] at hhas
      exact ⟨hnames, hhas, fun hne => (by cases hne), honPort,
        fun _ => hbuf (by simp [hmain]), fun hne => (by cases hne),
        fun hne => (by cases hne), hqueue.2⟩
  | stop hmain hfree =>
      exact ⟨hnames, rfl, fun hne => (by cases hne), honPort,
        fun _ => hbuf (by simp [hmain]), fun hne => (by cases hne),
        fun hne => (by cases hne), hqueue.2⟩
  | close hmain hidle hprocess =>
      rw [hmain] at hhas
      exact ⟨hnames, hhas, fun _ => ⟨hidle, hprocess, rfl⟩, honPort, fun hne => absurd rfl hne,
        fun hne => (by cases hne), fun hne => (by cases hne), hqueue.2⟩
  | notice hidle hnotices hout hmem =>
      refine ⟨hnames, hhas, fun hmain => ?_, fun i hi => ?_, hbuf, hports,
        fun hmain => ⟨rfl, (hqueue.1 hmain).2⟩, fun hne => (by cases hne)⟩
      · rw [(hquiet hmain).2.2] at hnotices
        cases hnotices
      · rcases hi with hi | hi <;> cases hi
        exact List.idxOf_lt_length_iff.2 hmem
  | ignore hidle hnotices hnot =>
      refine ⟨hnames, hhas, fun hmain => ?_, honPort, hbuf, hports, hqueue⟩
      rw [(hquiet hmain).2.2] at hnotices
      cases hnotices
  | lockQueue hfound hfree =>
      obtain ⟨hmainq, -, hprocessq⟩ := queueTaken_eq_false_iff.1 hfree
      refine ⟨hnames, hhas, fun hmain => ?_, fun i hi => ?_, hbuf, hports,
        fun hmain => ?_, fun _ => hprocessq⟩
      · rw [(hquiet hmain).1] at hfound
        cases hfound
      · rcases hi with hi | hi <;> cases hi
        exact honPort _ (Or.inl hfound)
      · rw [hmainq] at hmain
        cases hmain
  | push hlocked hfree hlt hname =>
      refine ⟨hnames, hhas, fun hmain => ?_, fun i hi => ?_, hbuf, hports,
        fun hmain => ⟨rfl, (hqueue.1 hmain).2⟩, fun hne => (by cases hne)⟩
      · rw [(hquiet hmain).1] at hlocked
        cases hlocked
      · rcases hi with hi | hi <;> cases hi
  | cycle hactive hidle hfree =>
      obtain ⟨hmainq, honPortq, -⟩ := queueTaken_eq_false_iff.1 hfree
      exact ⟨hnames, hhas, fun hmain => absurd hmain hactive, honPort, hbuf,
        fun _ hc => (by cases hc), fun hmain => (by rw [hmainq] at hmain; cases hmain),
        fun hq => (by rw [honPortq] at hq; cases hq)⟩
  | drain hprocess =>
      rw [hprocess] at hqueue hquiet
      exact ⟨hnames, hhas, fun hmain => (by cases (hquiet hmain).2.1), honPort, hbuf,
        fun _ hc => (by cases hc), hqueue⟩
  | drained hprocess =>
      rw [hprocess] at hqueue hquiet
      refine ⟨hnames, hhas, fun hmain => (by cases (hquiet hmain).2.1), honPort, hbuf,
        fun hmain => ?_, fun hmain => (by cases (hqueue.1 hmain).2),
        fun hq => (by cases hqueue.2 hq)⟩
      change (if s.main.hasPorts = true then Process.idle else .copying) ≠ .copying
      rw [if_pos hmain]
      decide
  | copy hprocess =>
      exact ⟨hnames, hhas, fun hmain => ⟨(hquiet hmain).1, rfl, (hquiet hmain).2.2⟩, honPort, hbuf,
        fun _ hc => (by cases hc), fun hmain => ⟨(hqueue.1 hmain).1, rfl⟩, fun _ => rfl⟩
  | appear =>
      refine ⟨hnames, hhas, fun hmain => ⟨(hquiet hmain).1, (hquiet hmain).2.1, ?_⟩, honPort, hbuf,
        hports, hqueue⟩
      have hinactive : s.active ≠ true := fun hactive => active_eq_true_iff.1 hactive hmain
      exact (if_neg hinactive).trans (hquiet hmain).2.2
  | vanish => exact ⟨hnames, hhas, hquiet, honPort, hbuf, hports, hqueue⟩

/-- Every state that a run reaches is consistent. -/
theorem Consistent.run {is : List (Event α)} {os : List (Option (List α))}
    (h : Consistent snprintf s) (hrun : run (step snprintf) s is = some (s', os)) :
    Consistent snprintf s' :=
  run_invariant (preserved_of_moves fun _ _ _ => Consistent.move) h hrun

/-! ### What is undefined, and what is written -/

/-- The steps that are undefined: `on_port` asks for the name of a port when there are none, and
`jack_process` copies more than `buf_` has room for. -/
def Hazard (s : State) : Event α → Prop
  | .push => s.onPort.hasQueue = true ∧ s.process ≠ .copying ∧
      (s.main = .activated ∨ s.main = .cleared)
  | .copy nframes _ => s.process = .copying ∧ s.main = .running ∧ s.bufferSize < nframes
  | _ => False

/-- What a defined step returns: `jack_process` writes a period of all the channels, frame after
frame, and nothing else is written. -/
def Announced (s : State) : Event α → State × Option (List α) → Prop
  | .copy nframes bufs, r =>
      if s.process = .copying ∧ s.main = .running then
        ∃ block, r.2 = some block ∧ block.length = nframes * s.settings.numChannels ∧
          ∀ j < nframes, ∀ i < s.settings.numChannels,
            block[j * s.settings.numChannels + i]? = some (bufs i j)
      else r.2 = none
  | _, r => r.2 = none

theorem interleave_succ (numChan nframes : ℕ) (bufs : ℕ → ℕ → α) :
    interleave numChan (nframes + 1) bufs =
      interleave numChan nframes bufs ++ (List.range numChan).map fun i => bufs i nframes := by
  rw [interleave, List.range_succ, List.flatMap_append, List.flatMap_singleton]
  rfl

theorem length_interleave (numChan nframes : ℕ) (bufs : ℕ → ℕ → α) :
    (interleave numChan nframes bufs).length = nframes * numChan := by
  induction nframes with
  | zero => rw [Nat.zero_mul]; rfl
  | succ n ih =>
      rw [interleave_succ, List.length_append, ih, List.length_map, List.length_range,
        Nat.succ_mul]

/-- The sample of a channel in a frame stands where a reader of interleaved audio expects it. -/
theorem getElem?_interleave {numChan nframes i j : ℕ} (bufs : ℕ → ℕ → α) (hj : j < nframes)
    (hi : i < numChan) :
    (interleave numChan nframes bufs)[j * numChan + i]? = some (bufs i j) := by
  induction nframes with
  | zero => cases hj
  | succ n ih =>
      rw [interleave_succ]
      by_cases hlt : j < n
      · have hbound : j * numChan + i < n * numChan :=
          calc j * numChan + i < j * numChan + numChan := Nat.add_lt_add_left hi _
            _ = (j + 1) * numChan := (Nat.succ_mul _ _).symm
            _ ≤ n * numChan := Nat.mul_le_mul_right _ hlt
        rw [List.getElem?_append_left (by rwa [length_interleave]), ih hlt]
      · obtain rfl : j = n := by omega
        rw [List.getElem?_append_right (by rw [length_interleave]; exact Nat.le_add_right _ _),
          length_interleave, Nat.add_sub_cancel_left, List.getElem?_map,
          List.getElem?_range hi, Option.map_some]

/-- While nobody of `start` has `input_ports_mutex_`, there are all the ports or none. -/
theorem Main.Has.of_free {m : Main} {n k : ℕ} (h : m.Has n k) (hfree : m.hasPorts = false) :
    (m = .running ∧ k = n) ∨ (m ≠ .running ∧ k = 0) := by
  cases m with
  | running => exact Or.inl ⟨rfl, h⟩
  | registering => cases hfree
  | connecting i => cases hfree
  | _ => exact Or.inr ⟨by decide, h⟩

/-- `on_port` has found a port only if the ports are to be connected. -/
theorem Consistent.length_names (h : Consistent snprintf s) {i : ℕ}
    (hi : i < s.portsToConnect.length) :
    s.settings.autoConnect = true ∧ s.portsToConnect.length = s.settings.numChannels := by
  rw [h.names] at hi ⊢
  obtain ⟨hauto, -⟩ := getElem?_updatePortToConnect.1 (List.getElem?_eq_getElem hi)
  exact ⟨hauto, length_updatePortToConnect hauto⟩

theorem exists_locked_of_hasQueue {p : OnPort} (h : p.hasQueue = true) : ∃ i, p = .locked i := by
  cases p with
  | locked i => exact ⟨i, rfl⟩
  | _ => cases h

/-- A push that is no hazard is defined. -/
theorem Consistent.exists_push (h : Consistent snprintf s)
    (hsafe : ¬(s.onPort.hasQueue = true ∧ s.process ≠ .copying ∧
      (s.main = .activated ∨ s.main = .cleared))) : ∃ s', s.push = some s' := by
  rw [State.push]
  split
  · rename_i i hlocked
    by_cases htaken : s.portsTaken = true
    · exact ⟨s, if_pos htaken⟩
    · have hi := h.onPort i (Or.inr hlocked)
      obtain ⟨hports, hprocess⟩ := portsTaken_eq_false_iff.1 (Bool.eq_false_iff.2 htaken)
      have hrunning : s.main = .running := by
        cases hmain : s.main with
        | running => rfl
        | stopped =>
            rw [(h.quiet hmain).1] at hlocked
            cases hlocked
        | registering => rw [hmain] at hports; cases hports
        | connecting i => rw [hmain] at hports; cases hports
        | activated => exact absurd ⟨by rw [hlocked]; rfl, hprocess, Or.inl hmain⟩ hsafe
        | cleared => exact absurd ⟨by rw [hlocked]; rfl, hprocess, Or.inr hmain⟩ hsafe
      have hall := h.has
      rw [hrunning] at hall
      have hlt : i < s.inputPorts := by
        rw [show s.inputPorts = s.settings.numChannels from hall, ← (h.length_names hi).2]
        exact hi
      rw [if_neg htaken, if_pos hlt, List.getElem?_eq_getElem hi]
      exact ⟨_, rfl⟩
  · exact ⟨s, rfl⟩

/-- `jack_process` writes the period of all the channels unless it is longer than `buf_`. -/
theorem Consistent.copy_eq (h : Consistent snprintf s) (hprocess : s.process = .copying)
    (nframes : ℕ) (bufs : ℕ → ℕ → α) :
    s.copy nframes bufs =
      if s.main = .running then
        if s.bufferSize < nframes then none
        else some ({ s with process := .idle },
          some (interleave s.settings.numChannels nframes bufs))
      else some ({ s with process := .idle }, none) := by
  have hfree : s.main.hasPorts = false :=
    Bool.eq_false_iff.2 fun htaken => h.ports_owner htaken hprocess
  rw [State.copy, if_pos hprocess]
  obtain ⟨hmain, hall⟩ | ⟨hmain, hzero⟩ := h.has.of_free hfree
  · have hbuf := h.buf (by simp [hmain])
    have hfits : nframes * s.settings.numChannels ≤ s.settings.numChannels * s.bufferSize ↔
        nframes ≤ s.bufferSize := by
      rw [Nat.mul_comm, Nat.mul_le_mul_left_iff s.settings.numChannels_pos]
    rw [hall, hbuf, if_neg (Nat.ne_of_gt s.settings.numChannels_pos), if_pos hmain]
    by_cases hlong : s.bufferSize < nframes
    · rw [if_pos hlong, if_neg fun hle => absurd (hfits.1 hle) (Nat.not_le.2 hlong)]
    · rw [if_neg hlong, if_pos (hfits.2 (Nat.not_lt.1 hlong))]
  · rw [if_pos hzero, if_neg hmain]

/-- A step that is no hazard is defined, and returns what it should. -/
theorem Consistent.exists_step (h : Consistent snprintf s) (e : Event α) (hsafe : ¬Hazard s e) :
    ∃ r, step snprintf s e = some r ∧ Announced s e r := by
  cases e with
  | push =>
      obtain ⟨s', hs'⟩ := h.exists_push hsafe
      exact ⟨(s', none), congrArg (Option.map _) hs', rfl⟩
  | copy nframes bufs =>
      change ∃ r, s.copy nframes bufs = some r ∧ _
      by_cases hprocess : s.process = .copying
      · rw [h.copy_eq hprocess]
        by_cases hmain : s.main = .running
        · rw [if_pos hmain, if_neg fun hlong => hsafe ⟨hprocess, hmain, hlong⟩]
          refine ⟨_, rfl, ?_⟩
          rw [Announced, if_pos ⟨hprocess, hmain⟩]
          exact ⟨_, rfl, length_interleave _ _ _,
            fun j hj i hi => getElem?_interleave bufs hj hi⟩
        · rw [if_neg hmain]
          refine ⟨_, rfl, ?_⟩
          rw [Announced, if_neg fun hboth => hmain hboth.2]
      · rw [State.copy, if_neg hprocess]
        refine ⟨_, rfl, ?_⟩
        rw [Announced, if_neg fun hboth => hprocess hboth.1]
  | _ => exact ⟨_, rfl, rfl⟩

/-- A hazard is undefined. -/
theorem Consistent.step_eq_none (h : Consistent snprintf s) (e : Event α) (hazard : Hazard s e) :
    step snprintf s e = none := by
  cases e with
  | push =>
      obtain ⟨hqueue, hprocess, hmain⟩ := hazard
      obtain ⟨i, hlocked⟩ := exists_locked_of_hasQueue hqueue
      have hports : s.main.hasPorts = false ∧ s.inputPorts = 0 := by
        have hhas := h.has
        rcases hmain with hmain | hmain <;> rw [hmain] at hhas ⊢ <;> exact ⟨rfl, hhas⟩
      have hfree := portsTaken_eq_false_iff.2 ⟨hports.1, hprocess⟩
      change s.push.map _ = none
      rw [State.push, hlocked, hports.2]
      change (if s.portsTaken = true then some s else _).map _ = none
      rw [hfree, if_neg Bool.false_ne_true, if_neg (Nat.not_lt_zero i)]
      rfl
  | copy nframes bufs =>
      obtain ⟨hprocess, hmain, hlong⟩ := hazard
      change s.copy nframes bufs = none
      rw [h.copy_eq hprocess, if_pos hmain, if_pos hlong]
  | _ => exact hazard.elim

/-- A step is undefined exactly when it is a hazard. -/
theorem Consistent.step_eq_none_iff (h : Consistent snprintf s) (e : Event α) :
    step snprintf s e = none ↔ Hazard s e := by
  refine ⟨fun hnone => ?_, h.step_eq_none e⟩
  by_contra hsafe
  obtain ⟨r, hr, -⟩ := h.exists_step e hsafe
  rw [hnone] at hr
  cases hr

/-- A run is defined to its end, and writes nothing but periods of all the channels announced,
exactly when none of its steps is a hazard. -/
theorem meets_announced_iff (c : Settings) (ports : List Port) (is : List (Event α)) :
    Meets (step snprintf) Announced (init snprintf c ports) is ↔
      Admits (step snprintf) (fun s e => ¬Hazard s e) (init snprintf c ports) is := by
  refine meets_iff_admits (fun s e hs hsafe => ?_) (fun s e r hs hr _ hazard => ?_)
    (consistent_init c ports) is
  · obtain ⟨r, hr, hannounced⟩ := hs.exists_step e hsafe
    exact ⟨r, hr, hannounced, preserved_of_moves (fun _ _ _ => Consistent.move) s e r hs hr⟩
  · rw [hs.step_eq_none e hazard] at hr
    cases hr

end JackToShmdata
end LibSwitcher
