/-
# Whether a session of the JACK audio source can end

`start` holds `input_ports_mutex_` when it asks for the mutex of the queue, and
`on_port` the mutex of the queue when it asks for `input_ports_mutex_`.  A port of
the list that appears while `start` has not come to `connect_ports` may lead there:
`on_port` either waits for `start`, which waits for it, or comes first and asks for
the name of a port that is not there yet.  In `stop` the client is closed after its
ports, and `on_port` may ask for one in between.

These are the only ways for a session to be lost (`Doomed`).  A lost session stays
lost whatever happens, and every other state of every run has a way to the end of
the session that nobody else needs to help with (`ends_iff`).
-/

import LibSwitcher.Plugins.Jack.JackToShmdataSteps

namespace LibSwitcher
namespace JackToShmdata

open Machine

variable {α : Type*} {snprintf : String → ℕ → String} {s s' : State} {e : Event α}

/-- `on_port` has the mutex of the queue before `connect_ports` does, or has found a port after
`stop` has taken the ports down. -/
def Doomed (s : State) : Prop :=
  ((s.main = .activated ∨ s.main = .registering) ∧ s.onPort.hasQueue = true) ∨
    (s.main = .cleared ∧ s.onPort ≠ .idle)

instance (s : State) : Decidable (Doomed s) := inferInstanceAs (Decidable (_ ∨ _))

/-- The steps of the three threads within a session. -/
def Event.Own : Event α → Prop
  | .set _ => False
  | .activate _ _ => False
  | .appear _ => False
  | .vanish _ => False
  | _ => True

/-! ### A lost session stays lost -/

/-- In a lost session the ports are to be connected: `on_port` has found one. -/
theorem Consistent.autoConnect_of_locked (h : Consistent snprintf s)
    (hqueue : s.onPort.hasQueue = true) :
    s.settings.autoConnect = true ∧ s.portsToConnect.length = s.settings.numChannels := by
  obtain ⟨i, hlocked⟩ := exists_locked_of_hasQueue hqueue
  exact h.length_names (h.onPort i (Or.inr hlocked))

theorem Doomed.ne_idle (h : Doomed s) : s.onPort ≠ .idle := by
  obtain ⟨-, hqueue⟩ | ⟨-, hne⟩ := h
  · intro hidle
    rw [hidle] at hqueue
    cases hqueue
  · exact hne

theorem Doomed.main_eq (h : Doomed s) :
    s.main = .activated ∨ s.main = .registering ∨ s.main = .cleared := by
  obtain ⟨hmain | hmain, -⟩ | ⟨hmain, -⟩ := h
  · exact Or.inl hmain
  · exact Or.inr (Or.inl hmain)
  · exact Or.inr (Or.inr hmain)

/-- No defined step gets out of a lost session. -/
theorem Doomed.move (h : Doomed s) (hs : Consistent snprintf s) (hmove : Moves snprintf s e s') :
    Doomed s' := by
  have hmain := h.main_eq
  have hwaiting : s.main = .registering → s.onPort.hasQueue = true := by
    intro hregistering
    obtain ⟨-, hqueue⟩ | ⟨hcleared, -⟩ := h
    · exact hqueue
    · rw [hregistering] at hcleared
      cases hcleared
  cases hmove with
  | set hstopped => rw [hstopped] at hmain; rcases hmain with h | h | h <;> cases h
  | activate hstopped => rw [hstopped] at hmain; rcases hmain with h | h | h <;> cases h
  | lockInputPorts hactivated hfree =>
      obtain ⟨-, hqueue⟩ | ⟨hcleared, -⟩ := h
      · exact Or.inl ⟨Or.inr rfl, hqueue⟩
      · rw [hactivated] at hcleared
        cases hcleared
  | registerPort hregistering hlt => exact h
  | started hregistering hall hskip =>
      obtain ⟨hauto, hlength⟩ := hs.autoConnect_of_locked (hwaiting hregistering)
      rcases hskip with hoff | hne
      · rw [hauto] at hoff
        cases hoff
      · exact absurd (hlength.trans hall.symm) hne
  | connectPorts hregistering hall hauto hfree hlength =>
      have hqueue := (queueTaken_eq_false_iff.1 hfree).2.1
      rw [hwaiting hregistering] at hqueue
      cases hqueue
  | connect hconnecting hname => rw [hconnecting] at hmain; rcases hmain with h | h | h <;> cases h
  | connected hconnecting hname =>
      rw [hconnecting] at hmain; rcases hmain with h | h | h <;> cases h
  | stop hrunning hfree => rw [hrunning] at hmain; rcases hmain with h | h | h <;> cases h
  | close hcleared hidle hprocess => exact absurd hidle h.ne_idle
  | notice hidle hnotices hout hmem => exact absurd hidle h.ne_idle
  | ignore hidle hnotices hnot => exact absurd hidle h.ne_idle
  | lockQueue hfound hfree =>
      obtain ⟨hstart, hqueue⟩ | ⟨hcleared, -⟩ := h
      · exact Or.inl ⟨hstart, rfl⟩
      · exact Or.inr ⟨hcleared, fun hidle => (by cases hidle)⟩
  | push hlocked hfree hlt hname =>
      have hports := (portsTaken_eq_false_iff.1 hfree).1
      have hhas := hs.has
      rcases hmain with hmain | hmain | hmain <;> rw [hmain] at hports hhas
      · rw [show s.inputPorts = 0 from hhas] at hlt
        cases hlt
      · cases hports
      · rw [show s.inputPorts = 0 from hhas] at hlt
        cases hlt
  | cycle hactive hidle hfree => exact h
  | drain hprocess => exact h
  | drained hprocess => exact h
  | copy hprocess => exact h
  | appear => exact h
  | vanish => exact h

/-- Whatever happens, a lost session neither starts nor ends. -/
theorem Doomed.run (h : Doomed s) (hs : Consistent snprintf s) {is : List (Event α)}
    {os : List (Option (List α))} (hrun : run (step snprintf) s is = some (s', os)) :
    s'.main ≠ .running ∧ s'.main ≠ .stopped := by
  have hdoomed : Consistent snprintf s' ∧ Doomed s' :=
    run_invariant (I := fun t => Consistent snprintf t ∧ Doomed t)
      (preserved_of_moves fun _ _ _ hboth hmove =>
        ⟨hboth.1.move hmove, hboth.2.move hboth.1 hmove⟩) ⟨hs, h⟩ hrun
  rcases hdoomed.2.main_eq with hmain | hmain | hmain <;> rw [hmain] <;> decide

/-! ### Every other session can end -/

/-- How far the thread of the properties is from the end of `stop`. -/
def Main.rank (n k length : ℕ) : Main → ℕ
  | .stopped => 0
  | .cleared => 1
  | .running => 2
  | .connecting i => 3 + (length - i)
  | .registering => 4 + length + (n - k)
  | .activated => 5 + length + n

/-- How far the notification thread is from the end of `on_port`. -/
def OnPort.rank : OnPort → ℕ
  | .idle => 0
  | .locked _ => 1
  | .found _ => 2

/-- How far the audio thread is from the end of `jack_process`. -/
def Process.rank : Process → ℕ
  | .idle => 0
  | .copying => 1
  | .draining rest => 2 + rest.length

/-- How far the session is from its end. -/
def rank (s : State) : ℕ :=
  s.main.rank s.settings.numChannels s.inputPorts s.portsToConnect.length + s.onPort.rank +
    s.process.rank

/-- The session has a step of its own threads that brings its end closer and does not lose it. -/
def Progresses (α : Type*) (snprintf : String → ℕ → String) (s : State) : Prop :=
  ∃ (e : Event α) (r : State × Option (List α)), e.Own ∧ step snprintf s e = some r ∧
    ¬Doomed r.1 ∧ rank r.1 < rank s

theorem drain_cons {c : String × String} {rest : List (String × String)}
    (h : s.process = .draining (c :: rest)) :
    s.drain = { s.jackConnect c with process := .draining rest } := by
  rw [State.drain, h]

theorem drain_nil (h : s.process = .draining []) :
    s.drain = { s with queue := [], process := if s.main.hasPorts then .idle else .copying } := by
  rw [State.drain, h]

/-- `jack_process` waits for nobody once it has its mutex. -/
theorem progresses_of_process [Inhabited α] (hs : Consistent snprintf s) (hok : ¬Doomed s)
    (hprocess : s.process ≠ .idle) : Progresses α snprintf s := by
  cases h : s.process with
  | idle => exact absurd h hprocess
  | draining todo =>
      cases todo with
      | cons c rest =>
          have hless : Process.rank (.draining rest) < s.process.rank := by
            rw [h]
            exact Nat.lt_succ_self _
          refine ⟨.drain, (_, none), trivial, congrArg (fun t => some (t, none)) (drain_cons h),
            hok, ?_⟩
          exact Nat.add_lt_add_left hless _
      | nil =>
          have hless : Process.rank (if s.main.hasPorts then .idle else .copying) <
              s.process.rank := by
            rw [h]
            split
            · exact Nat.zero_lt_succ 1
            · exact Nat.lt_succ_self 1
          refine ⟨.drain, (_, none), trivial, congrArg (fun t => some (t, none)) (drain_nil h),
            hok, ?_⟩
          exact Nat.add_lt_add_left hless _
  | copying =>
      have hless : Process.rank .idle < s.process.rank := by
        rw [h]
        exact Nat.zero_lt_one
      have hcopy : s.copy 0 (fun _ _ => (default : α)) =
          some ({ s with process := .idle }, if s.main = .running then some [] else none) := by
        rw [hs.copy_eq h]
        split
        · rw [if_neg (Nat.not_lt_zero _)]
          rfl
        · rfl
      exact ⟨.copy 0 fun _ _ => default, (_, _), trivial, hcopy, hok,
        Nat.add_lt_add_left hless _⟩

/-- A step of the thread of the properties that brings it closer to the end. -/
theorem rank_lt_of_main {main : Main} {inputPorts : ℕ} {connections : List (String × String)}
    {notices : List Port}
    (h : main.rank s.settings.numChannels inputPorts s.portsToConnect.length <
      s.main.rank s.settings.numChannels s.inputPorts s.portsToConnect.length) :
    rank { s with
      main := main, inputPorts := inputPorts, connections := connections, notices := notices } <
      rank s :=
  Nat.add_lt_add_right (Nat.add_lt_add_right h _) _

/-- Between the cycles of `jack_process`, `start` goes on unless `on_port` has the queue. -/
theorem progresses_of_starting (hs : Consistent snprintf s) (hok : ¬Doomed s)
    (hprocess : s.process = .idle) (hmain : s.main = .activated ∨ s.main = .registering) :
    Progresses α snprintf s := by
  have honPort : s.onPort.hasQueue = false :=
    Bool.eq_false_iff.2 fun hqueue => hok (Or.inl ⟨hmain, hqueue⟩)
  have hhas := hs.has
  rcases hmain with hmain | hmain
  · have hfree : s.portsTaken = false := by
      rw [portsTaken_eq_false_iff, hmain, hprocess]
      decide
    refine ⟨.lockInputPorts, (_, none), trivial,
      congrArg (fun t => some (t, none)) (if_pos ⟨hmain, hfree⟩), ?_, rank_lt_of_main ?_⟩
    · rintro (⟨-, hqueue⟩ | ⟨hcleared, -⟩)
      · rw [honPort] at hqueue
        cases hqueue
      · cases hcleared
    · rw [hmain, Main.rank, Main.rank]
      omega
  · rw [hmain] at hhas
    by_cases hlt : s.inputPorts < s.settings.numChannels
    · refine ⟨.registerPort, (_, none), trivial,
        congrArg (fun t => some (t, none)) (if_pos ⟨hmain, hlt⟩), hok, ?_⟩
      refine rank_lt_of_main ?_
      rw [hmain, Main.rank, Main.rank]
      omega
    · have hall : s.inputPorts = s.settings.numChannels := Nat.le_antisymm hhas (Nat.not_lt.1 hlt)
      have hconnect : ∀ main, s.connectPorts = { s with main := main } →
          main = .running ∨ main = .connecting 0 → Progresses α snprintf s := by
        intro main hstep hmain'
        refine ⟨.connectPorts, (_, none), trivial, congrArg (fun t => some (t, none)) hstep,
          fun hdoomed => ?_, rank_lt_of_main ?_⟩
        · have heq : main = _ ∨ main = _ ∨ main = _ := hdoomed.main_eq
          rcases hmain' with rfl | rfl <;> rcases heq with h | h | h <;> cases h
        · rw [hmain, Main.rank]
          rcases hmain' with rfl | rfl <;> rw [Main.rank] <;> omega
      have hfree : ¬s.queueTaken = true := by
        rw [Bool.not_eq_true, queueTaken_eq_false_iff, hmain, hprocess]
        exact ⟨rfl, honPort, rfl⟩
      by_cases hauto : s.settings.autoConnect = false
      · refine hconnect .running ?_ (Or.inl rfl)
        rw [State.connectPorts, if_pos ⟨hmain, hall⟩, if_pos hauto]
      · have hlength : s.portsToConnect.length = s.inputPorts := by
          rw [hs.names, length_updatePortToConnect ((Bool.not_eq_false _).mp hauto), hall]
        refine hconnect (.connecting 0) ?_ (Or.inr rfl)
        rw [State.connectPorts, if_pos ⟨hmain, hall⟩, if_neg hauto, if_neg hfree,
          if_neg (not_not.2 hlength)]

/-- With both mutexes `connect_ports` goes on to the end of `start`. -/
theorem progresses_of_connecting {i : ℕ} (hmain : s.main = .connecting i) :
    Progresses α snprintf s := by
  cases hname : s.portsToConnect[i]? with
  | none =>
      have hstep : s.connect = { s with main := .running } := by
        simp only [State.connect, hmain, hname]
      refine ⟨.connect, (_, none), trivial, congrArg (fun t => some (t, none)) hstep,
        fun hdoomed => ?_, rank_lt_of_main ?_⟩
      · rcases hdoomed.main_eq with h | h | h <;> cases h
      · rw [hmain, Main.rank, Main.rank]
        omega
  | some name =>
      have hi : i < s.portsToConnect.length := (List.getElem?_eq_some_iff.1 hname).1
      have hstep : s.connect =
          { s.jackConnect (name, portName s.clientName i) with main := .connecting (i + 1) } := by
        simp only [State.connect, hmain, hname]
      refine ⟨.connect, (_, none), trivial, congrArg (fun t => some (t, none)) hstep,
        fun hdoomed => ?_, rank_lt_of_main ?_⟩
      · rcases hdoomed.main_eq with h | h | h <;> cases h
      · change _ < s.main.rank _ _ _
        rw [hmain]
        exact Nat.add_lt_add_left (Nat.sub_lt_sub_left hi (Nat.lt_succ_self i)) 3

/-- Between the cycles of `jack_process`, a session that runs can be stopped once `on_port` is
done. -/
theorem progresses_of_running (hs : Consistent snprintf s) (hprocess : s.process = .idle)
    (hmain : s.main = .running) : Progresses α snprintf s := by
  have hhas := hs.has
  rw [hmain] at hhas
  have hports : s.portsTaken = false := by
    rw [portsTaken_eq_false_iff, hmain, hprocess]
    decide
  have honPort : ∀ (e : Event α) (t : State), e.Own → step snprintf s e = some (t, none) →
      t.main = .running → rank t < rank s → Progresses α snprintf s := by
    intro e t hown hstep htmain hless
    refine ⟨e, (t, none), hown, hstep, fun hdoomed => ?_, hless⟩
    rcases hdoomed.main_eq with h | h | h <;> rw [htmain] at h <;> cases h
  cases h : s.onPort with
  | idle =>
      refine ⟨.stop, (_, none), trivial,
        congrArg (fun t => some (t, none)) (if_pos ⟨hmain, hports⟩), ?_, rank_lt_of_main ?_⟩
      · rintro (⟨h | h, -⟩ | ⟨-, hne⟩)
        · cases h
        · cases h
        · exact hne h
      · rw [hmain]
        exact Nat.lt_succ_self 1
  | found i =>
      have hqueue : ¬s.queueTaken = true := by
        rw [Bool.not_eq_true, queueTaken_eq_false_iff, hmain, hprocess, h]
        exact ⟨rfl, rfl, rfl⟩
      have hstep : s.lockQueue = { s with onPort := .locked i } := by
        simp only [State.lockQueue, h, if_neg hqueue]
      refine honPort .lockQueue _ trivial (congrArg (fun t => some (t, none)) hstep) hmain ?_
      refine Nat.add_lt_add_right (Nat.add_lt_add_left ?_ _) _
      rw [h]
      exact Nat.lt_succ_self 1
  | locked i =>
      have hi := hs.onPort i (Or.inr h)
      have hlt : i < s.inputPorts := by
        rw [show s.inputPorts = s.settings.numChannels from hhas, ← (hs.length_names hi).2]
        exact hi
      have hstep : s.push = some { s with
          onPort := .idle
          queue := s.queue ++ [(s.portsToConnect[i], portName s.clientName i)] } := by
        simp only [State.push, h, hports, if_pos hlt, List.getElem?_eq_getElem hi, Option.map_some]
        rfl
      refine honPort .push _ trivial (congrArg (Option.map _) hstep) hmain ?_
      refine Nat.add_lt_add_right (Nat.add_lt_add_left ?_ _) _
      rw [h]
      exact Nat.lt_succ_self 0

/-- A session that is not lost has ended, or has a step towards its end. -/
theorem stopped_or_progresses [Inhabited α] (hs : Consistent snprintf s) (hok : ¬Doomed s) :
    s.main = .stopped ∨ Progresses α snprintf s := by
  by_cases hprocess : s.process = .idle
  · cases hmain : s.main with
    | stopped => exact Or.inl rfl
    | activated => exact Or.inr (progresses_of_starting hs hok hprocess (Or.inl hmain))
    | registering => exact Or.inr (progresses_of_starting hs hok hprocess (Or.inr hmain))
    | connecting i => exact Or.inr (progresses_of_connecting hmain)
    | running => exact Or.inr (progresses_of_running hs hprocess hmain)
    | cleared =>
        have honPort : s.onPort = .idle := not_not.1 fun hne => hok (Or.inr ⟨hmain, hne⟩)
        refine Or.inr ⟨.close, (_, none), trivial,
          congrArg (fun t => some (t, none)) (if_pos ⟨hmain, honPort, hprocess⟩),
          fun hdoomed => ?_, rank_lt_of_main ?_⟩
        · rcases hdoomed.main_eq with h | h | h <;> cases h
        · rw [hmain]
          exact Nat.zero_lt_one
  · exact Or.inr (progresses_of_process hs hok hprocess)

/-- In every state of every run, either the threads of the quiddity alone can bring the session to
its end, or `on_port` has taken the queue before `connect_ports` or found a port after `stop` has
taken them down; then no run from there starts or ends the session. -/
theorem ends_or_doomed [Inhabited α] {c : Settings} {ports : List Port} {is : List (Event α)}
    {os : List (Option (List α))}
    (hrun : run (step snprintf) (init snprintf c ports) is = some (s, os)) :
    if Doomed s then
      ∀ (is' : List (Event α)) (s' : State) (os' : List (Option (List α))),
        run (step snprintf) s is' = some (s', os') → s'.main ≠ .running ∧ s'.main ≠ .stopped
    else
      ∃ (is' : List (Event α)) (s' : State) (os' : List (Option (List α))),
        (∀ e ∈ is', e.Own) ∧ run (step snprintf) s is' = some (s', os') ∧ s'.main = .stopped := by
  have hs : Consistent snprintf s := (consistent_init c ports).run hrun
  split
  · rename_i hdoomed
    exact fun _ _ _ hrun' => hdoomed.run hs hrun'
  · rename_i hok
    refine exists_run_of_measure (I := fun t => Consistent snprintf t ∧ ¬Doomed t) Event.Own rank
      (fun t ht => ?_) ⟨hs, hok⟩
    have hnext : t.main = .stopped ∨ Progresses α snprintf t := stopped_or_progresses ht.1 ht.2
    refine hnext.imp id ?_
    rintro ⟨e, r, hown, hr, hnot, hless⟩
    exact ⟨e, r, hown, hr, ⟨preserved_of_moves (fun _ _ _ => Consistent.move) t e r ht.1 hr, hnot⟩,
      hless⟩

/-- A port that appears right after the activation takes the session with it. -/
theorem ends_or_doomed_early :
    ∃ s os, run (step fun name _ => name)
        (init (fun name _ => name) ⟨true, "a", 1, 1, by decide⟩ [])
        ([.activate "b" 2, .appear ⟨"a", true⟩, .notice, .lockQueue] : List (Event ℕ)) =
          some (s, os) ∧
      ∀ (is' : List (Event ℕ)) (s' : State) (os' : List (Option (List ℕ))),
        run (step fun name _ => name) s is' = some (s', os') →
          s'.main ≠ .running ∧ s'.main ≠ .stopped := by
  refine ⟨_, _, rfl, ?_⟩
  have hrun : run (step fun name _ => name)
      (init (fun name _ => name) ⟨true, "a", 1, 1, by decide⟩ [])
      ([.activate "b" 2, .appear ⟨"a", true⟩, .notice, .lockQueue] : List (Event ℕ)) =
        some (_, _) := rfl
  have h := ends_or_doomed hrun
  rw [if_pos (by decide +kernel)] at h
  exact h

end JackToShmdata
end LibSwitcher
