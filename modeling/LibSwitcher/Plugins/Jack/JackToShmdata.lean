/-
# The three threads of the JACK audio source

`plugins/jack/jack-to-shmdata.cpp`.  The thread of the properties runs `start` and
`stop`; between the activation of the client and its closing, JACK runs
`on_port` in its notification thread, for each port that appears, and
`jack_process` in its audio thread, once in each period.  Two mutexes are shared:
`input_ports_mutex_` guards the ports of the client, and
`port_to_connect_in_jack_process_mutex_` the connections that `on_port` leaves for
`jack_process` to make.  `start` takes them in this order, `on_port` in the other.

A step is what a thread does between two points at which another may interfere; a
thread whose mutex is taken does nothing.  The server is modelled by the ports of
the other clients, the notices of new ports that it has still to deliver, and the
connections to this client's ports: `jack_connect` succeeds when both ports exist
and have the right direction, and the connections of a port go with it.  Nobody
else connects or disconnects these ports.

A step is undefined when `input_ports_[i]` or `buf_[index]` is outside its array.
-/

import LibSwitcher.Lib.Machine

namespace LibSwitcher
namespace JackToShmdata

open Machine

/-- The properties that cannot be set while the quiddity is started.  The range of
`channels` begins at one. -/
structure Settings where
  autoConnect : Bool
  connectTo : String
  index : ℕ
  numChannels : ℕ
  numChannels_pos : 0 < numChannels

/-- A port of another client: its full name, and whether it is `JackPortIsOutput`. -/
structure Port where
  name : String
  isOutput : Bool
  deriving DecidableEq

/-- Where the thread of the properties stands. -/
inductive Main
  | stopped
  /-- in `start`: the client is active, `input_ports_mutex_` is still to be taken -/
  | activated
  /-- in `start`, with `input_ports_mutex_`: the ports are made, `connect_ports` follows -/
  | registering
  /-- in `connect_ports`, with both mutexes, about to connect port `i` -/
  | connecting (i : ℕ)
  | running
  /-- in `stop`: the ports are gone, the client is still to be closed -/
  | cleared
  deriving DecidableEq

/-- The thread of the properties has `input_ports_mutex_`. -/
def Main.hasPorts : Main → Bool
  | .registering => true
  | .connecting _ => true
  | _ => false

/-- The thread of the properties has the mutex of the queue. -/
def Main.hasQueue : Main → Bool
  | .connecting _ => true
  | _ => false

/-- Where the notification thread stands in `on_port`. -/
inductive OnPort
  | idle
  /-- the port is number `i` of `ports_to_connect_` -/
  | found (i : ℕ)
  /-- it has the mutex of the queue, and needs `input_ports_mutex_` -/
  | locked (i : ℕ)
  deriving DecidableEq

/-- The notification thread has the mutex of the queue. -/
def OnPort.hasQueue : OnPort → Bool
  | .locked _ => true
  | _ => false

/-- Where the audio thread stands in `jack_process`. -/
inductive Process
  | idle
  /-- with the mutex of the queue: the connections still to make -/
  | draining (rest : List (String × String))
  /-- with `input_ports_mutex_` -/
  | copying
  deriving DecidableEq

/-- The audio thread has the mutex of the queue. -/
def Process.hasQueue : Process → Bool
  | .draining _ => true
  | _ => false

/-- The members of the quiddity, where its threads stand, and the server. -/
structure State where
  settings : Settings
  portsToConnect : List String
  main : Main
  clientName : String
  /-- `buffer_size_` of the client -/
  bufferSize : ℕ
  /-- the length of `buf_` -/
  buf : ℕ
  /-- the length of `input_ports_` -/
  inputPorts : ℕ
  /-- `port_to_connect_in_jack_process_` -/
  queue : List (String × String)
  onPort : OnPort
  process : Process
  ports : List Port
  notices : List Port
  connections : List (String × String)

/-- What `update_port_to_connect` puts into `ports_to_connect_`, given how `snprintf` writes the
number of a channel into `connect_to`. -/
def updatePortToConnect (snprintf : String → ℕ → String) (c : Settings) : List String :=
  if c.autoConnect then (List.range' c.index c.numChannels).map (snprintf c.connectTo) else []

/-- The quiddity as it is constructed. -/
def init (snprintf : String → ℕ → String) (settings : Settings) (ports : List Port) : State where
  settings := settings
  portsToConnect := updatePortToConnect snprintf settings
  main := .stopped
  clientName := ""
  bufferSize := 0
  buf := 0
  inputPorts := 0
  queue := []
  onPort := .idle
  process := .idle
  ports := ports
  notices := []
  connections := []

/-- `client_name_ + ":" + input_ports_[i].get_name()`. -/
def portName (client : String) (i : ℕ) : String :=
  client ++ ":" ++ ("output_" ++ toString (i + 1))

/-- The interleaved samples of a period, from the buffers of the ports. -/
def interleave {α : Type*} (numChan nframes : ℕ) (bufs : ℕ → ℕ → α) : List α :=
  (List.range nframes).flatMap fun j => (List.range numChan).map fun i => bufs i j

namespace State

/-- Somebody has `input_ports_mutex_`. -/
def portsTaken (s : State) : Bool := s.main.hasPorts || s.process == .copying

/-- Somebody has the mutex of the queue. -/
def queueTaken (s : State) : Bool := s.main.hasQueue || s.onPort.hasQueue || s.process.hasQueue

/-- The client is active. -/
def active (s : State) : Bool := s.main != .stopped

/-- `jack_connect`. -/
def jackConnect (s : State) (c : String × String) : State :=
  { s with
    connections :=
      if c ∉ s.connections ∧ ⟨c.1, true⟩ ∈ s.ports ∧
          ∃ i < s.inputPorts, c.2 = portName s.clientName i then
        c :: s.connections
      else s.connections }

/-! ### The thread of the properties -/

/-- A setter of a property, which calls `update_port_to_connect`. -/
def set (snprintf : String → ℕ → String) (s : State) (c : Settings) : State :=
  if s.main = .stopped then
    { s with settings := c, portsToConnect := updatePortToConnect snprintf c }
  else s

/-- `start` until it takes `input_ports_mutex_`: the server has given the client its name. -/
def activate (s : State) (client : String) (bufferSize : ℕ) : State :=
  if s.main = .stopped then
    { s with
      main := .activated
      clientName := client
      bufferSize := bufferSize
      buf := s.settings.numChannels * bufferSize }
  else s

/-- `start` takes `input_ports_mutex_`. -/
def lockInputPorts (s : State) : State :=
  if s.main = .activated ∧ s.portsTaken = false then
    { s with main := .registering, inputPorts := 0 }
  else s

/-- `input_ports_.emplace_back`. -/
def registerPort (s : State) : State :=
  if s.main = .registering ∧ s.inputPorts < s.settings.numChannels then
    { s with inputPorts := s.inputPorts + 1 }
  else s

/-- `connect_ports` until its loop. -/
def connectPorts (s : State) : State :=
  if s.main = .registering ∧ s.inputPorts = s.settings.numChannels then
    if s.settings.autoConnect = false then { s with main := .running }
    else if s.queueTaken then s
    else if s.portsToConnect.length ≠ s.inputPorts then { s with main := .running }
    else { s with main := .connecting 0 }
  else s

/-- A turn of the loop of `connect_ports`, or its end and that of `start`. -/
def connect (s : State) : State :=
  match s.main with
  | .connecting i =>
      match s.portsToConnect[i]? with
      | some name =>
          { s.jackConnect (name, portName s.clientName i) with main := .connecting (i + 1) }
      | none => { s with main := .running }
  | _ => s

/-- `stop` until it has cleared the ports. -/
def stop (s : State) : State :=
  if s.main = .running ∧ s.portsTaken = false then
    { s with main := .cleared, inputPorts := 0, connections := [] }
  else s

/-- `jack_client_.reset()`, which waits for the callbacks. -/
def close (s : State) : State :=
  if s.main = .cleared ∧ s.onPort = .idle ∧ s.process = .idle then
    { s with main := .stopped, notices := [] }
  else s

/-! ### The notification thread -/

/-- `on_port`, until it takes the mutex of the queue. -/
def notice (s : State) : State :=
  match s.onPort, s.notices with
  | .idle, p :: ps =>
      if p.isOutput ∧ p.name ∈ s.portsToConnect then
        { s with notices := ps, onPort := .found (s.portsToConnect.idxOf p.name) }
      else { s with notices := ps }
  | _, _ => s

/-- `on_port` takes the mutex of the queue. -/
def lockQueue (s : State) : State :=
  match s.onPort with
  | .found i => if s.queueTaken then s else { s with onPort := .locked i }
  | _ => s

/-- `on_port` takes `input_ports_mutex_` as well, and leaves a connection to make. -/
def push (s : State) : Option State :=
  match s.onPort with
  | .locked i =>
      if s.portsTaken then some s
      else if i < s.inputPorts then
        s.portsToConnect[i]?.map fun name =>
          { s with onPort := .idle, queue := s.queue ++ [(name, portName s.clientName i)] }
      else none
  | _ => some s

/-! ### The audio thread -/

/-- `jack_process` is called, and takes the mutex of the queue. -/
def cycle (s : State) : State :=
  if s.active ∧ s.process = .idle ∧ s.queueTaken = false then
    { s with process := .draining s.queue }
  else s

/-- `jack_process` makes the next connection or, after the last, empties the queue and tries to
take `input_ports_mutex_`. -/
def drain (s : State) : State :=
  match s.process with
  | .draining (c :: rest) => { s.jackConnect c with process := .draining rest }
  | .draining [] =>
      { s with queue := [], process := if s.main.hasPorts then .idle else .copying }
  | _ => s

/-- `jack_process` copies the period, when there are ports. -/
def copy {α : Type*} (s : State) (nframes : ℕ) (bufs : ℕ → ℕ → α) :
    Option (State × Option (List α)) :=
  if s.process = .copying then
    if s.inputPorts = 0 then some ({ s with process := .idle }, none)
    else if nframes * s.inputPorts ≤ s.buf then
      some ({ s with process := .idle }, some (interleave s.inputPorts nframes bufs))
    else none
  else some (s, none)

/-! ### The other clients -/

/-- Another client registers a port, under a name that is free. -/
def appear (s : State) (p : Port) : State :=
  if s.ports.any (fun q => q.name = p.name) then s
  else { s with ports := p :: s.ports, notices := if s.active then s.notices ++ [p] else s.notices }

/-- Another client takes a port down. -/
def vanish (s : State) (name : String) : State :=
  { s with
    ports := s.ports.filter fun q => q.name ≠ name
    connections := s.connections.filter fun c => c.1 ≠ name }

end State

/-- The steps that interleave. -/
inductive Event (α : Type*)
  | set (c : Settings)
  | activate (client : String) (bufferSize : ℕ)
  | lockInputPorts
  | registerPort
  | connectPorts
  | connect
  | stop
  | close
  | notice
  | lockQueue
  | push
  | cycle
  | drain
  | copy (nframes : ℕ) (bufs : ℕ → ℕ → α)
  | appear (p : Port)
  | vanish (name : String)

/-- Perform a step; `copy` returns what it has written to the shmdata. -/
def step {α : Type*} (snprintf : String → ℕ → String) (s : State) :
    Event α → Option (State × Option (List α))
  | .set c => some (s.set snprintf c, none)
  | .activate client bufferSize => some (s.activate client bufferSize, none)
  | .lockInputPorts => some (s.lockInputPorts, none)
  | .registerPort => some (s.registerPort, none)
  | .connectPorts => some (s.connectPorts, none)
  | .connect => some (s.connect, none)
  | .stop => some (s.stop, none)
  | .close => some (s.close, none)
  | .notice => some (s.notice, none)
  | .lockQueue => some (s.lockQueue, none)
  | .push => s.push.map fun s' => (s', none)
  | .cycle => some (s.cycle, none)
  | .drain => some (s.drain, none)
  | .copy nframes bufs => s.copy nframes bufs
  | .appear p => some (s.appear p, none)
  | .vanish name => some (s.vanish name, none)

end JackToShmdata
end LibSwitcher
