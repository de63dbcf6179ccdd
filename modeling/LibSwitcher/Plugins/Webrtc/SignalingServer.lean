/-
# The signalling server

`WebRTCSimpleServer` of `plugins/webrtc/signaling/simple_server.py`, the other side of the
connection of `webrtc.cpp`: the peers by their names, the sessions of two peers and the rooms.

Each connection is served by a coroutine.  A coroutine runs until it waits (`await`), and what
happens between two waits of one coroutine is done at once; between them the others go on.  A
`Handler` is where a coroutine waits, with the local variables that it uses afterwards, and an
event lets one of them go on: with a message, with a message or a closing that is sent, or with
the exception that the wait raises.  A send raises `ConnectionClosed` at once if the socket is
closed.  Whatever is raised while messages are handled ends in `remove_peer`, and what is raised
there ends the coroutine.

A set is the list of its members.  An iterator raises `RuntimeError` if the size of its set has
changed, and if the set was changed but not its size, it may go on with any member or stop: the
changes of a room are counted (`version`).  The messages that name an offending text show it as
`repr` does, which is a parameter.
-/

import Mathlib.Logic.Function.Basic
import Mathlib.Data.Nat.Notation
import Mathlib.Tactic.Common

namespace LibSwitcher
namespace Signaling

/-- The characters that `str.split` takes for white space. -/
def isSpace (c : Char) : Bool :=
  let n := c.toNat
  (9 ≤ n && n ≤ 13) || (28 ≤ n && n ≤ 32) || n == 133 || n == 160 || n == 5760 ||
    (8192 ≤ n && n ≤ 8202) || n == 8232 || n == 8233 || n == 8239 || n == 8287 || n == 12288

/-- The parts of a text after at most so many cuts: the last part keeps what it ends with. -/
def splitChars : ℕ → List Char → List (List Char)
  | maxsplit, text =>
      match maxsplit, text.dropWhile isSpace with
      | _, [] => []
      | 0, c :: cs => [c :: cs]
      | n + 1, c :: cs =>
          (c :: cs).takeWhile (! isSpace ·) ::
            splitChars n ((c :: cs).dropWhile (! isSpace ·))

/-- `str.split`, with a maximum. -/
def split (maxsplit : ℕ) (text : String) : List String :=
  (splitChars maxsplit text.toList).map String.ofList

/-- `str.split`: a text has less parts than characters and one more. -/
def splitAll (text : String) : List String := split (text.length + 1) text

/-- `str.startswith`. -/
def startsWith (text pre : String) : Bool := pre.toList.isPrefixOf text.toList

/-- What a coroutine raises.  `ConnectionClosed` comes from a send or from `recv`. -/
inductive Raised where
  | sendClosed
  | recvClosed
  | invalidHello
  | valueError
  | keyError (key : String)
  | nameError (name : String)
  | assertionError
  | runtimeError
  deriving DecidableEq

/-- An entry of `peers`. -/
structure Peer (κ : Type*) where
  ws : κ
  status : Option String
  deriving DecidableEq

/-- A set of `rooms`, with the number of its changes. -/
structure Room where
  members : List String
  version : ℕ
  deriving DecidableEq

/-- An iterator over a room: what it knows of the set, and what comes next. -/
structure Turn where
  size : ℕ
  version : ℕ
  rest : List String
  deriving DecidableEq

/-- Where the coroutine of a connection waits. -/
inductive Handler (κ : Type*) where
  /-- There is no connection. -/
  | absent
  /-- `ws.recv()` of `hello_peer`. -/
  | hello
  /-- `ws.close(...)` of `hello_peer`. -/
  | rejecting
  /-- `ws.send('HELLO')`. -/
  | greeting (uid : String)
  /-- `recv_msg_ping` of `connection_handler`. -/
  | receiving (uid : String) (roomId : Option String)
  /-- A send after which the next message is awaited. -/
  | replying (uid : String) (roomId : Option String)
  /-- `ws.send('SESSION_OK')`. -/
  | calling (uid : String) (roomId : Option String) (calleeId : String)
  /-- `ws.send('ROOM_OK ...')`. -/
  | entering (uid roomId : String)
  /-- `wsp.send('ROOM_PEER_JOINED ...')`. -/
  | announcing (uid roomId : String) (turn : Turn)
  /-- `wso.close()` of `cleanup_session`. -/
  | closingPartner (uid : String)
  /-- `wsp.send('ROOM_PEER_LEFT ...')`, with the socket that `remove_peer` closes afterwards. -/
  | leaving (uid roomId : String) (ws : κ) (turn : Turn)
  /-- `ws.close()` of `remove_peer`. -/
  | closing
  /-- The coroutine has ended. -/
  | done
  deriving DecidableEq

/-- The server. -/
structure Server (κ : Type*) where
  peers : String → Option (Peer κ)
  sessions : String → Option String
  rooms : String → Option Room
  handlers : κ → Handler κ
  /-- The sockets that are closed. -/
  closed : κ → Bool
  /-- What was sent to each socket. -/
  sent : κ → List String

/-- What lets a coroutine go on.  `next` is what an iterator gives whose set was changed. -/
inductive Event (κ : Type*) where
  /-- A connection is accepted. -/
  | connect (ws : κ)
  /-- `recv` returns a message. -/
  | receive (ws : κ) (msg : String)
  /-- `recv` raises `ConnectionClosed`. -/
  | receiveFails (ws : κ)
  /-- A send or a closing returns; a send that does not raises `ConnectionClosed`. -/
  | resume (ws : κ) (ok : Bool) (next : Option String)
  /-- The connection is lost. -/
  | lost (ws : κ)

/-- The connection of an event. -/
def Event.ws {κ : Type*} : Event κ → κ
  | connect ws | receive ws _ | receiveFails ws | resume ws _ _ | lost ws => ws

/-- What the coroutine of a connection did: the server afterwards, and what was raised. -/
abbrev Outcome (κ : Type*) := Server κ × List Raised

namespace Server

variable {κ : Type*} [DecidableEq κ]

/-- The server before any connection. -/
def init : Server κ where
  peers _ := none
  sessions _ := none
  rooms _ := none
  handlers _ := .absent
  closed _ := false
  sent _ := []

/-- The coroutine of a connection waits. -/
def await (s : Server κ) (ws : κ) (handler : Handler κ) : Server κ :=
  { s with handlers := Function.update s.handlers ws handler }

/-- A socket is closed. -/
def close (s : Server κ) (ws : κ) : Server κ :=
  { s with closed := Function.update s.closed ws true }

/-- A coroutine ends, and its socket is closed. -/
def finish (s : Server κ) (ws : κ) : Server κ := (s.await ws .done).close ws

/-- A message is sent: nothing if the socket is closed. -/
def send (s : Server κ) (ws : κ) (text : String) : Option (Server κ) :=
  if s.closed ws then none
  else some { s with sent := Function.update s.sent ws (s.sent ws ++ [text]) }

/-- An entry of `peers` is written or deleted. -/
def setPeer (s : Server κ) (uid : String) (peer : Option (Peer κ)) : Server κ :=
  { s with peers := Function.update s.peers uid peer }

/-- An entry of `sessions` is written or deleted. -/
def setSession (s : Server κ) (uid : String) (other : Option String) : Server κ :=
  { s with sessions := Function.update s.sessions uid other }

/-- A set of `rooms` is written. -/
def setRoom (s : Server κ) (roomId : String) (room : Room) : Server κ :=
  { s with rooms := Function.update s.rooms roomId (some room) }

end Server

/-- `set.remove`, of a member. -/
def Room.remove (room : Room) (uid : String) : Room :=
  ⟨room.members.filter (· ≠ uid), room.version + 1⟩

/-- `set.add`. -/
def Room.add (room : Room) (uid : String) : Room :=
  if uid ∈ room.members then room else ⟨room.members ++ [uid], room.version + 1⟩

/-- An iterator over a room. -/
def Room.turn (room : Room) : Turn := ⟨room.members.length, room.version, room.members⟩

/-- The iterator goes on: nothing where it raises `RuntimeError`. -/
def Turn.goOn (turn : Turn) (room : Option Room) (next : Option String) : Option Turn :=
  match room with
  | none => some turn
  | some room =>
      if room.members.length ≠ turn.size then none
      else if room.version = turn.version then some turn
      else some { turn with rest := next.toList.filter (· ∈ room.members) }

namespace Server

variable {κ : Type*} [DecidableEq κ]

/-- `del self.peers[uid]` and `await ws.close()` of `remove_peer`. -/
def dropEntry (s : Server κ) (ws : κ) (uid : String) (own : κ) : Outcome κ :=
  if s.peers uid = none then (s.finish ws, [.keyError uid])
  else (((s.setPeer uid none).close own).await ws .closing, [])

/-- The loop of `cleanup_room`. -/
def leaveLoop (s : Server κ) (ws : κ) (uid roomId : String) (own : κ) (turn : Turn) : Outcome κ :=
  match turn.rest with
  | [] => s.dropEntry ws uid own
  | pid :: rest =>
      match s.peers pid with
      | none => (s.finish ws, [.keyError pid])
      | some peer =>
          match s.send peer.ws ("ROOM_PEER_LEFT " ++ uid) with
          | none => (s.finish ws, [.sendClosed])
          | some s => (s.await ws (.leaving uid roomId own { turn with rest := rest }), [])

/-- `cleanup_room`, and what comes after it. -/
def cleanupRoom (s : Server κ) (ws : κ) (uid roomId : String) (own : κ) : Outcome κ :=
  match s.rooms roomId with
  | none => (s.finish ws, [.keyError roomId])
  | some room =>
      if uid ∉ room.members then s.dropEntry ws uid own
      else (s.setRoom roomId (room.remove uid)).leaveLoop ws uid roomId own (room.remove uid).turn

/-- `remove_peer` after `cleanup_session`. -/
def removeEntry (s : Server κ) (ws : κ) (uid : String) : Outcome κ :=
  match s.peers uid with
  | none => (s.finish ws, [])
  | some peer =>
      match peer.status with
      | none => s.dropEntry ws uid peer.ws
      | some status =>
          if status ≠ "" ∧ status ≠ "session" then s.cleanupRoom ws uid status peer.ws
          else s.dropEntry ws uid peer.ws

/-- `remove_peer`: `cleanup_session` closes the connection of the partner. -/
def removePeer (s : Server κ) (ws : κ) (uid : String) : Outcome κ :=
  match s.sessions uid with
  | none => s.removeEntry ws uid
  | some other =>
      let s := s.setSession uid none
      if s.sessions other = none then s.removeEntry ws uid
      else
        let s := s.setSession other none
        match s.peers other with
        | none => s.removeEntry ws uid
        | some peer =>
            (((s.setPeer other none).close peer.ws).await ws (.closingPartner uid), [])

/-- An exception that leaves `connection_handler`. -/
def raised (s : Server κ) (ws : κ) (uid : String) (exception : Raised) : Outcome κ :=
  ((s.removePeer ws uid).1, exception :: (s.removePeer ws uid).2)

/-- A message is sent, and what comes next is awaited. -/
def sendThen (s : Server κ) (ws : κ) (uid : String) (target : κ) (text : String)
    (handler : Handler κ) : Outcome κ :=
  match s.send target text with
  | none => s.raised ws uid .sendClosed
  | some s => (s.await ws handler, [])

/-- The loop over the members of a room that is entered. -/
def announceLoop (s : Server κ) (ws : κ) (uid roomId : String) (size version : ℕ) :
    List String → Outcome κ
  | [] => (s.await ws (.receiving uid (some roomId)), [])
  | pid :: rest =>
      if pid = uid then announceLoop s ws uid roomId size version rest
      else
        match s.peers pid with
        | none => s.raised ws uid (.keyError pid)
        | some peer =>
            s.sendThen ws uid peer.ws ("ROOM_PEER_JOINED " ++ uid)
              (.announcing uid roomId ⟨size, version, rest⟩)

/-- A message in a session is sent to the partner. -/
def relay (s : Server κ) (ws : κ) (uid : String) (roomId : Option String) (msg : String) :
    Outcome κ :=
  match s.sessions uid with
  | none => s.raised ws uid (.keyError uid)
  | some other =>
      match s.peers other with
      | none => s.raised ws uid (.keyError other)
      | some peer =>
          if peer.status ≠ some "session" then s.raised ws uid .assertionError
          else s.sendThen ws uid peer.ws msg (.replying uid roomId)

/-- A message of a peer that is in a room. -/
def roomCommand (repr : String → String) (s : Server κ) (ws : κ) (uid : String)
    (roomId : Option String) (msg : String) : Outcome κ :=
  if startsWith msg "ROOM_PEER_MSG" then
    match split 2 msg with
    | [_, other, body] =>
        match s.peers other with
        | none =>
            s.sendThen ws uid ws ("ERROR peer " ++ repr other ++ " not found")
              (.replying uid roomId)
        | some peer =>
            match roomId with
            | none => s.raised ws uid (.nameError "room_id")
            | some room =>
                if peer.status ≠ some room then
                  s.sendThen ws uid ws ("ERROR peer " ++ repr other ++ " is not in the room")
                    (.replying uid roomId)
                else
                  s.sendThen ws uid peer.ws ("ROOM_PEER_MSG " ++ uid ++ " " ++ body)
                    (.replying uid roomId)
    | _ => s.raised ws uid .valueError
  else if msg = "ROOM_PEER_LIST" then s.raised ws uid (.nameError "peer_id")
  else s.sendThen ws uid ws "ERROR invalid msg, already in room" (.replying uid roomId)

/-- The request of a session. -/
def requestSession (repr : String → String) (s : Server κ) (ws : κ) (uid : String)
    (roomId : Option String) (msg : String) : Outcome κ :=
  match split 1 msg with
  | [_, callee] =>
      if s.peers callee = none then
        s.sendThen ws uid ws ("ERROR peer " ++ repr callee ++ " not found") (.replying uid roomId)
      else s.sendThen ws uid ws "SESSION_OK" (.calling uid roomId callee)
  | _ => s.raised ws uid .valueError

/-- A room is created if it is not there. -/
def openRoom (s : Server κ) (roomId : String) : Server κ :=
  match s.rooms roomId with
  | none => s.setRoom roomId ⟨[], 0⟩
  | some _ => s

/-- The members of a room that is there. -/
def members (s : Server κ) (roomId : String) : List String :=
  match s.rooms roomId with
  | none => []
  | some room => room.members

/-- The request to enter a room. -/
def requestRoom (repr : String → String) (s : Server κ) (ws : κ) (uid : String) (msg : String) :
    Outcome κ :=
  match split 1 msg with
  | [_, roomId] =>
      if roomId = "session" ∨ splitAll roomId ≠ [roomId] then
        s.sendThen ws uid ws ("ERROR invalid room id " ++ repr roomId) (.replying uid (some roomId))
      else if uid ∈ s.members roomId then s.raised ws uid .assertionError
      else
        (s.openRoom roomId).sendThen ws uid ws ("ROOM_OK " ++ " ".intercalate (s.members roomId))
          (.entering uid roomId)
  | _ => s.raised ws uid .valueError

/-- The body of the loop of `connection_handler`. -/
def handle (repr : String → String) (s : Server κ) (ws : κ) (uid : String)
    (roomId : Option String) (msg : String) : Outcome κ :=
  match s.peers uid with
  | none => s.raised ws uid (.keyError uid)
  | some peer =>
      match peer.status with
      | some status =>
          if status = "session" then s.relay ws uid roomId msg
          else if status ≠ "" then s.roomCommand repr ws uid roomId msg
          else s.raised ws uid .assertionError
      | none =>
          if startsWith msg "SESSION" then s.requestSession repr ws uid roomId msg
          else if startsWith msg "ROOM" then s.requestRoom repr ws uid msg
          else (s.await ws (.receiving uid roomId), [])

/-- `hello_peer`, after the message. -/
def helloPeer (s : Server κ) (ws : κ) (hello : String) : Outcome κ :=
  match split 1 hello with
  | [command, uid] =>
      if command ≠ "HELLO" then (s.close ws |>.await ws .rejecting, [])
      else if uid = "" ∨ s.peers uid ≠ none ∨ splitAll uid ≠ [uid] then
        (s.close ws |>.await ws .rejecting, [])
      else
        match s.send ws "HELLO" with
        | none => (s.finish ws, [.sendClosed])
        | some s => (s.await ws (.greeting uid), [])
  | _ => (s.finish ws, [.valueError])

/-- A session is registered, after `SESSION_OK`. -/
def openSession (s : Server κ) (ws : κ) (uid : String) (roomId : Option String) (callee : String) :
    Outcome κ :=
  match s.peers callee, s.peers uid with
  | none, _ => s.raised ws uid (.keyError callee)
  | _, none => s.raised ws uid (.keyError uid)
  | some _, some own =>
      let s := (s.setPeer uid (some { own with status := some "session" })).setSession uid
        (some callee)
      let s := s.setPeer callee ((s.peers callee).map fun peer =>
        { peer with status := some "session" })
      ((s.setSession callee (some uid)).await ws (.receiving uid roomId), [])

/-- A room is entered, after `ROOM_OK`. -/
def enterRoom (s : Server κ) (ws : κ) (uid roomId : String) : Outcome κ :=
  match s.peers uid with
  | none => s.raised ws uid (.keyError uid)
  | some own =>
      let s := s.setPeer uid (some { own with status := some roomId })
      match s.rooms roomId with
      | none => s.raised ws uid (.keyError roomId)
      | some room =>
          (s.setRoom roomId (room.add uid)).announceLoop ws uid roomId
            (room.add uid).members.length (room.add uid).version (room.add uid).members

/-- A wait returns, or raises. -/
def resume (s : Server κ) (ws : κ) (ok : Bool) (next : Option String) : Option (Outcome κ) :=
  match s.handlers ws with
  | .rejecting => some (s.finish ws, [.invalidHello])
  | .greeting uid =>
      if ok then some ((s.setPeer uid (some ⟨ws, none⟩)).await ws (.receiving uid none), [])
      else some (s.finish ws, [.sendClosed])
  | .replying uid roomId =>
      if ok then some (s.await ws (.receiving uid roomId), [])
      else some (s.raised ws uid .sendClosed)
  | .calling uid roomId callee =>
      some (if ok then s.openSession ws uid roomId callee else s.raised ws uid .sendClosed)
  | .entering uid roomId =>
      some (if ok then s.enterRoom ws uid roomId else s.raised ws uid .sendClosed)
  | .announcing uid roomId turn =>
      if ok then
        match turn.goOn (s.rooms roomId) next with
        | none => some (s.raised ws uid .runtimeError)
        | some turn => some (s.announceLoop ws uid roomId turn.size turn.version turn.rest)
      else some (s.raised ws uid .sendClosed)
  | .closingPartner uid => some (s.removeEntry ws uid)
  | .leaving uid roomId own turn =>
      if ok then
        match turn.goOn (s.rooms roomId) next with
        | none => some (s.finish ws, [.runtimeError])
        | some turn => some (s.leaveLoop ws uid roomId own turn)
      else some (s.finish ws, [.sendClosed])
  | .closing => some (s.finish ws, [])
  | .absent | .hello | .receiving _ _ | .done => none

/-- One event: undefined where the coroutine does not wait for it. -/
def step (repr : String → String) (s : Server κ) : Event κ → Option (Outcome κ)
  | .connect ws => if s.handlers ws = .absent then some (s.await ws .hello, []) else none
  | .receive ws msg =>
      match s.handlers ws with
      | .hello => some (s.helloPeer ws msg)
      | .receiving uid roomId => some (s.handle repr ws uid roomId msg)
      | _ => none
  | .receiveFails ws =>
      if s.closed ws = false then none
      else
        match s.handlers ws with
        | .hello => some (s.finish ws, [.recvClosed])
        | .receiving uid _ => some (s.raised ws uid .recvClosed)
        | _ => none
  | .resume ws ok next => s.resume ws ok next
  | .lost ws => some (s.close ws, [])

end Server

end Signaling
end LibSwitcher
