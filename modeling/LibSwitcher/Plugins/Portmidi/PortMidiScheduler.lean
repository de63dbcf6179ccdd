/-
# System-exclusive messages

`PortMidi::PortMidiScheduler` of `plugins/portmidi/portmidi-devices.cpp`.  A timer calls
`process_midi`, which reads the input streams until they are empty, unless the application is
sending a system-exclusive message, and then writes the messages that are queued for the
output streams.  A message is four bytes; a system-exclusive one begins with `0xF0`, goes on
over any number of messages, and ends with `0xF7`.

What is queued for a stream is written to it, in its order.  But the flag that a
system-exclusive message is being sent is one for all streams; it is reset by any message that
does not begin one and is no real-time message, and its end is looked for in the last
message that was read instead of the one that was written.  So after a call the flag tells
that a stream has begun a system-exclusive message and not ended it exactly if the last
message of the call that is no real-time message happens to leave it so (`DelimitsOk`,
`delimited_iff`).
-/

import LibSwitcher.Plugins.Portmidi.PortMidiSource

namespace LibSwitcher
namespace Portmidi

open PortMidiSource (messageStatus messageData1 messageData2)

/-! ### Messages -/

/-- `Pm_Message`. -/
def pmMessage (status data1 data2 : UInt8) : BitVec 32 :=
  (data2.toBitVec.setWidth 32 <<< 16) ||| (data1.toBitVec.setWidth 32 <<< 8) |||
    status.toBitVec.setWidth 32

/-- The four bytes of a message. -/
def messageBytes (message : BitVec 32) : List (BitVec 32) :=
  [messageStatus message, messageData1 message, messageData2 message, (message >>> 24) &&& 0xFF]

/-- `MIDI_SYSEX` and `MIDI_EOX`. -/
def midiSysex : BitVec 32 := 0xF0

def midiEox : BitVec 32 := 0xF7

/-- A real-time message, which may come between the parts of another one. -/
def isRealTime (message : BitVec 32) : Bool := messageStatus message &&& 0xF8 = 0xF8

/-- One of the four bytes ends a system-exclusive message. -/
def hasEox (message : BitVec 32) : Bool := (messageBytes message).contains midiEox

/-! ### The scheduler -/

/-- `PortMidiScheduler`.  A stream is known by its address, which orders the maps; the functions
that are called for input are not part of the state. -/
structure PortMidiScheduler where
  finalizing : Bool
  inputCallbacks : IdMap Unit
  outputQueues : IdMap (List (BitVec 32))
  portmidiInitialized : Bool
  appSysexInProgress : Bool
  thruSysexInProgress : Bool

/-- The scheduler with what it did: the messages that callbacks were called with, those that
were written to output streams, and those that were queued for them. -/
structure World extends PortMidiScheduler where
  received : List (ℕ × BitVec 32)
  written : List (ℕ × BitVec 32)
  queued : List (ℕ × BitVec 32)

/-- What `Pm_Read` gives: a message, or an overflow. -/
structure Read where
  message : BitVec 32
  overflow : Bool

namespace World

/-- One turn of the loop that reads an input stream; `buffer` is what was read last. -/
def readMessage (stream : ℕ) (s : World × BitVec 32) (r : Read) : World × BitVec 32 :=
  let (w, _) := s
  let buffer := r.message
  let status := messageStatus buffer
  if r.overflow then (w, buffer)
  -- data of a message that has timed out
  else if status &&& 0x80 = 0 ∧ ¬w.thruSysexInProgress then (w, buffer)
  else
    let thru := if status = midiSysex then true
      else if ¬isRealTime buffer then false
      else w.thruSysexInProgress
    let thru := if thru && hasEox buffer then false else thru
    ({ w with thruSysexInProgress := thru, received := w.received ++ [(stream, buffer)] }, buffer)

/-- The loop on the input streams, which are left alone while the application sends a
system-exclusive message. -/
def readStreams (w : World) (reads : ℕ → List Read) (buffer : BitVec 32) : World × BitVec 32 :=
  w.inputCallbacks.toList.foldl (fun s itr =>
    if ¬s.1.appSysexInProgress then (reads itr.1).foldl (readMessage itr.1) s else s) (w, buffer)

/-- The flag after a message is written: the end is looked for in what was read last. -/
def appSysex (buffer : BitVec 32) (flag : Bool) (message : BitVec 32) : Bool :=
  let app := if messageStatus message = midiSysex then true
    else if ¬isRealTime message then false
    else flag
  if app && hasEox buffer then false else app

/-- One turn of the loop that writes the messages of an output stream. -/
def writeMessage (stream : ℕ) (buffer : BitVec 32) (w : World) (message : BitVec 32) : World :=
  { w with
    thruSysexInProgress := if isRealTime message then w.thruSysexInProgress else false
    written := w.written ++ [(stream, message)]
    appSysexInProgress := appSysex buffer w.appSysexInProgress message }

/-- The loop on the output streams, whose queues are empty in the end. -/
def writeStreams (w : World) (buffer : BitVec 32) : World :=
  let w := w.outputQueues.toList.foldl
    (fun w itr => itr.2.foldl (writeMessage itr.1 buffer) w) w
  { w with outputQueues := w.outputQueues.map fun _ _ => [] }

/-- `process_midi`.  Nothing gives `buffer` a value before a message is read. -/
def processMidi (w : World) (reads : ℕ → List Read) (buffer : BitVec 32) : World :=
  if w.finalizing then w
  else if ¬w.portmidiInitialized then w
  else
    let (w, buffer) := w.readStreams reads buffer
    w.writeStreams buffer

/-- `add_input_stream`, for a stream that PortMidi opened. -/
def addInputStream (w : World) (stream : ℕ) : World :=
  { w with inputCallbacks := w.inputCallbacks.insert stream () }

/-- `add_output_stream`, for a stream that PortMidi opened, which none of those that are open
is. -/
def addOutputStream (w : World) (stream : ℕ) : World :=
  { w with outputQueues := w.outputQueues.insertIfNew stream [] }

/-- `push_midi_message` and `push_message`: nothing is queued for a stream that is not open. -/
def pushMessage (w : World) (stream : ℕ) (message : BitVec 32) : World :=
  match w.outputQueues[stream]? with
  | none => w
  | some queue =>
      { w with
        outputQueues := w.outputQueues.insert stream (queue ++ [message])
        queued := w.queued ++ [(stream, message)] }

end World

/-- What happens to the scheduler: streams are opened, a message is queued for one, and the
timer calls, with what there is to be read from each input stream and what the memory of
`buffer` holds. -/
inductive SchedulerEvent
  | addInputStream (stream : ℕ)
  | addOutputStream (stream : ℕ)
  | pushMessage (stream : ℕ) (message : BitVec 32)
  | processMidi (reads : ℕ → List Read) (buffer : BitVec 32)

/-- The world after an event. -/
def World.next (w : World) : SchedulerEvent → World
  | .addInputStream stream => w.addInputStream stream
  | .addOutputStream stream => w.addOutputStream stream
  | .pushMessage stream message => w.pushMessage stream message
  | .processMidi reads buffer => w.processMidi reads buffer

def World.step (w : World) (e : SchedulerEvent) : Option (World × Unit) := some (w.next e, ())

/-- After the constructor. -/
def World.start : World where
  finalizing := false
  inputCallbacks := ∅
  outputQueues := ∅
  portmidiInitialized := true
  appSysexInProgress := false
  thruSysexInProgress := false
  received := []
  written := []
  queued := []

/-! ### What is sent -/

/-- The messages of a stream. -/
def messagesTo (stream : ℕ) (log : List (ℕ × BitVec 32)) : List (BitVec 32) :=
  (log.filter fun e => e.1 = stream).map Prod.snd

/-- The bytes that a message sends: a real-time message is its status alone. -/
def sentBytes (message : BitVec 32) : List (BitVec 32) :=
  if isRealTime message then [messageStatus message] else messageBytes message

/-- After a byte, a system-exclusive message has begun and not ended. -/
def sysexByte (inSysex : Bool) (byte : BitVec 32) : Bool :=
  if byte = midiSysex then true else if byte = midiEox then false else inSysex

/-- A system-exclusive message has begun and not ended with the bytes of messages. -/
def inSysex (messages : List (BitVec 32)) : Bool :=
  (messages.flatMap sentBytes).foldl sysexByte false

/-- Some stream has been sent the begin of a system-exclusive message and not its end. -/
def SomeInSysex (written : List (ℕ × BitVec 32)) : Prop :=
  ∃ stream, inSysex (messagesTo stream written) = true

/-- What should hold after a call: the flag tells that a system-exclusive message is being sent, and
each stream has been sent what was queued for it. -/
structure Delimited (w : World) : Prop where
  flag : w.appSysexInProgress = true ↔ SomeInSysex w.written
  sent : ∀ stream, messagesTo stream w.written = messagesTo stream w.queued

/-- What the call should do. -/
def CallDelimited (_ : World) (e : SchedulerEvent) (r : World × Unit) : Prop :=
  match e with
  | .processMidi _ _ => Delimited r.1
  | _ => True

/-! ### When it does -/

/-- The messages that a call writes, with their streams. -/
def pending (queues : IdMap (List (BitVec 32))) : List (ℕ × BitVec 32) :=
  queues.toList.flatMap fun itr => itr.2.map fun message => (itr.1, message)

/-- The condition for a call: if its last message that is no real-time message begins a
system-exclusive message, what was read last ends one exactly if no stream is left in one;
if it is another message, no stream is left in one; and if there are real-time messages
only, what was read last does not end one while a stream is in one. -/
def DelimitsOk (w : World) : SchedulerEvent → Prop
  | .processMidi reads buffer =>
      let messages := pending w.outputQueues
      let last := (messages.filter fun e => !isRealTime e.2).getLast?
      let ends := hasEox (w.readStreams reads buffer).2
      match last with
      | some (_, message) =>
          if messageStatus message = midiSysex then
            ends = true ↔ ¬SomeInSysex (w.written ++ messages)
          else ¬SomeInSysex (w.written ++ messages)
      | none => messages = [] ∨ ¬(ends = true ∧ SomeInSysex w.written)
  | _ => True

/-! ### What a call does -/

variable {w : World} {stream : ℕ} {message buffer : BitVec 32} {log : List (ℕ × BitVec 32)}
  {messages : List (BitVec 32)} {flag : Bool}

theorem messagesTo_append (stream : ℕ) (log log' : List (ℕ × BitVec 32)) :
    messagesTo stream (log ++ log') = messagesTo stream log ++ messagesTo stream log' := by
  rw [messagesTo, List.filter_append, List.map_append]
  rfl

theorem messagesTo_singleton (stream : ℕ) (e : ℕ × BitVec 32) :
    messagesTo stream [e] = if e.1 = stream then [e.2] else [] := by
  rw [messagesTo, List.filter_cons, List.filter_nil]
  by_cases h : e.1 = stream
  · rw [if_pos h, if_pos (decide_eq_true h)]
    rfl
  · rw [if_neg h, if_neg (by simpa using h)]
    rfl

/-- Worlds in which the same was sent and the same is to be. -/
structure SameOutput (w w' : World) : Prop where
  outputQueues : w'.outputQueues = w.outputQueues
  written : w'.written = w.written
  queued : w'.queued = w.queued
  app : w'.appSysexInProgress = w.appSysexInProgress
  finalizing : w'.finalizing = w.finalizing
  initialized : w'.portmidiInitialized = w.portmidiInitialized

theorem SameOutput.refl (w : World) : SameOutput w w := ⟨rfl, rfl, rfl, rfl, rfl, rfl⟩

theorem SameOutput.trans {w w' w'' : World} (h : SameOutput w w') (h' : SameOutput w' w'') :
    SameOutput w w'' where
  outputQueues := h'.outputQueues.trans h.outputQueues
  written := h'.written.trans h.written
  queued := h'.queued.trans h.queued
  app := h'.app.trans h.app
  finalizing := h'.finalizing.trans h.finalizing
  initialized := h'.initialized.trans h.initialized

/-- A loop whose turns change nothing of this does not either. -/
theorem sameOutput_foldl {α : Type} {f : World × BitVec 32 → α → World × BitVec 32}
    (hf : ∀ s a, SameOutput s.1 (f s a).1) (l : List α) (s : World × BitVec 32) :
    SameOutput s.1 (l.foldl f s).1 := by
  induction l generalizing s with
  | nil => exact .refl s.1
  | cons a l ih => exact (hf s a).trans (ih (f s a))

theorem sameOutput_readMessage (stream : ℕ) (s : World × BitVec 32) (r : Read) :
    SameOutput s.1 (World.readMessage stream s r).1 := by
  obtain ⟨w, b⟩ := s
  rw [World.readMessage]
  dsimp only
  split_ifs
  all_goals exact ⟨rfl, rfl, rfl, rfl, rfl, rfl⟩

/-- Reading leaves what was sent, and what is to be. -/
theorem sameOutput_readStreams (w : World) (reads : ℕ → List Read) (buffer : BitVec 32) :
    SameOutput w (w.readStreams reads buffer).1 := by
  refine sameOutput_foldl (fun s itr => ?_) w.inputCallbacks.toList (w, buffer)
  split_ifs
  · exact .refl s.1
  · exact sameOutput_foldl (sameOutput_readMessage itr.1) (reads itr.1) s

/-! ### Writing -/

/-- What is written, and the flag, after the loops on the output streams. -/
theorem foldl_writeMessage (buffer : BitVec 32) (w : World) (messages : List (ℕ × BitVec 32)) :
    ∃ thru, messages.foldl (fun w e => w.writeMessage e.1 buffer e.2) w =
      { w with
        thruSysexInProgress := thru
        written := w.written ++ messages
        appSysexInProgress :=
          (messages.map Prod.snd).foldl (World.appSysex buffer) w.appSysexInProgress } := by
  induction messages generalizing w with
  | nil => exact ⟨w.thruSysexInProgress, by rw [List.append_nil]; rfl⟩
  | cons e messages ih =>
      obtain ⟨thru, h⟩ := ih (w.writeMessage e.1 buffer e.2)
      refine ⟨thru, ?_⟩
      rw [List.foldl_cons, h, World.writeMessage, List.append_assoc, List.map_cons, List.foldl_cons]
      rfl

/-- The loops write what is pending. -/
theorem writeStreams_eq (buffer : BitVec 32) (w : World) :
    ∃ thru, w.writeStreams buffer =
      { w with
        outputQueues := w.outputQueues.map fun _ _ => []
        thruSysexInProgress := thru
        written := w.written ++ pending w.outputQueues
        appSysexInProgress := ((pending w.outputQueues).map Prod.snd).foldl
          (World.appSysex buffer) w.appSysexInProgress } := by
  obtain ⟨thru, h⟩ := foldl_writeMessage buffer w (pending w.outputQueues)
  have hloops : w.outputQueues.toList.foldl
      (fun w itr => itr.2.foldl (World.writeMessage itr.1 buffer) w) w =
        (pending w.outputQueues).foldl (fun w e => w.writeMessage e.1 buffer e.2) w := by
    rw [pending, List.foldl_flatMap]
    refine congrArg (fun f => List.foldl f w w.outputQueues.toList) (funext fun w => ?_)
    funext itr
    rw [List.foldl_map]
  refine ⟨thru, ?_⟩
  rw [World.writeStreams, hloops, h]

/-- Of what is pending, a stream is sent what is queued for it. -/
theorem messagesTo_pending (queues : IdMap (List (BitVec 32))) (stream : ℕ) :
    messagesTo stream (pending queues) = (queues[stream]?).getD [] := by
  have hself : ∀ queue : List (BitVec 32),
      messagesTo stream (queue.map fun message => (stream, message)) = queue := by
    intro queue
    induction queue with
    | nil => rfl
    | cons message queue ih =>
        rw [List.map_cons, ← List.singleton_append, messagesTo_append, ih, messagesTo_singleton,
          if_pos rfl]
        rfl
  have hother : ∀ l : List (ℕ × List (BitVec 32)), stream ∉ l.map Prod.fst →
      messagesTo stream (l.flatMap fun itr => itr.2.map fun message => (itr.1, message)) = [] := by
    intro l hl
    rw [messagesTo, List.map_eq_nil_iff, List.filter_eq_nil_iff]
    intro e he heq
    obtain ⟨itr, hitr, he⟩ := List.mem_flatMap.1 he
    obtain ⟨message, -, rfl⟩ := List.mem_map.1 he
    exact hl (List.mem_map.2 ⟨itr, hitr, of_decide_eq_true heq⟩)
  have hkeys : (queues.toList.map Prod.fst).Nodup := by
    rw [Std.ExtTreeMap.map_fst_toList_eq_keys]
    exact Std.ExtTreeMap.nodup_keys
  cases hq : queues[stream]? with
  | none =>
      refine hother queues.toList fun hmem => ?_
      exact IdMap.getElem?_eq_none_iff.1 hq (IdMap.mem_map_fst_toList.1 hmem)
  | some queue =>
      have hmem := Std.ExtTreeMap.mem_toList_iff_getElem?_eq_some.2 hq
      obtain ⟨l, r, hlr⟩ := List.append_of_mem hmem
      rw [hlr, List.map_append, List.map_cons, List.nodup_append, List.nodup_cons] at hkeys
      have hl : stream ∉ l.map Prod.fst := fun hin =>
        hkeys.2.2 stream hin stream List.mem_cons_self rfl
      rw [pending, hlr, List.flatMap_append, List.flatMap_cons, messagesTo_append,
        messagesTo_append, hother l hl, hother r hkeys.2.1.1, hself, List.nil_append,
        List.append_nil]
      rfl

/-! ### The flag -/

/-- A real-time message begins nothing and ends nothing. -/
theorem messageStatus_ne_of_isRealTime (h : isRealTime message = true) :
    messageStatus message ≠ midiSysex ∧ messageStatus message ≠ midiEox := by
  have hmask := of_decide_eq_true h
  constructor
  · intro heq
    rw [heq] at hmask
    exact absurd hmask (by decide)
  · intro heq
    rw [heq] at hmask
    exact absurd hmask (by decide)

/-- The flag after a message, by the kind of the message. -/
theorem appSysex_eq (buffer : BitVec 32) (flag : Bool) (message : BitVec 32) :
    World.appSysex buffer flag message =
      ((if isRealTime message then flag else decide (messageStatus message = midiSysex)) &&
        !hasEox buffer) := by
  rw [World.appSysex]
  by_cases hrt : isRealTime message = true
  · rw [if_neg (messageStatus_ne_of_isRealTime hrt).1, hrt]
    cases flag <;> cases hasEox buffer <;> rfl
  · rw [Bool.not_eq_true] at hrt
    rw [hrt]
    by_cases hsysex : messageStatus message = midiSysex
    · rw [if_pos hsysex, decide_eq_true hsysex]
      cases hasEox buffer <;> rfl
    · rw [if_neg hsysex, decide_eq_false hsysex]
      rfl

/-- The flag after messages: the last one that is no real-time message decides it. -/
theorem foldl_appSysex (buffer : BitVec 32) (flag : Bool) (messages : List (BitVec 32)) :
    messages.foldl (World.appSysex buffer) flag =
      match (messages.filter fun m => !isRealTime m).getLast? with
      | some message => decide (messageStatus message = midiSysex) && !hasEox buffer
      | none => if messages = [] then flag else flag && !hasEox buffer := by
  induction messages using List.reverseRecOn with
  | nil => rfl
  | append_singleton messages message ih =>
      rw [List.foldl_append, List.foldl_cons, List.foldl_nil, ih, appSysex_eq, List.filter_append]
      by_cases hrt : isRealTime message = true
      · rw [hrt, if_pos rfl, List.filter_cons_of_neg (by simp [hrt]), List.filter_nil,
          List.append_nil]
        cases (messages.filter fun m => !isRealTime m).getLast? with
        | none =>
            dsimp only
            rw [if_neg (List.concat_ne_nil message messages)]
            split_ifs
            · rfl
            · rw [Bool.and_assoc, Bool.and_self]
        | some last =>
            dsimp only
            rw [Bool.and_assoc, Bool.and_self]
      · rw [if_neg hrt, List.filter_cons_of_pos (by simpa using hrt), List.filter_nil,
          List.getLast?_concat]

/-- Real-time messages do not change whether a stream is in a system-exclusive message. -/
theorem inSysex_append_of_realTime (sent : List (BitVec 32))
    (h : ∀ m ∈ messages, isRealTime m = true) : inSysex (sent ++ messages) = inSysex sent := by
  have hkeep : ∀ state, (messages.flatMap sentBytes).foldl sysexByte state = state := by
    induction messages with
    | nil => exact fun _ => rfl
    | cons m messages ih =>
        intro state
        obtain ⟨hm, hrest⟩ := List.forall_mem_cons.1 h
        obtain ⟨hsysex, heox⟩ := messageStatus_ne_of_isRealTime hm
        rw [List.flatMap_cons, List.foldl_append, sentBytes, if_pos hm, List.foldl_cons,
          List.foldl_nil, sysexByte, if_neg hsysex, if_neg heox, ih hrest]
  rw [inSysex, List.flatMap_append, List.foldl_append, hkeep]
  rfl

theorem someInSysex_append_of_realTime (written : List (ℕ × BitVec 32))
    (h : ∀ e ∈ log, isRealTime e.2 = true) :
    SomeInSysex (written ++ log) ↔ SomeInSysex written := by
  refine exists_congr fun stream => ?_
  rw [messagesTo_append, inSysex_append_of_realTime]
  intro m hm
  obtain ⟨e, he, rfl⟩ := List.mem_map.1 hm
  exact h e (List.mem_of_mem_filter he)

/-! ### Runs -/

/-- What holds in the runs whose calls are as they should be. -/
structure World.Inv (w : World) : Prop where
  finalizing : w.finalizing = false
  initialized : w.portmidiInitialized = true
  flag : w.appSysexInProgress = true ↔ SomeInSysex w.written
  sent : ∀ stream, messagesTo stream w.written ++ (w.outputQueues[stream]?).getD [] =
    messagesTo stream w.queued

theorem World.inv_start : World.start.Inv where
  finalizing := rfl
  initialized := rfl
  flag := iff_of_false Bool.false_ne_true fun ⟨_, h⟩ => absurd h Bool.false_ne_true
  sent := fun stream => by
    have hnone : World.start.outputQueues[stream]? = none := Std.ExtTreeMap.getElem?_empty
    rw [hnone]
    rfl

/-- What a call leaves of a world: all that is pending is written, and the flag is that of
these messages. -/
theorem World.Inv.processMidi_eq (h : w.Inv) (reads : ℕ → List Read) (buffer : BitVec 32) :
    (w.processMidi reads buffer).written = w.written ++ pending w.outputQueues ∧
      (w.processMidi reads buffer).queued = w.queued ∧
      (w.processMidi reads buffer).outputQueues = (w.outputQueues.map fun _ _ => []) ∧
      (w.processMidi reads buffer).finalizing = false ∧
      (w.processMidi reads buffer).portmidiInitialized = true ∧
      (w.processMidi reads buffer).appSysexInProgress =
        ((pending w.outputQueues).map Prod.snd).foldl
          (World.appSysex (w.readStreams reads buffer).2) w.appSysexInProgress := by
  have hread := sameOutput_readStreams w reads buffer
  obtain ⟨thru, hwrite⟩ := writeStreams_eq (w.readStreams reads buffer).2
    (w.readStreams reads buffer).1
  have hcall : w.processMidi reads buffer =
      (w.readStreams reads buffer).1.writeStreams (w.readStreams reads buffer).2 := by
    rw [World.processMidi, h.finalizing, h.initialized]
    rfl
  rw [hcall, hwrite, hread.outputQueues, hread.written, hread.app]
  exact ⟨rfl, hread.queued, rfl, hread.finalizing.trans h.finalizing,
    hread.initialized.trans h.initialized, rfl⟩

/-- What a call sends is what was queued. -/
theorem World.Inv.sent_processMidi (h : w.Inv) (reads : ℕ → List Read) (buffer : BitVec 32)
    (stream : ℕ) : messagesTo stream (w.processMidi reads buffer).written =
      messagesTo stream (w.processMidi reads buffer).queued := by
  obtain ⟨hwritten, hqueued, -⟩ := h.processMidi_eq reads buffer
  rw [hwritten, hqueued, messagesTo_append, messagesTo_pending, h.sent]

/-- The condition decides whether the flag is right after a call. -/
theorem World.Inv.flag_iff (h : w.Inv) (reads : ℕ → List Read) (buffer : BitVec 32) :
    ((w.processMidi reads buffer).appSysexInProgress = true ↔
      SomeInSysex (w.processMidi reads buffer).written) ↔
        DelimitsOk w (.processMidi reads buffer) := by
  obtain ⟨hwritten, -, -, -, -, hflag⟩ := h.processMidi_eq reads buffer
  have hfilter : ((pending w.outputQueues).map Prod.snd).filter (fun m => !isRealTime m) =
      ((pending w.outputQueues).filter fun e => !isRealTime e.2).map Prod.snd := by
    rw [List.filter_map]
    rfl
  rw [hflag, hwritten, foldl_appSysex, hfilter, List.getLast?_map, DelimitsOk]
  generalize hasEox (w.readStreams reads buffer).2 = ends
  cases hlast : ((pending w.outputQueues).filter fun e => !isRealTime e.2).getLast? with
  | some last =>
      obtain ⟨stream, message⟩ := last
      rw [Option.map_some]
      dsimp only
      split_ifs with hsysex
      · rw [decide_eq_true hsysex]
        cases ends <;> simp
      · rw [decide_eq_false hsysex]
        simp
  | none =>
      -- there are real-time messages only, if any
      have hrt : ∀ e ∈ pending w.outputQueues, isRealTime e.2 = true := by
        intro e he
        have hnil := List.filter_eq_nil_iff.1 (List.getLast?_eq_none_iff.1 hlast) e he
        simpa using hnil
      rw [Option.map_none, someInSysex_append_of_realTime w.written hrt, ← h.flag]
      dsimp only
      split_ifs with hnil
      · exact iff_of_true Iff.rfl (.inl (List.map_eq_nil_iff.1 hnil))
      · rw [or_iff_right (mt List.map_eq_nil_iff.2 hnil)]
        cases w.appSysexInProgress <;> cases ends <;> simp

/-- A call that meets the condition keeps the invariant. -/
theorem World.Inv.processMidi (h : w.Inv) {reads : ℕ → List Read} {buffer : BitVec 32}
    (hok : DelimitsOk w (.processMidi reads buffer)) : (w.processMidi reads buffer).Inv where
  finalizing := (h.processMidi_eq reads buffer).2.2.2.1
  initialized := (h.processMidi_eq reads buffer).2.2.2.2.1
  flag := (h.flag_iff reads buffer).2 hok
  sent := fun stream => by
    have hempty : ((w.processMidi reads buffer).outputQueues[stream]?).getD [] = [] := by
      rw [(h.processMidi_eq reads buffer).2.2.1, Std.ExtTreeMap.getElem?_map]
      cases w.outputQueues[stream]? <;> rfl
    rw [hempty, List.append_nil, h.sent_processMidi]

/-- Queuing a message keeps the invariant. -/
theorem World.Inv.pushMessage (h : w.Inv) (stream : ℕ) (message : BitVec 32) :
    (w.pushMessage stream message).Inv := by
  rw [World.pushMessage]
  cases hq : w.outputQueues[stream]? with
  | none => exact h
  | some queue =>
      refine ⟨h.finalizing, h.initialized, h.flag, fun stream' => ?_⟩
      have hsent := h.sent stream'
      rw [messagesTo_append, messagesTo_singleton, IdMap.getElem?_insert]
      by_cases heq : stream' = stream
      · subst heq
        rw [hq, Option.getD_some] at hsent
        rw [if_pos rfl, if_pos rfl, Option.getD_some, ← List.append_assoc, hsent]
      · rw [if_neg heq, if_neg (Ne.symm heq), List.append_nil, hsent]

/-- Opening a stream keeps the invariant. -/
theorem World.Inv.addOutputStream (h : w.Inv) (stream : ℕ) : (w.addOutputStream stream).Inv := by
  refine ⟨h.finalizing, h.initialized, h.flag, fun stream' => ?_⟩
  have hsent := h.sent stream'
  have hqueue : ((w.outputQueues.insertIfNew stream [])[stream']?).getD [] =
      (w.outputQueues[stream']?).getD [] := by
    by_cases hmem : stream' ∈ w.outputQueues
    · rw [IdMap.getElem?_emplace_of_mem hmem]
    · by_cases heq : stream' = stream
      · rw [heq] at hmem ⊢
        rw [IdMap.getElem?_emplace_self hmem, IdMap.getElem?_eq_none_iff.2 hmem]
        rfl
      · rw [IdMap.getElem?_emplace_ne heq]
  exact hqueue ▸ hsent

theorem World.Inv.next (h : w.Inv) {e : SchedulerEvent} (hok : DelimitsOk w e) :
    (w.next e).Inv := by
  cases e with
  | addInputStream stream => exact ⟨h.finalizing, h.initialized, h.flag, h.sent⟩
  | addOutputStream stream => exact h.addOutputStream stream
  | pushMessage stream message => exact h.pushMessage stream message
  | processMidi reads buffer => exact h.processMidi hok

/-- **After each call of a run** the flag tells that a stream is in a system-exclusive message, and
each stream was sent what was queued for it, exactly if each call meets the condition. -/
theorem delimited_iff (events : List SchedulerEvent) :
    Machine.Meets World.step CallDelimited World.start events ↔
      Machine.Admits World.step DelimitsOk World.start events := by
  refine Machine.meets_iff_admits (I := World.Inv) (fun w e hw hok => ?_) (fun w e r hw hr hQ => ?_)
    World.inv_start events
  · refine ⟨(w.next e, ()), rfl, ?_, hw.next hok⟩
    cases e with
    | processMidi reads buffer =>
        exact ⟨(hw.flag_iff reads buffer).2 hok, hw.sent_processMidi reads buffer⟩
    | _ => exact trivial
  · obtain rfl := Option.some.inj hr
    cases e with
    | processMidi reads buffer => exact (hw.flag_iff reads buffer).1 hQ.flag
    | _ => exact trivial

/-- A stream is opened, a system-exclusive message of three bytes is queued, and the timer calls
while there is nothing to be read. -/
def wholeMessage : World :=
  ((World.start.addOutputStream 1).pushMessage 1 (pmMessage 0xF0 0x01 0xF7)).processMidi
    (fun _ => []) 0

/-- A message that is sent whole leaves the flag set: its end is not looked for in it. -/
theorem not_delimited_whole : ¬(∀ events : List SchedulerEvent,
    Machine.Meets World.step CallDelimited World.start events) := by
  intro h
  obtain ⟨r₁, h₁, -, r₂, h₂, -, r₃, h₃, hQ, -⟩ := h [.addOutputStream 1,
    .pushMessage 1 (pmMessage 0xF0 0x01 0xF7), .processMidi (fun _ => []) 0]
  obtain rfl := Option.some.inj h₁
  obtain rfl := Option.some.inj h₂
  obtain rfl := Option.some.inj h₃
  have hflag : wholeMessage.appSysexInProgress = true := by decide +kernel
  have hwritten : wholeMessage.written = [(1, pmMessage 0xF0 0x01 0xF7)] := by decide +kernel
  obtain ⟨stream, hin⟩ := hQ.flag.1 hflag
  change inSysex (messagesTo stream wholeMessage.written) = true at hin
  rw [hwritten, messagesTo_singleton] at hin
  split_ifs at hin
  · exact absurd hin (by decide)
  · exact absurd hin (by decide)

end Portmidi
end LibSwitcher
