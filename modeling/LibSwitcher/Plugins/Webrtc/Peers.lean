/-
# The peers of a room

The elements that `plugins/webrtc/webrtc.cpp` keeps for the peers of its room:
`add_peer_to_pipeline` puts two queues and a `webrtcbin` into the pipeline, links them to
the tees and registers the peer in `peers_`; `remove_peer_from_pipeline` undoes this;
`start_pipeline` makes the pipeline with the tees of the connected shmdata, and `stop`
replaces it before `async_disconnect_from_wss` walks `peers_`.

The state is the keys of `peers_`, the names of the elements in the pipeline and the
queues that are linked to a tee.  A bin has at most one element of a name: an element
whose name is taken is not added, and an element inside the bin is not linked to one that
is outside (`gst_bin_add`, `gst_pad_link`).  What GStreamer may refuse besides is told
for each call by `AddStep → Bool`.

A peer is added as it should (`AddOk`) if it is not registered, both tees are there and
nothing before the registration fails: `addPeer_of_addOk`.  A registered peer that is
announced again is removed by the scope guard, with one tee no peer is added or removed, and
after `stop` no tee is found, so that every peer stays in `peers_`.
-/

import LibSwitcher.Lib.Machine
import LibSwitcher.Plugins.Webrtc.WssMessage
import Mathlib.Data.List.Nodup
import Mathlib.Data.List.Pairwise

namespace LibSwitcher
namespace Webrtc

/-- The calls of `add_peer_to_pipeline` whose result is tested, but the lookups of the tees. -/
inductive AddStep where
  | teeBin
  | audioQueueSrc
  | webrtcAudioSink
  | linkAudioWebrtc
  | videoQueueSrc
  | webrtcVideoSink
  | linkVideoWebrtc
  | audioTeeSrc
  | audioQueueSink
  | linkAudioTee
  | videoTeeSrc
  | videoQueueSink
  | linkVideoTee
  | iceSignal
  | padSignal
  | syncState
  deriving DecidableEq

/-- The calls before the peer is registered, in their order. -/
def AddStep.beforeRegistration : List AddStep :=
  [teeBin, audioQueueSrc, webrtcAudioSink, linkAudioWebrtc, videoQueueSrc, webrtcVideoSink,
    linkVideoWebrtc, audioTeeSrc, audioQueueSink, linkAudioTee, videoTeeSrc, videoQueueSink,
    linkVideoTee, iceSignal, padSignal]

/-- The peers and their elements. -/
structure Peers where
  /-- The keys of `peers_`. -/
  peers : List String
  /-- The names of the elements of `pipeline_`. -/
  elements : List String
  /-- The queues whose sink pad is linked to a pad of a tee. -/
  linked : List String
  deriving DecidableEq

/-- The name of the audio queue of a peer. -/
def audioQname (peer : String) : String := "audio-queue-" ++ peer

/-- The name of the video queue of a peer. -/
def videoQname (peer : String) : String := "video-queue-" ++ peer

/-- The elements of a peer, in the order they are added. -/
def peerElements (peer : String) : List String := [audioQname peer, videoQname peer, peer]

/-- The named elements of the pipeline that `start_pipeline` describes. -/
def description (audio video : Bool) : List String :=
  (if video then ["videotee", "shmvideo"] else []) ++ (if audio then ["audiotee", "shmaudio"] else [])

namespace Peers

/-- `gst_bin_remove`. -/
def binRemove (s : Peers) (name : String) : Peers :=
  { s with elements := s.elements.filter (· ≠ name) }

/-- `gst_element_release_request_pad`, for the pad of the tee that a queue is linked to. -/
def releasePad (s : Peers) (queue : String) : Peers :=
  { s with linked := s.linked.filter (· ≠ queue) }

/-- A queue of a peer is found, with its link to the tee, and removed. -/
def removeQueue (s : Peers) (queue : String) : Peers × Bool :=
  if queue ∉ s.elements then (s, false)
  else if queue ∉ s.linked then (s, false)
  else ((s.releasePad queue).binRemove queue, true)

/-- `Webrtc::remove_peer_from_pipeline`. -/
def removePeer (s : Peers) (peer : String) : Peers × Bool :=
  if peer ∉ s.peers then (s, true)
  else if "audiotee" ∉ s.elements then (s, false)
  else if "videotee" ∉ s.elements then (s, false)
  else if peer ∉ s.elements then (s, false)
  else
    let a := (s.binRemove peer).removeQueue (audioQname peer)
    if a.2 = false then a
    else
      let v := a.1.removeQueue (videoQname peer)
      if v.2 = false then v
      else ({ v.1 with peers := v.1.peers.filter (· ≠ peer) }, true)

/-- The elements of a peer that `gst_bin_add_many` adds: those whose name is not taken. -/
def added (s : Peers) (peer : String) : List String :=
  (peerElements peer).filter (· ∉ s.elements)

/-- Two new elements are both in the bin, or both outside it. -/
def sameBin (inBin : List String) (a b : String) : Bool := decide (a ∈ inBin ↔ b ∈ inBin)

/-- The queues are linked to the `webrtcbin`. -/
def linksToWebrtc (steps : AddStep → Bool) (inBin : List String) (peer : String) : Bool :=
  steps .audioQueueSrc && steps .webrtcAudioSink && steps .linkAudioWebrtc &&
    sameBin inBin (audioQname peer) peer && steps .videoQueueSrc && steps .webrtcVideoSink &&
    steps .linkVideoWebrtc && sameBin inBin (videoQname peer) peer

/-- A tee is linked to a queue. -/
def linkTee (s : Peers) (inBin : List String) (queue : String) : Peers × Bool :=
  if queue ∈ inBin then ({ s with linked := s.linked ++ [queue] }, true) else (s, false)

/-- The body of `Webrtc::add_peer_to_pipeline`: the state where it returns, the flag that tells the
scope guard that the end was reached, and what is returned. -/
def addBody (s : Peers) (peer : String) (steps : AddStep → Bool) : Peers × Bool × Bool :=
  if peer ∈ s.peers then (s, false, true)
  else if "audiotee" ∉ s.elements then (s, false, false)
  else if "videotee" ∉ s.elements then (s, false, false)
  else if steps .teeBin = false then (s, false, false)
  else
    let inBin := s.added peer
    let s := { s with elements := s.elements ++ inBin }
    if linksToWebrtc steps inBin peer = false then (s, false, false)
    else if (steps .audioTeeSrc && steps .audioQueueSink && steps .linkAudioTee) = false then
      (s, false, false)
    else
      let a := s.linkTee inBin (audioQname peer)
      if a.2 = false then (a.1, false, false)
      else if (steps .videoTeeSrc && steps .videoQueueSink && steps .linkVideoTee) = false then
        (a.1, false, false)
      else
        let v := a.1.linkTee inBin (videoQname peer)
        if v.2 = false then (v.1, false, false)
        else if (steps .iceSignal && steps .padSignal) = false then (v.1, false, false)
        else
          let s := { v.1 with peers := v.1.peers ++ [peer] }
          if steps .syncState = false then (s, false, false) else (s, true, true)

/-- `Webrtc::add_peer_to_pipeline`: the scope guard removes the peer unless the end was reached. -/
def addPeer (s : Peers) (peer : String) (steps : AddStep → Bool) : Peers × Bool :=
  let r := s.addBody peer steps
  (if r.2.1 then r.1 else (r.1.removePeer peer).1, r.2.2)

/-- `Webrtc::start_pipeline`. -/
def startPipeline (s : Peers) (audio video : Bool) : Peers × Bool :=
  if audio = false ∧ video = false then (s, false)
  else ({ s with elements := description audio video, linked := [] }, true)

/-- `pipeline_` is replaced by an empty one. -/
def resetPipeline (s : Peers) : Peers := { s with elements := [], linked := [] }

/-- The loop of `async_disconnect_from_wss` over the entries of `peers_`: undefined where the entry
that it is at is erased. -/
def disconnectLoop : Peers → List String → Option Peers
  | s, [] => some s
  | s, peer :: rest =>
      let r := s.removePeer peer
      if peer ∈ r.1.peers then disconnectLoop r.1 rest else none

/-- `Webrtc::stop` of an open connection, and `async_disconnect_from_wss` that it waits for. -/
def stop (s : Peers) : Option Peers :=
  (s.resetPipeline.disconnectLoop s.peers).map resetPipeline

/-- `Webrtc::call_peer`: the offer is made by the `webrtcbin`, if it is found. -/
def callPeer (s : Peers) (peer : String) (steps : AddStep → Bool) : Peers × Bool :=
  let s := (s.addPeer peer steps).1
  (s, decide (peer ∈ s.elements))

/-- One of the calls for `ROOM_OK`. -/
def callStep (s : Peers) (call : String × (AddStep → Bool)) : Option (Peers × Bool) :=
  some (s.callPeer call.1 call.2)

end Peers

/-- What happens to the room.  The list of a room comes with the media whose shmdata are connected,
and each announcement with what GStreamer does for it. -/
inductive RoomEvent where
  | roomOk (audio video : Bool) (calls : List (String × (AddStep → Bool)))
  | peerJoined (peer : String) (steps : AddStep → Bool)
  | peerLeft (peer : String)
  | stop

namespace Peers

/-- What an event does. -/
def step (s : Peers) : RoomEvent → Option (Peers × Unit)
  | .roomOk audio video calls =>
      let r := s.startPipeline audio video
      if r.2 then (Machine.run callStep r.1 calls).map fun r => (r.1, ()) else some (r.1, ())
  | .peerJoined peer steps => some ((s.addPeer peer steps).1, ())
  | .peerLeft peer => some (if peer ∈ s.peers then (s.removePeer peer).1 else s, ())
  | .stop => s.stop.map fun s => (s, ())

end Peers

/-- A peer is announced: it is present from then on, unless GStreamer refuses a call. -/
def announce (room : List String) (peer : String) (steps : AddStep → Bool) : List String :=
  if peer ∉ room ∧ AddStep.beforeRegistration.all steps ∧ steps .syncState then room ++ [peer]
  else room

/-- The peers that are announced and not yet gone. -/
def roomStep (room : List String) : RoomEvent → List String × Unit
  | .roomOk _ _ calls => (calls.foldl (fun room call => announce room call.1 call.2) room, ())
  | .peerJoined peer steps => (announce room peer steps, ())
  | .peerLeft peer => (room.filter (· ≠ peer), ())
  | .stop => ([], ())

/-- The peers are those of the room, each has its elements and nothing else is in the pipeline but
what `start_pipeline` describes, and no name is there twice. -/
structure Follows (s : Peers) (room : List String) : Prop where
  peers : ∀ peer, peer ∈ s.peers ↔ peer ∈ room
  elements : ∃ audio video, s.elements.Perm (description audio video ++ room.flatMap peerElements)
  nodup : s.elements.Nodup
  linked : ∀ peer ∈ room, audioQname peer ∈ s.linked ∧ videoQname peer ∈ s.linked

namespace Peers

/-- No peer, and an empty pipeline. -/
def initial : Peers := ⟨[], [], []⟩

/-- The peers of a room, all of them with their elements. -/
def content (audio video : Bool) (room : List String) : Peers where
  peers := room
  elements := description audio video ++ room.flatMap peerElements
  linked := room.flatMap fun peer => [audioQname peer, videoQname peer]

/-- The state is that of a room, and a room with peers has both tees. -/
def IsRoom (s : Peers) (room : List String) : Prop :=
  ∃ audio video, s = content audio video room ∧ s.elements.Nodup ∧
    (room ≠ [] → audio = true ∧ video = true)

/-- A peer is added as it should: it is not registered, both tees are there, the names of its
elements are free, and what comes before its registration is not refused. -/
structure AddOk (s : Peers) (peer : String) (steps : AddStep → Bool) : Prop where
  unregistered : peer ∉ s.peers
  audiotee : "audiotee" ∈ s.elements
  videotee : "videotee" ∈ s.elements
  names : ∀ name ∈ peerElements peer, name ∉ s.elements
  steps : AddStep.beforeRegistration.all steps = true

instance (s : Peers) (peer : String) (steps : AddStep → Bool) : Decidable (s.AddOk peer steps) :=
  decidable_of_iff (peer ∉ s.peers ∧ "audiotee" ∈ s.elements ∧ "videotee" ∈ s.elements ∧
      (∀ name ∈ peerElements peer, name ∉ s.elements) ∧
      AddStep.beforeRegistration.all steps = true)
    ⟨fun h => ⟨h.1, h.2.1, h.2.2.1, h.2.2.2.1, h.2.2.2.2⟩,
      fun h => ⟨h.unregistered, h.audiotee, h.videotee, h.names, h.steps⟩⟩

/-- What an event needs: a room is entered without peers, its peers are added as they should, and
there is none when the connection is stopped. -/
def EventOk (s : Peers) : RoomEvent → Prop
  | .roomOk audio video calls =>
      if audio = false ∧ video = false then calls = []
      else s.peers = [] ∧
        Machine.Admits callStep (fun s call => s.AddOk call.1 call.2)
          (s.startPipeline audio video).1 calls
  | .peerJoined peer steps => s.AddOk peer steps
  | .peerLeft _ => True
  | .stop => s.peers = []

instance (s : Peers) (event : RoomEvent) : Decidable (s.EventOk event) :=
  match event with
  | .roomOk _ _ _ => inferInstanceAs (Decidable (ite _ _ _))
  | .peerJoined peer steps => inferInstanceAs (Decidable (s.AddOk peer steps))
  | .peerLeft _ => isTrue trivial
  | .stop => inferInstanceAs (Decidable (s.peers = []))

/-- A call that fails leaves the peers and the pipeline as they were. -/
def Restores (s : Peers) : RoomEvent → Prop
  | .roomOk audio video calls =>
      (s.startPipeline audio video).2 = true →
        Machine.Meets callStep (fun s call _ => (s.addPeer call.1 call.2).2 = false →
          (s.addPeer call.1 call.2).1 = s) (s.startPipeline audio video).1 calls
  | .peerJoined peer steps =>
      (s.addPeer peer steps).2 = false → (s.addPeer peer steps).1 = s
  | .peerLeft _ | .stop => True

theorem audioQname_ne_videoQname (peer peer' : String) : audioQname peer ≠ videoQname peer' := by
  intro h
  have hchars := congrArg String.toList h
  rw [audioQname, videoQname, String.toList_append, String.toList_append] at hchars
  have hhead := congrArg List.head? hchars
  exact absurd hhead (by simp)

theorem audioQname_ne (peer : String) : audioQname peer ≠ peer := by
  intro h
  have hlength := congrArg String.length h
  rw [audioQname, String.length_append] at hlength
  exact absurd hlength (by have : "audio-queue-".length = 12 := rfl; omega)

theorem videoQname_ne (peer : String) : videoQname peer ≠ peer := by
  intro h
  have hlength := congrArg String.length h
  rw [videoQname, String.length_append] at hlength
  exact absurd hlength (by have : "video-queue-".length = 12 := rfl; omega)

theorem nodup_peerElements (peer : String) : (peerElements peer).Nodup := by
  simp [peerElements, audioQname_ne_videoQname, audioQname_ne, videoQname_ne]

/-- What is taken out of the elements of the peers of a room is that of one peer. -/
theorem filter_flatMap_peers {room : List String} {peer : String} {f : String → List String}
    (hf : ∀ other ∈ room, other ≠ peer → ∀ name ∈ f other, name ∉ peerElements peer)
    (hpeer : ∀ name ∈ f peer, name ∈ peerElements peer) :
    (room.flatMap f).filter (· ∉ peerElements peer) = (room.filter (· ≠ peer)).flatMap f := by
  induction room with
  | nil => rfl
  | cons other room ih =>
      have hrest := ih fun q hq => hf q (List.mem_cons_of_mem _ hq)
      rw [List.flatMap_cons, List.filter_append, hrest]
      by_cases hother : other = peer
      · subst hother
        have hnil : (f other).filter (· ∉ peerElements other) = [] :=
          List.filter_eq_nil_iff.2 fun name hname => by simpa using hpeer name hname
        rw [hnil, List.nil_append, List.filter_cons_of_neg (by simp)]
      · have hall : (f other).filter (· ∉ peerElements peer) = f other :=
          List.filter_eq_self.2 fun name hname => by
            simpa using hf other List.mem_cons_self hother name hname
        rw [hall, List.filter_cons_of_pos (by simpa using hother), List.flatMap_cons]

/-- The names that are taken out one after the other. -/
theorem filter_filter_filter (names : List String) (peer : String) :
    ((names.filter (· ≠ peer)).filter (· ≠ audioQname peer)).filter (· ≠ videoQname peer) =
      names.filter (· ∉ peerElements peer) := by
  rw [List.filter_filter, List.filter_filter]
  refine List.filter_congr fun name _ => ?_
  by_cases h1 : name = peer <;> by_cases h2 : name = audioQname peer <;>
    by_cases h3 : name = videoQname peer <;> simp [peerElements, h1, h2, h3]

section removal

variable {room : List String} {peer : String}

/-- What is known of the names where a peer of the room is removed. -/
theorem disjoint_of_nodup {audio video : Bool} (hroom : (content audio video room).elements.Nodup)
    (hpeer : peer ∈ room) :
    (∀ name ∈ description audio video, name ∉ peerElements peer) ∧
      ∀ other ∈ room, other ≠ peer → ∀ name ∈ peerElements other, name ∉ peerElements peer := by
  obtain ⟨-, hflat, hdesc⟩ := List.nodup_append.1 hroom
  constructor
  · intro name hname hin
    exact hdesc name hname name (List.mem_flatMap.2 ⟨peer, hpeer, hin⟩) rfl
  · intro other hother hne name hname hin
    have : Std.Symm (Function.onFun List.Disjoint peerElements) := ⟨fun _ _ h _ ha hb => h hb ha⟩
    exact (List.nodup_flatMap.1 hflat).2.forall hother hpeer hne hname hin

/-- The elements of the room without one of its peers. -/
theorem filter_elements (hroom : (content true true room).elements.Nodup) (hpeer : peer ∈ room) :
    (content true true room).elements.filter (· ∉ peerElements peer) =
      (content true true (room.filter (· ≠ peer))).elements := by
  obtain ⟨hdesc, hothers⟩ := disjoint_of_nodup hroom hpeer
  rw [content, List.filter_append, filter_flatMap_peers hothers fun name hname => hname,
    List.filter_eq_self.2 fun name hname => by simpa using hdesc name hname]
  rfl

theorem removeQueue_of_mem {s : Peers} {queue : String} (hin : queue ∈ s.elements)
    (hlinked : queue ∈ s.linked) :
    s.removeQueue queue = ((s.releasePad queue).binRemove queue, true) := by
  rw [removeQueue, if_neg (not_not_intro hin), if_neg (not_not_intro hlinked)]

/-- Where the peer has all its elements, and both tees are there, they are all removed. -/
theorem removePeer_of_mem {s : Peers} (hpeer : peer ∈ s.peers) (haudio : "audiotee" ∈ s.elements)
    (hvideo : "videotee" ∈ s.elements) (hnames : ∀ name ∈ peerElements peer, name ∈ s.elements)
    (haudioLink : audioQname peer ∈ s.linked) (hvideoLink : videoQname peer ∈ s.linked) :
    s.removePeer peer =
      ({ peers := s.peers.filter (· ≠ peer)
         elements := s.elements.filter (· ∉ peerElements peer)
         linked := (s.linked.filter (· ≠ audioQname peer)).filter (· ≠ videoQname peer) }, true) := by
  have haudioIn : audioQname peer ∈ (s.binRemove peer).elements :=
    List.mem_filter.2 ⟨hnames _ (by simp [peerElements]), by simpa using audioQname_ne peer⟩
  have hvideoIn : videoQname peer ∈
      (((s.binRemove peer).releasePad (audioQname peer)).binRemove (audioQname peer)).elements := by
    refine List.mem_filter.2 ⟨List.mem_filter.2 ⟨hnames _ (by simp [peerElements]), ?_⟩, ?_⟩
    · simpa using videoQname_ne peer
    · simpa using (audioQname_ne_videoQname peer peer).symm
  have hvideoLink' : videoQname peer ∈
      (((s.binRemove peer).releasePad (audioQname peer)).binRemove (audioQname peer)).linked :=
    List.mem_filter.2 ⟨hvideoLink, by simpa using (audioQname_ne_videoQname peer peer).symm⟩
  rw [removePeer, if_neg (not_not_intro hpeer), if_neg (not_not_intro haudio),
    if_neg (not_not_intro hvideo), if_neg (not_not_intro (hnames _ (by simp [peerElements])))]
  dsimp only
  rw [removeQueue_of_mem haudioIn haudioLink]
  dsimp only
  rw [if_neg (Bool.noConfusion : ¬true = false), removeQueue_of_mem hvideoIn hvideoLink']
  dsimp only
  rw [if_neg (Bool.noConfusion : ¬true = false), ← filter_filter_filter]
  rfl

/-- **A peer of the room is removed**, with its elements and with nothing else. -/
theorem removePeer_content (hroom : (content true true room).elements.Nodup) (hpeer : peer ∈ room) :
    (content true true room).removePeer peer = (content true true (room.filter (· ≠ peer)), true) := by
  have hothers := (disjoint_of_nodup hroom hpeer).2
  have hnames : ∀ name ∈ peerElements peer, name ∈ (content true true room).elements :=
    fun name hname => List.mem_append_right _ (List.mem_flatMap.2 ⟨peer, hpeer, hname⟩)
  have hqueues : ∀ other ∈ room, other ≠ peer →
      ∀ name ∈ [audioQname other, videoQname other], name ∉ peerElements peer := by
    intro other hother hne name hname
    refine hothers other hother hne name ?_
    rcases List.mem_pair.1 hname with rfl | rfl <;> simp [peerElements]
  have hpeerQueue : (content true true room).linked.filter (· ≠ peer) =
      (content true true room).linked := by
    refine List.filter_eq_self.2 fun name hname => ?_
    obtain ⟨other, hother, hname⟩ := List.mem_flatMap.1 hname
    rw [decide_eq_true_iff]
    rintro rfl
    by_cases hne : other = name
    · subst hne
      rcases List.mem_pair.1 hname with h | h
      · exact audioQname_ne _ h.symm
      · exact videoQname_ne _ h.symm
    · exact hqueues other hother hne name hname (by simp [peerElements])
  have hlink : ∀ queue ∈ [audioQname peer, videoQname peer], queue ∈ (content true true room).linked :=
    fun queue hqueue => List.mem_flatMap.2 ⟨peer, hpeer, hqueue⟩
  rw [removePeer_of_mem hpeer (by simp [content, description]) (by simp [content, description]) hnames
    (hlink _ (by simp)) (hlink _ (by simp)), ← hpeerQueue, filter_filter_filter]
  have hlinked : (content true true room).linked.filter (· ∉ peerElements peer) =
      (content true true (room.filter (· ≠ peer))).linked := by
    refine filter_flatMap_peers hqueues fun name hname => ?_
    rcases List.mem_pair.1 hname with rfl | rfl <;> simp [peerElements]
  rw [filter_elements hroom hpeer, hlinked]
  rfl

end removal

section addition

variable {room : List String} {peer : String} {steps : AddStep → Bool}

/-- The body of the addition of a peer that is added as it should ends with the synchronisation of
the states. -/
theorem addBody_of_addOk {s : Peers} (h : s.AddOk peer steps) :
    s.addBody peer steps =
      ({ peers := s.peers ++ [peer]
         elements := s.elements ++ peerElements peer
         linked := s.linked ++ [audioQname peer] ++ [videoQname peer] },
        steps .syncState, steps .syncState) := by
  have hadded : s.added peer = peerElements peer :=
    List.filter_eq_self.2 fun name hname => by simpa using h.names name hname
  have haudio : audioQname peer ∈ peerElements peer := by simp [peerElements]
  have hvideo : videoQname peer ∈ peerElements peer := by simp [peerElements]
  have hpeer : peer ∈ peerElements peer := by simp [peerElements]
  have hsteps : ∀ step ∈ AddStep.beforeRegistration, steps step = true := List.all_eq_true.1 h.steps
  simp only [AddStep.beforeRegistration, List.forall_mem_cons] at hsteps
  have hlinks : linksToWebrtc steps (peerElements peer) peer = true := by
    simp [linksToWebrtc, sameBin, haudio, hvideo, hpeer, hsteps]
  rw [addBody, if_neg h.unregistered, if_neg (not_not_intro h.audiotee),
    if_neg (not_not_intro h.videotee), hsteps.1, if_neg (Bool.noConfusion : ¬true = false)]
  dsimp only
  rw [hadded, hlinks]
  simp only [linkTee, if_pos haudio, if_pos hvideo, hsteps, Bool.and_self, Bool.true_eq_false,
    if_false]
  cases steps .syncState <;> rfl

/-- The elements of a peer that is added, behind those of the others. -/
theorem content_append (audio video : Bool) (room : List String) (peer : String) :
    content audio video (room ++ [peer]) =
      { peers := (content audio video room).peers ++ [peer]
        elements := (content audio video room).elements ++ peerElements peer
        linked := (content audio video room).linked ++ [audioQname peer] ++ [videoQname peer] } := by
  simp [content]

/-- No name is taken twice where a peer is added as it should. -/
theorem AddOk.nodup (h : (content true true room).AddOk peer steps)
    (hroom : (content true true room).elements.Nodup) :
    (content true true (room ++ [peer])).elements.Nodup := by
  rw [content_append]
  refine List.nodup_append.2 ⟨hroom, nodup_peerElements peer, fun name hname name' hname' => ?_⟩
  rintro rfl
  exact h.names name hname' hname

/-- **A peer is added**, or nothing is changed. -/
theorem addPeer_content (h : (content true true room).AddOk peer steps)
    (hroom : (content true true room).elements.Nodup) :
    (content true true room).addPeer peer steps =
      if steps .syncState then (content true true (room ++ [peer]), true)
      else (content true true room, false) := by
  rw [addPeer, addBody_of_addOk h, ← content_append]
  dsimp only
  cases steps .syncState with
  | true => rfl
  | false =>
      have hfilter : (room ++ [peer]).filter (· ≠ peer) = room := by
        rw [List.filter_append, List.filter_eq_self.2 fun other hother => ?_]
        · simp
        · rw [decide_eq_true_iff]
          rintro rfl
          exact h.unregistered hother
      rw [if_neg Bool.false_ne_true, if_neg Bool.false_ne_true,
        removePeer_content (h.nodup hroom) (List.mem_append_right _ (List.mem_singleton_self peer)),
        hfilter]

end addition

section runs

variable {s : Peers} {room : List String}

/-- A room whose pipeline has both tees. -/
theorem IsRoom.eq_content (h : s.IsRoom room) (haudio : "audiotee" ∈ s.elements)
    (hvideo : "videotee" ∈ s.elements) :
    s = content true true room ∧ (content true true room).elements.Nodup := by
  obtain ⟨audio, video, rfl, hnodup, hmedia⟩ := h
  by_cases hroom : room = []
  · subst hroom
    have htees : audio = true ∧ video = true := by
      cases audio <;> cases video <;> simp [content, description] at haudio hvideo ⊢
    obtain ⟨rfl, rfl⟩ := htees
    exact ⟨rfl, hnodup⟩
  · obtain ⟨rfl, rfl⟩ := hmedia hroom
    exact ⟨rfl, hnodup⟩

theorem isRoom_content (hnodup : (content true true room).elements.Nodup) :
    (content true true room).IsRoom room :=
  ⟨true, true, rfl, hnodup, fun _ => ⟨rfl, rfl⟩⟩

/-- What is announced is added, if it is added as it should. -/
theorem addPeer_isRoom {peer : String} {steps : AddStep → Bool} (h : s.IsRoom room)
    (hadd : s.AddOk peer steps) :
    (s.addPeer peer steps).1.IsRoom (announce room peer steps) ∧
      ((s.addPeer peer steps).2 = false → (s.addPeer peer steps).1 = s) := by
  obtain ⟨rfl, hnodup⟩ := h.eq_content hadd.audiotee hadd.videotee
  have hroom : peer ∉ room := hadd.unregistered
  rw [addPeer_content hadd hnodup, announce]
  cases hsync : steps .syncState with
  | true =>
      rw [if_pos rfl, if_pos ⟨hroom, hadd.steps, rfl⟩]
      exact ⟨isRoom_content (hadd.nodup hnodup), fun h => Bool.noConfusion h⟩
  | false =>
      rw [if_neg Bool.false_ne_true, if_neg fun h => Bool.false_ne_true h.2.2]
      exact ⟨isRoom_content hnodup, fun _ => rfl⟩

/-- A peer that left is removed. -/
theorem removePeer_isRoom {peer : String} (h : s.IsRoom room) (hpeer : peer ∈ s.peers) :
    (s.removePeer peer).1.IsRoom (room.filter (· ≠ peer)) := by
  obtain ⟨audio, video, rfl, hnodup, hmedia⟩ := h
  obtain ⟨rfl, rfl⟩ := hmedia (List.ne_nil_of_mem hpeer)
  rw [removePeer_content hnodup hpeer]
  refine isRoom_content ?_
  rw [← filter_elements hnodup hpeer]
  exact hnodup.filter _

/-- The calls for the list of a room. -/
theorem run_callStep {calls : List (String × (AddStep → Bool))} (h : s.IsRoom room)
    (hcalls : Machine.Admits callStep (fun s call => s.AddOk call.1 call.2) s calls) :
    (∃ s' os, Machine.run callStep s calls = some (s', os) ∧
      s'.IsRoom (calls.foldl (fun room call => announce room call.1 call.2) room)) ∧
    Machine.Meets callStep (fun s call _ => (s.addPeer call.1 call.2).2 = false →
      (s.addPeer call.1 call.2).1 = s) s calls := by
  induction calls generalizing s room with
  | nil => exact ⟨⟨s, [], rfl, h⟩, trivial⟩
  | cons call calls ih =>
      obtain ⟨hroom, hrestore⟩ := addPeer_isRoom h hcalls.1
      obtain ⟨⟨s', os, hrun, hs'⟩, hmeets⟩ := ih hroom (hcalls.2 (s.callPeer call.1 call.2) rfl)
      have hwhole : Machine.run callStep s (call :: calls) =
          some (s', (s.callPeer call.1 call.2).2 :: os) := by
        rw [Machine.run_cons, callStep, Option.bind_some]
        exact congrArg (Option.map _) hrun
      exact ⟨⟨s', _, hwhole, hs'⟩, ⟨s.callPeer call.1 call.2, rfl, hrestore, hmeets⟩⟩

theorem isRoom_description (audio video : Bool) :
    (content audio video []).IsRoom [] := by
  refine ⟨audio, video, rfl, ?_, fun h => absurd rfl h⟩
  cases audio <;> cases video <;> decide

/-- What the state of a room is made of. -/
theorem IsRoom.follows (h : s.IsRoom room) : Follows s room := by
  obtain ⟨audio, video, rfl, hnodup, -⟩ := h
  refine ⟨fun peer => Iff.rfl, ⟨audio, video, List.Perm.refl _⟩, hnodup, fun peer hpeer => ?_⟩
  exact ⟨List.mem_flatMap.2 ⟨peer, hpeer, by simp⟩, List.mem_flatMap.2 ⟨peer, hpeer, by simp⟩⟩

/-- Without peers nothing is removed when the connection is closed. -/
theorem stop_of_nil (h : s.peers = []) : s.stop = some initial := by
  rw [stop, h, disconnectLoop, Option.map_some, resetPipeline, resetPipeline]
  exact congrArg (fun peers => some (Peers.mk peers [] [])) h

/-- **One event.**  The room is followed, and what fails is undone. -/
theorem step_isRoom {event : RoomEvent} (h : s.IsRoom room) (hok : s.EventOk event) :
    ∃ s', s.step event = some (s', ()) ∧ s.Restores event ∧ s'.IsRoom (roomStep room event).1 := by
  cases event with
  | roomOk audio video calls =>
      by_cases hmedia : audio = false ∧ video = false
      · rw [EventOk, if_pos hmedia] at hok
        subst hok
        have hstart : s.startPipeline audio video = (s, false) := if_pos hmedia
        refine ⟨s, ?_, ?_, h⟩
        · rw [step, hstart]
          rfl
        · rw [Restores, hstart]
          exact fun hstarted => Bool.noConfusion hstarted
      · rw [EventOk, if_neg hmedia] at hok
        obtain ⟨hnil, hcalls⟩ := hok
        have hroom : room = [] := by
          obtain ⟨a, v, rfl, -⟩ := h
          exact hnil
        subst hroom
        have hstart : s.startPipeline audio video = (content audio video [], true) := by
          rw [startPipeline, if_neg hmedia, content, hnil, List.flatMap_nil, List.append_nil,
            List.flatMap_nil]
        rw [hstart] at hcalls
        obtain ⟨⟨s', os, hrun, hs'⟩, hmeets⟩ := run_callStep (isRoom_description audio video) hcalls
        refine ⟨s', ?_, ?_, hs'⟩
        · rw [step, hstart]
          dsimp only
          rw [if_pos rfl, hrun]
          rfl
        · rw [Restores, hstart]
          exact fun _ => hmeets
  | peerJoined peer steps =>
      obtain ⟨hroom, hrestore⟩ := addPeer_isRoom h hok
      exact ⟨(s.addPeer peer steps).1, rfl, hrestore, hroom⟩
  | peerLeft peer =>
      refine ⟨_, rfl, trivial, ?_⟩
      split_ifs with hpeer
      · exact removePeer_isRoom h hpeer
      · have hkeep : room.filter (· ≠ peer) = room := by
          obtain ⟨a, v, rfl, -⟩ := h
          refine List.filter_eq_self.2 fun other hother => decide_eq_true ?_
          rintro rfl
          exact hpeer hother
        rwa [roomStep, hkeep]
  | stop =>
      refine ⟨initial, ?_, trivial, isRoom_description false false⟩
      rw [step, stop_of_nil hok]
      rfl

end runs

end Peers

/-- **The peers follow the room.**  In a run whose events meet `EventOk`, every state has exactly the
peers that are announced and not yet gone, each with its elements and with nothing left of the
others, no erased entry is used, and the additions that fail change nothing. -/
theorem peers_follow_room {events : List RoomEvent}
    (h : Machine.Admits Peers.step Peers.EventOk Peers.initial events) :
    Machine.Tracks Peers.step roomStep Follows Peers.initial [] events ∧
      Machine.Meets Peers.step (fun s event _ => s.Restores event) Peers.initial events := by
  have hinitial : Peers.initial.IsRoom [] := Peers.isRoom_description false false
  constructor
  · refine h.tracks (I := Peers.IsRoom) (fun s room event hs hok => ?_) (fun s room hs => hs.follows)
      hinitial
    obtain ⟨s', hstep, -, hs'⟩ := Peers.step_isRoom hs hok
    exact ⟨s', hstep, hs'⟩
  · refine h.meets (I := fun s : Peers => ∃ room, s.IsRoom room) (fun s event hs hok => ?_) ⟨[], hinitial⟩
    obtain ⟨room, hs⟩ := hs
    obtain ⟨s', hstep, hrestores, hs'⟩ := Peers.step_isRoom hs hok
    exact ⟨(s', ()), hstep, hrestores, _, hs'⟩

/-- Two peers that come and go, and one that GStreamer refuses. -/
theorem peers_follow_room_two :
    Machine.Tracks Peers.step roomStep Follows Peers.initial []
      [.roomOk true true [("ada", fun _ => true)], .peerJoined "bob" fun _ => true,
        .peerJoined "eve" (· ≠ .syncState), .peerLeft "ada", .peerLeft "bob", .stop] ∧
    Machine.Meets Peers.step (fun s event _ => s.Restores event) Peers.initial
      [.roomOk true true [("ada", fun _ => true)], .peerJoined "bob" fun _ => true,
        .peerJoined "eve" (· ≠ .syncState), .peerLeft "ada", .peerLeft "bob", .stop] :=
  peers_follow_room (by decide +kernel)

/-- A peer that is announced again is removed. -/
theorem not_peers_follow_twice : ¬∀ events : List RoomEvent,
    Machine.Tracks Peers.step roomStep Follows Peers.initial [] events := by
  intro h
  obtain ⟨s', hrun, hfollows⟩ :=
    (h [.roomOk true true [("ada", fun _ => true)], .peerJoined "ada" fun _ => true]).run_eq
  have hlast : (Machine.run Peers.step Peers.initial [.roomOk true true [("ada", fun _ => true)],
      .peerJoined "ada" fun _ => true]).map (fun r => r.1.peers) = some [] := by decide +kernel
  rw [hrun] at hlast
  have hpeer : "ada" ∈ s'.peers := (hfollows.peers "ada").2 (by decide)
  have hnil : s'.peers = [] := Option.some.inj hlast
  rw [hnil] at hpeer
  exact List.not_mem_nil hpeer

end Webrtc
end LibSwitcher
