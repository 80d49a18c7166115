import DawProject.Midi.Schedule

/-!
The MIDI side of the audio graph, `engine/src/graph/audio_graph.cpp` with the
proxy node of `engine/src/host/proxy_node.cpp`. A pass over the graph is a
function of the graph: it returns the graph with its audio-thread state
updated and the events pushed to the rings of the plugins, in order. A ring is
named by the document node it belongs to; it outlives the graph. Sample
processing, gains and meters push nothing and are left out.
-/

namespace DawProject.Audio

open Midi

/-- Block size of the plugin ring and of the sub-blocks of the callback. -/
def kRingBlockSize : Nat := 256

inductive MidiKind where
  | noteOff
  | noteOn
  | controlChange
  | pitchBend
deriving DecidableEq, Repr

structure MidiEvent where
  kind : MidiKind
  channel : Nat
  data1 : Nat
  data2 : Nat
  sample_offset : Nat
deriving DecidableEq, Repr

/-- The call that made a push. The code does not record it: it names, for the
statements about notes, the note an event was sent for. -/
inductive Source where
  | timeline (track : Nat) (nt : ScheduledNote)
  | session (track : Nat)
  | live
  | allNotesOff
deriving DecidableEq, Repr

structure Push where
  node : String
  event : MidiEvent
  source : Source
deriving DecidableEq, Repr

/-- What the ring stores of an event: data on 7 bits, channel on 4. -/
def pushMidiEvent (node : String) (source : Source) (ev : MidiEvent) : Push where
  node := node
  event := ⟨ev.kind, ev.channel % 16, ev.data1 % 128, ev.data2 % 128, ev.sample_offset⟩
  source := source

def emitMidi (node : String) (source : Source) (note_on : Bool) (pitch velocity offset : Nat) :
    Push :=
  pushMidiEvent node source
    ⟨if note_on then .noteOn else .noteOff, 0, pitch, velocity, offset⟩

def allNotesOff (node : String) : List Push :=
  (List.range 128).map fun p => emitMidi node .allNotesOff false p 0 0

/-- A launchable session slot: notes in local positions, played in a loop. -/
structure SessionSlot where
  scene_id : String
  loop_len : Int
  notes : List ScheduledNote
deriving DecidableEq, Repr

/-- A track of the graph. `chain` holds the nodes of its hosted plugins; the
first one is the instrument and plays `notes`. -/
structure AudioTrack where
  id : String
  chain : List String
  notes : List ScheduledNote := []
  session_slots : List SessionSlot := []
  solo : Bool := false
  mute : Bool := false
  launched_slot : Int := -1
  launch_clock : Int := 0
  queued_slot : Int := -1
  queued_start : Int := 0
  prev_launched : Int := -1
deriving DecidableEq, Repr

def AudioTrack.instrument_node (t : AudioTrack) : Option String := t.chain.head?

structure AudioGraph where
  tracks : List AudioTrack
  live_midi_track : Int := -1
  live_midi_prev_routed : Bool := false
  live_midi_prev_inst : Option String := none
  session_clock : Int := 0
  transport_playing : Bool := true
  launched_count : Int := 0
  session_epoch : Int := 0
  session_quantum : Int := 0
  musical_quantum : Int := 0
deriving DecidableEq, Repr

namespace AudioGraph

def hasSolo (g : AudioGraph) : Bool := g.tracks.any AudioTrack.solo

/-- Neither muted nor silenced by the solo of another track. -/
def audible (hasSolo : Bool) (t : AudioTrack) : Bool := !t.mute && (!hasSolo || t.solo)

def liveTarget (g : AudioGraph) : Option AudioTrack :=
  if 0 ≤ g.live_midi_track ∧ g.live_midi_track < g.tracks.length then
    g.tracks[g.live_midi_track.toNat]?
  else none

/-- The instrument of the live target, audible or not. -/
def liveInst (g : AudioGraph) : Option String :=
  g.liveTarget.bind AudioTrack.instrument_node

/-- The live target is audible and has an instrument. -/
def liveRouted (g : AudioGraph) : Bool :=
  match g.liveTarget with
  | some t => audible g.hasSolo t && t.instrument_node.isSome
  | none => false

/-- Live MIDI to the instrument of the target track, before the tracks. Losing
the route sends one all-notes-off to the instrument it led to. -/
def routeLive (g : AudioGraph) (live : List MidiEvent) : AudioGraph × List Push :=
  let inst := g.liveInst
  let routed := g.liveRouted
  let released := match g.live_midi_prev_inst with
    | some node => if g.live_midi_prev_routed && !routed then allNotesOff node else []
    | none => []
  let forwarded := match inst with
    | some node =>
        if routed then live.map fun ev => pushMidiEvent node .live { ev with sample_offset := 0 }
        else []
    | none => []
  ({ g with live_midi_prev_routed := routed, live_midi_prev_inst := inst },
    released ++ forwarded)

/-- The launched slot takes the track while it has an instrument. -/
def sessionSlot (t : AudioTrack) : Option SessionSlot :=
  if t.launched_slot ≥ 0 ∧ t.launched_slot < t.session_slots.length ∧
      t.instrument_node.isSome then
    t.session_slots[t.launched_slot.toNat]?
  else none

/-- A queued slot whose start falls before the end of the block is launched. -/
def promote (clock : Int) (frames : Nat) (t : AudioTrack) : AudioTrack :=
  if t.queued_slot ≥ 0 ∧ t.queued_start < clock + frames then
    { t with
      launch_clock := t.queued_start
      launched_slot := t.queued_slot
      queued_slot := -1 }
  else t

/-- The looped notes of the launched slot for this block. -/
def sessionPushes (clock : Int) (frames index : Nat) (t : AudioTrack) : List Push :=
  match sessionSlot t, t.instrument_node with
  | some slot, some node =>
      let lc := t.launch_clock
      if clock ≥ lc then
        (emitSessionLoop slot.notes slot.loop_len (clock - lc) frames).map fun e =>
          emitMidi node (.session index) e.on e.pitch e.vel e.offset
      else if lc - clock < frames then
        let skip := (lc - clock).toNat
        (emitSessionLoop slot.notes slot.loop_len 0 (frames - skip)).map fun e =>
          emitMidi node (.session index) e.on e.pitch e.vel (e.offset + skip)
      else []
  | _, _ => []

/-- The events of one timeline note in the block, pushed for that note. -/
def notePushes (node : String) (index : Nat) (position : Int) (frames : Nat)
    (nt : ScheduledNote) : List Push :=
  (emitBlockNotes [nt] position frames).map fun e =>
    emitMidi node (.timeline index nt) e.on e.pitch e.vel e.offset

/-- The proxy node of the instrument: it passes through, without its notes, a
block that is not exactly the size of the ring. -/
def proxyProcess (node : String) (index : Nat) (notes : List ScheduledNote) (suppress : Bool)
    (frames : Nat) (position : Int) : List Push :=
  if frames ≠ kRingBlockSize then []
  else if !notes.isEmpty && !suppress then
    notes.flatMap (notePushes node index position kRingBlockSize)
  else []

def processTrack (clock : Int) (transport_playing : Bool) (frames : Nat) (position : Int)
    (index : Nat) (track : AudioTrack) : AudioTrack × List Push :=
  let t := promote clock frames track
  let session_active := (sessionSlot t).isSome
  let flush := match t.instrument_node with
    | some node => if t.launched_slot ≠ t.prev_launched then allNotesOff node else []
    | none => []
  let timeline := transport_playing && !session_active
  let notes := match t.instrument_node with
    | some node => proxyProcess node index t.notes (!timeline) frames position
    | none => []
  ({ t with prev_launched := t.launched_slot },
    flush ++ sessionPushes clock frames index t ++ notes)

/-- One pass over the tracks: silent tracks are skipped as they are. -/
def processTracks (hasSolo : Bool) (clock : Int) (transport_playing : Bool) (frames : Nat)
    (position : Int) : Nat → List AudioTrack → List AudioTrack × List Push
  | _, [] => ([], [])
  | i, t :: rest =>
      let here :=
        if audible hasSolo t then processTrack clock transport_playing frames position i t
        else (t, [])
      let later := processTracks hasSolo clock transport_playing frames position (i + 1) rest
      (here.1 :: later.1, here.2 ++ later.2)

/-- A sub-block of the callback. -/
def process (g : AudioGraph) (frames : Nat) (position : Int) (live : List MidiEvent) :
    AudioGraph × List Push :=
  if frames > kRingBlockSize then (g, [])
  else if g.tracks.isEmpty then (g, [])
  else
    let routed := g.routeLive live
    let passed := processTracks g.hasSolo g.session_clock g.transport_playing frames position 0
      g.tracks
    ({ routed.1 with tracks := passed.1 }, routed.2 ++ passed.2)

/-- `getTrackById`: the first track of the id. -/
def updateTrackById (id : String) (f : AudioTrack → AudioTrack) : List AudioTrack → List AudioTrack
  | [] => []
  | t :: rest => if t.id = id then f t :: rest else t :: updateTrackById id f rest

/-- Monitoring state of a track, written by the control thread. -/
def setMonitor (g : AudioGraph) (track_id : String) (solo mute : Bool) : AudioGraph :=
  { g with
    tracks := updateTrackById track_id (fun t => { t with solo := solo, mute := mute }) g.tracks }

/-- `copyMonitorState` of `engine/src/main.cpp`: solo and mute follow the track
ids into the new graph. -/
def copyMonitorState (old new : AudioGraph) : AudioGraph :=
  old.tracks.foldl (fun g o => g.setMonitor o.id o.solo o.mute) new

/-- The next point of the grid `epoch + k * quantum` at or after `now`. -/
def nextQuantumStart (now epoch quantum : Int) : Int :=
  if quantum ≤ 0 then now
  else
    let since := now - epoch
    if since ≤ 0 then epoch
    else epoch + (since + quantum - 1).tdiv quantum * quantum

def inScene (scene_id : String) (t : AudioTrack) (idx : Int) : Bool :=
  scene_id.isEmpty ||
    (decide (idx ≥ 0 ∧ idx < t.session_slots.length) &&
      (t.session_slots[idx.toNat]?.map SessionSlot.scene_id == some scene_id))

/-- The stop half of `launchSlot`: the queued and the launched slot of the
scene, or of any scene when none is named. -/
def stopSlot (g : AudioGraph) (t : AudioTrack) (scene_id : String) : AudioGraph :=
  let dropsQueued := decide (t.queued_slot ≥ 0) && inScene scene_id t t.queued_slot
  let dropsLaunched := decide (t.launched_slot ≥ 0) && inScene scene_id t t.launched_slot
  let wasEngaged := decide (t.launched_slot ≥ 0 ∨ t.queued_slot ≥ 0)
  let engagedAfter :=
    (decide (t.queued_slot ≥ 0) && !dropsQueued) || (decide (t.launched_slot ≥ 0) && !dropsLaunched)
  { g with
    tracks := updateTrackById t.id (fun t =>
      { t with
        queued_slot := if dropsQueued then -1 else t.queued_slot
        launched_slot := if dropsLaunched then -1 else t.launched_slot }) g.tracks
    launched_count :=
      if wasEngaged && !engagedAfter then g.launched_count - 1 else g.launched_count }

/-- The launch half: at once when nothing plays or without quantisation, else
queued for the next point of the grid. -/
def startSlot (g : AudioGraph) (t : AudioTrack) (idx : Nat) (loop_len : Int) (quantize : Bool) :
    AudioGraph :=
  let now := g.session_clock
  let anchor := decide (g.launched_count = 0)
  let epoch := if anchor then now else g.session_epoch
  let quantum :=
    if anchor then (if g.musical_quantum > 0 then g.musical_quantum else loop_len)
    else g.session_quantum
  let queues := !anchor && quantize
  let wasEngaged := decide (t.launched_slot ≥ 0 ∨ t.queued_slot ≥ 0)
  { g with
    session_epoch := epoch
    session_quantum := quantum
    tracks := updateTrackById t.id (fun t =>
      if queues then
        { t with queued_start := nextQuantumStart now epoch quantum, queued_slot := idx }
      else { t with queued_slot := -1, launch_clock := now, launched_slot := idx }) g.tracks
    launched_count := if wasEngaged then g.launched_count else g.launched_count + 1 }

/-- A launch or stop request of the control thread. A track or a slot that does
not exist changes nothing. -/
def launchSlot (g : AudioGraph) (track_id scene_id : String) (stop quantize : Bool) :
    AudioGraph :=
  match g.tracks.find? (fun t => t.id = track_id) with
  | none => g
  | some t =>
      if stop then g.stopSlot t scene_id
      else
        match t.session_slots.findIdx? (fun slot => slot.scene_id = scene_id) with
        | none => g
        | some idx =>
            g.startSlot t idx ((t.session_slots[idx]?.map SessionSlot.loop_len).getD 0) quantize

end AudioGraph

/-- Pushing the notes of a block one by one sends what the scheduler emits. -/
theorem emitBlockNotes_flatMap (notes : List ScheduledNote) (pos : Int) (frames : Nat) :
    notes.flatMap (fun nt => emitBlockNotes [nt] pos frames) =
      emitBlockNotes notes pos frames := by
  simp [emitBlockNotes]

end DawProject.Audio
