import DawProject.Audio.Graph

/-!
The audio callback, `engine/src/audio/audio_callback.cpp`, one sub-block at a
time. A callback is entered with the frame count of the driver and the pending
transport commands, renders its sub-blocks one by one, and publishes its final
position when it leaves. The control thread acts between two sub-blocks on
what the graph reads atomically, and swaps the graph between two callbacks: a
callback keeps the graph it loaded on entry.
-/

namespace DawProject.Audio

/-- `engine/src/transport/transport_state.h`. -/
structure TransportState where
  playing : Bool := false
  position : Int := 0
  looping : Bool := false
  loop_start : Int := 0
  loop_end : Int := 0
  content_end : Int := 0
  user_loop : Bool := false
deriving DecidableEq, Repr

namespace TransportState

def play (t : TransportState) : TransportState := { t with playing := true }

def stop (t : TransportState) : TransportState := { t with playing := false }

def seek (t : TransportState) (position_samples : Int) : TransportState :=
  if position_samples ≥ 0 then { t with position := position_samples } else t

def setLoopPoints (t : TransportState) (start stop : Int) : TransportState :=
  { t with loop_start := start, loop_end := stop }

def setContentEnd (t : TransportState) (stop : Int) : TransportState :=
  let t := { t with content_end := stop }
  if t.user_loop then t else t.setLoopPoints 0 stop

def setUserLoop (t : TransportState) (start stop : Int) : TransportState :=
  { t with user_loop := true }.setLoopPoints start stop

def clearUserLoop (t : TransportState) : TransportState :=
  { t with user_loop := false }.setLoopPoints 0 t.content_end

def setLooping (t : TransportState) (enabled : Bool) : TransportState :=
  { t with looping := enabled }

end TransportState

inductive AudioCommand where
  | play
  | stop
  | seek (seek_position : Int)
  | setLoop (clear_region set_region loop_enabled : Bool) (loop_start loop_end : Int)
deriving DecidableEq, Repr

def processCommand (t : TransportState) : AudioCommand → TransportState
  | .play => t.play
  | .stop => t.stop
  | .seek seek_position => t.seek seek_position
  | .setLoop clear_region set_region loop_enabled loop_start loop_end =>
      let t :=
        if clear_region then t.clearUserLoop
        else if set_region && decide (loop_end > loop_start ∧ loop_start ≥ 0) then
          t.setUserLoop loop_start loop_end
        else t
      t.setLooping loop_enabled

def processCommands (t : TransportState) (cmds : List AudioCommand) : TransportState :=
  cmds.foldl processCommand t

/-- The locals of a callback between two sub-blocks. -/
structure Callback where
  remaining : Nat
  position : Int
  is_playing : Bool
  looping : Bool
  loop_start : Int
  loop_end : Int
deriving DecidableEq, Repr

def Callback.bounded (cb : Callback) : Prop := cb.loop_end > cb.loop_start

instance (cb : Callback) : Decidable cb.bounded := inferInstanceAs (Decidable (_ < _))

/-- The position has reached the brace or the end of the content. -/
def Callback.atEnd (cb : Callback) : Prop :=
  cb.is_playing = true ∧ cb.bounded ∧ cb.position ≥ cb.loop_end

instance (cb : Callback) : Decidable cb.atEnd := inferInstanceAs (Decidable (_ ∧ _ ∧ _))

/-- Where the next sub-block starts. -/
def Callback.start (cb : Callback) : Int :=
  if cb.atEnd ∧ cb.looping = true then cb.loop_start else cb.position

/-- Size of the next sub-block: cut at 256 frames, at the end of the buffer
and, when playing, at the brace. -/
def Callback.chunk (cb : Callback) : Nat :=
  let chunk := min kRingBlockSize cb.remaining
  if cb.is_playing = true ∧ cb.bounded ∧ cb.start + chunk > cb.loop_end then
    (cb.loop_end - cb.start).toNat
  else chunk

/-- The engine seen by the audio thread. -/
structure EngineState where
  transport : TransportState := {}
  session_clock : Int := 0
  graph : AudioGraph
  inside : Option Callback := none
deriving DecidableEq, Repr

def MAX_REASONABLE_FRAMES : Nat := 65536

/-- Entry of a callback, up to the loop over the sub-blocks. -/
def enterCallback (s : EngineState) (frame_count : Nat) (cmds : List AudioCommand) :
    EngineState :=
  if frame_count > MAX_REASONABLE_FRAMES ∨ frame_count = 0 then s
  else
    let transport := processCommands s.transport cmds
    let session_only := !transport.playing &&
      (decide (s.graph.launched_count > 0) || decide (s.graph.live_midi_track ≥ 0))
    if !transport.playing && !session_only then
      { s with transport := transport, session_clock := s.session_clock + frame_count }
    else
      { s with
        transport := transport
        inside := some
          { remaining := frame_count
            position := transport.position
            is_playing := transport.playing
            looping := transport.looping
            loop_start := if transport.looping then transport.loop_start else 0
            loop_end := if transport.looping then transport.loop_end
              else transport.content_end } }

/-- A sub-block as the callback rendered it. -/
structure BlockRecord where
  position : Int
  frames : Nat
  graph : AudioGraph
  pushes : List Push

/-- One turn of the loop over the sub-blocks. Reaching the end of the content
without a loop stops the transport and ends the buffer. -/
def renderBlock (s : EngineState) (cb : Callback) (live : List MidiEvent) :
    EngineState × Option BlockRecord :=
  if cb.atEnd ∧ cb.looping = false then
    ({ s with
        transport := s.transport.stop
        inside := some { cb with remaining := 0, position := cb.loop_end } }, none)
  else
    let graph :=
      { s.graph with session_clock := s.session_clock, transport_playing := cb.is_playing }
    let done := graph.process cb.chunk cb.start live
    ({ s with
        session_clock := s.session_clock + cb.chunk
        graph := done.1
        inside := some
          { cb with
            remaining := cb.remaining - cb.chunk
            position := if cb.is_playing then cb.start + cb.chunk else cb.start } },
      some ⟨cb.start, cb.chunk, graph, done.2⟩)

/-- Leaving publishes the position, in playback only. -/
def leaveCallback (s : EngineState) (cb : Callback) : EngineState :=
  { s with
    transport := if cb.is_playing then s.transport.seek cb.position else s.transport
    inside := none }

/-- What the run is made of: the callback and the control thread. A rebuild
comes with the plugin nodes of its document; the others are evicted. -/
inductive Label where
  | enter (frame_count : Nat) (cmds : List AudioCommand)
  | block (live : List MidiEvent)
  | leave
  | setMonitor (track_id : String) (solo mute : Bool)
  | launch (track_id scene_id : String) (stop quantize : Bool)
  | rebuild (graph : AudioGraph) (content_end : Int) (vst3_nodes : List String)

/-- One step of the engine, with the sub-block it rendered. -/
def step (s : EngineState) : Label → Option (EngineState × Option BlockRecord)
  | .enter frame_count cmds =>
      if s.inside.isNone then some (enterCallback s frame_count cmds, none) else none
  | .block live =>
      match s.inside with
      | some cb => if cb.remaining > 0 then some (renderBlock s cb live) else none
      | none => none
  | .leave =>
      match s.inside with
      | some cb => if cb.remaining = 0 then some (leaveCallback s cb, none) else none
      | none => none
  | .setMonitor track_id solo mute =>
      some ({ s with graph := s.graph.setMonitor track_id solo mute }, none)
  | .launch track_id scene_id stop quantize =>
      some ({ s with graph := s.graph.launchSlot track_id scene_id stop quantize }, none)
  | .rebuild graph content_end _ =>
      if s.inside.isNone then
        some ({ s with
          graph := AudioGraph.copyMonitorState s.graph graph
          transport := s.transport.setContentEnd content_end }, none)
      else none

section Step

variable {s next : EngineState} {rendered : Option BlockRecord}

theorem step_enter {frame_count : Nat} {cmds : List AudioCommand}
    (hstep : step s (.enter frame_count cmds) = some (next, rendered)) :
    s.inside = none ∧ next = enterCallback s frame_count cmds ∧ rendered = none := by
  obtain ⟨hidle, hnext⟩ := Option.ite_none_right_eq_some.mp hstep
  obtain ⟨rfl, rfl⟩ := Prod.mk.inj (Option.some.inj hnext)
  exact ⟨Option.isNone_iff_eq_none.mp hidle, rfl, rfl⟩

theorem step_block {live : List MidiEvent}
    (hstep : step s (.block live) = some (next, rendered)) :
    ∃ cb, s.inside = some cb ∧ 0 < cb.remaining ∧ renderBlock s cb live = (next, rendered) := by
  simp only [step] at hstep
  split at hstep
  · rename_i cb hinside
    obtain ⟨hremaining, hnext⟩ := Option.ite_none_right_eq_some.mp hstep
    exact ⟨cb, hinside, hremaining, Option.some.inj hnext⟩
  · cases hstep

theorem step_leave (hstep : step s .leave = some (next, rendered)) :
    ∃ cb, s.inside = some cb ∧ cb.remaining = 0 ∧ next = leaveCallback s cb ∧ rendered = none := by
  simp only [step] at hstep
  split at hstep
  · rename_i cb hinside
    obtain ⟨hremaining, hnext⟩ := Option.ite_none_right_eq_some.mp hstep
    obtain ⟨rfl, rfl⟩ := Prod.mk.inj (Option.some.inj hnext)
    exact ⟨cb, hinside, hremaining, rfl, rfl⟩
  · cases hstep

theorem step_rebuild {graph : AudioGraph} {content_end : Int} {vst3_nodes : List String}
    (hstep : step s (.rebuild graph content_end vst3_nodes) = some (next, rendered)) :
    s.inside = none ∧
      next = { s with
        graph := AudioGraph.copyMonitorState s.graph graph
        transport := s.transport.setContentEnd content_end } ∧ rendered = none := by
  obtain ⟨hidle, hnext⟩ := Option.ite_none_right_eq_some.mp hstep
  obtain ⟨rfl, rfl⟩ := Prod.mk.inj (Option.some.inj hnext)
  exact ⟨Option.isNone_iff_eq_none.mp hidle, rfl, rfl⟩

/-- Only a turn of the loop renders, and not the one that stops at the end of
the content. -/
theorem step_rendered {l : Label} {r : BlockRecord} (hstep : step s l = some (next, some r)) :
    ∃ cb live, l = .block live ∧ s.inside = some cb ∧ 0 < cb.remaining ∧
      ¬(cb.atEnd ∧ cb.looping = false) ∧
      r = ⟨cb.start, cb.chunk,
        { s.graph with session_clock := s.session_clock, transport_playing := cb.is_playing },
        ({ s.graph with
          session_clock := s.session_clock
          transport_playing := cb.is_playing }.process cb.chunk cb.start live).2⟩ := by
  cases l with
  | enter frame_count cmds => cases (step_enter hstep).2.2
  | block live =>
      obtain ⟨cb, hinside, hremaining, hrendered⟩ := step_block hstep
      unfold renderBlock at hrendered
      split at hrendered
      · cases hrendered
      · rename_i hgo
        obtain ⟨-, hr⟩ := Prod.mk.inj hrendered
        exact ⟨cb, live, rfl, hinside, hremaining, hgo, (Option.some.inj hr).symm⟩
  | leave =>
      obtain ⟨cb, -, -, -, hnone⟩ := step_leave hstep
      cases hnone
  | setMonitor track_id solo mute => cases hstep
  | launch track_id scene_id stop quantize => cases hstep
  | rebuild graph content_end vst3_nodes => cases (step_rebuild hstep).2.2

end Step

end DawProject.Audio
