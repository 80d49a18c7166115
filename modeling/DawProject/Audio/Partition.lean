import DawProject.Audio.Trace

/-!
The callback against a reference that advances one frame at a time. The driver
chooses how the frames are split into callbacks, and each callback cuts its
buffer at 256 frames, at the brace and at the end of the content; none of these
cuts is visible on the timeline.
-/

namespace DawProject.Audio

/-- The bounds a callback reads on entry: the braces of the loop, or the end
of the content. -/
structure Braces where
  looping : Bool
  loop_start : Int
  loop_end : Int
deriving DecidableEq, Repr

def TransportState.braces (t : TransportState) : Braces where
  looping := t.looping
  loop_start := if t.looping then t.loop_start else 0
  loop_end := if t.looping then t.loop_end else t.content_end

def Callback.braces (cb : Callback) : Braces := ⟨cb.looping, cb.loop_start, cb.loop_end⟩

structure Playhead where
  playing : Bool
  position : Int
deriving DecidableEq, Repr

/-- One frame of the reference, with the position it renders. -/
def Braces.frame (b : Braces) (h : Playhead) : Playhead × Option Int :=
  if h.playing = false then (h, none)
  else if b.loop_end > b.loop_start ∧ h.position ≥ b.loop_end then
    if b.looping then (⟨true, b.loop_start + 1⟩, some b.loop_start)
    else (⟨false, b.loop_end⟩, none)
  else (⟨true, h.position + 1⟩, some h.position)

/-- `n` frames of the reference, with the positions they render in order. -/
def Braces.frames (b : Braces) : Nat → Playhead → Playhead × List Int
  | 0, h => (h, [])
  | n + 1, h =>
      let one := b.frame h
      let rest := b.frames n one.1
      (rest.1, one.2.toList ++ rest.2)

/-- Consecutive timeline positions. -/
def positionsFrom (position : Int) (frames : Nat) : List Int :=
  (List.range frames).map fun (i : Nat) => position + i

theorem positionsFrom_succ (position : Int) (frames : Nat) :
    positionsFrom position (frames + 1) = position :: positionsFrom (position + 1) frames := by
  simp only [positionsFrom, List.range_succ_eq_map, List.map_cons, List.map_map]
  congr 1
  · simp
  · apply List.map_congr_left
    intro i _
    simp only [Function.comp_apply, Nat.cast_succ]
    omega

section Reference

variable {b : Braces} {h : Playhead}

theorem Braces.frames_add (m n : Nat) :
    b.frames (m + n) h =
      ((b.frames n (b.frames m h).1).1, (b.frames m h).2 ++ (b.frames n (b.frames m h).1).2) := by
  induction m generalizing h with
  | zero => simp [Braces.frames]
  | succ m ih =>
      rw [Nat.succ_add]
      simp only [Braces.frames, ih, List.append_assoc]

theorem Braces.frames_stopped (hstopped : h.playing = false) (n : Nat) :
    b.frames n h = (h, []) := by
  induction n with
  | zero => rfl
  | succ n ih =>
      have hone : b.frame h = (h, none) := by
        rw [Braces.frame, if_pos hstopped]
      simp only [Braces.frames, hone, ih]
      rfl

/-- Up to the brace the reference renders consecutive positions. -/
theorem Braces.frames_consecutive {p : Int} {n : Nat}
    (hroom : b.loop_end > b.loop_start → p + n ≤ b.loop_end) :
    b.frames n ⟨true, p⟩ = (⟨true, p + n⟩, positionsFrom p n) := by
  induction n generalizing p with
  | zero => simp [Braces.frames, positionsFrom]
  | succ n ih =>
      have hone : b.frame ⟨true, p⟩ = (⟨true, p + 1⟩, some p) := by
        rw [Braces.frame, if_neg (by simp), if_neg]
        rintro ⟨hbounded, hend⟩
        have hle := hroom hbounded
        push_cast at hle
        dsimp only at hend
        omega
      have hrest := ih (p := p + 1) <| by
        intro hbounded
        have hle := hroom hbounded
        push_cast at hle
        omega
      simp only [Braces.frames, hone, hrest, positionsFrom_succ, Option.toList_some,
        List.singleton_append, Prod.mk.injEq, Playhead.mk.injEq, true_and, and_true]
      push_cast
      omega

/-- At the brace of a loop the next frame is the start of the loop. -/
theorem Braces.frames_wrap {p : Int} (hlooping : b.looping = true)
    (hbounded : b.loop_end > b.loop_start) (hend : p ≥ b.loop_end) (n : Nat) :
    b.frames (n + 1) ⟨true, p⟩ = b.frames (n + 1) ⟨true, b.loop_start⟩ := by
  have hone : b.frame ⟨true, p⟩ = b.frame ⟨true, b.loop_start⟩ := by
    rw [Braces.frame, Braces.frame, if_neg (by simp), if_pos ⟨hbounded, hend⟩, if_pos hlooping,
      if_neg (by simp), if_neg (by intro hat; exact absurd hat.2 (not_le.mpr hbounded))]
  simp only [Braces.frames, hone]

/-- At the end of the content the reference stops there. -/
theorem Braces.frames_end {p : Int} (hlooping : b.looping = false)
    (hbounded : b.loop_end > b.loop_start) (hend : p ≥ b.loop_end) (n : Nat) :
    b.frames (n + 1) ⟨true, p⟩ = (⟨false, b.loop_end⟩, []) := by
  have hone : b.frame ⟨true, p⟩ = (⟨false, b.loop_end⟩, none) := by
    rw [Braces.frame, if_neg (by simp), if_pos ⟨hbounded, hend⟩, if_neg (by simp [hlooping])]
  simp only [Braces.frames, hone]
  rw [Braces.frames_stopped rfl]
  rfl

end Reference

/-- The timeline positions a sub-block renders. A stopped transport renders the
session slots only, and the timeline is silent. -/
def BlockRecord.timeline (r : BlockRecord) : List Int :=
  if r.graph.transport_playing then positionsFrom r.position r.frames else []

/-- The playhead, inside a callback or between two. -/
def EngineState.playhead (s : EngineState) : Playhead where
  playing := s.transport.playing
  position :=
    match s.inside with
    | some cb => if cb.is_playing then cb.position else s.transport.position
    | none => s.transport.position

/-- The frames the driver asked for that are not rendered yet. -/
def EngineState.pending (s : EngineState) : Nat :=
  match s.inside with
  | some cb => cb.remaining
  | none => 0

/-- The frames a label asks for. -/
def Label.frames : Label → Nat
  | .enter frame_count _ => frame_count
  | _ => 0

def totalFrames (labels : List Label) : Nat := (labels.map Label.frames).sum

/-- Nothing changes the transport or the content. -/
def Label.Steady : Label → Prop
  | .enter _ cmds => cmds = []
  | .rebuild _ _ _ => False
  | _ => True

/-- The callback takes the buffer. -/
def Label.Accepted : Label → Prop
  | .enter frame_count _ => frame_count ≤ MAX_REASONABLE_FRAMES
  | _ => True

instance : DecidablePred Label.Steady
  | .enter _ cmds => inferInstanceAs (Decidable (cmds = []))
  | .rebuild _ _ _ => inferInstanceAs (Decidable False)
  | .block _ | .leave | .setMonitor _ _ _ | .launch _ _ _ _ => inferInstanceAs (Decidable True)

instance : DecidablePred Label.Accepted
  | .enter frame_count _ => inferInstanceAs (Decidable (frame_count ≤ MAX_REASONABLE_FRAMES))
  | .block _ | .leave | .setMonitor _ _ _ | .launch _ _ _ _ | .rebuild _ _ _ =>
      inferInstanceAs (Decidable True)

/-- What holds of the transport and of the callback in every reachable state. -/
structure EngineState.Sound (s : EngineState) : Prop where
  loop_start : 0 ≤ s.transport.loop_start
  position : 0 ≤ s.playhead.position
  braces : ∀ cb ∈ s.inside, cb.braces = s.transport.braces
  playing : ∀ cb ∈ s.inside, s.transport.playing = true → cb.is_playing = true
  stopped : ∀ cb ∈ s.inside, cb.is_playing = true → s.transport.playing = false → cb.remaining = 0

section Sound

variable {s next : EngineState} {cb : Callback} {rendered : Option BlockRecord}

theorem processCommand_sound {t : TransportState} (hloop : 0 ≤ t.loop_start)
    (hposition : 0 ≤ t.position) (cmd : AudioCommand) :
    0 ≤ (processCommand t cmd).loop_start ∧ 0 ≤ (processCommand t cmd).position := by
  cases cmd with
  | play => exact ⟨hloop, hposition⟩
  | stop => exact ⟨hloop, hposition⟩
  | seek seek_position =>
      simp only [processCommand, TransportState.seek]
      split
      · exact ⟨hloop, by assumption⟩
      · exact ⟨hloop, hposition⟩
  | setLoop clear_region set_region loop_enabled loop_start loop_end =>
      simp only [processCommand, TransportState.setLooping]
      split
      · exact ⟨le_refl _, hposition⟩
      · split
        · rename_i hset
          simp only [Bool.and_eq_true, decide_eq_true_eq] at hset
          exact ⟨hset.2.2, hposition⟩
        · exact ⟨hloop, hposition⟩

theorem processCommands_sound {t : TransportState} (hloop : 0 ≤ t.loop_start)
    (hposition : 0 ≤ t.position) (cmds : List AudioCommand) :
    0 ≤ (processCommands t cmds).loop_start ∧ 0 ≤ (processCommands t cmds).position := by
  induction cmds generalizing t with
  | nil => exact ⟨hloop, hposition⟩
  | cons cmd rest ih =>
      have hone := processCommand_sound hloop hposition cmd
      exact ih hone.1 hone.2

theorem playhead_of_idle (hidle : s.inside = none) :
    s.playhead = ⟨s.transport.playing, s.transport.position⟩ := by
  simp only [EngineState.playhead, hidle]

theorem pending_of_idle (hidle : s.inside = none) : s.pending = 0 := by
  simp only [EngineState.pending, hidle]

theorem enterCallback_sound (hs : s.Sound) (hidle : s.inside = none) (frame_count : Nat)
    (cmds : List AudioCommand) : (enterCallback s frame_count cmds).Sound := by
  have hposition : 0 ≤ s.transport.position := by
    have hpos := hs.position
    rwa [playhead_of_idle hidle] at hpos
  have hcommands := processCommands_sound hs.loop_start hposition cmds
  unfold enterCallback
  split
  · exact hs
  · dsimp only
    split
    · refine ⟨hcommands.1, ?_, ?_, ?_, ?_⟩
      · simp only [EngineState.playhead, hidle]
        exact hcommands.2
      all_goals
        intro cb hcb
        rw [hidle] at hcb
        cases hcb
    · refine ⟨hcommands.1, ?_, ?_, ?_, ?_⟩
      · simp only [EngineState.playhead, ite_self]
        exact hcommands.2
      · rintro _ ⟨⟩
        rfl
      · rintro _ ⟨⟩ hplaying
        exact hplaying
      · rintro _ ⟨⟩ hplaying hstopped
        dsimp only at hplaying hstopped
        rw [hplaying] at hstopped
        cases hstopped

/-- The braces of a callback are not negative either. -/
theorem EngineState.Sound.callback_loop_start (hs : s.Sound) (hcb : cb ∈ s.inside) :
    0 ≤ cb.loop_start := by
  have hstart : cb.loop_start = s.transport.braces.loop_start := by
    rw [← hs.braces cb hcb]
    rfl
  rw [hstart, TransportState.braces]
  dsimp only
  split
  · exact hs.loop_start
  · exact le_refl _

theorem EngineState.Sound.callback_position (hs : s.Sound) (hcb : cb ∈ s.inside)
    (hplays : cb.is_playing = true) : 0 ≤ cb.position := by
  have hpos := hs.position
  rw [Option.mem_def] at hcb
  simpa only [EngineState.playhead, hcb, hplays, if_true] using hpos

theorem EngineState.Sound.start_nonneg (hs : s.Sound) (hcb : cb ∈ s.inside)
    (hplays : cb.is_playing = true) : 0 ≤ cb.start := by
  unfold Callback.start
  split
  · exact hs.callback_loop_start hcb
  · exact hs.callback_position hcb hplays

theorem renderBlock_sound (hs : s.Sound) (hcb : cb ∈ s.inside) (live : List MidiEvent) :
    (renderBlock s cb live).1.Sound := by
  unfold renderBlock
  split
  · rename_i hend
    refine ⟨hs.loop_start, ?_, ?_, ?_, ?_⟩
    · have hstart := hs.callback_loop_start hcb
      have hbounded : cb.loop_end > cb.loop_start := hend.1.2.1
      simp only [EngineState.playhead, hend.1.1, if_true]
      omega
    · rintro _ ⟨⟩
      exact hs.braces cb hcb
    · rintro _ ⟨⟩ _
      exact hend.1.1
    · rintro _ ⟨⟩ _ _
      rfl
  · refine ⟨hs.loop_start, ?_, ?_, ?_, ?_⟩
    · simp only [EngineState.playhead]
      by_cases hplays : cb.is_playing = true
      · have hstart := hs.start_nonneg hcb hplays
        simp only [hplays, if_true]
        omega
      · have hpos := hs.position
        rw [Option.mem_def] at hcb
        simp only [EngineState.playhead, hcb, if_neg hplays] at hpos ⊢
        exact hpos
    · rintro _ ⟨⟩
      exact hs.braces cb hcb
    · rintro _ ⟨⟩ hplaying
      exact hs.playing cb hcb hplaying
    · rintro _ ⟨⟩ hplays hstopped
      have hnone := hs.stopped cb hcb hplays hstopped
      dsimp only
      omega

theorem leaveCallback_sound (hs : s.Sound) (hcb : cb ∈ s.inside) :
    (leaveCallback s cb).Sound ∧ (leaveCallback s cb).playhead = s.playhead := by
  have hpos := hs.position
  rw [Option.mem_def] at hcb
  have hplayhead : (leaveCallback s cb).playhead = s.playhead := by
    unfold leaveCallback
    by_cases hplays : cb.is_playing = true
    · simp only [EngineState.playhead, hcb, hplays, if_true] at hpos ⊢
      simp only [TransportState.seek, if_pos (ge_iff_le.mpr hpos)]
    · simp only [EngineState.playhead, hcb, hplays]
      rfl
  refine ⟨⟨?_, ?_, ?_, ?_, ?_⟩, hplayhead⟩
  · unfold leaveCallback TransportState.seek
    dsimp only
    split
    · split <;> exact hs.loop_start
    · exact hs.loop_start
  · rw [hplayhead]
    exact hpos
  all_goals rintro _ ⟨⟩

theorem sound_of_step {l : Label} (hs : s.Sound) (hstep : step s l = some (next, rendered)) :
    next.Sound := by
  cases l with
  | enter frame_count cmds =>
      obtain ⟨hnone, rfl, -⟩ := step_enter hstep
      exact enterCallback_sound hs hnone frame_count cmds
  | block live =>
      obtain ⟨cb, hcb, -, hnext⟩ := step_block hstep
      have hrendered := renderBlock_sound hs hcb live
      rw [hnext] at hrendered
      exact hrendered
  | leave =>
      obtain ⟨cb, hcb, -, rfl, -⟩ := step_leave hstep
      exact (leaveCallback_sound hs hcb).1
  | setMonitor track_id solo mute =>
      cases hstep
      exact ⟨hs.loop_start, hs.position, hs.braces, hs.playing, hs.stopped⟩
  | launch track_id scene_id stop quantize =>
      cases hstep
      exact ⟨hs.loop_start, hs.position, hs.braces, hs.playing, hs.stopped⟩
  | rebuild graph content_end vst3_nodes =>
      obtain ⟨hnone, rfl, -⟩ := step_rebuild hstep
      have hpos := hs.position
      rw [playhead_of_idle hnone] at hpos
      refine ⟨?_, ?_, ?_, ?_, ?_⟩
      · simp only [TransportState.setContentEnd]
        split
        · exact hs.loop_start
        · exact le_refl _
      · simp only [EngineState.playhead, hnone, TransportState.setContentEnd]
        split <;> exact hpos
      all_goals
        intro cb hcb
        rw [hnone] at hcb
        cases hcb

theorem sound_of_runTrace {labels : List Label} {last : EngineState} {records : List BlockRecord}
    (hs : s.Sound) (hrun : runTrace s labels = some (last, records)) : last.Sound :=
  runTrace_invariant hrun hs fun _ _ _ _ _ hstep hnow => sound_of_step hnow hstep

/-- The timeline is never rendered at a negative position. -/
theorem position_nonneg_of_step {l : Label} {r : BlockRecord} (hs : s.Sound)
    (hstep : step s l = some (next, some r)) (hplays : r.graph.transport_playing = true) :
    0 ≤ r.position := by
  obtain ⟨cb, live, -, hcb, -, -, rfl⟩ := step_rendered hstep
  exact hs.start_nonneg hcb hplays

theorem position_nonneg_of_runTrace {labels : List Label} {last : EngineState}
    {records : List BlockRecord} (hs : s.Sound) (hrun : runTrace s labels = some (last, records)) :
    ∀ r ∈ records, r.graph.transport_playing = true → 0 ≤ r.position := by
  apply runTrace_records (P := EngineState.Sound)
    (Q := fun r => r.graph.transport_playing = true → 0 ≤ r.position) hrun hs
  intro a l b rendered hstep hnow
  refine ⟨sound_of_step hnow hstep, ?_⟩
  rintro r rfl
  exact position_nonneg_of_step hnow hstep

/-- An engine that has just been built is stopped at zero. -/
theorem sound_of_fresh (graph : AudioGraph) : ({ graph := graph } : EngineState).Sound := by
  refine ⟨le_refl _, le_refl _, ?_, ?_, ?_⟩
  all_goals rintro _ ⟨⟩

end Sound

section Progress

variable {cb : Callback}

theorem Callback.start_lt (hbounded : cb.bounded) (hplays : cb.is_playing = true)
    (hgo : ¬(cb.atEnd ∧ cb.looping = false)) : cb.start < cb.loop_end := by
  unfold Callback.start
  split
  · exact hbounded
  · rename_i hstay
    by_contra hend
    have hat : cb.atEnd := ⟨hplays, hbounded, not_lt.mp hend⟩
    cases hlooping : cb.looping with
    | false => exact hgo ⟨hat, hlooping⟩
    | true => exact hstay ⟨hat, hlooping⟩

/-- A turn of the loop that does not leave it consumes a frame. -/
theorem Callback.chunk_pos (hremaining : 0 < cb.remaining)
    (hgo : ¬(cb.atEnd ∧ cb.looping = false)) : 0 < cb.chunk := by
  have hring : 0 < kRingBlockSize := by decide
  unfold Callback.chunk
  dsimp only
  split
  · rename_i hcut
    have hlt := Callback.start_lt hcut.2.1 hcut.1 hgo
    omega
  · omega

theorem Callback.chunk_le_remaining : cb.chunk ≤ cb.remaining := by
  unfold Callback.chunk
  dsimp only
  split <;> omega

/-- The sub-block ends at the brace at the latest. -/
theorem Callback.chunk_le_brace (hbounded : cb.bounded) (hplays : cb.is_playing = true)
    (hgo : ¬(cb.atEnd ∧ cb.looping = false)) : cb.start + cb.chunk ≤ cb.loop_end := by
  have hlt := Callback.start_lt hbounded hplays hgo
  unfold Callback.chunk
  dsimp only
  split
  · omega
  · rename_i hfits
    by_contra hover
    exact hfits ⟨hplays, hbounded, not_le.mp hover⟩

theorem pending_lt_of_block {s next : EngineState} {live : List MidiEvent}
    {rendered : Option BlockRecord} (hstep : step s (.block live) = some (next, rendered)) :
    next.pending < s.pending := by
  obtain ⟨cb, hcb, hremaining, hnext⟩ := step_block hstep
  have hhere : s.pending = cb.remaining := by
    simp only [EngineState.pending, hcb]
  rw [hhere]
  unfold renderBlock at hnext
  split at hnext
  · cases hnext
    exact hremaining
  · rename_i hgo
    cases hnext
    have hpos := Callback.chunk_pos hremaining hgo
    simp only [EngineState.pending]
    omega

end Progress

section Refinement

variable {s next : EngineState} {rendered : Option BlockRecord}

/-- One sub-block is as many frames of the reference as it consumes. -/
theorem frames_of_renderBlock {cb : Callback} (hs : s.Sound) (hcb : cb ∈ s.inside)
    (hremaining : 0 < cb.remaining) (live : List MidiEvent)
    (hnext : renderBlock s cb live = (next, rendered)) :
    ∃ k, cb.remaining = k + next.pending ∧
      s.transport.braces.frames k s.playhead =
        (next.playhead, rendered.toList.flatMap BlockRecord.timeline) ∧
      next.transport.braces = s.transport.braces := by
  have hbraces := hs.braces cb hcb
  rw [Option.mem_def] at hcb
  unfold renderBlock at hnext
  split at hnext
  · -- The end of the content: the rest of the buffer is silent.
    rename_i hend
    cases hnext
    obtain ⟨⟨hplays, hbounded, hat⟩, hlooping⟩ := hend
    have hplaying : s.transport.playing = true := by
      by_contra hstopped
      have hnone := hs.stopped cb hcb hplays (Bool.eq_false_iff.mpr hstopped)
      omega
    refine ⟨cb.remaining, rfl, ?_, rfl⟩
    rw [← hbraces]
    obtain ⟨n, hn⟩ : ∃ n, cb.remaining = n + 1 := ⟨cb.remaining - 1, by omega⟩
    simp only [EngineState.playhead, hcb, hplays, hplaying, if_true]
    rw [hn, Braces.frames_end (b := cb.braces) hlooping hbounded hat]
    rfl
  · rename_i hgo
    cases hnext
    have hle : cb.chunk ≤ cb.remaining := Callback.chunk_le_remaining
    refine ⟨cb.chunk, ?_, ?_, rfl⟩
    · simp only [EngineState.pending]
      omega
    rw [← hbraces]
    by_cases hplays : cb.is_playing = true
    · have hplaying : s.transport.playing = true := by
        by_contra hstopped
        have hnone := hs.stopped cb hcb hplays (Bool.eq_false_iff.mpr hstopped)
        omega
      have hstretch : cb.braces.frames cb.chunk ⟨true, cb.start⟩ =
          (⟨true, cb.start + cb.chunk⟩, positionsFrom cb.start cb.chunk) := by
        apply Braces.frames_consecutive
        intro hbounded
        exact Callback.chunk_le_brace hbounded hplays hgo
      have hwrap : cb.braces.frames cb.chunk ⟨true, cb.position⟩ =
          cb.braces.frames cb.chunk ⟨true, cb.start⟩ := by
        unfold Callback.start
        split
        · rename_i hturn
          obtain ⟨n, hn⟩ : ∃ n, cb.chunk = n + 1 :=
            ⟨cb.chunk - 1, by have := Callback.chunk_pos hremaining hgo; omega⟩
          rw [hn]
          exact Braces.frames_wrap (b := cb.braces) hturn.2 hturn.1.2.1 hturn.1.2.2 n
        · rfl
      simp only [EngineState.playhead, hcb, hplays, hplaying, if_true, hwrap, hstretch,
        BlockRecord.timeline, Option.toList_some, List.flatMap_cons, List.flatMap_nil,
        List.append_nil]
    · have hstopped : s.transport.playing = false := by
        rw [Bool.eq_false_iff]
        intro hplaying
        exact hplays (hs.playing cb hcb hplaying)
      have hfrozen : s.playhead = ⟨s.transport.playing, s.transport.position⟩ := by
        simp only [EngineState.playhead, hcb, if_neg hplays]
      rw [Braces.frames_stopped hstopped, hfrozen]
      simp only [EngineState.playhead, BlockRecord.timeline, hplays, Option.toList_some,
        List.flatMap_cons, List.flatMap_nil, List.append_nil]
      rfl

/-- One step is as many frames of the reference as it consumes. -/
theorem frames_of_step {l : Label} (hs : s.Sound) (hquiet : l.Steady ∧ l.Accepted)
    (hstep : step s l = some (next, rendered)) :
    ∃ k, s.pending + l.frames = k + next.pending ∧
      s.transport.braces.frames k s.playhead =
        (next.playhead, rendered.toList.flatMap BlockRecord.timeline) ∧
      next.transport.braces = s.transport.braces := by
  cases l with
  | enter frame_count cmds =>
      obtain ⟨hnone, rfl, rfl⟩ := step_enter hstep
      obtain ⟨rfl, hsize : frame_count ≤ MAX_REASONABLE_FRAMES⟩ := hquiet
      rw [pending_of_idle hnone]
      unfold enterCallback
      split
      · rename_i hrefused
        have hzero : frame_count = 0 := by omega
        refine ⟨0, ?_, rfl, rfl⟩
        rw [pending_of_idle hnone, hzero]
        rfl
      · dsimp only
        split
        · -- A silent callback: the transport is stopped.
          rename_i hsilent
          simp only [Bool.and_eq_true, Bool.not_eq_true'] at hsilent
          refine ⟨frame_count, ?_, ?_, rfl⟩
          · simp only [EngineState.pending, hnone, Label.frames]
            omega
          · rw [Braces.frames_stopped hsilent.1]
            rfl
        · refine ⟨0, ?_, ?_, rfl⟩
          · simp only [EngineState.pending, Label.frames]
          · rw [playhead_of_idle hnone]
            simp only [EngineState.playhead, ite_self]
            rfl
  | block live =>
      obtain ⟨cb, hcb, hremaining, hnext⟩ := step_block hstep
      have hhere : s.pending = cb.remaining := by
        simp only [EngineState.pending, hcb]
      rw [hhere]
      exact frames_of_renderBlock hs hcb hremaining live hnext
  | leave =>
      obtain ⟨cb, hcb, hremaining, rfl, rfl⟩ := step_leave hstep
      refine ⟨0, ?_, ?_, ?_⟩
      · simp only [EngineState.pending, hcb, hremaining, leaveCallback, Label.frames]
      · rw [(leaveCallback_sound hs hcb).2]
        rfl
      · unfold leaveCallback TransportState.seek
        dsimp only
        split
        · split <;> rfl
        · rfl
  | setMonitor track_id solo mute =>
      cases hstep
      refine ⟨0, ?_, rfl, rfl⟩
      simp only [EngineState.pending, Label.frames]
      omega
  | launch track_id scene_id stop quantize =>
      cases hstep
      refine ⟨0, ?_, rfl, rfl⟩
      simp only [EngineState.pending, Label.frames]
      omega
  | rebuild graph content_end vst3_nodes => exact absurd hquiet.1 id

/-- A run is as many frames of the reference as it consumes. -/
theorem frames_of_runTrace {labels : List Label} {last : EngineState} {records : List BlockRecord}
    (hs : s.Sound) (hquiet : ∀ l ∈ labels, l.Steady ∧ l.Accepted)
    (hrun : runTrace s labels = some (last, records)) :
    ∃ k, s.pending + totalFrames labels = k + last.pending ∧
      s.transport.braces.frames k s.playhead =
        (last.playhead, records.flatMap BlockRecord.timeline) := by
  induction labels generalizing s records with
  | nil =>
      cases hrun
      exact ⟨0, by simp only [totalFrames, List.map_nil, List.sum_nil]; omega, rfl⟩
  | cons l labels ih =>
      obtain ⟨next, rendered, later, hstep, hrest, rfl⟩ := runTrace_cons hrun
      obtain ⟨k, hk, hone, hsame⟩ := frames_of_step hs (hquiet l List.mem_cons_self) hstep
      obtain ⟨m, hm, hmany⟩ := ih (sound_of_step hs hstep)
        (fun l' hl' => hquiet l' (List.mem_cons_of_mem _ hl')) hrest
      refine ⟨k + m, ?_, ?_⟩
      · simp only [totalFrames, List.map_cons, List.sum_cons] at hm ⊢
        omega
      · rw [hsame] at hmany
        rw [Braces.frames_add, hone, hmany, List.flatMap_append]

end Refinement

/-- From any reachable state between two callbacks, two ways to split the same
number of frames into callbacks of at most 65536 render the same timeline
positions, end at the same position and agree on the stop at the end of the
content, and they do what the reference does frame by frame. Every turn of the
inner loop consumes a frame or leaves the loop. -/
theorem partition_independent {graph : AudioGraph} {past first second : List Label}
    {s last₁ last₂ : EngineState} {before records₁ records₂ : List BlockRecord}
    (hpast : runTrace { graph := graph } past = some (s, before)) (hidle : s.inside = none)
    (hfirst : runTrace s first = some (last₁, records₁)) (hdone₁ : last₁.inside = none)
    (hsecond : runTrace s second = some (last₂, records₂)) (hdone₂ : last₂.inside = none)
    (hquiet₁ : ∀ l ∈ first, l.Steady ∧ l.Accepted) (hquiet₂ : ∀ l ∈ second, l.Steady ∧ l.Accepted)
    (htotal : totalFrames first = totalFrames second) :
    (s.transport.braces.frames (totalFrames first) ⟨s.transport.playing, s.transport.position⟩ =
        (⟨last₁.transport.playing, last₁.transport.position⟩,
          records₁.flatMap BlockRecord.timeline)) ∧
      records₁.flatMap BlockRecord.timeline = records₂.flatMap BlockRecord.timeline ∧
      last₁.transport.position = last₂.transport.position ∧
      last₁.transport.playing = last₂.transport.playing ∧
      ∀ (mid next : EngineState) (labels : List Label) (live : List MidiEvent)
        (inner : List BlockRecord) (rendered : Option BlockRecord),
        runTrace s labels = some (mid, inner) → step mid (.block live) = some (next, rendered) →
        next.pending < mid.pending := by
  have hs : s.Sound := sound_of_runTrace (sound_of_fresh graph) hpast
  have hreference : ∀ {labels : List Label} {last : EngineState} {records : List BlockRecord},
      runTrace s labels = some (last, records) → last.inside = none →
      (∀ l ∈ labels, l.Steady ∧ l.Accepted) →
      s.transport.braces.frames (totalFrames labels) ⟨s.transport.playing, s.transport.position⟩ =
        (⟨last.transport.playing, last.transport.position⟩,
          records.flatMap BlockRecord.timeline) := by
    intro labels last records hrun hdone hquiet
    obtain ⟨k, hk, hframes⟩ := frames_of_runTrace hs hquiet hrun
    rw [pending_of_idle hidle, pending_of_idle hdone, Nat.zero_add, Nat.add_zero] at hk
    rw [hk, ← playhead_of_idle hidle, hframes, playhead_of_idle hdone]
  have hone := hreference hfirst hdone₁ hquiet₁
  have htwo := hreference hsecond hdone₂ hquiet₂
  rw [← htotal, hone] at htwo
  simp only [Prod.mk.injEq, Playhead.mk.injEq] at htwo
  refine ⟨hone, htwo.2, htwo.1.2, htwo.1.1, ?_⟩
  intro mid next labels live inner rendered _ hstep
  exact pending_lt_of_block hstep

/-- One callback of one frame to start playing, with the content ending at
`content_end`. -/
def started (content_end : Int) : List Label :=
  [.rebuild (oneNote ⟨60, 100, 300, 400⟩).graph content_end [], .enter 1 [.play], .block [], .leave]

def driven (s : EngineState) (labels : List Label) : EngineState × List BlockRecord :=
  (runTrace s labels).getD (s, [])

def startedAt (content_end : Int) : EngineState :=
  (driven { graph := { tracks := [] } } (started content_end)).1

def oneBufferOf600 : List Label := [.enter 600 [], .block [], .block [], .block [], .leave]

def twoBuffersOf600 : List Label :=
  [.enter 400 [], .block [], .block [], .leave, .enter 200 [], .block [], .block [], .leave]

/-- A buffer of 600 frames, and the same frames as 400 and 200, over content
that ends after 500 frames. -/
theorem partition_independent_twoWays :
    (driven (startedAt 500) oneBufferOf600).2.flatMap BlockRecord.timeline =
      (driven (startedAt 500) twoBuffersOf600).2.flatMap BlockRecord.timeline := by
  have hpast : runTrace { graph := { tracks := [] } } (started 500) =
      some (startedAt 500, (driven { graph := { tracks := [] } } (started 500)).2) := rfl
  have hfirst : runTrace (startedAt 500) oneBufferOf600 =
      some (driven (startedAt 500) oneBufferOf600) := rfl
  have hsecond : runTrace (startedAt 500) twoBuffersOf600 =
      some (driven (startedAt 500) twoBuffersOf600) := rfl
  exact (partition_independent hpast rfl hfirst rfl hsecond rfl (by decide) (by decide) rfl).2.1

/-- A buffer of 65537 frames is refused and the position stays, where two
buffers of the same total would advance it. -/
theorem not_partition_independent_huge :
    ¬ ∀ (graph : AudioGraph) (past labels : List Label) (s last : EngineState)
      (before records : List BlockRecord),
      runTrace { graph := graph } past = some (s, before) → s.inside = none →
      runTrace s labels = some (last, records) → last.inside = none →
      (∀ l ∈ labels, l.Steady) →
      s.transport.braces.frames (totalFrames labels)
          ⟨s.transport.playing, s.transport.position⟩ =
        (⟨last.transport.playing, last.transport.position⟩,
          records.flatMap BlockRecord.timeline) := by
  intro hall
  have hone := hall { tracks := [] } (started 0) [.enter 65537 []] (startedAt 0) (startedAt 0)
    (driven { graph := { tracks := [] } } (started 0)).2 [] rfl rfl rfl rfl (by decide)
  have hfree : (startedAt 0).transport.braces.frames 65537 ⟨true, 1⟩ =
      (⟨true, 1 + (65537 : Nat)⟩, positionsFrom 1 65537) := by
    apply Braces.frames_consecutive
    intro hbounded
    exact absurd hbounded (by decide)
  have hboth : (⟨true, 1 + (65537 : Nat)⟩ : Playhead) = ⟨true, 1⟩ :=
    congrArg Prod.fst (hfree.symm.trans hone)
  rw [Playhead.mk.injEq] at hboth
  omega

end DawProject.Audio
