import DawProject.Lib.Voices
import DawProject.Audio.Trace

/-!
The plugins as an observer hears them. A run of the engine is watched together
with the voices its pushes leave held, each tagged with what it was sent for,
with the stretch of continuous playback it was sent in and with the graph it
was sent by. Nothing here feeds back into the engine.
-/

namespace DawProject.Audio

open Midi Voices

/-- What a note-on was sent for, and in which stretch of playback and by which
graph. -/
structure Tag where
  source : Source
  pass : Nat
  gen : Nat
deriving DecidableEq, Repr

/-- A plugin node and a pitch. -/
abbrev Key := String × Nat

abbrev Voice := Key × Tag

/-- A push as the plugin hears it. Controllers and pitch bends start and end
nothing. -/
def Push.heard (pass gen : Nat) (p : Push) : Option (Event Key Tag) :=
  match p.event.kind with
  | .noteOn => some (.on (p.node, p.event.data1) ⟨p.source, pass, gen⟩)
  | .noteOff => some (.off (p.node, p.event.data1))
  | _ => none

def heardAll (pass gen : Nat) (pushes : List Push) : List (Event Key Tag) :=
  pushes.filterMap (Push.heard pass gen)

structure Observed where
  engine : EngineState
  held : List Voice := []
  pass : Nat := 0
  gen : Nat := 0
  /-- Since the last swap no sub-block has been rendered and no callback has
  returned without rendering. -/
  fresh : Bool := false

/-- The transport stops or its position jumps: a command, the brace or the end
of the content. -/
def interrupts (s : EngineState) : Label → Bool
  | .enter frame_count cmds =>
      !decide (frame_count > MAX_REASONABLE_FRAMES ∨ frame_count = 0) &&
        (!(processCommands s.transport cmds).playing ||
          decide ((processCommands s.transport cmds).position ≠ s.transport.position))
  | .block _ =>
      match s.inside with
      | some cb => decide cb.atEnd
      | none => false
  | _ => false

/-- The callback has nothing to play and returns at once. -/
def returnsAtOnce (s : EngineState) : Label → Bool
  | .enter frame_count cmds =>
      !decide (frame_count > MAX_REASONABLE_FRAMES ∨ frame_count = 0) &&
        (enterCallback s frame_count cmds).inside.isNone
  | _ => false

/-- The callback whose next sub-block the step renders. -/
def rendering (s : EngineState) : Label → Option Callback
  | .block _ => s.inside.filter fun cb => !decide (cb.atEnd ∧ cb.looping = false)
  | _ => none

/-- One step of the engine as the observer follows it. A rebuild takes the
voices of the evicted plugins with them. -/
def observe (o : Observed) (l : Label) : Option Observed := do
  let (engine, rendered) ← step o.engine l
  let pass := if interrupts o.engine l then o.pass + 1 else o.pass
  match l with
  | .rebuild _ _ vst3_nodes =>
      return { o with
        engine := engine
        held := o.held.filter fun v => vst3_nodes.contains v.1.1
        gen := o.gen + 1
        fresh := true }
  | _ =>
      match rendered with
      | some r =>
          return { o with
            engine := engine
            held := play o.held (heardAll pass o.gen r.pushes)
            pass := pass
            fresh := false }
      | none =>
          return { o with
            engine := engine
            pass := pass
            fresh := o.fresh && !returnsAtOnce o.engine l }

/-- The position of the transport, mid-callback included. -/
def playhead (s : EngineState) : Int :=
  match s.inside with
  | some cb => cb.position
  | none => s.transport.position

section Score

/-- What a track plays and through which nodes. -/
def AudioTrack.score (t : AudioTrack) : List String × List ScheduledNote := (t.chain, t.notes)

def AudioGraph.score (g : AudioGraph) : List (List String × List ScheduledNote) :=
  g.tracks.map AudioTrack.score

/-- Track `i` carries the note and plays it through the node. -/
def Carries (g : AudioGraph) (node : String) (i : Nat) (nt : ScheduledNote) : Prop :=
  ∃ chain notes, g.score[i]? = some (chain, notes) ∧ chain.head? = some node ∧ nt ∈ notes

theorem carries_iff {g : AudioGraph} {node : String} {i : Nat} {nt : ScheduledNote} :
    Carries g node i nt ↔
      ∃ t, g.tracks[i]? = some t ∧ t.instrument_node = some node ∧ nt ∈ t.notes := by
  unfold Carries AudioGraph.score
  rw [List.getElem?_map]
  constructor
  · rintro ⟨chain, notes, hscore, hhead, hnt⟩
    obtain ⟨t, ht, hpair⟩ := Option.map_eq_some_iff.mp hscore
    obtain ⟨rfl, rfl⟩ := Prod.mk.inj hpair
    exact ⟨t, ht, hhead, hnt⟩
  · rintro ⟨t, ht, hhead, hnt⟩
    exact ⟨t.chain, t.notes, by rw [ht]; rfl, hhead, hnt⟩

theorem Carries.of_score {g g' : AudioGraph} (hscore : g'.score = g.score) {node : String}
    {i : Nat} {nt : ScheduledNote} (hcarries : Carries g node i nt) : Carries g' node i nt := by
  unfold Carries
  rw [hscore]
  exact hcarries

theorem map_updateTrackById {β : Type*} (view : AudioTrack → β) (id : String)
    {f : AudioTrack → AudioTrack} (hf : ∀ t, view (f t) = view t) (tracks : List AudioTrack) :
    (AudioGraph.updateTrackById id f tracks).map view = tracks.map view := by
  induction tracks with
  | nil => rfl
  | cons t rest ih =>
      simp only [AudioGraph.updateTrackById]
      split
      · rw [List.map_cons, List.map_cons, hf]
      · rw [List.map_cons, List.map_cons, ih]

theorem setMonitor_score (g : AudioGraph) (track_id : String) (solo mute : Bool) :
    (g.setMonitor track_id solo mute).score = g.score := by
  apply map_updateTrackById
  intro t
  rfl

theorem launchSlot_score (g : AudioGraph) (track_id scene_id : String) (stop quantize : Bool) :
    (g.launchSlot track_id scene_id stop quantize).score = g.score := by
  unfold AudioGraph.launchSlot
  split
  · rfl
  · split
    · apply map_updateTrackById
      intro t
      rfl
    · split
      · rfl
      · apply map_updateTrackById
        intro t
        split <;> rfl

/-- Where live MIDI goes and where it went. -/
def AudioGraph.live (g : AudioGraph) : Int × Bool × Option String :=
  (g.live_midi_track, g.live_midi_prev_routed, g.live_midi_prev_inst)

theorem launchSlot_live (g : AudioGraph) (track_id scene_id : String) (stop quantize : Bool) :
    (g.launchSlot track_id scene_id stop quantize).live = g.live := by
  unfold AudioGraph.launchSlot
  split
  · rfl
  · split
    · rfl
    · split <;> rfl

theorem promote_score (clock : Int) (frames : Nat) (t : AudioTrack) :
    (AudioGraph.promote clock frames t).score = t.score := by
  unfold AudioGraph.promote
  split <;> rfl

theorem processTrack_score (clock : Int) (playing : Bool) (frames : Nat) (position : Int)
    (i : Nat) (t : AudioTrack) :
    (AudioGraph.processTrack clock playing frames position i t).1.score = t.score :=
  promote_score clock frames t

theorem processTracks_score (hasSolo : Bool) (clock : Int) (playing : Bool) (frames : Nat)
    (position : Int) (k : Nat) (tracks : List AudioTrack) :
    (AudioGraph.processTracks hasSolo clock playing frames position k tracks).1.map
        AudioTrack.score = tracks.map AudioTrack.score := by
  induction tracks generalizing k with
  | nil => rfl
  | cons t rest ih =>
      simp only [AudioGraph.processTracks, List.map_cons, ih]
      congr 1
      split
      · exact processTrack_score clock playing frames position k t
      · rfl

theorem process_score (g : AudioGraph) (frames : Nat) (position : Int) (live : List MidiEvent) :
    (g.process frames position live).1.score = g.score := by
  unfold AudioGraph.process
  split
  · rfl
  · split
    · rfl
    · exact processTracks_score _ _ _ _ _ _ _

end Score

section Events

variable {pass gen : Nat}

theorem heardAll_append (first later : List Push) :
    heardAll pass gen (first ++ later) = heardAll pass gen first ++ heardAll pass gen later :=
  List.filterMap_append

theorem off_mem_heardAll {pushes : List Push} {p : Push} (hp : p ∈ pushes)
    (hkind : p.event.kind = .noteOff) :
    .off (p.node, p.event.data1) ∈ heardAll pass gen pushes := by
  apply List.mem_filterMap.mpr
  exact ⟨p, hp, by rw [Push.heard, hkind]⟩

theorem on_of_mem_heardAll {pushes : List Push} {key : Key} {tag : Tag}
    (hon : .on key tag ∈ heardAll pass gen pushes) :
    ∃ p ∈ pushes, p.node = key.1 ∧ p.event.data1 = key.2 ∧ p.source = tag.source ∧
      tag.pass = pass ∧ tag.gen = gen := by
  obtain ⟨p, hp, hheard⟩ := List.mem_filterMap.mp hon
  refine ⟨p, hp, ?_⟩
  unfold Push.heard at hheard
  split at hheard
  · simp only [Option.some.injEq, Event.on.injEq] at hheard
    obtain ⟨rfl, rfl⟩ := hheard
    exact ⟨rfl, rfl, rfl, rfl, rfl⟩
  · simp at hheard
  · cases hheard

/-- Pushes that were not made for a timeline note settle any statement about
timeline voices. -/
theorem settles_of_source {Q : Voice → Prop} {pushes : List Push}
    (hQ : ∀ v : Voice, (∀ i nt, v.2.source ≠ .timeline i nt) → Q v)
    (hsource : ∀ p ∈ pushes, ∀ i nt, p.source ≠ .timeline i nt) :
    Settles Q (heardAll pass gen pushes) := by
  apply settles_of_on
  intro key tag hon
  obtain ⟨p, hp, _, _, hsame, _⟩ := on_of_mem_heardAll hon
  apply hQ
  intro i nt
  rw [← hsame]
  exact hsource p hp i nt

theorem heardAll_notePushes (node : String) (i : Nat) (position : Int) (frames : Nat)
    (nt : ScheduledNote) :
    heardAll pass gen (AudioGraph.notePushes node i position frames nt) =
      (if nt.start ≥ position ∧ nt.start < position + frames then
        [.on (node, nt.pitch % 128) ⟨.timeline i nt, pass, gen⟩] else []) ++
      (if nt.end_ ≥ position ∧ nt.end_ < position + frames then
        [.off (node, nt.pitch % 128)] else []) := by
  by_cases hon : nt.start ≥ position ∧ nt.start < position + frames <;>
    by_cases hoff : nt.end_ ≥ position ∧ nt.end_ < position + frames <;>
    simp [heardAll, AudioGraph.notePushes, emitBlockNotes, emitMidi, pushMidiEvent, Push.heard,
      hon, hoff]

end Events

section Process

variable {pass gen : Nat} {Q : Voice → Prop}

/-- What a pass over the tracks sends settles when the turn of each audible
track does. -/
theorem settles_processTracks {hasSolo playing : Bool} {clock position : Int} {frames : Nat}
    (tracks : List AudioTrack) (k : Nat)
    (hturn : ∀ j t, tracks[j]? = some t →
      Settles Q (heardAll pass gen
        (AudioGraph.processTrack clock playing frames position (k + j) t).2)) :
    Settles Q (heardAll pass gen
      (AudioGraph.processTracks hasSolo clock playing frames position k tracks).2) := by
  induction tracks generalizing k with
  | nil => exact settles_nil
  | cons t rest ih =>
      simp only [AudioGraph.processTracks, heardAll_append]
      apply Settles.append
      · split
        · exact hturn 0 t rfl
        · exact settles_nil
      · apply ih
        intro j t' ht'
        have hlater := hturn (j + 1) t' ht'
        rw [show k + (j + 1) = k + 1 + j by omega] at hlater
        exact hlater

/-- The turn of a track settles when its timeline notes do, one by one. -/
theorem settles_processTrack {playing : Bool} {clock position : Int} {frames i : Nat}
    {t : AudioTrack} (hQ : ∀ v : Voice, (∀ i nt, v.2.source ≠ .timeline i nt) → Q v)
    (hnote : ∀ node nt, t.instrument_node = some node → nt ∈ t.notes → playing = true →
      frames = kRingBlockSize → Settles Q (heardAll pass gen
        (AudioGraph.notePushes node i position kRingBlockSize nt))) :
    Settles Q (heardAll pass gen
      (AudioGraph.processTrack clock playing frames position i t).2) := by
  have hscore := promote_score clock frames t
  obtain ⟨hchain, hnotes⟩ := Prod.mk.inj hscore
  simp only [AudioGraph.processTrack, heardAll_append]
  apply Settles.append
  · apply Settles.append
    · apply settles_of_source hQ
      intro p hp j nt
      split at hp
      · split at hp
        · rw [source_of_mem_allNotesOff hp]
          simp
        · cases hp
      · cases hp
    · apply settles_of_source hQ
      intro p hp j nt
      rw [source_of_mem_sessionPushes hp]
      simp
  · simp only [AudioTrack.instrument_node, hchain, hnotes]
    split
    · rename_i node hnode
      unfold AudioGraph.proxyProcess
      split
      · exact settles_nil
      · rename_i hfull
        split
        · rename_i hplays
          have hplaying : playing = true := by
            cases playing with
            | true => rfl
            | false => simp at hplays
          unfold heardAll
          rw [List.filterMap_flatMap]
          apply settles_flatMap
          intro nt hnt
          exact hnote node nt hnode hnt hplaying (not_not.mp hfull)
        · exact settles_nil
    · exact settles_nil

/-- A pass over the graph settles when the timeline notes of its tracks do. -/
theorem settles_process {g : AudioGraph} {frames : Nat} {position : Int} {live : List MidiEvent}
    (hQ : ∀ v : Voice, (∀ i nt, v.2.source ≠ .timeline i nt) → Q v)
    (hnote : ∀ i node nt, Carries g node i nt → g.transport_playing = true →
      frames = kRingBlockSize → Settles Q (heardAll pass gen
        (AudioGraph.notePushes node i position kRingBlockSize nt))) :
    Settles Q (heardAll pass gen (g.process frames position live).2) := by
  unfold AudioGraph.process
  split
  · exact settles_nil
  · split
    · exact settles_nil
    · rw [heardAll_append]
      apply Settles.append
      · apply settles_of_source hQ
        intro p hp i nt
        rcases source_of_mem_routeLive hp with hsource | hsource <;> rw [hsource] <;> simp
      · apply settles_processTracks
        intro j t ht
        apply settles_processTrack hQ
        intro node nt hnode hnt hplaying hfull
        rw [Nat.zero_add]
        exact hnote j node nt (carries_iff.mpr ⟨t, ht, hnode, hnt⟩) hplaying hfull

theorem mem_processTracks {hasSolo playing : Bool} {clock position : Int} {frames i : Nat}
    {tracks : List AudioTrack} {t : AudioTrack} {p : Push} (k : Nat)
    (htrack : tracks[i]? = some t) (haudible : AudioGraph.audible hasSolo t = true)
    (hp : p ∈ (AudioGraph.processTrack clock playing frames position (k + i) t).2) :
    p ∈ (AudioGraph.processTracks hasSolo clock playing frames position k tracks).2 := by
  induction tracks generalizing k i with
  | nil => cases htrack
  | cons t' rest ih =>
      simp only [AudioGraph.processTracks, List.mem_append]
      cases i with
      | zero =>
          obtain rfl := Option.some.inj htrack
          left
          rw [if_pos haudible]
          exact hp
      | succ i =>
          right
          apply ih (k + 1) htrack
          rw [show k + 1 + i = k + (i + 1) by omega]
          exact hp

/-- An audible track without a slot announces the end of its notes in a full
block. -/
theorem off_of_process {g : AudioGraph} {position : Int} {i : Nat} {t : AudioTrack}
    {node : String} {nt : ScheduledNote} (pass gen : Nat) (live : List MidiEvent)
    (htrack : g.tracks[i]? = some t)
    (haudible : AudioGraph.audible g.hasSolo t = true) (hplaying : g.transport_playing = true)
    (hfree : AudioGraph.sessionSlot (AudioGraph.promote g.session_clock kRingBlockSize t) = none)
    (hnode : t.instrument_node = some node) (hnt : nt ∈ t.notes) (hlo : position ≤ nt.end_)
    (hhi : nt.end_ < position + kRingBlockSize) :
    .off (node, nt.pitch % 128) ∈
      heardAll pass gen (g.process kRingBlockSize position live).2 := by
  obtain ⟨hchain, hnotes⟩ := Prod.mk.inj (promote_score g.session_clock kRingBlockSize t)
  have hoff : emitMidi node (.timeline i nt) false nt.pitch 0 (nt.end_ - position).toNat ∈
      AudioGraph.notePushes node i position kRingBlockSize nt := by
    apply List.mem_map.mpr
    refine ⟨⟨(nt.end_ - position).toNat, false, nt.pitch, 0⟩, ?_, rfl⟩
    apply mem_emitBlockNotes.mpr
    exact ⟨nt, List.mem_singleton_self nt, Or.inr ⟨hlo, hhi, rfl⟩⟩
  have hsome : t.notes.isEmpty = false := by
    cases hempty : t.notes with
    | nil => simp [hempty] at hnt
    | cons => rfl
  have hturn : emitMidi node (.timeline i nt) false nt.pitch 0 (nt.end_ - position).toNat ∈
      (AudioGraph.processTrack g.session_clock true kRingBlockSize position (0 + i) t).2 := by
    unfold AudioTrack.instrument_node at hnode
    simp only [AudioGraph.processTrack, List.mem_append, AudioTrack.instrument_node, hchain, hnode,
      hnotes, hfree, Option.isSome_none, Bool.not_false, Bool.and_self, Bool.not_true]
    right
    unfold AudioGraph.proxyProcess
    rw [if_neg (not_not.mpr rfl), hsome, Nat.zero_add]
    exact List.mem_flatMap.mpr ⟨nt, hnt, hoff⟩
  have htracks : g.tracks ≠ [] := by
    intro hempty
    rw [hempty] at htrack
    cases htrack
  have hpushed : emitMidi node (.timeline i nt) false nt.pitch 0 (nt.end_ - position).toNat ∈
      (g.process kRingBlockSize position live).2 := by
    rw [process_pushes (le_refl _) htracks, hplaying]
    exact List.mem_append_right _ (mem_processTracks 0 htrack haudible hturn)
  exact off_mem_heardAll hpushed rfl

end Process

section WellFormed

/-- Positions stay at or after zero, and a callback that does not play leaves
the position where it is. -/
structure EngineState.Wf (s : EngineState) : Prop where
  position : 0 ≤ s.transport.position
  loop_start : 0 ≤ s.transport.loop_start
  inside : ∀ cb, s.inside = some cb → 0 ≤ cb.position ∧ 0 ≤ cb.loop_start ∧
    (cb.is_playing = false → cb.position = s.transport.position)

theorem processCommand_nonneg {t : TransportState} (hposition : 0 ≤ t.position)
    (hstart : 0 ≤ t.loop_start) (cmd : AudioCommand) :
    0 ≤ (processCommand t cmd).position ∧ 0 ≤ (processCommand t cmd).loop_start := by
  cases cmd with
  | play => exact ⟨hposition, hstart⟩
  | stop => exact ⟨hposition, hstart⟩
  | seek seek_position =>
      simp only [processCommand, TransportState.seek]
      split
      · rename_i hseek
        exact ⟨hseek, hstart⟩
      · exact ⟨hposition, hstart⟩
  | setLoop clear_region set_region loop_enabled loop_start loop_end =>
      simp only [processCommand, TransportState.setLooping]
      split
      · exact ⟨hposition, le_refl 0⟩
      · split
        · rename_i hregion
          simp only [Bool.and_eq_true, decide_eq_true_eq] at hregion
          exact ⟨hposition, hregion.2.2⟩
        · exact ⟨hposition, hstart⟩

theorem processCommands_nonneg {t : TransportState} (hposition : 0 ≤ t.position)
    (hstart : 0 ≤ t.loop_start) (cmds : List AudioCommand) :
    0 ≤ (processCommands t cmds).position ∧ 0 ≤ (processCommands t cmds).loop_start := by
  induction cmds generalizing t with
  | nil => exact ⟨hposition, hstart⟩
  | cons cmd cmds ih =>
      obtain ⟨hposition', hstart'⟩ := processCommand_nonneg hposition hstart cmd
      exact ih hposition' hstart'

theorem Callback.start_nonneg {cb : Callback} (hposition : 0 ≤ cb.position)
    (hstart : 0 ≤ cb.loop_start) : 0 ≤ cb.start := by
  unfold Callback.start
  split
  · exact hstart
  · exact hposition

/-- Without a wrap the sub-block starts where the last one ended. -/
theorem Callback.start_of_not_atEnd {cb : Callback} (hend : ¬ cb.atEnd) :
    cb.start = cb.position := by
  unfold Callback.start
  rw [if_neg (fun h => hend h.1)]

theorem Callback.start_of_stopped {cb : Callback} (hstopped : cb.is_playing = false) :
    cb.start = cb.position := by
  apply Callback.start_of_not_atEnd
  intro hend
  rw [hend.1] at hstopped
  cases hstopped

theorem renderBlock_wf {s : EngineState} {cb : Callback} (hwf : s.Wf)
    (hinside : s.inside = some cb) (live : List MidiEvent) : (renderBlock s cb live).1.Wf := by
  obtain ⟨hcb, hstart, hfrozen⟩ := hwf.inside cb hinside
  unfold renderBlock
  split
  · rename_i hend
    refine ⟨hwf.position, hwf.loop_start, ?_⟩
    intro cb' hcb'
    obtain rfl := Option.some.inj hcb'
    obtain ⟨⟨hplaying, hbounded, _⟩, _⟩ := hend
    refine ⟨le_of_lt (lt_of_le_of_lt hstart hbounded), hstart, ?_⟩
    intro hstopped
    rw [hplaying] at hstopped
    cases hstopped
  · have hnonneg := Callback.start_nonneg hcb hstart
    refine ⟨hwf.position, hwf.loop_start, ?_⟩
    intro cb' hcb'
    obtain rfl := Option.some.inj hcb'
    refine ⟨?_, hstart, ?_⟩
    · dsimp only
      split
      · omega
      · exact hnonneg
    · intro hstopped
      dsimp only at hstopped ⊢
      rw [if_neg (by rw [hstopped]; exact Bool.false_ne_true),
        Callback.start_of_stopped hstopped]
      exact hfrozen hstopped

theorem enterCallback_wf {s : EngineState} (hwf : s.Wf) (frame_count : Nat)
    (cmds : List AudioCommand) (hidle : s.inside = none) :
    (enterCallback s frame_count cmds).Wf := by
  obtain ⟨hposition, hstart⟩ := processCommands_nonneg hwf.position hwf.loop_start cmds
  unfold enterCallback
  split
  · exact hwf
  · dsimp only
    split
    · refine ⟨hposition, hstart, ?_⟩
      intro cb hcb
      rw [hidle] at hcb
      cases hcb
    · refine ⟨hposition, hstart, ?_⟩
      intro cb hcb
      obtain rfl := Option.some.inj hcb
      refine ⟨hposition, ?_, fun _ => rfl⟩
      dsimp only
      split
      · exact hstart
      · exact le_refl 0

theorem leaveCallback_wf {s : EngineState} {cb : Callback} (hwf : s.Wf)
    (hinside : s.inside = some cb) : (leaveCallback s cb).Wf := by
  obtain ⟨hcb, _, _⟩ := hwf.inside cb hinside
  unfold leaveCallback TransportState.seek
  rw [if_pos hcb]
  split
  · exact ⟨hcb, hwf.loop_start, fun _ h => by cases h⟩
  · exact ⟨hwf.position, hwf.loop_start, fun _ h => by cases h⟩

theorem step_wf {s next : EngineState} {l : Label} {r : Option BlockRecord} (hwf : s.Wf)
    (hstep : step s l = some (next, r)) : next.Wf := by
  cases l with
  | enter frame_count cmds =>
      obtain ⟨hnone, rfl, -⟩ := step_enter hstep
      exact enterCallback_wf hwf frame_count cmds hnone
  | block live =>
      obtain ⟨cb, hinside, -, hrendered⟩ := step_block hstep
      have hwf' := renderBlock_wf hwf hinside live
      rw [hrendered] at hwf'
      exact hwf'
  | leave =>
      obtain ⟨cb, hinside, -, rfl, -⟩ := step_leave hstep
      exact leaveCallback_wf hwf hinside
  | setMonitor track_id solo mute =>
      obtain ⟨rfl, _⟩ := Prod.mk.inj (Option.some.inj hstep)
      exact ⟨hwf.position, hwf.loop_start, hwf.inside⟩
  | launch track_id scene_id stop quantize =>
      obtain ⟨rfl, _⟩ := Prod.mk.inj (Option.some.inj hstep)
      exact ⟨hwf.position, hwf.loop_start, hwf.inside⟩
  | rebuild graph content_end vst3_nodes =>
      obtain ⟨hnone, rfl, -⟩ := step_rebuild hstep
      refine ⟨?_, ?_, ?_⟩
      · simp only [TransportState.setContentEnd]
        split <;> exact hwf.position
      · simp only [TransportState.setContentEnd]
        split
        · exact hwf.loop_start
        · exact le_refl 0
      · intro cb hcb
        dsimp only at hcb
        rw [hnone] at hcb
        cases hcb

end WellFormed

end DawProject.Audio
