import DawProject.Audio.Launch
import DawProject.Audio.Partition
import DawProject.Midi.SessionLoop

/-!
An immediate launch. The slot is rebased on the clock that the graph holds,
which is the time of the last sub-block it was given, while the slot is heard
from the next one on. Silence moves the clock of the callback and leaves that
of the graph.
-/

namespace DawProject.Audio

open Midi

/-- The request does not wait: nothing is engaged, or it is not quantised. -/
def AudioGraph.Immediate (g : AudioGraph) (quantize : Bool) : Prop :=
  g.launched_count = 0 ∨ quantize = false

/-- The graph stays, and so does the slot of the track. -/
def Label.Spares (track_id : String) : Label → Prop
  | .rebuild _ _ _ => False
  | .launch id _ _ _ => id ≠ track_id
  | _ => True

/-- The slot that sounds on track `i` in the sub-block, with the track. -/
def BlockRecord.sounding (r : BlockRecord) (i : Nat) : Option (AudioTrack × SessionSlot) := do
  let t ← r.graph.tracks[i]?
  let promoted := AudioGraph.promote r.graph.session_clock r.frames t
  let slot ← AudioGraph.sessionSlot promoted
  if AudioGraph.audible r.graph.hasSolo t = true ∧ 0 < slot.loop_len ∧
      promoted.launch_clock < r.graph.session_clock + r.frames then
    some (promoted, slot)
  else none

/-- The slot emits from local position zero: the position of the loop is zero,
and the events are those of the loop from there. -/
def FromTop (r : BlockRecord) (i : Nat) : Prop :=
  ∃ t slot node, r.sounding i = some (t, slot) ∧ t.instrument_node = some node ∧
    local0 slot.loop_len (r.graph.session_clock - t.launch_clock) = 0 ∧
    r.sessionEvents i = (emitSessionLoop slot.notes slot.loop_len 0 r.frames).map fun e =>
      emitMidi node (.session i) e.on e.pitch e.vel e.offset

/-- The first sub-block after the launch in which the track sounds. -/
def FirstSounding (s : EngineState) (track_id scene_id : String) (quantize : Bool) (i : Nat)
    (r : BlockRecord) : Prop :=
  ∃ after u next records live, (∀ l ∈ after, l.Spares track_id) ∧
    runTrace { s with graph := s.graph.launchSlot track_id scene_id false quantize } after =
      some (u, records) ∧
    (∀ earlier ∈ records, earlier.sounding i = none) ∧
    step u (.block live) = some (next, some r) ∧ r.sounding i ≠ none

section Kept

variable {track_id : String} {i : Nat}

/-- What a launch sets of a track, with what it reads. -/
def AudioTrack.engaged (t : AudioTrack) : String × List SessionSlot × Int × Int × Int :=
  (t.id, t.session_slots, t.launched_slot, t.launch_clock, t.queued_slot)

theorem getElem?_updateTrackById_of_ne {f : AudioTrack → AudioTrack} {tracks : List AudioTrack}
    {t : AudioTrack} (ht : tracks[i]? = some t) (hne : t.id ≠ track_id) :
    (AudioGraph.updateTrackById track_id f tracks)[i]? = some t := by
  induction tracks generalizing i with
  | nil => cases ht
  | cons first rest ih =>
      simp only [AudioGraph.updateTrackById]
      cases i with
      | zero =>
          obtain rfl := Option.some.inj ht
          rw [if_neg hne]
          rfl
      | succ i =>
          split
          · exact ht
          · exact ih ht

theorem getElem?_updateTrackById_first {f : AudioTrack → AudioTrack} {tracks : List AudioTrack}
    (hindex : tracks.findIdx? (fun t => t.id = track_id) = some i) :
    (AudioGraph.updateTrackById track_id f tracks)[i]? =
      (tracks.find? fun t => t.id = track_id).map f := by
  induction tracks generalizing i with
  | nil => cases hindex
  | cons first rest ih =>
      simp only [AudioGraph.updateTrackById]
      rw [List.findIdx?_cons] at hindex
      split at hindex
      · rename_i hid
        obtain rfl := Option.some.inj hindex
        rw [if_pos (by simpa using hid), List.find?_cons_of_pos (by simpa using hid)]
        rfl
      · rename_i hid
        obtain ⟨j, hj, rfl⟩ := Option.map_eq_some_iff.mp hindex
        rw [if_neg (by simpa using hid), List.find?_cons_of_neg (by simpa using hid),
          List.getElem?_cons_succ]
        exact ih hj

/-- Without a slot in the queue a pass changes none of it. -/
theorem engaged_turned {clock : Int} {frames : Nat} {t : AudioTrack}
    (hqueued : t.queued_slot = -1) :
    (turned clock frames t).engaged = t.engaged := by
  unfold turned AudioGraph.promote
  rw [if_neg (by omega)]
  rfl

/-- The track launched at `clock` still plays its slot, and queues no other. -/
def Engaged (g : AudioGraph) (i : Nat) (track_id : String) (slots : List SessionSlot) (idx : Nat)
    (clock : Int) : Prop :=
  ∃ t, g.tracks[i]? = some t ∧ t.engaged = (track_id, slots, (idx : Int), clock, -1)

variable {s next : EngineState} {slots : List SessionSlot} {idx : Nat} {clock : Int} {l : Label}
  {rendered : Option BlockRecord}

theorem engaged_of_step (hengaged : Engaged s.graph i track_id slots idx clock)
    (hspares : l.Spares track_id) (hstep : step s l = some (next, rendered)) :
    Engaged next.graph i track_id slots idx clock := by
  obtain ⟨t, ht, hview⟩ := hengaged
  have hqueued : t.queued_slot = -1 := congrArg (fun view => view.2.2.2.2) hview
  by_cases haudio : l.isAudio = true
  · rcases audio_step_cases haudio hstep with ⟨-, hgraph, -⟩ | ⟨cb, live, -, -, hgraph, -⟩
    · rw [hgraph]
      exact ⟨t, ht, hview⟩
    · rw [hgraph]
      obtain ⟨t', ht', hturn⟩ := getElem?_of_forall₂
        (forall₂_process (blockGraph s cb) cb.start live cb.chunk_le) ht
      refine ⟨t', ht', ?_⟩
      rw [hturn]
      split
      · rw [engaged_turned hqueued]
        exact hview
      · exact hview
  · cases l with
    | enter frame_count cmds => exact absurd rfl haudio
    | block live => exact absurd rfl haudio
    | leave => exact absurd rfl haudio
    | setMonitor id solo mute =>
        obtain ⟨rfl, -⟩ := Prod.mk.inj (Option.some.inj hstep)
        have hmap := map_updateTrackById AudioTrack.engaged id
          (f := fun t => { t with solo := solo, mute := mute }) (fun _ => rfl) s.graph.tracks
        have hat := congrArg (fun views => views[i]?) hmap
        simp only [List.getElem?_map, ht, Option.map_some, Option.map_eq_some_iff] at hat
        obtain ⟨t', ht', hview'⟩ := hat
        exact ⟨t', ht', hview'.trans hview⟩
    | launch id scene_id stop quantize =>
        obtain ⟨rfl, -⟩ := Prod.mk.inj (Option.some.inj hstep)
        have hne : t.id ≠ id := by
          rw [show t.id = track_id from congrArg Prod.fst hview]
          exact Ne.symm hspares
        refine ⟨t, ?_, hview⟩
        dsimp only
        unfold AudioGraph.launchSlot
        split
        · exact ht
        · rename_i t' hfind
          have hid : t'.id = id := by simpa using List.find?_some hfind
          split
          · exact getElem?_updateTrackById_of_ne ht (hid ▸ hne)
          · split
            · exact ht
            · exact getElem?_updateTrackById_of_ne ht (hid ▸ hne)
    | rebuild graph content_end vst3_nodes => exact absurd hspares id

theorem engaged_of_run {labels : List Label} {records : List BlockRecord}
    (hengaged : Engaged s.graph i track_id slots idx clock)
    (hspares : ∀ l ∈ labels, l.Spares track_id)
    (hrun : runTrace s labels = some (next, records)) :
    Engaged next.graph i track_id slots idx clock :=
  runTrace_invariant hrun hengaged fun l hl _ _ _ hstep hnow =>
    engaged_of_step hnow (hspares l hl) hstep

/-- The time of the callback only moves forward. -/
theorem clock_le_of_step (hstep : step s l = some (next, rendered)) :
    s.session_clock ≤ next.session_clock := by
  by_cases haudio : l.isAudio = true
  · rcases audio_step_cases haudio hstep with ⟨-, -, hclock⟩ | ⟨cb, live, -, -, -, hclock⟩
    · exact hclock
    · omega
  · cases l with
    | enter frame_count cmds => exact absurd rfl haudio
    | block live => exact absurd rfl haudio
    | leave => exact absurd rfl haudio
    | setMonitor id solo mute =>
        obtain ⟨rfl, -⟩ := Prod.mk.inj (Option.some.inj hstep)
        exact le_refl _
    | launch id scene_id stop quantize =>
        obtain ⟨rfl, -⟩ := Prod.mk.inj (Option.some.inj hstep)
        exact le_refl _
    | rebuild graph content_end vst3_nodes =>
        obtain ⟨-, rfl, -⟩ := step_rebuild hstep
        exact le_refl _

theorem clock_le_of_run {labels : List Label} {records : List BlockRecord}
    (hrun : runTrace s labels = some (next, records)) :
    s.session_clock ≤ next.session_clock := by
  apply runTrace_invariant (P := fun state => s.session_clock ≤ state.session_clock) hrun
  · exact le_refl _
  · exact fun l _ a b rendered hstep hnow => hnow.trans (clock_le_of_step hstep)

end Kept

section Top

variable {s : EngineState} {r : BlockRecord} {track_id scene_id : String} {quantize : Bool}
  {i idx : Nat} {t : AudioTrack}

theorem engaged_of_launch (hslot : s.graph.slotFor track_id scene_id = some (t, idx))
    (himmediate : s.graph.Immediate quantize)
    (hindex : s.graph.tracks.findIdx? (fun t => t.id = track_id) = some i) :
    Engaged (s.graph.launchSlot track_id scene_id false quantize) i track_id t.session_slots idx
      s.graph.session_clock := by
  have hlaunched := @launchSlot_of_slotFor s.graph track_id scene_id quantize t idx hslot
  obtain ⟨hfind, rfl, hlaunch⟩ := hlaunched
  have hnow : (!decide (s.graph.launched_count = 0) && quantize) = false := by
    rcases himmediate with hanchor | hplain
    · simp [hanchor]
    · simp [hplain]
  refine ⟨{ t with
    queued_slot := -1, launch_clock := s.graph.session_clock, launched_slot := idx }, ?_, ?_⟩
  · rw [hlaunch]
    unfold AudioGraph.startSlot
    simp only [hnow, Bool.false_eq_true, if_false]
    rw [getElem?_updateTrackById_first hindex, hfind]
    rfl
  · rfl

theorem sounding_eq_some {t : AudioTrack} {slot : SessionSlot}
    (hsounds : r.sounding i = some (t, slot)) :
    ∃ t₀, r.graph.tracks[i]? = some t₀ ∧
      t = AudioGraph.promote r.graph.session_clock r.frames t₀ ∧
      AudioGraph.sessionSlot t = some slot ∧
      AudioGraph.audible r.graph.hasSolo t₀ = true ∧ 0 < slot.loop_len := by
  simp only [BlockRecord.sounding, Option.bind_eq_bind, Option.bind_eq_some_iff] at hsounds
  obtain ⟨t₀, ht₀, slot', hslot, hplays⟩ := hsounds
  split at hplays
  · rename_i hcond
    obtain ⟨rfl, rfl⟩ := Prod.mk.inj (Option.some.inj hplays)
    exact ⟨t₀, ht₀, rfl, hslot, hcond.1, hcond.2.1⟩
  · cases hplays

theorem instrument_of_sessionSlot {t : AudioTrack} {slot : SessionSlot}
    (hslot : AudioGraph.sessionSlot t = some slot) :
    t.session_slots[t.launched_slot.toNat]? = some slot ∧
      ∃ node, t.instrument_node = some node := by
  unfold AudioGraph.sessionSlot at hslot
  split at hslot
  · rename_i hcond
    exact ⟨hslot, Option.isSome_iff_exists.mp hcond.2.2⟩
  · cases hslot

/-- The position of the loop is all that the emission keeps of its base. -/
theorem emitSessionLoop_of_local0 {notes : List ScheduledNote} {loopLen base : Int} {frames : Nat}
    (htop : local0 loopLen base = 0) :
    emitSessionLoop notes loopLen base frames = emitSessionLoop notes loopLen 0 frames := by
  have hzero : local0 loopLen 0 = 0 := by
    simp [local0]
  unfold emitSessionLoop
  rw [htop, hzero]

theorem mem_emitSessionLoop_top {notes : List ScheduledNote} {loopLen : Int} {frames : Nat}
    {nt : ScheduledNote} (hlen : 0 < loopLen) (hframes : 0 < frames)
    (hfits : (addedEvents notes loopLen 0 frames).length ≤ kSessionBuffer) (hnt : nt ∈ notes)
    (hstart : nt.start = 0) :
    (⟨0, true, nt.pitch, nt.velocity⟩ : Ev) ∈ emitSessionLoop notes loopLen 0 frames := by
  have hzero : local0 loopLen 0 = 0 := by
    simp [local0]
  rw [emitSessionLoop, if_neg (by omega), mem_sortEvents, hzero, List.take_of_length_le hfits]
  simp only [addedEvents, List.mem_append, List.mem_flatMap]
  refine Or.inl ⟨nt, hnt, 0, by simp, ?_⟩
  simp only [loopEvents, List.mem_append]
  rw [if_pos (by omega), hstart]
  left
  simp

/-- The sub-block of a step: its graph, its time, and that it has frames. -/
theorem record_of_block {u next : EngineState} {live : List MidiEvent}
    (hstep : step u (.block live) = some (next, some r)) :
    r.graph.tracks = u.graph.tracks ∧ r.graph.session_clock = u.session_clock ∧ 0 < r.frames := by
  obtain ⟨cb, _, -, -, hremaining, hgo, rfl⟩ := step_rendered hstep
  exact ⟨rfl, rfl, Callback.chunk_pos hremaining hgo⟩

/-- The first sub-block in which an immediately launched slot sounds emits it
from the top exactly when it comes a whole number of loops after the time the
graph held at the launch. A note at local position zero is then heard. -/
theorem fromTop_iff (hreach : s.Reachable)
    (hslot : s.graph.slotFor track_id scene_id = some (t, idx))
    (himmediate : s.graph.Immediate quantize)
    (hindex : s.graph.tracks.findIdx? (fun t => t.id = track_id) = some i)
    (hfirst : FirstSounding s track_id scene_id quantize i r) :
    ∃ slot, t.session_slots[idx]? = some slot ∧
      (FromTop r i ↔ slot.loop_len ∣ r.graph.session_clock - s.graph.session_clock) ∧
      (FromTop r i →
        (addedEvents slot.notes slot.loop_len 0 r.frames).length ≤ kSessionBuffer →
        ∀ nt ∈ slot.notes, nt.start = 0 →
          ∃ node, emitMidi node (.session i) true nt.pitch nt.velocity 0 ∈ r.pushes) := by
  obtain ⟨after, u, next, records, live, hspares, hrun, -, hstep, hsounds⟩ := hfirst
  obtain ⟨t₀, ht₀, hview⟩ := engaged_of_run (engaged_of_launch hslot himmediate hindex) hspares hrun
  obtain ⟨htracks, hclock, hframes⟩ := record_of_block hstep
  obtain ⟨hsize, live', hpushes⟩ := rendered_of_step hstep
  obtain ⟨⟨t₁, slot⟩, hsome⟩ := Option.ne_none_iff_exists'.mp hsounds
  obtain ⟨t₂, ht₂, hpromoted, hsession, haudible, hlen⟩ := sounding_eq_some hsome
  rw [htracks, ht₀] at ht₂
  obtain rfl := Option.some.inj ht₂
  simp only [AudioTrack.engaged, Prod.mk.injEq] at hview
  obtain ⟨hid, hslots, hlaunched, hlaunch, hqueued⟩ := hview
  have hstays : t₁ = t₀ := by
    rw [hpromoted]
    unfold AudioGraph.promote
    rw [if_neg (by omega)]
  subst hstays
  obtain ⟨hat, node, hnode⟩ := instrument_of_sessionSlot hsession
  have hlate : t₁.launch_clock ≤ r.graph.session_clock := by
    have hforward : s.session_clock ≤ u.session_clock := by
      have hkept := clock_le_of_run hrun
      exact hkept
    rw [hlaunch, hclock]
    exact hreach.clockBehind.2.trans hforward
  have hevents : r.sessionEvents i = (emitSessionLoop slot.notes slot.loop_len
      (r.graph.session_clock - t₁.launch_clock) r.frames).map fun e =>
        emitMidi node (.session i) e.on e.pitch e.vel e.offset := by
    rw [BlockRecord.sessionEvents, hpushes, filter_process hsize (htracks ▸ ht₀), if_pos haudible,
      ← hpromoted]
    simp only [AudioGraph.sessionPushes, hsession, hnode]
    rw [if_pos hlate]
  refine ⟨slot, ?_, ?_, ?_⟩
  · rw [← hslots, ← hat, hlaunched, Int.toNat_natCast]
  · rw [← hlaunch, Int.dvd_iff_emod_eq_zero, ← local0_eq_emod _ hlen]
    constructor
    · rintro ⟨t', slot', node', hsome', -, htop, -⟩
      obtain ⟨rfl, rfl⟩ := Prod.mk.inj (Option.some.inj (hsome.symm.trans hsome'))
      exact htop
    · intro htop
      refine ⟨t₁, slot, node, hsome, hnode, htop, ?_⟩
      rw [hevents, emitSessionLoop_of_local0 htop]
  · rintro ⟨t', slot', node', hsome', -, -, htopEvents⟩ hfits nt hnt hstart
    obtain ⟨rfl, rfl⟩ := Prod.mk.inj (Option.some.inj (hsome.symm.trans hsome'))
    refine ⟨node', List.mem_of_mem_filter (p := fun p => p.source == .session i) ?_⟩
    have hmem := mem_emitSessionLoop_top hlen hframes hfits hnt hstart
    show _ ∈ r.sessionEvents i
    rw [htopEvents]
    exact List.mem_map_of_mem hmem

end Top

/-- A track whose instrument loops a note from local position zero. -/
def topNote : EngineState where
  graph := { tracks :=
    [{ id := "track", chain := ["synth"],
       session_slots := [⟨"scene", 1000, [⟨60, 100, 0, 500⟩]⟩] }] }

/-- The state after a silent buffer. -/
def afterSilence : EngineState := enterCallback topNote 256 []

theorem reachable_of_silence {labels : List Label} {s : EngineState}
    (hfresh : ∀ l ∈ labels, l.StartsClock) (hrun : runTrace topNote labels = some (s, [])) :
    s.Reachable :=
  ⟨topNote.graph, labels, [], ⟨rfl, by decide⟩, hfresh, hrun⟩

/-- The first sub-block of a buffer of 256 frames entered after the launch. -/
theorem firstSounding_of_buffer {s u next : EngineState} {r : BlockRecord}
    (henter : step { s with graph := s.graph.launchSlot "track" "scene" false false }
      (.enter 256 []) = some (u, none))
    (hblock : step u (.block []) = some (next, some r)) (hsounds : r.sounding 0 ≠ none) :
    FirstSounding s "track" "scene" false 0 r := by
  refine ⟨[.enter 256 []], u, next, [], [], ?_, ?_, List.forall_mem_nil _, hblock, hsounds⟩
  · intro l hl
    obtain rfl := List.mem_singleton.mp hl
    trivial
  · simp only [runTrace, henter, Option.bind_eq_bind, Option.bind_some, Option.toList_none,
      List.nil_append, Option.pure_def]

/-- Launched before the callback has counted any frame, the slot starts from
the top. -/
theorem fromTop_topNote : ∃ r, FirstSounding topNote "track" "scene" false 0 r ∧ FromTop r 0 := by
  have hfirst : ∃ r, FirstSounding topNote "track" "scene" false 0 r ∧
      r.graph.session_clock = 0 :=
    ⟨_, @firstSounding_of_buffer topNote _ _ _ rfl rfl (by decide), rfl⟩
  obtain ⟨r, hr, hclock⟩ := hfirst
  refine ⟨r, hr, ?_⟩
  obtain ⟨slot, hslot, hiff, -⟩ := @fromTop_iff topNote r "track" "scene" false 0 0
    (topNote.graph.tracks.head (by decide)) (@reachable_of_silence [] topNote (List.forall_mem_nil _) rfl) rfl
    (Or.inl rfl) rfl hr
  apply hiff.mpr
  rw [hclock]
  exact dvd_zero slot.loop_len

/-- After a silent buffer the slot starts as many frames too late. -/
theorem not_fromTop_afterSilence :
    ¬∀ (s : EngineState) (r : BlockRecord), s.Reachable → s.graph.Immediate false →
      FirstSounding s "track" "scene" false 0 r → FromTop r 0 := by
  intro hall
  have hfirst : ∃ r, FirstSounding afterSilence "track" "scene" false 0 r ∧
      (r.sounding 0).map (fun p =>
        local0 p.2.loop_len (r.graph.session_clock - p.1.launch_clock)) = some 256 :=
    ⟨_, @firstSounding_of_buffer afterSilence _ _ _ rfl rfl (by decide), by decide⟩
  obtain ⟨r, hr, hposition⟩ := hfirst
  have hreach : afterSilence.Reachable := by
    apply @reachable_of_silence [.enter 256 []]
    · intro l hl
      obtain rfl := List.mem_singleton.mp hl
      trivial
    · rfl
  obtain ⟨t, slot, node, hsome, -, htop, -⟩ := hall afterSilence r hreach (Or.inr rfl) hr
  rw [hsome, Option.map_some, htop] at hposition
  exact absurd hposition (by decide)

end DawProject.Audio
