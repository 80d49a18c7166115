import DawProject.Audio.Steps

/-!
Launched slots and the two session clocks. The callback counts session time;
the graph holds the time of the last sub-block it was given, and a launch reads
that one. What the audio thread does to a graph between two requests is stated
here once.
-/

namespace DawProject.Audio

/-- A label of the audio thread. -/
def Label.isAudio : Label → Bool
  | .enter _ _ | .block _ | .leave => true
  | _ => false

/-- A graph leaves the builder with its clocks at zero. -/
def AudioGraph.Unstarted (g : AudioGraph) : Prop :=
  g.session_clock = 0 ∧ ∀ t ∈ g.tracks, t.launch_clock = 0

def Label.StartsClock : Label → Prop
  | .rebuild graph _ _ => graph.Unstarted
  | _ => True

/-- A label of the audio thread renders nothing and leaves the graph, or it is
a pass over the graph at the current time. -/
theorem audio_step_cases {s next : EngineState} {l : Label} {rendered : Option BlockRecord}
    (haudio : l.isAudio = true) (hstep : step s l = some (next, rendered)) :
    (rendered = none ∧ next.graph = s.graph ∧ s.session_clock ≤ next.session_clock) ∨
      ∃ cb live, s.inside = some cb ∧
        rendered = some ⟨cb.start, cb.chunk, blockGraph s cb,
          ((blockGraph s cb).process cb.chunk cb.start live).2⟩ ∧
        next.graph = ((blockGraph s cb).process cb.chunk cb.start live).1 ∧
        next.session_clock = s.session_clock + cb.chunk := by
  cases l with
  | enter frame_count cmds =>
      left
      obtain ⟨-, rfl, rfl⟩ := step_enter hstep
      refine ⟨rfl, ?_, ?_⟩
      · unfold enterCallback
        split
        · rfl
        · dsimp only
          split <;> rfl
      · unfold enterCallback
        split
        · exact le_refl _
        · dsimp only
          split
          · exact le_add_of_nonneg_right (Int.natCast_nonneg _)
          · exact le_refl _
  | block live =>
      obtain ⟨cb, hinside, -, hrendered⟩ := step_block hstep
      unfold renderBlock at hrendered
      split at hrendered
      · left
        obtain ⟨rfl, rfl⟩ := Prod.mk.inj hrendered
        exact ⟨rfl, rfl, le_refl _⟩
      · right
        obtain ⟨rfl, rfl⟩ := Prod.mk.inj hrendered
        exact ⟨cb, live, hinside, rfl, rfl, rfl⟩
  | leave =>
      left
      obtain ⟨cb, -, -, rfl, rfl⟩ := step_leave hstep
      exact ⟨rfl, rfl, le_refl _⟩
  | setMonitor track_id solo mute => cases haudio
  | launch track_id scene_id stop quantize => cases haudio
  | rebuild graph content_end vst3_nodes => cases haudio

section Lists

variable {α β : Type*} {R : α → β → Prop} {as : List α} {bs : List β}

theorem mem_of_forall₂ (h : List.Forall₂ R as bs) {b : β} (hb : b ∈ bs) : ∃ a ∈ as, R a b := by
  induction h with
  | nil => cases hb
  | cons hhead _ ih =>
      rcases List.mem_cons.mp hb with rfl | hrest
      · exact ⟨_, List.mem_cons_self, hhead⟩
      · obtain ⟨a, ha, hr⟩ := ih hrest
        exact ⟨a, List.mem_cons_of_mem _ ha, hr⟩

theorem getElem?_of_forall₂ (h : List.Forall₂ R as bs) {i : Nat} {a : α} (ha : as[i]? = some a) :
    ∃ b, bs[i]? = some b ∧ R a b := by
  induction h generalizing i with
  | nil => cases ha
  | cons hhead _ ih =>
      cases i with
      | zero =>
          obtain rfl := Option.some.inj ha
          exact ⟨_, rfl, hhead⟩
      | succ i => exact ih ha

end Lists

section Kept

variable (g : AudioGraph)

/-- What a pass over the graph does to one track. -/
def turned (clock : Int) (frames : Nat) (t : AudioTrack) : AudioTrack :=
  let promoted := AudioGraph.promote clock frames t
  { promoted with prev_launched := promoted.launched_slot }

theorem forall₂_processTracks {hasSolo playing : Bool} {clock position : Int} {frames : Nat}
    (k : Nat) (tracks : List AudioTrack) :
    List.Forall₂
      (fun t t' => t' = if AudioGraph.audible hasSolo t then turned clock frames t else t)
      tracks (AudioGraph.processTracks hasSolo clock playing frames position k tracks).1 := by
  induction tracks generalizing k with
  | nil => exact List.Forall₂.nil
  | cons t rest ih =>
      simp only [AudioGraph.processTracks]
      apply List.Forall₂.cons
      · split <;> rfl
      · exact ih (k + 1)

/-- The request atomics and the clock of the graph. -/
def AudioGraph.session (g : AudioGraph) : Int × Int × Int × Int × Int :=
  (g.session_clock, g.launched_count, g.session_epoch, g.session_quantum, g.musical_quantum)

theorem process_session (frames : Nat) (position : Int) (live : List MidiEvent) :
    (g.process frames position live).1.session = g.session := by
  unfold AudioGraph.process
  split
  · rfl
  · split <;> rfl

theorem forall₂_process {frames : Nat} (position : Int) (live : List MidiEvent)
    (hsize : frames ≤ kRingBlockSize) :
    List.Forall₂
      (fun t t' => t' =
        if AudioGraph.audible g.hasSolo t then turned g.session_clock frames t else t)
      g.tracks (g.process frames position live).1.tracks := by
  unfold AudioGraph.process
  rw [if_neg (not_lt.mpr hsize)]
  split
  · rename_i hempty
    rw [List.isEmpty_iff.mp hempty]
    exact List.Forall₂.nil
  · exact forall₂_processTracks 0 g.tracks

end Kept

section Clocks

/-- The graph never runs ahead of the callback. -/
def EngineState.ClockBehind (s : EngineState) : Prop :=
  0 ≤ s.session_clock ∧ s.graph.session_clock ≤ s.session_clock

theorem clock_process (g : AudioGraph) (frames : Nat) (position : Int) (live : List MidiEvent) :
    (g.process frames position live).1.session_clock = g.session_clock :=
  congrArg Prod.fst (process_session g frames position live)

theorem clock_launchSlot (g : AudioGraph) (track_id scene_id : String) (stop quantize : Bool) :
    (g.launchSlot track_id scene_id stop quantize).session_clock = g.session_clock := by
  unfold AudioGraph.launchSlot
  split
  · rfl
  · split
    · rfl
    · split <;> rfl

theorem clock_copyMonitorState (old new : AudioGraph) :
    (AudioGraph.copyMonitorState old new).session_clock = new.session_clock := by
  unfold AudioGraph.copyMonitorState
  induction old.tracks generalizing new with
  | nil => rfl
  | cons t rest ih => exact ih _

theorem clockBehind_of_step {s next : EngineState} {l : Label} {rendered : Option BlockRecord}
    (hs : s.ClockBehind) (hfresh : l.StartsClock) (hstep : step s l = some (next, rendered)) :
    next.ClockBehind := by
  obtain ⟨hpos, hbehind⟩ := hs
  by_cases haudio : l.isAudio = true
  · rcases audio_step_cases haudio hstep with ⟨-, hgraph, hclock⟩ | ⟨cb, live, -, -, hgraph, hclock⟩
    · exact ⟨hpos.trans hclock, hgraph ▸ hbehind.trans hclock⟩
    · have hpassed : next.graph.session_clock = s.session_clock := by
        rw [hgraph, clock_process]
        rfl
      exact ⟨by omega, by omega⟩
  · cases l with
    | enter frame_count cmds => exact absurd rfl haudio
    | block live => exact absurd rfl haudio
    | leave => exact absurd rfl haudio
    | setMonitor track_id solo mute =>
        obtain ⟨rfl, -⟩ := Prod.mk.inj (Option.some.inj hstep)
        exact ⟨hpos, hbehind⟩
    | launch track_id scene_id stop quantize =>
        obtain ⟨rfl, -⟩ := Prod.mk.inj (Option.some.inj hstep)
        exact ⟨hpos, (clock_launchSlot s.graph track_id scene_id stop quantize).le.trans hbehind⟩
    | rebuild graph content_end vst3_nodes =>
        obtain ⟨-, rfl, -⟩ := step_rebuild hstep
        refine ⟨hpos, ?_⟩
        dsimp only
        rw [clock_copyMonitorState, hfresh.1]
        exact hpos

theorem clockBehind_of_run {s last : EngineState} {labels : List Label}
    {records : List BlockRecord} (hs : s.ClockBehind) (hfresh : ∀ l ∈ labels, l.StartsClock)
    (hrun : runTrace s labels = some (last, records)) : last.ClockBehind :=
  runTrace_invariant hrun hs fun l hl _ _ _ hstep hnow =>
    clockBehind_of_step hnow (hfresh l hl) hstep

/-- A state of the engine that a run from an empty callback reaches. -/
def EngineState.Reachable (s : EngineState) : Prop :=
  ∃ graph past records, AudioGraph.Unstarted graph ∧ (∀ l ∈ past, l.StartsClock) ∧
    runTrace { graph := graph } past = some (s, records)

theorem EngineState.reachable_of_unstarted {graph : AudioGraph} (hgraph : graph.Unstarted) :
    EngineState.Reachable { graph := graph } :=
  ⟨graph, [], [], hgraph, List.forall_mem_nil _, rfl⟩

theorem EngineState.Reachable.clockBehind {s : EngineState} (hs : s.Reachable) :
    s.ClockBehind := by
  obtain ⟨graph, past, records, hzero, hfresh, hrun⟩ := hs
  exact clockBehind_of_run ⟨le_refl _, hzero.1.le⟩ hfresh hrun

end Clocks

section Requests

/-- The slot that a launch starts: the track has one for the scene. -/
def AudioGraph.slotFor (g : AudioGraph) (track_id scene_id : String) :
    Option (AudioTrack × Nat) := do
  let t ← g.tracks.find? fun t => t.id = track_id
  let idx ← t.session_slots.findIdx? fun slot => slot.scene_id = scene_id
  return (t, idx)

variable {g : AudioGraph} {track_id scene_id : String} {quantize : Bool}

theorem mem_updateTrackById {f : AudioTrack → AudioTrack} {tracks : List AudioTrack}
    {t : AudioTrack} (hmem : t ∈ AudioGraph.updateTrackById track_id f tracks) :
    t ∈ tracks ∨ ∃ old, tracks.find? (fun t => t.id = track_id) = some old ∧ t = f old := by
  induction tracks with
  | nil => cases hmem
  | cons first rest ih =>
      simp only [AudioGraph.updateTrackById] at hmem
      split at hmem
      · rename_i hid
        rcases List.mem_cons.mp hmem with rfl | hrest
        · exact Or.inr ⟨first, List.find?_cons_of_pos (by simpa using hid), rfl⟩
        · exact Or.inl (List.mem_cons_of_mem first hrest)
      · rename_i hid
        rcases List.mem_cons.mp hmem with rfl | hrest
        · exact Or.inl List.mem_cons_self
        · rcases ih hrest with hold | ⟨old, hfind, rfl⟩
          · exact Or.inl (List.mem_cons_of_mem first hold)
          · exact Or.inr ⟨old, (List.find?_cons_of_neg (by simpa using hid)).trans hfind, rfl⟩

theorem find?_updateTrackById {f : AudioTrack → AudioTrack} (hf : ∀ t, (f t).id = t.id)
    {tracks : List AudioTrack} :
    (AudioGraph.updateTrackById track_id f tracks).find? (fun t => t.id = track_id) =
      (tracks.find? fun t => t.id = track_id).map f := by
  induction tracks with
  | nil => rfl
  | cons first rest ih =>
      simp only [AudioGraph.updateTrackById]
      split
      · rename_i hid
        rw [List.find?_cons_of_pos (by simpa using (hf first).trans hid),
          List.find?_cons_of_pos (by simpa using hid), Option.map_some]
      · rename_i hid
        rw [List.find?_cons_of_neg (by simpa using hid),
          List.find?_cons_of_neg (by simpa using hid), ih]

theorem launchSlot_of_slotFor {t : AudioTrack} {idx : Nat}
    (hslot : g.slotFor track_id scene_id = some (t, idx)) :
    g.tracks.find? (fun t => t.id = track_id) = some t ∧ t.id = track_id ∧
      g.launchSlot track_id scene_id false quantize =
        g.startSlot t idx ((t.session_slots[idx]?.map SessionSlot.loop_len).getD 0) quantize := by
  simp only [AudioGraph.slotFor, Option.bind_eq_bind, Option.bind_eq_some_iff] at hslot
  obtain ⟨t', hfind, idx', hidx, hpair⟩ := hslot
  obtain ⟨rfl, rfl⟩ := Prod.mk.inj (Option.some.inj hpair)
  refine ⟨hfind, by simpa using List.find?_some hfind, ?_⟩
  simp only [AudioGraph.launchSlot, hfind, hidx, Bool.false_eq_true, if_false]

theorem launchSlot_of_no_slot (hslot : g.slotFor track_id scene_id = none) :
    g.launchSlot track_id scene_id false quantize = g := by
  unfold AudioGraph.launchSlot
  split
  · rfl
  · rename_i t hfind
    rw [if_neg Bool.false_ne_true]
    split
    · rfl
    · rename_i idx hidx
      simp only [AudioGraph.slotFor, hfind, hidx, Option.bind_eq_bind, Option.bind_some] at hslot
      cases hslot

end Requests

section SessionEvents

/-- The events of launched slots that a sub-block pushed for track `i`. -/
def BlockRecord.sessionEvents (r : BlockRecord) (i : Nat) : List Push :=
  r.pushes.filter fun p => p.source == .session i

variable {clock position : Int} {frames : Nat}

theorem filter_processTrack (playing : Bool) (i j : Nat) (t : AudioTrack) :
    (AudioGraph.processTrack clock playing frames position j t).2.filter
        (fun p => p.source == .session i) =
      if j = i then
        AudioGraph.sessionPushes clock frames i (AudioGraph.promote clock frames t)
      else [] := by
  have hmiddle : ∀ first events last : List Push,
      (∀ p ∈ first, ¬(p.source == .session i) = true) →
      (∀ p ∈ last, ¬(p.source == .session i) = true) →
      (first ++ events ++ last).filter (fun p => p.source == .session i) =
        events.filter fun p => p.source == .session i := by
    intro first events last hfirst hlast
    rw [List.filter_append, List.filter_append, List.filter_eq_nil_iff.mpr hfirst,
      List.filter_eq_nil_iff.mpr hlast, List.nil_append, List.append_nil]
  simp only [AudioGraph.processTrack]
  rw [hmiddle]
  · split
    · rename_i hji
      rw [hji]
      apply List.filter_eq_self.mpr
      intro p hp
      rw [source_of_mem_sessionPushes hp]
      exact beq_self_eq_true _
    · rename_i hji
      apply List.filter_eq_nil_iff.mpr
      intro p hp
      rw [source_of_mem_sessionPushes hp]
      simpa using hji
  · intro p hp
    split at hp
    · split at hp
      · rw [source_of_mem_allNotesOff hp]
        exact Bool.false_ne_true
      · cases hp
    · cases hp
  · intro p hp
    split at hp
    · obtain ⟨nt, ev, rfl⟩ := mem_proxyProcess hp
      exact Bool.false_ne_true
    · cases hp

/-- Only the turn of a track pushes session events for it. -/
theorem filter_processTracks (hasSolo playing : Bool) (i k : Nat) (tracks : List AudioTrack) :
    (AudioGraph.processTracks hasSolo clock playing frames position k tracks).2.filter
        (fun p => p.source == .session (k + i)) =
      match tracks[i]? with
      | some t =>
          if AudioGraph.audible hasSolo t then
            AudioGraph.sessionPushes clock frames (k + i) (AudioGraph.promote clock frames t)
          else []
      | none => [] := by
  have hskip : ∀ (tracks : List AudioTrack) (k j : Nat), j < k →
      (AudioGraph.processTracks hasSolo clock playing frames position k tracks).2.filter
        (fun p => p.source == .session j) = [] := by
    intro tracks
    induction tracks with
    | nil => exact fun _ _ _ => rfl
    | cons t rest ih =>
        intro k j hj
        simp only [AudioGraph.processTracks, List.filter_append]
        rw [ih (k + 1) j (by omega), List.append_nil]
        split
        · rw [filter_processTrack, if_neg (by omega)]
        · rfl
  induction tracks generalizing i k with
  | nil => rfl
  | cons t rest ih =>
      simp only [AudioGraph.processTracks, List.filter_append]
      cases i with
      | zero =>
          rw [hskip rest (k + 1) (k + 0) (by omega), List.append_nil]
          simp only [List.getElem?_cons_zero, Nat.add_zero]
          split
          · rw [filter_processTrack, if_pos rfl]
          · rfl
      | succ i =>
          have hshift : k + (i + 1) = k + 1 + i := by omega
          have hhere : (if AudioGraph.audible hasSolo t then
              AudioGraph.processTrack clock playing frames position k t
              else (t, [])).2.filter (fun p => p.source == .session (k + 1 + i)) = [] := by
            split
            · rw [filter_processTrack, if_neg (by omega)]
            · rfl
          rw [hshift, hhere, List.nil_append, ih]
          rfl

theorem filter_process {g : AudioGraph} {live : List MidiEvent} {i : Nat} {t : AudioTrack}
    (hsize : frames ≤ kRingBlockSize) (htrack : g.tracks[i]? = some t) :
    (g.process frames position live).2.filter (fun p => p.source == .session i) =
      if AudioGraph.audible g.hasSolo t then
        AudioGraph.sessionPushes g.session_clock frames i
          (AudioGraph.promote g.session_clock frames t)
      else [] := by
  have hsome : g.tracks ≠ [] := by
    intro hempty
    rw [hempty] at htrack
    cases htrack
  have hlive : ∀ p ∈ (g.routeLive live).2, ¬(p.source == .session i) = true := by
    intro p hp
    rcases source_of_mem_routeLive hp with hsource | hsource <;> rw [hsource] <;>
      exact Bool.false_ne_true
  have hpass := @filter_processTracks g.session_clock position frames g.hasSolo
    g.transport_playing i 0 g.tracks
  rw [htrack, Nat.zero_add] at hpass
  rw [process_pushes hsize hsome, List.filter_append, List.filter_eq_nil_iff.mpr hlive,
    List.nil_append, hpass]

end SessionEvents

end DawProject.Audio
