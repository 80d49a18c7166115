import DawProject.Audio.Held

/-!
The steps of an observed run: what each one leaves of the position, of the
tracks and of the voices, and when a sub-block sends an all-notes-off.
-/

namespace DawProject.Audio

open Midi Voices

/-- Everything but a graph swap: the callback with its transport commands and
live MIDI, mute and solo, launches. -/
def Label.keepsGraph : Label → Bool
  | .rebuild _ _ _ => false
  | _ => true

/-- The graph a sub-block passes over. -/
def blockGraph (s : EngineState) (cb : Callback) : AudioGraph :=
  { s.graph with session_clock := s.session_clock, transport_playing := cb.is_playing }

/-- Where the sub-block leaves the position. -/
def Callback.after (cb : Callback) : Int :=
  if cb.is_playing then cb.start + cb.chunk else cb.start

theorem Callback.after_le (cb : Callback) : cb.after ≤ cb.start + cb.chunk := by
  unfold Callback.after
  split <;> omega

/-- The next sub-block is a full one in which track `i` plays its timeline. -/
def EmitsTimeline (s : EngineState) (cb : Callback) (i : Nat) : Prop :=
  cb.is_playing = true ∧ cb.chunk = kRingBlockSize ∧
    ∃ t ∈ s.graph.tracks[i]?, AudioGraph.audible s.graph.hasSolo t = true ∧
      AudioGraph.sessionSlot (AudioGraph.promote s.session_clock kRingBlockSize t) = none

instance (s : EngineState) (cb : Callback) (i : Nat) : Decidable (EmitsTimeline s cb i) :=
  inferInstanceAs (Decidable (_ ∧ _ ∧ _))

/-- The note-off of a note that ends in the sub-block is heard. -/
theorem off_of_block {o : Observed} {cb : Callback} {key : Key} {i : Nat} {nt : ScheduledNote}
    (pass : Nat) (live : List MidiEvent) (hcarries : Carries o.engine.graph key.1 i nt)
    (hkey : key.2 = nt.pitch % 128) (hemits : EmitsTimeline o.engine cb i)
    (hlo : cb.start ≤ nt.end_) (hhi : nt.end_ < cb.start + cb.chunk) :
    .off key ∈
      heardAll pass o.gen ((blockGraph o.engine cb).process cb.chunk cb.start live).2 := by
  obtain ⟨hplaying, hfull, t, ht, haudible, hfree⟩ := hemits
  obtain ⟨t', ht', hnode, hnt⟩ := carries_iff.mp hcarries
  obtain rfl : t = t' := Option.some.inj (ht.symm.trans ht')
  rw [hfull] at hhi ⊢
  have hoff := off_of_process (g := blockGraph o.engine cb) pass o.gen live ht haudible hplaying
    hfree hnode hnt hlo hhi
  rw [← hkey] at hoff
  exact hoff

section Flush

/-- The sub-block sends an all-notes-off to the node: the live route to it is
lost, or the launched slot of its track changes. -/
def AudioGraph.Flushes (g : AudioGraph) (frames : Nat) (node : String) : Prop :=
  (g.tracks ≠ [] ∧ g.live_midi_prev_routed = true ∧ g.live_midi_prev_inst = some node ∧
      g.liveRouted = false) ∨
    ∃ (i : Nat) (t : AudioTrack), g.tracks[i]? = some t ∧
      AudioGraph.audible g.hasSolo t = true ∧ t.instrument_node = some node ∧
      (AudioGraph.promote g.session_clock frames t).launched_slot ≠ t.prev_launched

theorem promote_prev_launched (clock : Int) (frames : Nat) (t : AudioTrack) :
    (AudioGraph.promote clock frames t).prev_launched = t.prev_launched := by
  unfold AudioGraph.promote
  split <;> rfl

theorem mem_allNotesOff {node : String} {pitch : Nat} (hpitch : pitch < 128) :
    emitMidi node .allNotesOff false pitch 0 0 ∈ allNotesOff node :=
  List.mem_map.mpr ⟨pitch, List.mem_range.mpr hpitch, rfl⟩

/-- An all-notes-off releases every pitch of its node. -/
theorem off_of_allNotesOff {pass gen : Nat} {key : Key} {pushes : List Push}
    (hpitch : key.2 < 128) (hsub : ∀ p ∈ allNotesOff key.1, p ∈ pushes) :
    .off key ∈ heardAll pass gen pushes := by
  have hoff : .off (key.1, key.2 % 128) ∈ heardAll pass gen pushes :=
    off_mem_heardAll (hsub _ (mem_allNotesOff hpitch)) rfl
  rw [Nat.mod_eq_of_lt hpitch] at hoff
  exact hoff

theorem off_of_flush {g : AudioGraph} {frames : Nat} {position : Int} {key : Key}
    (pass gen : Nat) (live : List MidiEvent) (hsize : frames ≤ kRingBlockSize)
    (hpitch : key.2 < 128) (hflush : g.Flushes frames key.1) :
    .off key ∈ heardAll pass gen (g.process frames position live).2 := by
  apply off_of_allNotesOff hpitch
  intro p hp
  rcases hflush with ⟨hsome, hwas, hinst, hlost⟩ | ⟨i, t, ht, haudible, hnode, hchange⟩
  · rw [process_pushes hsize hsome]
    apply List.mem_append_left
    simp only [AudioGraph.routeLive, List.mem_append, hinst, hwas, hlost, Bool.not_false,
      Bool.and_self, if_true]
    exact Or.inl hp
  · have hsome : g.tracks ≠ [] := by
      intro hempty
      rw [hempty] at ht
      cases ht
    rw [process_pushes hsize hsome]
    apply List.mem_append_right
    apply mem_processTracks 0 ht haudible
    obtain ⟨hchain, _⟩ := Prod.mk.inj (promote_score g.session_clock frames t)
    unfold AudioTrack.instrument_node at hnode
    simp only [AudioGraph.processTrack, List.mem_append, AudioTrack.instrument_node, hchain, hnode,
      promote_prev_launched, hchange, ne_eq, not_false_eq_true, if_true]
    exact Or.inl (Or.inl hp)

end Flush

section Pitch

/-- A push as `pushMidiEvent` makes it. -/
def Push.Sent (p : Push) : Prop := ∃ node source ev, p = pushMidiEvent node source ev

theorem Push.Sent.data1_lt {p : Push} (hsent : p.Sent) : p.event.data1 < 128 := by
  obtain ⟨node, source, ev, rfl⟩ := hsent
  exact Nat.mod_lt _ (by omega)

theorem sent_of_mem_allNotesOff {node : String} {p : Push} (hp : p ∈ allNotesOff node) :
    p.Sent := by
  obtain ⟨_, _, rfl⟩ := List.mem_map.mp hp
  exact ⟨_, _, _, rfl⟩

theorem sent_of_mem_routeLive {g : AudioGraph} {live : List MidiEvent} {p : Push}
    (hp : p ∈ (g.routeLive live).2) : p.Sent := by
  simp only [AudioGraph.routeLive, List.mem_append] at hp
  rcases hp with hp | hp
  · split at hp
    · split at hp
      · exact sent_of_mem_allNotesOff hp
      · cases hp
    · cases hp
  · split at hp
    · split at hp
      · obtain ⟨_, _, rfl⟩ := List.mem_map.mp hp
        exact ⟨_, _, _, rfl⟩
      · cases hp
    · cases hp

theorem sent_of_mem_processTrack {clock position : Int} {playing : Bool} {frames i : Nat}
    {t : AudioTrack} {p : Push}
    (hp : p ∈ (AudioGraph.processTrack clock playing frames position i t).2) : p.Sent := by
  simp only [AudioGraph.processTrack, List.mem_append] at hp
  rcases hp with (hp | hp) | hp
  · split at hp
    · split at hp
      · exact sent_of_mem_allNotesOff hp
      · cases hp
    · cases hp
  · unfold AudioGraph.sessionPushes at hp
    split at hp
    · dsimp only at hp
      split at hp
      · obtain ⟨_, _, rfl⟩ := List.mem_map.mp hp
        exact ⟨_, _, _, rfl⟩
      · split at hp
        · obtain ⟨_, _, rfl⟩ := List.mem_map.mp hp
          exact ⟨_, _, _, rfl⟩
        · cases hp
    · cases hp
  · split at hp
    · obtain ⟨_, _, rfl⟩ := mem_proxyProcess hp
      exact ⟨_, _, _, rfl⟩
    · cases hp

theorem sent_of_mem_processTracks {hasSolo playing : Bool} {clock position : Int} {frames : Nat}
    {p : Push} (tracks : List AudioTrack) (k : Nat)
    (hp : p ∈ (AudioGraph.processTracks hasSolo clock playing frames position k tracks).2) :
    p.Sent := by
  induction tracks generalizing k with
  | nil => cases hp
  | cons t rest ih =>
      simp only [AudioGraph.processTracks, List.mem_append] at hp
      rcases hp with hp | hp
      · split at hp
        · exact sent_of_mem_processTrack hp
        · cases hp
      · exact ih (k + 1) hp

theorem sent_of_mem_process {g : AudioGraph} {frames : Nat} {position : Int}
    {live : List MidiEvent} {p : Push} (hp : p ∈ (g.process frames position live).2) : p.Sent := by
  unfold AudioGraph.process at hp
  split at hp
  · cases hp
  · split at hp
    · cases hp
    · rcases List.mem_append.mp hp with hp | hp
      · exact sent_of_mem_routeLive hp
      · exact sent_of_mem_processTracks _ _ hp

end Pitch

section Observe

variable {o o' : Observed} {l : Label}

theorem step_of_observe (hobserve : observe o l = some o') :
    ∃ rendered, step o.engine l = some (o'.engine, rendered) := by
  simp only [observe, Option.bind_eq_bind, Option.bind_eq_some_iff] at hobserve
  obtain ⟨⟨engine, rendered⟩, hstep, hdone⟩ := hobserve
  refine ⟨rendered, ?_⟩
  rw [hstep]
  split at hdone
  · rw [← Option.some.inj hdone]
  · split at hdone <;> rw [← Option.some.inj hdone]

theorem observe_wf (hwf : o.engine.Wf) (hobserve : observe o l = some o') : o'.engine.Wf := by
  obtain ⟨_, hstep⟩ := step_of_observe hobserve
  exact step_wf hwf hstep

/-- A step that renders: the callback goes on from where the block ends, and
the voices hear what the pass over the graph sends. -/
theorem observe_of_rendering {cb : Callback} (hobserve : observe o l = some o')
    (hrenders : rendering o.engine l = some cb) :
    ∃ live, o.engine.inside = some cb ∧ playhead o'.engine = cb.after ∧
      o'.engine.graph = ((blockGraph o.engine cb).process cb.chunk cb.start live).1 ∧
      o'.gen = o.gen ∧ o'.fresh = false ∧
      o'.pass = (if cb.atEnd then o.pass + 1 else o.pass) ∧
      o'.held = play o.held (heardAll o'.pass o.gen
        ((blockGraph o.engine cb).process cb.chunk cb.start live).2) := by
  cases l with
  | block live =>
      obtain ⟨hinside, hrenders⟩ := Option.filter_eq_some_iff.mp hrenders
      have hgoes : ¬ (cb.atEnd ∧ cb.looping = false) := by
        rw [Bool.not_eq_true', decide_eq_false_iff_not] at hrenders
        exact hrenders
      simp only [observe, step, hinside, Option.bind_eq_bind, Option.bind_eq_some_iff] at hobserve
      obtain ⟨⟨engine, rendered⟩, hstep, hdone⟩ := hobserve
      split at hstep
      · rw [renderBlock, if_neg hgoes] at hstep
        obtain ⟨rfl, rfl⟩ := Prod.mk.inj (Option.some.inj hstep)
        obtain rfl := Option.some.inj hdone
        refine ⟨live, hinside, rfl, rfl, rfl, rfl, ?_, rfl⟩
        simp only [interrupts, hinside, decide_eq_true_eq]
      · cases hstep
  | enter frame_count cmds => cases hrenders
  | leave => cases hrenders
  | setMonitor track_id solo mute => cases hrenders
  | launch track_id scene_id stop quantize => cases hrenders
  | rebuild graph content_end vst3_nodes => cases hrenders

theorem step_of_not_rendering {s next : EngineState} {rendered : Option BlockRecord}
    (hstep : step s l = some (next, rendered)) (hsilent : rendering s l = none) :
    rendered = none := by
  cases rendered with
  | none => rfl
  | some r =>
      obtain ⟨cb, live, rfl, hinside, -, hgo, -⟩ := step_rendered hstep
      have hstop : cb.atEnd ∧ cb.looping = false := by
        simpa [rendering, hinside, Option.filter] using hsilent
      exact absurd hstop hgo

/-- A step that renders nothing and swaps nothing is heard by no voice. -/
theorem observe_of_silent (hobserve : observe o l = some o') (hkeeps : l.keepsGraph = true)
    (hsilent : rendering o.engine l = none) :
    o'.held = o.held ∧ o'.gen = o.gen ∧
      o'.pass = (if interrupts o.engine l then o.pass + 1 else o.pass) ∧
      o'.fresh = (o.fresh && !returnsAtOnce o.engine l) := by
  simp only [observe, Option.bind_eq_bind, Option.bind_eq_some_iff] at hobserve
  obtain ⟨⟨engine, rendered⟩, hstep, hdone⟩ := hobserve
  obtain rfl := step_of_not_rendering hstep hsilent
  cases l with
  | rebuild graph content_end vst3_nodes => cases hkeeps
  | block live =>
      obtain rfl := Option.some.inj hdone
      exact ⟨rfl, rfl, rfl, rfl⟩
  | enter frame_count cmds =>
      obtain rfl := Option.some.inj hdone
      exact ⟨rfl, rfl, rfl, rfl⟩
  | leave =>
      obtain rfl := Option.some.inj hdone
      exact ⟨rfl, rfl, rfl, rfl⟩
  | setMonitor track_id solo mute =>
      obtain rfl := Option.some.inj hdone
      exact ⟨rfl, rfl, rfl, rfl⟩
  | launch track_id scene_id stop quantize =>
      obtain rfl := Option.some.inj hdone
      exact ⟨rfl, rfl, rfl, rfl⟩

/-- A silent step leaves what the tracks carry and where live MIDI went. -/
theorem graph_of_step {s next : EngineState} {rendered : Option BlockRecord}
    (hstep : step s l = some (next, rendered)) (hkeeps : l.keepsGraph = true)
    (hsilent : rendering s l = none) :
    next.graph.score = s.graph.score ∧ next.graph.live = s.graph.live := by
  obtain rfl := step_of_not_rendering hstep hsilent
  cases l with
  | rebuild graph content_end vst3_nodes => cases hkeeps
  | block live =>
      obtain ⟨cb, hinside, -, hrendered⟩ := step_block hstep
      have hstop : cb.atEnd ∧ cb.looping = false := by
        simpa [rendering, hinside, Option.filter] using hsilent
      rw [renderBlock, if_pos hstop] at hrendered
      rw [← (Prod.mk.inj hrendered).1]
      exact ⟨rfl, rfl⟩
  | setMonitor track_id solo mute =>
      rw [← (Prod.mk.inj (Option.some.inj hstep)).1]
      exact ⟨setMonitor_score _ _ _ _, rfl⟩
  | launch track_id scene_id stop quantize =>
      rw [← (Prod.mk.inj (Option.some.inj hstep)).1]
      exact ⟨launchSlot_score _ _ _ _ _, launchSlot_live _ _ _ _ _⟩
  | leave =>
      obtain ⟨cb, -, -, rfl, -⟩ := step_leave hstep
      exact ⟨rfl, rfl⟩
  | enter frame_count cmds =>
      obtain ⟨-, rfl, -⟩ := step_enter hstep
      unfold enterCallback
      split
      · exact ⟨rfl, rfl⟩
      · dsimp only
        split <;> exact ⟨rfl, rfl⟩

theorem graph_of_silent (hobserve : observe o l = some o') (hkeeps : l.keepsGraph = true)
    (hsilent : rendering o.engine l = none) :
    o'.engine.graph.score = o.engine.graph.score ∧
      o'.engine.graph.live = o.engine.graph.live := by
  obtain ⟨rendered, hstep⟩ := step_of_observe hobserve
  exact graph_of_step hstep hkeeps hsilent

/-- Without an interruption a silent step keeps the position. -/
theorem playhead_of_silent (hwf : o.engine.Wf) (hobserve : observe o l = some o')
    (hkeeps : l.keepsGraph = true) (hsilent : rendering o.engine l = none)
    (hquiet : interrupts o.engine l = false) : playhead o'.engine = playhead o.engine := by
  obtain ⟨rendered, hstep⟩ := step_of_observe hobserve
  obtain rfl := step_of_not_rendering hstep hsilent
  cases l with
  | rebuild graph content_end vst3_nodes => cases hkeeps
  | block live =>
      obtain ⟨cb, hinside, -, -⟩ := step_block hstep
      have hstop : cb.atEnd ∧ cb.looping = false := by
        simpa [rendering, hinside, Option.filter] using hsilent
      simp [interrupts, hinside, hstop.1] at hquiet
  | setMonitor track_id solo mute =>
      rw [← (Prod.mk.inj (Option.some.inj hstep)).1]
      rfl
  | launch track_id scene_id stop quantize =>
      rw [← (Prod.mk.inj (Option.some.inj hstep)).1]
      rfl
  | leave =>
      obtain ⟨cb, hinside, -, hnext, -⟩ := step_leave hstep
      obtain ⟨hnonneg, _, hfrozen⟩ := hwf.inside cb hinside
      rw [hnext]
      simp only [playhead, leaveCallback, hinside]
      split
      · rw [TransportState.seek, if_pos hnonneg]
      · rename_i hstopped
        exact (hfrozen (by simpa using hstopped)).symm
  | enter frame_count cmds =>
      obtain ⟨hnone, hnext, -⟩ := step_enter hstep
      rw [hnext]
      unfold enterCallback
      split
      · rfl
      · rename_i haccepted
        have hposition : (processCommands o.engine.transport cmds).position =
            o.engine.transport.position := by
          simp only [interrupts, haccepted, decide_false, Bool.not_false, Bool.true_and,
            Bool.or_eq_false_iff, decide_eq_false_iff_not, not_not] at hquiet
          exact hquiet.2
        dsimp only
        split <;> simp only [playhead, hnone, hposition]

/-- The voices a rebuild leaves are those of the plugins it keeps. -/
theorem observe_rebuild {graph : AudioGraph} {content_end : Int} {vst3_nodes : List String}
    (hobserve : observe o (.rebuild graph content_end vst3_nodes) = some o') :
    o'.engine.graph = AudioGraph.copyMonitorState o.engine.graph graph ∧
      o'.gen = o.gen + 1 ∧ o'.fresh = true ∧ ∀ v ∈ o'.held, v ∈ o.held := by
  simp only [observe, step, Option.bind_eq_bind, Option.bind_eq_some_iff] at hobserve
  obtain ⟨⟨engine, rendered⟩, hstep, hdone⟩ := hobserve
  obtain rfl := Option.some.inj hdone
  split at hstep
  · obtain ⟨rfl, _⟩ := Prod.mk.inj (Option.some.inj hstep)
    exact ⟨rfl, rfl, rfl, fun v hv => (List.mem_filter.mp hv).1⟩
  · cases hstep

/-- Every voice is at a pitch a note-off can name. -/
theorem pitch_lt_of_observe (hpitch : ∀ v ∈ o.held, v.1.2 < 128)
    (hobserve : observe o l = some o') : ∀ v ∈ o'.held, v.1.2 < 128 := by
  intro v hv
  cases hrenders : rendering o.engine l with
  | some cb =>
      obtain ⟨live, _, _, _, _, _, _, hheld⟩ := observe_of_rendering hobserve hrenders
      rw [hheld] at hv
      rcases of_mem_play hv with ⟨hold, _⟩ | ⟨before, after, hsplit, _⟩
      · exact hpitch v hold
      · have hon : .on v.1 v.2 ∈ heardAll o'.pass o.gen
            ((blockGraph o.engine cb).process cb.chunk cb.start live).2 := by
          rw [hsplit]
          simp
        obtain ⟨p, hp, _, hdata, _⟩ := on_of_mem_heardAll hon
        rw [← hdata]
        exact (sent_of_mem_process hp).data1_lt
  | none =>
      cases hkeeps : l.keepsGraph with
      | true =>
          rw [(observe_of_silent hobserve hkeeps hrenders).1] at hv
          exact hpitch v hv
      | false =>
          cases l with
          | rebuild graph content_end vst3_nodes =>
              exact hpitch v ((observe_rebuild hobserve).2.2.2 v hv)
          | block live => cases hkeeps
          | enter frame_count cmds => cases hkeeps
          | leave => cases hkeeps
          | setMonitor track_id solo mute => cases hkeeps
          | launch track_id scene_id stop quantize => cases hkeeps

end Observe

/-- The observer after a step that is known to be taken. -/
def after (o : Observed) (l : Label) : Observed := (observe o l).getD o

theorem oneNote_wf (nt : ScheduledNote) : (oneNote nt).Wf :=
  ⟨le_refl 0, le_refl 0, fun _ h => by cases h⟩

end DawProject.Audio
