import DawProject.Lib.Run
import DawProject.Audio.Steps

/-!
Notes across a graph swap. What is sounding is remembered by the graph, which
the swap discards, while the plugin lives on: the new graph has no launched
slot and no live route to lose, so the first sub-block after the swap sends an
all-notes-off for neither, and the notes of its own list are the only ones
whose end it will announce.
-/

namespace DawProject.Audio

open Midi Voices Run

/-- As it leaves the builder: nothing is launched and nothing was routed. -/
def AudioGraph.Built (g : AudioGraph) : Prop :=
  g.live_midi_prev_routed = false ∧ g.live_midi_prev_inst = none ∧ g.launched_count = 0 ∧
    ∀ t ∈ g.tracks, t.launched_slot = -1 ∧ t.queued_slot = -1 ∧ t.prev_launched = -1

instance (g : AudioGraph) : Decidable g.Built := inferInstanceAs (Decidable (_ ∧ _ ∧ _ ∧ _))

/-- A swap brings a graph as it leaves the builder. -/
def Label.Builds : Label → Prop
  | .rebuild graph _ _ => graph.Built
  | _ => True

/-- A note of the graph sounds on the key at this position. -/
def Covered (g : AudioGraph) (key : Key) (position : Int) : Prop :=
  ∃ i nt, Carries g key.1 i nt ∧ key.2 = nt.pitch % 128 ∧ nt.start ≤ position ∧
    position ≤ nt.end_

/-- The current graph still plays what the voice was started for: a note it
carries, or live MIDI it routes. A slot launched in an earlier graph is no
longer launched. -/
def StillPlayed (o : Observed) (v : Voice) : Prop :=
  match v.2.source with
  | .timeline _ _ => v.2.pass = o.pass ∧ Covered o.engine.graph v.1 (playhead o.engine)
  | .live => o.engine.graph.live_midi_prev_routed = true ∧
      o.engine.graph.live_midi_prev_inst = some v.1.1
  | .session _ => False
  | .allNotesOff => False

/-- Once the new graph has been processed, every voice that an earlier graph
started and that is still held is one the new graph plays. -/
def NoHangingAfterSwap (o : Observed) : Prop :=
  o.fresh = false → ∀ v ∈ o.held, v.2.gen < o.gen → StillPlayed o v

/-- The first sub-block of a graph goes on with the voice: a note it carries
sounds where the last graph stopped, or it routes live MIDI to the instrument
that holds the voice. -/
def TakenOver (o : Observed) (cb : Callback) (v : Voice) : Prop :=
  match v.2.source with
  | .timeline _ _ => ¬ cb.atEnd ∧ v.2.pass = o.pass ∧
      Covered o.engine.graph v.1 cb.position
  | .live => o.engine.graph.liveRouted = true ∧ o.engine.graph.liveInst = some v.1.1
  | .session _ => False
  | .allNotesOff => False

/-- A voice of the timeline is carried on by the sub-block: the position does
not jump, and a note sounding on its key that ends in the sub-block is
emitted. -/
def CarriedOn (o : Observed) (cb : Callback) (v : Voice) : Prop :=
  ¬ cb.atEnd ∧ ∀ i nt, Carries o.engine.graph v.1.1 i nt → v.1.2 = nt.pitch % 128 →
    nt.start ≤ cb.position → cb.position ≤ nt.end_ → nt.end_ < cb.start + cb.chunk →
      EmitsTimeline o.engine cb i

/-- The sub-block releases each voice of an earlier graph or goes on with it;
the first one of a graph has to take it over. -/
def KeepsOlder (o : Observed) (cb : Callback) : Prop :=
  ∀ v ∈ o.held, v.2.gen < o.gen → (blockGraph o.engine cb).Flushes cb.chunk v.1.1 ∨
    ((o.fresh = true → TakenOver o cb v) ∧
      ∀ i nt, v.2.source = .timeline i nt → CarriedOn o cb v)

def SwapStep (o o' : Observed) : Prop :=
  ∃ l : Label, l.Builds ∧ observe o l = some o'

/-- Each rendered sub-block keeps what it can of the earlier graphs; otherwise
the transport stops or jumps only while none of their timeline notes is held,
and the first callback of a graph returns at once only while none of their
voices is. -/
def CleanSwapStep (o o' : Observed) : Prop :=
  ∃ l : Label, l.Builds ∧ observe o l = some o' ∧
    (∀ cb, rendering o.engine l = some cb → KeepsOlder o cb) ∧
    (rendering o.engine l = none → o.fresh = false → interrupts o.engine l = true →
      ∀ v ∈ o.held, v.2.gen < o.gen → ∀ i nt, v.2.source ≠ .timeline i nt) ∧
    (o.fresh = true → returnsAtOnce o.engine l = true → ∀ v ∈ o.held, ¬ v.2.gen < o.gen)

section Live

/-- The route remembered from the last pass is that of the live target. -/
def AudioGraph.RemembersLive (g : AudioGraph) : Prop :=
  g.live_midi_prev_routed = true → g.live_midi_prev_inst = g.liveInst

theorem liveInst_of_score {g g' : AudioGraph} (hscore : g'.score = g.score)
    (htrack : g'.live_midi_track = g.live_midi_track) : g'.liveInst = g.liveInst := by
  have hlength : g'.tracks.length = g.tracks.length := by
    have hmap := congrArg List.length hscore
    simpa [AudioGraph.score] using hmap
  have hat : ∀ n : Nat, g'.tracks[n]?.bind AudioTrack.instrument_node =
      g.tracks[n]?.bind AudioTrack.instrument_node := by
    intro n
    have hn := congrArg (fun tracks => tracks[n]?) hscore
    simp only [AudioGraph.score, List.getElem?_map] at hn
    have hhead :=
      congrArg (fun s => s.bind fun s : List String × List ScheduledNote => s.1.head?) hn
    simp only [Option.bind_map] at hhead
    exact hhead
  unfold AudioGraph.liveInst AudioGraph.liveTarget
  rw [htrack, hlength]
  split
  · exact hat _
  · rfl

theorem tracks_ne_nil_of_liveInst {g : AudioGraph} {node : String}
    (hinst : g.liveInst = some node) : g.tracks ≠ [] := by
  intro hempty
  simp [AudioGraph.liveInst, AudioGraph.liveTarget, hempty] at hinst

theorem remembersLive_of_keeps {g g' : AudioGraph} (hscore : g'.score = g.score)
    (hlive : g'.live = g.live) (hremembers : g.RemembersLive) : g'.RemembersLive := by
  obtain ⟨htrack, hrest⟩ := Prod.mk.inj hlive
  obtain ⟨hrouted, hinst⟩ := Prod.mk.inj hrest
  intro h
  rw [hinst, liveInst_of_score hscore htrack]
  exact hremembers (hrouted.symm.trans h)

/-- A pass over the graph leaves the route as it was without tracks, and
otherwise that of its live target. -/
theorem process_live (g : AudioGraph) {frames : Nat} (position : Int) (live : List MidiEvent)
    (hsize : frames ≤ kRingBlockSize) :
    (g.process frames position live).1.live =
      if g.tracks = [] then g.live else (g.live_midi_track, g.liveRouted, g.liveInst) := by
  unfold AudioGraph.process
  rw [if_neg (not_lt.mpr hsize)]
  by_cases hempty : g.tracks = []
  · rw [if_pos (by simpa using hempty), if_pos hempty]
  · rw [if_neg (by simpa using hempty), if_neg hempty]
    rfl

theorem copyMonitorState_live (old new : AudioGraph) :
    (AudioGraph.copyMonitorState old new).live = new.live := by
  unfold AudioGraph.copyMonitorState
  induction old.tracks generalizing new with
  | nil => rfl
  | cons t rest ih => rw [List.foldl_cons, ih]; rfl

end Live

section Step

variable {o o' : Observed} {l : Label}

theorem remembersLive_of_observe (hremembers : o.engine.graph.RemembersLive)
    (hbuilds : l.Builds) (hobserve : observe o l = some o') :
    o'.engine.graph.RemembersLive := by
  cases hrenders : rendering o.engine l with
  | some cb =>
      obtain ⟨live, _, _, hgraph, _⟩ := observe_of_rendering hobserve hrenders
      have hscore := process_score (blockGraph o.engine cb) cb.chunk cb.start live
      have hlive := process_live (blockGraph o.engine cb) cb.start live cb.chunk_le
      rw [← hgraph] at hscore hlive
      by_cases hempty : (blockGraph o.engine cb).tracks = []
      · rw [if_pos hempty] at hlive
        exact remembersLive_of_keeps hscore hlive hremembers
      · rw [if_neg hempty] at hlive
        obtain ⟨htrack, hrest⟩ := Prod.mk.inj hlive
        obtain ⟨_, hinst⟩ := Prod.mk.inj hrest
        intro _
        rw [hinst, liveInst_of_score hscore htrack]
  | none =>
      cases hkeeps : l.keepsGraph with
      | true =>
          obtain ⟨hscore, hlive⟩ := graph_of_silent hobserve hkeeps hrenders
          exact remembersLive_of_keeps hscore hlive hremembers
      | false =>
          cases l with
          | rebuild graph content_end vst3_nodes =>
              obtain ⟨hgraph, _⟩ := observe_rebuild hobserve
              have hlive := copyMonitorState_live o.engine.graph graph
              rw [← hgraph] at hlive
              obtain ⟨_, hrest⟩ := Prod.mk.inj hlive
              obtain ⟨hrouted, _⟩ := Prod.mk.inj hrest
              intro h
              rw [hrouted, hbuilds.1] at h
              cases h
          | block live => cases hkeeps
          | enter frame_count cmds => cases hkeeps
          | leave => cases hkeeps
          | setMonitor track_id solo mute => cases hkeeps
          | launch track_id scene_id stop quantize => cases hkeeps

/-- What an observed run keeps: the engine is well formed, remembers its live
route, and plays what is held from earlier graphs. -/
structure SwapInvariant (o : Observed) : Prop where
  wf : o.engine.Wf
  pitch : ∀ v ∈ o.held, v.1.2 < 128
  remembers : o.engine.graph.RemembersLive
  played : NoHangingAfterSwap o

/-- A note that covers the key at the start of a sub-block still covers it at
the end, or is announced in it. -/
theorem covered_of_block {cb : Callback} {v : Voice} {live : List MidiEvent} {pass : Nat}
    (hcarried : CarriedOn o cb v) (hcovered : Covered o.engine.graph v.1 cb.position)
    (hquiet : .off v.1 ∉
      heardAll pass o.gen ((blockGraph o.engine cb).process cb.chunk cb.start live).2) :
    Covered o.engine.graph v.1 cb.after := by
  obtain ⟨hnotEnd, hemits⟩ := hcarried
  obtain ⟨i, nt, hcarries, hkey, hstarted, hends⟩ := hcovered
  have hstart := Callback.start_of_not_atEnd hnotEnd
  have hlater : cb.position ≤ cb.after := by
    unfold Callback.after
    split <;> omega
  refine ⟨i, nt, hcarries, hkey, le_trans hstarted hlater, ?_⟩
  by_contra hpassed
  have hafter := cb.after_le
  have hdue : nt.end_ < cb.start + cb.chunk := by omega
  apply hquiet
  apply off_of_block pass live hcarries hkey _ (by omega) hdue
  exact hemits i nt hcarries hkey hstarted hends hdue

/-- What the graph played up to the sub-block of a voice of an earlier one. -/
def PlayedUpTo (o : Observed) (cb : Callback) (v : Voice) : Prop :=
  match v.2.source with
  | .timeline _ _ => v.2.pass = o.pass ∧ Covered o.engine.graph v.1 cb.position
  | .live => o.engine.graph.liveInst = some v.1.1 ∧
      (o.engine.graph.liveRouted = false → o.engine.graph.live_midi_prev_routed = true ∧
        o.engine.graph.live_midi_prev_inst = some v.1.1)
  | .session _ => False
  | .allNotesOff => False

theorem TakenOver.playedUpTo {cb : Callback} {v : Voice} (htaken : TakenOver o cb v) :
    PlayedUpTo o cb v := by
  unfold TakenOver at htaken
  unfold PlayedUpTo
  cases hsource : v.2.source with
  | timeline i nt =>
      rw [hsource] at htaken
      exact htaken.2
  | live =>
      rw [hsource] at htaken
      obtain ⟨hrouted, hinst⟩ := htaken
      refine ⟨hinst, fun hlost => ?_⟩
      rw [hrouted] at hlost
      cases hlost
  | session i => rw [hsource] at htaken; exact htaken
  | allNotesOff => rw [hsource] at htaken; exact htaken

theorem StillPlayed.playedUpTo {cb : Callback} {v : Voice} (hplayed : StillPlayed o v)
    (hremembers : o.engine.graph.RemembersLive) (hinside : o.engine.inside = some cb) :
    PlayedUpTo o cb v := by
  unfold StillPlayed at hplayed
  unfold PlayedUpTo
  cases hsource : v.2.source with
  | timeline i nt =>
      rw [hsource] at hplayed
      simp only [playhead, hinside] at hplayed
      exact hplayed
  | live =>
      rw [hsource] at hplayed
      obtain ⟨hrouted, hinst⟩ := hplayed
      exact ⟨(hremembers hrouted).symm.trans hinst, fun _ => ⟨hrouted, hinst⟩⟩
  | session i => rw [hsource] at hplayed; exact hplayed
  | allNotesOff => rw [hsource] at hplayed; exact hplayed

/-- A voice played up to a sub-block that neither releases it nor loses it is
played after it. -/
theorem PlayedUpTo.stillPlayed {cb : Callback} {v : Voice} {live : List MidiEvent}
    (hplayed : PlayedUpTo o cb v)
    (hcarried : ∀ i nt, v.2.source = .timeline i nt → CarriedOn o cb v)
    (hplayhead : playhead o'.engine = cb.after)
    (hpass : o'.pass = if cb.atEnd then o.pass + 1 else o.pass)
    (hgraph : o'.engine.graph =
      ((blockGraph o.engine cb).process cb.chunk cb.start live).1)
    (hpitch : v.1.2 < 128)
    (hquiet : .off v.1 ∉ heardAll o'.pass o.gen
      ((blockGraph o.engine cb).process cb.chunk cb.start live).2) : StillPlayed o' v := by
  unfold PlayedUpTo at hplayed
  unfold StillPlayed
  cases hsource : v.2.source with
  | timeline i nt =>
      rw [hsource] at hplayed
      have hgoes := hcarried i nt hsource
      have hscore := process_score (blockGraph o.engine cb) cb.chunk cb.start live
      rw [← hgraph] at hscore
      rw [if_neg hgoes.1] at hpass
      obtain ⟨j, nt', hcarries, hcover⟩ := covered_of_block hgoes hplayed.2 hquiet
      refine ⟨hplayed.1.trans hpass.symm, j, nt', hcarries.of_score hscore, ?_⟩
      rw [hplayhead]
      exact hcover
  | live =>
      rw [hsource] at hplayed
      obtain ⟨hinst, hlost⟩ := hplayed
      have hsome : (blockGraph o.engine cb).tracks ≠ [] := tracks_ne_nil_of_liveInst hinst
      have hrouted : o.engine.graph.liveRouted = true := by
        by_contra hunrouted
        have hunrouted' := Bool.eq_false_iff.mpr hunrouted
        obtain ⟨hwas, hwhere⟩ := hlost hunrouted'
        apply hquiet
        apply off_of_flush o'.pass o.gen live cb.chunk_le hpitch
        exact Or.inl ⟨hsome, hwas, hwhere, hunrouted'⟩
      have hlive := process_live (blockGraph o.engine cb) cb.start live cb.chunk_le
      rw [← hgraph, if_neg hsome] at hlive
      obtain ⟨_, hrest⟩ := Prod.mk.inj hlive
      obtain ⟨hrouted', hinst'⟩ := Prod.mk.inj hrest
      exact ⟨hrouted'.trans hrouted, hinst'.trans hinst⟩
  | session i => rw [hsource] at hplayed; exact hplayed
  | allNotesOff => rw [hsource] at hplayed; exact hplayed

/-- A rendered sub-block that keeps the older voices leaves each one it does
not release played by the graph. -/
theorem played_of_block {cb : Callback} (hinv : SwapInvariant o) (hkeeps : KeepsOlder o cb)
    (hobserve : observe o l = some o') (hrenders : rendering o.engine l = some cb) :
    NoHangingAfterSwap o' := by
  obtain ⟨live, hinside, hplayhead, hgraph, hgen', _, hpass', hheld'⟩ :=
    observe_of_rendering hobserve hrenders
  intro _ v hv holder
  rw [hgen'] at holder
  rw [hheld'] at hv
  rcases of_mem_play hv with ⟨hold, hquiet⟩ | ⟨before, after, hsplit, _⟩
  · rcases hkeeps v hold holder with hflush | ⟨htaken, hcarried⟩
    · exact absurd (off_of_flush o'.pass o.gen live cb.chunk_le (hinv.pitch v hold) hflush) hquiet
    · have hbefore : PlayedUpTo o cb v := by
        cases hfresh : o.fresh with
        | true => exact (htaken hfresh).playedUpTo
        | false => exact (hinv.played hfresh v hold holder).playedUpTo hinv.remembers hinside
      exact hbefore.stillPlayed hcarried hplayhead hpass' hgraph (hinv.pitch v hold) hquiet
  · have hon : .on v.1 v.2 ∈ heardAll o'.pass o.gen
        ((blockGraph o.engine cb).process cb.chunk cb.start live).2 := by
      rw [hsplit]
      simp
    obtain ⟨_, _, _, _, _, _, hgen⟩ := on_of_mem_heardAll hon
    omega

/-- A silent step that interrupts no older timeline note leaves every older
voice played. -/
theorem played_of_silent (hinv : SwapInvariant o) (hkeeps : l.keepsGraph = true)
    (hobserve : observe o l = some o') (hsilent : rendering o.engine l = none)
    (htransport : o.fresh = false → interrupts o.engine l = true →
      ∀ v ∈ o.held, v.2.gen < o.gen → ∀ i nt, v.2.source ≠ .timeline i nt)
    (hreturns : o.fresh = true → returnsAtOnce o.engine l = true →
      ∀ v ∈ o.held, ¬ v.2.gen < o.gen) : NoHangingAfterSwap o' := by
  obtain ⟨hheld', hgen', hpass', hfresh'⟩ := observe_of_silent hobserve hkeeps hsilent
  obtain ⟨hscore, hlive⟩ := graph_of_silent hobserve hkeeps hsilent
  intro hused v hv holder
  rw [hheld'] at hv
  rw [hgen'] at holder
  rw [hfresh'] at hused
  cases hfresh : o.fresh with
  | true =>
      rw [hfresh, Bool.true_and, Bool.not_eq_false'] at hused
      exact absurd holder (hreturns hfresh hused v hv)
  | false =>
      have hplayed := hinv.played hfresh v hv holder
      unfold StillPlayed at hplayed ⊢
      cases hsource : v.2.source with
      | timeline i nt =>
          rw [hsource] at hplayed
          obtain ⟨hpass, j, nt', hcarries, hcover⟩ := hplayed
          cases hinterrupts : interrupts o.engine l with
          | true => exact absurd hsource (htransport hfresh hinterrupts v hv holder i nt)
          | false =>
              have hplayhead := playhead_of_silent hinv.wf hobserve hkeeps hsilent hinterrupts
              rw [hinterrupts] at hpass'
              refine ⟨hpass.trans hpass'.symm, j, nt', hcarries.of_score hscore, ?_⟩
              rw [hplayhead]
              exact hcover
      | live =>
          rw [hsource] at hplayed
          obtain ⟨_, hrest⟩ := Prod.mk.inj hlive
          obtain ⟨hrouted, hinst⟩ := Prod.mk.inj hrest
          exact ⟨hrouted.trans hplayed.1, hinst.trans hplayed.2⟩
      | session i => rw [hsource] at hplayed; exact hplayed
      | allNotesOff => rw [hsource] at hplayed; exact hplayed

theorem swapInvariant_of_step (hinv : SwapInvariant o) (hstep : CleanSwapStep o o') :
    SwapInvariant o' := by
  obtain ⟨l, hbuilds, hobserve, hblock, htransport, hreturns⟩ := hstep
  refine ⟨observe_wf hinv.wf hobserve, pitch_lt_of_observe hinv.pitch hobserve,
    remembersLive_of_observe hinv.remembers hbuilds hobserve, ?_⟩
  cases hrenders : rendering o.engine l with
  | some cb => exact played_of_block hinv (hblock cb hrenders) hobserve hrenders
  | none =>
      cases hkeeps : l.keepsGraph with
      | true =>
          exact played_of_silent hinv hkeeps hobserve hrenders (htransport hrenders) hreturns
      | false =>
          cases l with
          | rebuild graph content_end vst3_nodes =>
              obtain ⟨_, _, hfresh, _⟩ := observe_rebuild hobserve
              intro hused
              rw [hfresh] at hused
              cases hused
          | block live => cases hkeeps
          | enter frame_count cmds => cases hkeeps
          | leave => cases hkeeps
          | setMonitor track_id solo mute => cases hkeeps
          | launch track_id scene_id stop quantize => cases hkeeps

end Step

/-- A step that neither renders nor interrupts is clean. -/
theorem cleanSwapStep_of_quiet {o : Observed} {l : Label} (hbuilds : l.Builds)
    (hobserve : observe o l = some (after o l)) (hrenders : rendering o.engine l = none)
    (hquiet : interrupts o.engine l = false) (hreturns : returnsAtOnce o.engine l = false) :
    CleanSwapStep o (after o l) := by
  refine ⟨l, hbuilds, hobserve, ?_, ?_, ?_⟩
  · intro cb h
    rw [hrenders] at h
    cases h
  · intro _ _ h
    rw [hquiet] at h
    cases h
  · intro _ h
    rw [hreturns] at h
    cases h

theorem cleanSwapStep_of_block {o : Observed} (live : List MidiEvent)
    (hobserve : observe o (.block live) = some (after o (.block live)))
    (hrenders : (rendering o.engine (.block live)).isSome = true)
    (hkeeps : ∀ cb, o.engine.inside = some cb → KeepsOlder o cb) :
    CleanSwapStep o (after o (.block live)) := by
  refine ⟨.block live, trivial, hobserve, ?_, ?_, fun _ h => by cases h⟩
  · intro cb h
    exact hkeeps cb (Option.filter_eq_some_iff.mp h).1
  · intro h
    rw [h] at hrenders
    cases hrenders

/-- One track with a session slot that loops a single note. -/
def oneSlot (nt : ScheduledNote) : EngineState where
  transport := { content_end := 48000 }
  graph :=
    { tracks :=
        [{ id := "track", chain := ["synth"], session_slots := [⟨"scene", 48000, [nt]⟩] }] }

theorem oneSlot_wf (nt : ScheduledNote) : (oneSlot nt).Wf :=
  ⟨le_refl 0, le_refl 0, fun _ h => by cases h⟩

end DawProject.Audio
