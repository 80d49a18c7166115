import DawProject.Lib.Run
import DawProject.Audio.Steps

/-!
Timeline notes and the transport. A note-off is sent only by the block whose
window contains the end of the note, so a held note is released when that
block is rendered at full size on an audible track, and not otherwise: a stop,
a seek, the brace, a silent track and a short block each lose it.
-/

namespace DawProject.Audio

open Midi Voices Run

/-- Every held timeline voice was started in the current stretch of playback,
and its note has not been passed. -/
def NoHangingTimelineNote (o : Observed) : Prop :=
  ∀ v ∈ o.held, ∀ i nt, v.2.source = .timeline i nt →
    v.2.pass = o.pass ∧ playhead o.engine ≤ nt.end_

def NoTimelineVoice (o : Observed) : Prop :=
  ∀ v ∈ o.held, ∀ i nt, v.2.source ≠ .timeline i nt

/-- The next sub-block releases or carries on every held note: it sends its
node an all-notes-off, or goes on from where the last one ended and, where it
passes the end of the note, emits the timeline of its track. No note that
starts in it ends before it starts. -/
def CoversEnds (o : Observed) (cb : Callback) : Prop :=
  (∀ v ∈ o.held, ∀ i nt, v.2.source = .timeline i nt →
    (blockGraph o.engine cb).Flushes cb.chunk v.1.1 ∨
      (¬ cb.atEnd ∧ (nt.end_ < cb.start + cb.chunk → EmitsTimeline o.engine cb i))) ∧
  ∀ t ∈ o.engine.graph.tracks, ∀ nt ∈ t.notes, cb.start ≤ nt.start →
    nt.start < cb.start + cb.chunk → nt.start ≤ nt.end_

def PlaybackStep (o o' : Observed) : Prop :=
  ∃ l : Label, l.keepsGraph = true ∧ observe o l = some o'

/-- Each rendered block covers the ends that fall in it, and otherwise the
transport stops or jumps only while no timeline note is held. -/
def CleanPlaybackStep (o o' : Observed) : Prop :=
  ∃ l : Label, l.keepsGraph = true ∧ observe o l = some o' ∧
    (∀ cb, rendering o.engine l = some cb → CoversEnds o cb) ∧
    (rendering o.engine l = none → interrupts o.engine l = true → NoTimelineVoice o)

/-- What a held timeline voice stands for: a note its track still carries, and
whose end is not behind. -/
def Upcoming (o : Observed) (v : Voice) : Prop :=
  ∀ i nt, v.2.source = .timeline i nt →
    v.2.pass = o.pass ∧ playhead o.engine ≤ nt.end_ ∧
      Carries o.engine.graph v.1.1 i nt ∧ v.1.2 = nt.pitch % 128

section Render

variable {o : Observed} {cb : Callback}

/-- A voice the sub-block starts belongs to a note that starts in it and does
not end in it. -/
theorem settles_block (pass : Nat) (live : List MidiEvent) (hcovers : CoversEnds o cb) :
    Settles (fun v : Voice => ∀ i nt, v.2.source = .timeline i nt →
        v.2.pass = pass ∧ cb.after ≤ nt.end_ ∧
          Carries o.engine.graph v.1.1 i nt ∧ v.1.2 = nt.pitch % 128)
      (heardAll pass o.gen ((blockGraph o.engine cb).process cb.chunk cb.start live).2) := by
  apply settles_process
  · intro v hv i nt hsource
    exact absurd hsource (hv i nt)
  · intro i node nt hcarries _ hfull
    obtain ⟨t, ht, _, hnt⟩ := carries_iff.mp hcarries
    have hmem : t ∈ o.engine.graph.tracks := List.mem_of_getElem? ht
    rw [heardAll_notePushes]
    intro before key tag after hsplit
    by_cases hon : nt.start ≥ cb.start ∧ nt.start < cb.start + kRingBlockSize
    · have horder := hcovers.2 t hmem nt hnt hon.1 (by rw [hfull]; exact hon.2)
      rw [if_pos hon] at hsplit
      by_cases hoff : nt.end_ ≥ cb.start ∧ nt.end_ < cb.start + kRingBlockSize
      · right
        rw [if_pos hoff] at hsplit
        match before, hsplit with
        | [], hsplit =>
            simp only [List.cons_append, List.nil_append, List.cons.injEq, Event.on.injEq]
              at hsplit
            obtain ⟨⟨rfl, _⟩, rfl⟩ := hsplit
            exact List.mem_singleton_self _
        | [_], hsplit => simp at hsplit
        | _ :: _ :: _, hsplit => simp at hsplit
      · left
        rw [if_neg hoff, List.append_nil] at hsplit
        match before, hsplit with
        | [], hsplit =>
            simp only [List.nil_append, List.cons.injEq, Event.on.injEq] at hsplit
            obtain ⟨⟨rfl, rfl⟩, _⟩ := hsplit
            intro i' nt' hsource
            obtain ⟨rfl, rfl⟩ := Source.timeline.inj hsource
            refine ⟨rfl, ?_, hcarries, rfl⟩
            have hbound := cb.after_le
            rw [hfull] at hbound
            omega
        | _ :: _, hsplit => simp at hsplit
    · rw [if_neg hon, List.nil_append] at hsplit
      split at hsplit
      · match before, hsplit with
        | [], hsplit => simp at hsplit
        | _ :: _, hsplit => simp at hsplit
      · cases before <;> simp at hsplit

end Render

section Step

variable {o o' : Observed} {l : Label}

/-- A rendered block that covers the ends in it keeps every held timeline
voice upcoming. -/
theorem upcoming_of_block {cb : Callback} (hpitch : ∀ v ∈ o.held, v.1.2 < 128)
    (hheld : ∀ v ∈ o.held, Upcoming o v) (hcovers : CoversEnds o cb)
    (hobserve : observe o l = some o') (hrenders : rendering o.engine l = some cb) :
    ∀ v ∈ o'.held, Upcoming o' v := by
  obtain ⟨live, hinside, hplayhead, hgraph, _, _, hpass', hheld'⟩ :=
    observe_of_rendering hobserve hrenders
  have hscore : o'.engine.graph.score = o.engine.graph.score := by
    rw [hgraph]
    exact process_score (blockGraph o.engine cb) _ _ _
  intro v hv i nt hsource
  rw [hheld'] at hv
  rcases (settles_block o'.pass live hcovers).of_mem_play hv with ⟨hold, hquiet⟩ | hnew
  · rcases hcovers.1 v hold i nt hsource with hflush | ⟨hnotEnd, hemits⟩
    · exact absurd (off_of_flush o'.pass o.gen live cb.chunk_le (hpitch v hold) hflush) hquiet
    · obtain ⟨hpass, hlater, hcarries, hkey⟩ := hheld v hold i nt hsource
      simp only [playhead, hinside] at hlater
      rw [if_neg hnotEnd] at hpass'
      rw [Callback.start_of_not_atEnd hnotEnd] at hemits
      refine ⟨hpass.trans hpass'.symm, ?_, hcarries.of_score hscore, hkey⟩
      by_contra hpassed
      rw [hplayhead] at hpassed
      have hafter := cb.after_le
      rw [Callback.start_of_not_atEnd hnotEnd] at hafter
      have hdue : nt.end_ < cb.position + cb.chunk := by omega
      apply hquiet
      apply off_of_block o'.pass live hcarries hkey (hemits hdue)
      · rw [Callback.start_of_not_atEnd hnotEnd]
        exact hlater
      · rw [Callback.start_of_not_atEnd hnotEnd]
        exact hdue
  · obtain ⟨hpass, hlater, hcarries, hkey⟩ := hnew i nt hsource
    refine ⟨hpass, ?_, hcarries.of_score hscore, hkey⟩
    rw [hplayhead]
    exact hlater

/-- A clean step keeps every held timeline voice upcoming. -/
theorem upcoming_of_step (hwf : o.engine.Wf) (hpitch : ∀ v ∈ o.held, v.1.2 < 128)
    (hheld : ∀ v ∈ o.held, Upcoming o v) (hstep : CleanPlaybackStep o o') :
    ∀ v ∈ o'.held, Upcoming o' v := by
  obtain ⟨l, hkeeps, hobserve, hcovers, htransport⟩ := hstep
  cases hrenders : rendering o.engine l with
  | some cb => exact upcoming_of_block hpitch hheld (hcovers cb hrenders) hobserve hrenders
  | none =>
      obtain ⟨hheld', _, hpass', _⟩ := observe_of_silent hobserve hkeeps hrenders
      obtain ⟨hscore, _⟩ := graph_of_silent hobserve hkeeps hrenders
      intro v hv i nt hsource
      rw [hheld'] at hv
      cases hinterrupts : interrupts o.engine l with
      | true => exact absurd hsource (htransport hrenders hinterrupts v hv i nt)
      | false =>
          have hplayhead := playhead_of_silent hwf hobserve hkeeps hrenders hinterrupts
          obtain ⟨hpass, hlater, hcarries, hkey⟩ := hheld v hv i nt hsource
          rw [hinterrupts] at hpass'
          refine ⟨hpass.trans hpass'.symm, ?_, hcarries.of_score hscore, hkey⟩
          rw [hplayhead]
          exact hlater

end Step

end DawProject.Audio
