import DawProject.Lib.Run
import DawProject.Midi.Schedule
import Mathlib

/-!
A launched session slot, played block after block. The seam between two
iterations is silenced by an all-notes-off only where it falls inside a
block. A seam between two blocks is silent as well unless a note ends exactly
there: its note-off then lies outside both windows.
-/

namespace DawProject.Midi

open Voices Run

/-- A slot whose notes lie inside its loop. -/
structure LoopSlot where
  loopLen : Int
  notes : List ScheduledNote
  loopLen_pos : 0 < loopLen
  notes_inside : ∀ nt ∈ notes, 0 ≤ nt.start ∧ nt.start < nt.end_ ∧ nt.end_ ≤ loopLen

/-- Session time, and the voices the plugin holds with the time of their
note-on. -/
structure SessionState where
  clock : Int
  held : List (Nat × Int)

/-- An event as the plugin hears it, in session time. -/
def Ev.heard (clock : Int) (e : Ev) : Event Nat Int :=
  if e.on then .on e.pitch (clock + e.offset) else .off e.pitch

def playBlock (slot : LoopSlot) (s : SessionState) (frames : Nat) : SessionState where
  clock := s.clock + frames
  held := play s.held
    ((emitSessionLoop slot.notes slot.loopLen s.clock frames).map (Ev.heard s.clock))

/-- A block admitted by the scheduler: at most one seam. -/
def BlockStep (slot : LoopSlot) (s t : SessionState) : Prop :=
  ∃ frames : Nat, 1 ≤ frames ∧ (frames : Int) ≤ slot.loopLen ∧ t = playBlock slot s frames

/-- No note ends on a seam at the end of the block, and the events of the
block fit in the buffer. -/
def CleanBlock (slot : LoopSlot) (clock : Int) (frames : Nat) : Prop :=
  ((clock + frames) % slot.loopLen = 0 → ∀ nt ∈ slot.notes, nt.end_ ≠ slot.loopLen) ∧
    (addedEvents slot.notes slot.loopLen (local0 slot.loopLen clock) frames).length ≤
      kSessionBuffer

def CleanStep (slot : LoopSlot) (s t : SessionState) : Prop :=
  ∃ frames : Nat, 1 ≤ frames ∧ (frames : Int) ≤ slot.loopLen ∧
    CleanBlock slot s.clock frames ∧ t = playBlock slot s frames

/-- After every seam that has been played, no voice of an earlier iteration
is held. -/
def NoHangingNote (slot : LoopSlot) (s : SessionState) : Prop :=
  ∀ voice ∈ s.held, ∀ k : Int, k * slot.loopLen < s.clock → k * slot.loopLen ≤ voice.2

/-- The voice belongs to a note whose end has not been reached, or is due at
the next sample. -/
def Sounding (slot : LoopSlot) (clock : Int) (voice : Nat × Int) : Prop :=
  ∃ nt ∈ slot.notes, ∃ k : Int, voice.1 = nt.pitch ∧ voice.2 = nt.start + k * slot.loopLen ∧
    clock ≤ nt.end_ + k * slot.loopLen ∧
    (nt.end_ = slot.loopLen → clock < nt.end_ + k * slot.loopLen)

section Events

variable {notes : List ScheduledNote} {loopLen first : Int} {frames : Nat}

theorem on_of_mem_loopEvents {blockEnd k : Int} {nt : ScheduledNote} {e : Ev}
    (he : e ∈ loopEvents loopLen first blockEnd nt k) (hon : e.on = true) :
    first ≤ nt.start + k * loopLen ∧ e.pitch = nt.pitch ∧
      (e.offset : Int) = nt.start + k * loopLen - first := by
  simp only [loopEvents, List.mem_append] at he
  rcases he with he | he
  · split at he
    · rename_i hin
      obtain rfl := List.mem_singleton.mp he
      refine ⟨hin.1, rfl, ?_⟩
      simp only
      omega
    · cases he
  · split at he
    · obtain rfl := List.mem_singleton.mp he
      cases hon
    · cases he

/-- Every note-on of a block is the start of a note in the current or in the
next iteration. -/
theorem on_of_mem_addedEvents {e : Ev} (he : e ∈ addedEvents notes loopLen first frames)
    (hon : e.on = true) :
    ∃ nt ∈ notes, ∃ k : Int, (k = 0 ∨ k = 1) ∧ first ≤ nt.start + k * loopLen ∧
      e.pitch = nt.pitch ∧ (e.offset : Int) = nt.start + k * loopLen - first := by
  simp only [addedEvents, List.mem_append, List.mem_flatMap] at he
  rcases he with ⟨nt, hnt, k, hk, he⟩ | he
  · refine ⟨nt, hnt, k, ?_, on_of_mem_loopEvents he hon⟩
    simpa using hk
  · split at he
    · obtain ⟨nt, _, rfl⟩ := List.mem_map.mp he
      cases hon
    · cases he

/-- The end of a note inside the block is announced. -/
theorem off_mem_addedEvents {nt : ScheduledNote} (hnt : nt ∈ notes) {k : Int}
    (hk : k = 0 ∨ k = 1) (hlo : first ≤ nt.end_ + k * loopLen)
    (hhi : nt.end_ + k * loopLen < first + frames) :
    (⟨(nt.end_ + k * loopLen - first).toNat, false, nt.pitch, 0⟩ : Ev) ∈
      addedEvents notes loopLen first frames := by
  simp only [addedEvents, List.mem_append, List.mem_flatMap]
  refine Or.inl ⟨nt, hnt, k, by simpa using hk, ?_⟩
  simp only [loopEvents, List.mem_append]
  rw [if_pos (⟨hlo, hhi⟩ : nt.end_ + k * loopLen ≥ first ∧ _)]
  exact Or.inr (List.mem_singleton_self _)

end Events

section Block

variable {slot : LoopSlot} {clock : Int} {frames : Nat}

/-- Below the buffer size the block hears every event that was added. -/
theorem mem_emitSessionLoop_iff (hclean : CleanBlock slot clock frames) {e : Ev} :
    e ∈ emitSessionLoop slot.notes slot.loopLen clock frames ↔
      e ∈ addedEvents slot.notes slot.loopLen (clock % slot.loopLen) frames := by
  have hlen := slot.loopLen_pos
  rw [emitSessionLoop, if_neg (by omega), mem_sortEvents, List.take_of_length_le hclean.2,
    local0_eq_emod clock hlen]

theorem emitSessionLoop_pairwise (slot : LoopSlot) (clock : Int) (frames : Nat) :
    (emitSessionLoop slot.notes slot.loopLen clock frames).Pairwise
      (fun earlier later => earlier.rank ≤ later.rank) := by
  unfold emitSessionLoop
  split
  · exact List.Pairwise.nil
  · exact sortEvents_pairwise _

/-- The iteration a due note-off belongs to is the current or the next one. -/
theorem iteration_of_due {nt : ScheduledNote} (hnt : nt ∈ slot.notes) {k : Int}
    (hframes : (frames : Int) ≤ slot.loopLen) (hlo : clock ≤ nt.end_ + k * slot.loopLen)
    (hedge : nt.end_ = slot.loopLen → clock < nt.end_ + k * slot.loopLen)
    (hhi : nt.end_ + k * slot.loopLen < clock + frames) :
    k - clock / slot.loopLen = 0 ∨ k - clock / slot.loopLen = 1 := by
  have hlen := slot.loopLen_pos
  obtain ⟨hstart, horder, hend⟩ := slot.notes_inside nt hnt
  have hsplit := Int.emod_add_mul_ediv clock slot.loopLen
  have hlow := Int.emod_nonneg clock (show slot.loopLen ≠ 0 by omega)
  have hhigh := Int.emod_lt_of_pos clock hlen
  have hscale : (k - clock / slot.loopLen) * slot.loopLen =
      k * slot.loopLen - slot.loopLen * (clock / slot.loopLen) := by ring
  rcases lt_or_ge (k - clock / slot.loopLen) 0 with hneg | hnonneg
  · have hback : (k - clock / slot.loopLen) * slot.loopLen ≤ (-1) * slot.loopLen :=
      Int.mul_le_mul_of_nonneg_right (by omega) hlen.le
    omega
  · rcases lt_or_ge (k - clock / slot.loopLen) 2 with hsmall | hlarge
    · omega
    · have hfar : 2 * slot.loopLen ≤ (k - clock / slot.loopLen) * slot.loopLen :=
        Int.mul_le_mul_of_nonneg_right hlarge hlen.le
      omega

/-- A note end inside the block sends the note-off of its pitch. -/
theorem off_heard {nt : ScheduledNote} (hnt : nt ∈ slot.notes) {k : Int}
    (hclean : CleanBlock slot clock frames) (hframes : (frames : Int) ≤ slot.loopLen)
    (hlo : clock ≤ nt.end_ + k * slot.loopLen)
    (hedge : nt.end_ = slot.loopLen → clock < nt.end_ + k * slot.loopLen)
    (hhi : nt.end_ + k * slot.loopLen < clock + frames) :
    (⟨(nt.end_ + k * slot.loopLen - clock).toNat, false, nt.pitch, 0⟩ : Ev) ∈
      emitSessionLoop slot.notes slot.loopLen clock frames := by
  have hiter := iteration_of_due hnt hframes hlo hedge hhi
  have hsplit := Int.emod_add_mul_ediv clock slot.loopLen
  have hscale : (k - clock / slot.loopLen) * slot.loopLen =
      k * slot.loopLen - slot.loopLen * (clock / slot.loopLen) := by ring
  have hfirst : clock % slot.loopLen ≤
      nt.end_ + (k - clock / slot.loopLen) * slot.loopLen := by omega
  have hlast : nt.end_ + (k - clock / slot.loopLen) * slot.loopLen <
      clock % slot.loopLen + frames := by omega
  have hmem := off_mem_addedEvents hnt hiter hfirst hlast
  have hoffset : nt.end_ + (k - clock / slot.loopLen) * slot.loopLen - clock % slot.loopLen =
      nt.end_ + k * slot.loopLen - clock := by omega
  rw [hoffset] at hmem
  exact (mem_emitSessionLoop_iff hclean).mpr hmem

theorem heard_off {e : Ev} (hoff : e.on = false) : e.heard clock = .off e.pitch := by
  simp [Ev.heard, hoff]

/-- A note whose end is not inside the block is still due after it. -/
theorem due_after {nt : ScheduledNote} {k : Int} (hnt : nt ∈ slot.notes)
    (hclean : CleanBlock slot clock frames)
    (hlater : clock + frames ≤ nt.end_ + k * slot.loopLen) :
    nt.end_ = slot.loopLen → clock + frames < nt.end_ + k * slot.loopLen := by
  intro hend
  rcases lt_or_eq_of_le hlater with hlt | heq
  · exact hlt
  · have hseam : (clock + frames) % slot.loopLen = 0 := by
      rw [heq, hend, ← one_add_mul, Int.mul_emod_left]
    exact absurd hend (hclean.1 hseam nt hnt)

/-- One clean block keeps every held voice before the end of its note. -/
theorem playBlock_sounding {s : SessionState} (hframes : (frames : Int) ≤ slot.loopLen)
    (hclean : CleanBlock slot s.clock frames)
    (hheld : ∀ voice ∈ s.held, Sounding slot s.clock voice) :
    ∀ voice ∈ (playBlock slot s frames).held,
      Sounding slot (playBlock slot s frames).clock voice := by
  intro voice hvoice
  simp only [playBlock] at hvoice ⊢
  rcases of_mem_play hvoice with ⟨hold, hquiet⟩ | ⟨before, after, hsplit, hquiet⟩
  · obtain ⟨nt, hnt, k, hpitch, htime, hlo, hedge⟩ := hheld voice hold
    have hlater : s.clock + frames ≤ nt.end_ + k * slot.loopLen := by
      by_contra hdue
      have hoff := off_heard hnt hclean hframes hlo hedge (not_le.mp hdue)
      have hmapped := List.mem_map_of_mem (f := Ev.heard s.clock) hoff
      rw [heard_off rfl, ← hpitch] at hmapped
      exact hquiet hmapped
    exact ⟨nt, hnt, k, hpitch, htime, hlater, due_after hnt hclean hlater⟩
  · obtain ⟨evBefore, evRest, hevs, rfl, hrest⟩ := List.map_eq_append_iff.mp hsplit
    obtain ⟨e, evAfter, rfl, he, rfl⟩ := List.map_eq_cons_iff.mp hrest
    have hon : e.on = true := by
      by_contra hoff
      rw [heard_off (by simpa using hoff)] at he
      cases he
    simp only [Ev.heard, hon, if_true, Event.on.injEq] at he
    obtain ⟨hpitch, htime⟩ := he
    have hmem : e ∈ emitSessionLoop slot.notes slot.loopLen s.clock frames := by
      rw [hevs]
      simp
    obtain ⟨nt, hnt, j, hj, hlow, hntpitch, hoffset⟩ :=
      on_of_mem_addedEvents ((mem_emitSessionLoop_iff hclean).mp hmem) hon
    have hsplitClock := Int.emod_add_mul_ediv s.clock slot.loopLen
    have hscale : (j + s.clock / slot.loopLen) * slot.loopLen =
        j * slot.loopLen + slot.loopLen * (s.clock / slot.loopLen) := by ring
    obtain ⟨_, horder, _⟩ := slot.notes_inside nt hnt
    have hlater : s.clock + frames ≤ nt.end_ + (j + s.clock / slot.loopLen) * slot.loopLen := by
      by_contra hdue
      have hoff := off_heard hnt hclean hframes
        (k := j + s.clock / slot.loopLen) (by omega) (by intro _; omega) (not_le.mp hdue)
      have hpair := emitSessionLoop_pairwise slot s.clock frames
      rw [hevs] at hoff hpair
      rcases List.mem_append.mp hoff with hearly | hlate
      · have hrank := (List.pairwise_append.mp hpair).2.2 _ hearly e (by simp)
        simp only [Ev.rank, hon, Bool.toNat_true, Bool.toNat_false] at hrank
        omega
      · rcases List.mem_cons.mp hlate with heq | htail
        · rw [← heq] at hon
          cases hon
        · have hmapped := List.mem_map_of_mem (f := Ev.heard s.clock) htail
          rw [heard_off rfl] at hmapped
          rw [← hpitch, hntpitch] at hquiet
          exact hquiet hmapped
    refine ⟨nt, hnt, j + s.clock / slot.loopLen, ?_, ?_, hlater, due_after hnt hclean hlater⟩
    · rw [← hpitch, hntpitch]
    · omega

end Block

/-- A voice before the end of its note belongs to the iteration being played. -/
theorem noHangingNote_of_sounding {slot : LoopSlot} {s : SessionState}
    (hheld : ∀ voice ∈ s.held, Sounding slot s.clock voice) : NoHangingNote slot s := by
  intro voice hvoice seam hseam
  obtain ⟨nt, hnt, k, _, htime, hlater, _⟩ := hheld voice hvoice
  obtain ⟨hstart, _, hend⟩ := slot.notes_inside nt hnt
  have hlen := slot.loopLen_pos
  have hbefore : seam * slot.loopLen < (k + 1) * slot.loopLen := by
    rw [add_mul, one_mul]
    omega
  have hle : seam ≤ k := Int.lt_add_one_iff.mp (lt_of_mul_lt_mul_right hbefore hlen.le)
  have hscale : seam * slot.loopLen ≤ k * slot.loopLen :=
    Int.mul_le_mul_of_nonneg_right hle hlen.le
  omega

/-- In a run of clean blocks no note of an earlier iteration hangs, in any
state the run reaches. -/
theorem noHangingNote_of_clean_run (slot : LoopSlot) (clock : Int) {s : SessionState}
    (hrun : Reaches (CleanStep slot) ⟨clock, []⟩ s) : NoHangingNote slot s := by
  apply noHangingNote_of_sounding
  apply Reaches.invariant (P := fun s => ∀ voice ∈ s.held, Sounding slot s.clock voice) hrun
  · intro voice hvoice
    cases hvoice
  · rintro a b ⟨frames, _, hframes, hclean, rfl⟩ hheld
    exact playBlock_sounding hframes hclean hheld

/-- One note over the second half of a loop of two blocks, ending at `end_`. -/
def halfLoop (end_ : Int) (hlo : 256 < end_) (hhi : end_ ≤ 512) : LoopSlot where
  loopLen := 512
  notes := [⟨60, 100, 256, end_⟩]
  loopLen_pos := by norm_num
  notes_inside := by
    intro nt hnt
    obtain rfl := List.mem_singleton.mp hnt
    exact ⟨by norm_num, hlo, hhi⟩

/-- A note that stops one sample before the seam does not hang after it. -/
theorem noHangingNote_before_seam :
    NoHangingNote (halfLoop 511 (by norm_num) (by norm_num))
      (playBlock (halfLoop 511 (by norm_num) (by norm_num)) (playBlock
        (halfLoop 511 (by norm_num) (by norm_num)) ⟨256, []⟩ 256) 256) := by
  apply noHangingNote_of_clean_run (halfLoop 511 (by norm_num) (by norm_num)) 256
  apply Relation.ReflTransGen.tail (Relation.ReflTransGen.single ?_)
  · exact ⟨256, by norm_num, by decide, ⟨by decide, by decide⟩, rfl⟩
  · exact ⟨256, by norm_num, by decide, ⟨by decide, by decide⟩, rfl⟩

/-- A note that ends exactly on a seam between two blocks hangs. -/
theorem not_noHangingNote_seam_on_boundary :
    ¬ ∀ (slot : LoopSlot) (clock : Int) (s : SessionState),
      Reaches (BlockStep slot) ⟨clock, []⟩ s → NoHangingNote slot s := by
  intro hall
  have hfull : ∀ s : SessionState, BlockStep (halfLoop 512 (by norm_num) (by norm_num)) s
      (playBlock (halfLoop 512 (by norm_num) (by norm_num)) s 256) :=
    fun s => ⟨256, by norm_num, by decide, rfl⟩
  have hrun := Relation.ReflTransGen.tail (Relation.ReflTransGen.tail
    (Relation.ReflTransGen.single (hfull ⟨0, []⟩)) (hfull _)) (hfull _)
  have hclaim := hall _ 0 _ hrun (60, 256) (by decide) 1 (by decide)
  revert hclaim
  decide

end DawProject.Midi
