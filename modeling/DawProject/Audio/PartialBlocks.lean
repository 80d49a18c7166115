import DawProject.Audio.Trace

/-!
Note delivery over a stretch of continuous playback. The callback cuts its
buffer at 256 frames, at the brace and at the tail of the buffer; the proxy
node passes a block of any other size through without its notes. Every edge of
the stretch is pushed exactly once, unless one of these shorter blocks covers
it.
-/

namespace DawProject.Audio

open Midi

/-- Sub-blocks that follow each other on the timeline from `a` to `b`. -/
def Consecutive : Int → List BlockRecord → Int → Prop
  | a, [], b => a = b
  | a, r :: rest, b => r.position = a ∧ Consecutive (a + r.frames) rest b

theorem Consecutive.le {a b : Int} {stretch : List BlockRecord}
    (hconsecutive : Consecutive a stretch b) : a ≤ b := by
  induction stretch generalizing a with
  | nil => exact le_of_eq hconsecutive
  | cons r rest ih =>
      have hrest := ih hconsecutive.2
      omega

/-- The edges of an interval are those of its two parts. -/
theorem edgesIn_append_perm (notes : List ScheduledNote) {a b c : Int} (hab : a ≤ b)
    (hbc : b ≤ c) : (edgesIn notes a b ++ edgesIn notes b c).Perm (edgesIn notes a c) := by
  have hsplit := List.filter_append_perm (fun e : Edge => decide (e.at_ < b)) (edgesIn notes a c)
  have hfirst : (edgesIn notes a c).filter (fun e => decide (e.at_ < b)) = edgesIn notes a b := by
    unfold edgesIn
    rw [List.filter_filter]
    congr 1
    funext e
    rw [Bool.eq_iff_iff]
    simp only [Bool.and_eq_true, decide_eq_true_eq]
    omega
  have hlast : (edgesIn notes a c).filter (fun e => !decide (e.at_ < b)) = edgesIn notes b c := by
    unfold edgesIn
    rw [List.filter_filter]
    congr 1
    funext e
    rw [Bool.eq_iff_iff]
    simp only [Bool.and_eq_true, Bool.not_eq_true', decide_eq_false_iff_not, decide_eq_true_eq]
    omega
  rw [hfirst, hlast] at hsplit
  exact hsplit

/-- The sub-blocks of a stretch cover each of its edges exactly once. -/
theorem windows_perm (notes : List ScheduledNote) {a b : Int} {stretch : List BlockRecord}
    (hconsecutive : Consecutive a stretch b) :
    (stretch.flatMap (fun r => r.window notes)).Perm (edgesIn notes a b) := by
  induction stretch generalizing a with
  | nil =>
      obtain rfl : a = b := hconsecutive
      have hempty : edgesIn notes a a = [] := by
        unfold edgesIn
        rw [List.filter_eq_nil_iff]
        intro e _
        simp only [Bool.and_eq_true, decide_eq_true_eq]
        omega
      rw [hempty]
      exact List.Perm.refl _
  | cons r rest ih =>
      obtain ⟨hstart, hrest⟩ := hconsecutive
      have hframes : a ≤ a + r.frames := by omega
      rw [List.flatMap_cons]
      apply ((ih hrest).append_left (r.window notes)).trans
      unfold BlockRecord.window
      rw [hstart]
      exact edgesIn_append_perm notes hframes hrest.le

section Stretch

variable {i : Nat} {notes : List ScheduledNote} {stretch : List BlockRecord}

/-- No shorter block of the stretch covers an edge. -/
def FullBlocks (notes : List ScheduledNote) (stretch : List BlockRecord) : Prop :=
  ∀ r ∈ stretch, r.frames ≠ kRingBlockSize → r.window notes = []

instance (notes : List ScheduledNote) (stretch : List BlockRecord) :
    Decidable (FullBlocks notes stretch) := inferInstanceAs (Decidable (∀ r ∈ stretch, _))

theorem edges_flatMap_of_full
    (hedges : ∀ r ∈ stretch, r.edges i = if r.frames = kRingBlockSize then r.window notes else [])
    (hfull : FullBlocks notes stretch) :
    stretch.flatMap (fun r => r.edges i) = stretch.flatMap (fun r => r.window notes) := by
  apply List.flatMap_congr
  intro r hr
  rw [hedges r hr]
  split
  · rfl
  · rename_i hshort
    exact (hfull r hr hshort).symm

/-- What a stretch pushes is at most what it covers, and less as soon as a
shorter block covers an edge. -/
theorem full_of_edges_length
    (hedges : ∀ r ∈ stretch, r.edges i = if r.frames = kRingBlockSize then r.window notes else []) :
    (stretch.flatMap (fun r => r.edges i)).length ≤
        (stretch.flatMap (fun r => r.window notes)).length ∧
      ((stretch.flatMap (fun r => r.edges i)).length =
        (stretch.flatMap (fun r => r.window notes)).length → FullBlocks notes stretch) := by
  induction stretch with
  | nil =>
      refine ⟨le_refl _, ?_⟩
      intro _ r hr
      cases hr
  | cons r rest ih =>
      have hrest := ih (fun r' hr' => hedges r' (List.mem_cons_of_mem _ hr'))
      have hhere := hedges r List.mem_cons_self
      have hle : (r.edges i).length ≤ (r.window notes).length := by
        rw [hhere]
        split <;> simp
      simp only [List.flatMap_cons, List.length_append]
      refine ⟨Nat.add_le_add hle hrest.1, ?_⟩
      intro hsame r' hr' hshort
      rcases List.mem_cons.mp hr' with rfl | hmem
      · have hnone : (r'.edges i).length = 0 := by
          rw [hhere, if_neg hshort]
          rfl
        have hzero : (r'.window notes).length = 0 := by
          have hbound := hrest.1
          omega
        exact List.length_eq_zero_iff.mp hzero
      · have hbound := hrest.1
        exact hrest.2 (by omega) r' hmem hshort

end Stretch

/-- Over any stretch `[a, b)` of continuous playback of a run, with a hosted
audible instrument and no slot on its track, every edge of its notes is pushed
exactly once if and only if no block shorter than the ring covers an edge. -/
theorem pushed_exactly_once_iff {s last : EngineState} {labels : List Label}
    {before stretch after : List BlockRecord} {i : Nat} {notes : List ScheduledNote} {a b : Int}
    (hrun : runTrace s labels = some (last, before ++ stretch ++ after))
    (hstretch : Consecutive a stretch b) (hhosts : ∀ r ∈ stretch, r.Hosts i notes) :
    (stretch.flatMap (fun r => r.edges i)).Perm (edgesIn notes a b) ↔
      FullBlocks notes stretch := by
  have hedges : ∀ r ∈ stretch,
      r.edges i = if r.frames = kRingBlockSize then r.window notes else [] := by
    intro r hr
    apply BlockRecord.edges_of_hosts _ (hhosts r hr)
    exact rendered_of_runTrace hrun r (by simp [hr])
  have hcover := windows_perm notes hstretch
  constructor
  · intro hperm
    apply (full_of_edges_length hedges).2
    exact hperm.length_eq.trans hcover.length_eq.symm
  · intro hfull
    rw [edges_flatMap_of_full hedges hfull]
    exact hcover

/-- One buffer of the driver, started by a play command and cut in two. -/
def oneBuffer (frame_count : Nat) : List Label :=
  [.enter frame_count [.play], .block [], .block []]

def playOnce (nt : ScheduledNote) (frame_count : Nat) : EngineState × List BlockRecord :=
  (runTrace (oneNote nt) (oneBuffer frame_count)).getD (oneNote nt, [])

/-- Two full blocks push both edges of the note. -/
theorem pushed_exactly_once_full :
    ((playOnce ⟨60, 100, 300, 400⟩ 512).2.flatMap (fun r => r.edges 0)).Perm
      (edgesIn [⟨60, 100, 300, 400⟩] 0 512) := by
  have hrun : runTrace (oneNote ⟨60, 100, 300, 400⟩) (oneBuffer 512) =
      some ((playOnce ⟨60, 100, 300, 400⟩ 512).1,
        [] ++ (playOnce ⟨60, 100, 300, 400⟩ 512).2 ++ []) := rfl
  have hstretch : Consecutive 0 (playOnce ⟨60, 100, 300, 400⟩ 512).2 512 := by
    refine ⟨rfl, rfl, rfl⟩
  apply (pushed_exactly_once_iff hrun hstretch (by decide)).mpr
  decide

/-- A buffer of 480 frames ends on a short block, and the note that lies in it
is lost. -/
theorem not_pushed_exactly_once_partial :
    ¬ ∀ (s last : EngineState) (labels : List Label) (before stretch after : List BlockRecord)
      (i : Nat) (notes : List ScheduledNote) (a b : Int),
      runTrace s labels = some (last, before ++ stretch ++ after) →
      Consecutive a stretch b → (∀ r ∈ stretch, r.Hosts i notes) →
      (stretch.flatMap (fun r => r.edges i)).Perm (edgesIn notes a b) := by
  intro hall
  have hrun : runTrace (oneNote ⟨60, 100, 300, 400⟩) (oneBuffer 480) =
      some ((playOnce ⟨60, 100, 300, 400⟩ 480).1,
        [] ++ (playOnce ⟨60, 100, 300, 400⟩ 480).2 ++ []) := rfl
  have hstretch : Consecutive 0 (playOnce ⟨60, 100, 300, 400⟩ 480).2 480 := by
    refine ⟨rfl, rfl, rfl⟩
  have hperm := hall _ _ _ [] _ [] 0 [⟨60, 100, 300, 400⟩] 0 480 hrun hstretch (by decide)
  have hlength := hperm.length_eq
  revert hlength
  decide

end DawProject.Audio
