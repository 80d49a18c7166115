import DawProject.Lib.Voices
import Mathlib.Tactic.Linarith
import Mathlib.Tactic.Ring

/-!
Note scheduling by block, `engine/src/host/midi_schedule.h`. Both schedulers
keep no state between blocks: each block emits the note-ons and the note-offs
that fall in its own window.
-/

namespace DawProject.Midi

structure ScheduledNote where
  pitch : Nat
  velocity : Nat
  start : Int
  end_ : Int
deriving DecidableEq, Repr

/-- One call of `emit`. -/
structure Ev where
  offset : Nat
  on : Bool
  pitch : Nat
  vel : Nat
deriving DecidableEq, Repr

/-- The timeline scheduler: the note-ons and note-offs of the block
`[pos, pos + frames)`, in the order of the notes. -/
def emitBlockNotes (notes : List ScheduledNote) (pos : Int) (frames : Nat) : List Ev :=
  let blockEnd := pos + frames
  notes.flatMap fun nt =>
    (if nt.start ≥ pos ∧ nt.start < blockEnd then
      [⟨(nt.start - pos).toNat, true, nt.pitch, nt.velocity⟩] else []) ++
    (if nt.end_ ≥ pos ∧ nt.end_ < blockEnd then
      [⟨(nt.end_ - pos).toNat, false, nt.pitch, 0⟩] else [])

theorem mem_emitBlockNotes {notes : List ScheduledNote} {pos : Int} {frames : Nat} {e : Ev} :
    e ∈ emitBlockNotes notes pos frames ↔
      ∃ nt ∈ notes,
        (nt.start ≥ pos ∧ nt.start < pos + frames ∧
          e = ⟨(nt.start - pos).toNat, true, nt.pitch, nt.velocity⟩) ∨
        (nt.end_ ≥ pos ∧ nt.end_ < pos + frames ∧
          e = ⟨(nt.end_ - pos).toNat, false, nt.pitch, 0⟩) := by
  simp only [emitBlockNotes, List.mem_flatMap, List.mem_append]
  constructor
  · rintro ⟨nt, hnt, hon | hoff⟩
    · split at hon
      · rename_i hin
        exact ⟨nt, hnt, Or.inl ⟨hin.1, hin.2, List.mem_singleton.mp hon⟩⟩
      · cases hon
    · split at hoff
      · rename_i hin
        exact ⟨nt, hnt, Or.inr ⟨hin.1, hin.2, List.mem_singleton.mp hoff⟩⟩
      · cases hoff
  · rintro ⟨nt, hnt, ⟨hlo, hhi, rfl⟩ | ⟨hlo, hhi, rfl⟩⟩
    · exact ⟨nt, hnt, Or.inl (by rw [if_pos ⟨hlo, hhi⟩]; exact List.mem_singleton_self _)⟩
    · exact ⟨nt, hnt, Or.inr (by rw [if_pos ⟨hlo, hhi⟩]; exact List.mem_singleton_self _)⟩

section Session

/-- Size of the event buffer on the stack of `emitSessionLoop`. -/
def kSessionBuffer : Nat := 256

/-- The events of one note in one iteration that fall in the local window. -/
def loopEvents (loopLen local0 blockEndLocal : Int) (nt : ScheduledNote) (k : Int) : List Ev :=
  let onLocal := nt.start + k * loopLen
  let offLocal := nt.end_ + k * loopLen
  (if onLocal ≥ local0 ∧ onLocal < blockEndLocal then
    [⟨(onLocal - local0).toNat, true, nt.pitch, nt.velocity⟩] else []) ++
  (if offLocal ≥ local0 ∧ offLocal < blockEndLocal then
    [⟨(offLocal - local0).toNat, false, nt.pitch, 0⟩] else [])

/-- The calls of `add`, in order: the events of the current and of the next
iteration, then the all-notes-off of a seam inside the block. -/
def addedEvents (notes : List ScheduledNote) (loopLen local0 : Int) (frames : Nat) : List Ev :=
  let blockEndLocal := local0 + frames
  let wraps := blockEndLocal > loopLen
  let wrapOff := if wraps then (loopLen - local0).toNat else frames
  notes.flatMap (fun nt => [0, 1].flatMap (loopEvents loopLen local0 blockEndLocal nt)) ++
    (if wraps then notes.map (fun nt => ⟨wrapOff, false, nt.pitch, 0⟩) else [])

/-- `x` must come after `e`: later offset, or a note-on against a note-off. -/
def Ev.after (x e : Ev) : Bool :=
  x.offset > e.offset || (x.offset == e.offset && x.on && !e.on)

/-- One step of the insertion sort. The sorted part is held from its last
element, the end the loop scans from. -/
def insertEv (e : Ev) : List Ev → List Ev
  | [] => [e]
  | x :: sorted => if x.after e then x :: insertEv e sorted else e :: x :: sorted

def sortEvents (buf : List Ev) : List Ev :=
  (buf.foldl (fun sorted e => insertEv e sorted) []).reverse

def local0 (loopLen base : Int) : Int := (base.tmod loopLen + loopLen).tmod loopLen

/-- The session scheduler: the block `[base, base + frames)` of a slot played
in a loop. Events beyond the buffer are dropped. -/
def emitSessionLoop (notes : List ScheduledNote) (loopLen base : Int) (frames : Nat) :
    List Ev :=
  if loopLen ≤ 0 then []
  else
    sortEvents ((addedEvents notes loopLen (local0 loopLen base) frames).take kSessionBuffer)

theorem local0_eq_emod {loopLen : Int} (base : Int) (hlen : 0 < loopLen) :
    local0 loopLen base = base % loopLen := by
  have hlow := Int.lt_tmod_of_pos base hlen
  have hhigh := Int.tmod_lt_of_pos base hlen
  have hsum : (base.tmod loopLen + loopLen) % loopLen = base % loopLen := by
    have hsplit : base.tmod loopLen + loopLen = base + loopLen * (1 - base.tdiv loopLen) := by
      rw [Int.tmod_def]
      ring
    rw [hsplit, Int.add_mul_emod_self_left]
  unfold local0
  rw [Int.tmod_eq_emod_of_nonneg (by omega), hsum]

section Order

/-- The sort order as one number: offset first, note-off before note-on. -/
def Ev.rank (e : Ev) : Nat := 2 * e.offset + e.on.toNat

theorem Ev.after_iff {x e : Ev} : x.after e = true ↔ e.rank < x.rank := by
  obtain ⟨xo, xon, xp, xv⟩ := x
  obtain ⟨eo, eon, ep, ev⟩ := e
  cases xon <;> cases eon <;> simp [Ev.after, Ev.rank] <;> omega

theorem mem_insertEv {e x : Ev} {sorted : List Ev} :
    x ∈ insertEv e sorted ↔ x = e ∨ x ∈ sorted := by
  induction sorted with
  | nil => simp [insertEv]
  | cons y sorted ih =>
      simp only [insertEv]
      split
      · rw [List.mem_cons, ih, List.mem_cons]
        tauto
      · rw [List.mem_cons]

theorem mem_sortEvents {x : Ev} {buf : List Ev} : x ∈ sortEvents buf ↔ x ∈ buf := by
  have hfold : ∀ sorted : List Ev,
      x ∈ buf.foldl (fun sorted e => insertEv e sorted) sorted ↔ x ∈ sorted ∨ x ∈ buf := by
    induction buf with
    | nil => simp
    | cons e buf ih =>
        intro sorted
        rw [List.foldl_cons, ih, mem_insertEv, List.mem_cons]
        tauto
  rw [sortEvents, List.mem_reverse, hfold]
  simp

theorem insertEv_pairwise {e : Ev} {sorted : List Ev}
    (hsorted : sorted.Pairwise (fun later earlier => earlier.rank ≤ later.rank)) :
    (insertEv e sorted).Pairwise (fun later earlier => earlier.rank ≤ later.rank) := by
  induction sorted with
  | nil => exact List.pairwise_singleton _ _
  | cons y sorted ih =>
      rw [List.pairwise_cons] at hsorted
      simp only [insertEv]
      split
      · rename_i hafter
        rw [Ev.after_iff] at hafter
        rw [List.pairwise_cons]
        refine ⟨?_, ih hsorted.2⟩
        intro z hz
        rcases mem_insertEv.mp hz with rfl | hz
        · exact le_of_lt hafter
        · exact hsorted.1 z hz
      · rename_i hbefore
        have hle : y.rank ≤ e.rank := not_lt.mp (fun hlt => hbefore (Ev.after_iff.mpr hlt))
        rw [List.pairwise_cons, List.pairwise_cons]
        refine ⟨?_, hsorted.1, hsorted.2⟩
        intro z hz
        rcases List.mem_cons.mp hz with rfl | hz
        · exact hle
        · exact (hsorted.1 z hz).trans hle

/-- The plugin receives the events by offset, note-offs first. -/
theorem sortEvents_pairwise (buf : List Ev) :
    (sortEvents buf).Pairwise (fun earlier later => earlier.rank ≤ later.rank) := by
  have hfold : ∀ sorted : List Ev,
      sorted.Pairwise (fun later earlier => earlier.rank ≤ later.rank) →
      (buf.foldl (fun sorted e => insertEv e sorted) sorted).Pairwise
        (fun later earlier => earlier.rank ≤ later.rank) := by
    induction buf with
    | nil => exact fun sorted hsorted => hsorted
    | cons e buf ih => exact fun sorted hsorted => ih _ (insertEv_pairwise hsorted)
  exact List.pairwise_reverse.mpr (hfold [] List.Pairwise.nil)

end Order

end Session

end DawProject.Midi
