import DawProject.Lib.Cut
import DawProject.Midi.SessionLoop

/-!
The events of both schedulers over a stretch of time cut into blocks, counted
by their times. However the time is cut, each note-on of a slot comes once in
each iteration, and each note of the timeline once. The session scheduler sorts
the events of a block; the timeline scheduler leaves them in the order of the
notes.
-/

namespace DawProject.Midi

open Cut

/-- The events of a block at `pos`, with their times. -/
def timed (pos : Int) (evs : List Ev) : List (Int × Ev) := evs.map fun e => (pos + e.offset, e)

def isOn (at_ : Int) (pitch vel : Nat) (x : Int × Ev) : Bool :=
  decide (x.1 = at_ ∧ x.2.on = true ∧ x.2.pitch = pitch ∧ x.2.vel = vel)

def isOff (at_ : Int) (pitch : Nat) (x : Int × Ev) : Bool :=
  decide (x.1 = at_ ∧ x.2.on = false ∧ x.2.pitch = pitch)

/-- By offset, and at one offset the note-offs before the note-ons. -/
def Ev.Before (e e' : Ev) : Prop :=
  e.offset < e'.offset ∨ (e.offset = e'.offset ∧ (e.on = true → e'.on = true))

instance (e e' : Ev) : Decidable (e.Before e') := inferInstanceAs (Decidable (_ ∨ _))

def Ordered (evs : List Ev) : Prop := evs.Pairwise Ev.Before

instance (evs : List Ev) : Decidable (Ordered evs) := inferInstanceAs (Decidable (evs.Pairwise _))

theorem Ev.before_iff {e e' : Ev} : e.Before e' ↔ e.rank ≤ e'.rank := by
  obtain ⟨offset, on, pitch, vel⟩ := e
  obtain ⟨offset', on', pitch', vel'⟩ := e'
  cases on <;> cases on' <;> simp [Ev.Before, Ev.rank] <;> omega

/-- The events of a note from `start` to `stop`, in a block from `first` on. -/
def edgeEvents (first : Int) (frames : Nat) (nt : ScheduledNote) (start stop : Int) : List Ev :=
  (if start ≥ first ∧ start < first + frames then
    [⟨(start - first).toNat, true, nt.pitch, nt.velocity⟩] else []) ++
  (if stop ≥ first ∧ stop < first + frames then
    [⟨(stop - first).toNat, false, nt.pitch, 0⟩] else [])

theorem emitBlockNotes_eq (notes : List ScheduledNote) (pos : Int) (frames : Nat) :
    emitBlockNotes notes pos frames =
      notes.flatMap fun nt => edgeEvents pos frames nt nt.start nt.end_ :=
  rfl

section Edge

variable {x first pos at_ : Int} {frames pitch vel : Nat}

/-- An edge of a note is an event of the block that holds it, and of no other. -/
theorem countP_edge (pos at_ : Int) (mk : Nat → Ev) (good : Prop) [Decidable good] {p : Ev → Bool}
    (hp : ∀ offset : Nat, p (mk offset) = decide (pos + offset = at_ ∧ good)) :
    (if x ≥ first ∧ x < first + frames then [mk (x - first).toNat] else []).countP p =
      if (pos ≤ at_ ∧ at_ < pos + frames) ∧ at_ - pos + first = x ∧ good then 1 else 0 := by
  split
  · rename_i hin
    simp only [List.countP_singleton, hp, decide_eq_true_eq]
    by_cases hgood : good
    · by_cases hat : at_ - pos + first = x
      · rw [if_pos ⟨by omega, hgood⟩, if_pos ⟨by omega, hat, hgood⟩]
      · rw [if_neg (fun h => hat (by omega)), if_neg (fun h => hat h.2.1)]
    · rw [if_neg (fun h => hgood h.2), if_neg (fun h => hgood h.2.2)]
  · rename_i hout
    rw [if_neg (fun h => hout (by omega))]
    rfl

/-- A start and an end of a note among the note-ons. -/
theorem countP_isOn_edges (nt : ScheduledNote) (start stop : Int) :
    (edgeEvents first frames nt start stop).countP (fun e => isOn at_ pitch vel (pos + e.offset, e)) =
      if (pos ≤ at_ ∧ at_ < pos + frames) ∧ at_ - pos + first = start ∧
        nt.pitch = pitch ∧ nt.velocity = vel then 1 else 0 := by
  rw [edgeEvents, List.countP_append,
    countP_edge pos at_ (fun offset => ⟨offset, true, nt.pitch, nt.velocity⟩)
      (nt.pitch = pitch ∧ nt.velocity = vel) (fun offset => by simp [isOn]),
    countP_edge pos at_ (fun offset => ⟨offset, false, nt.pitch, 0⟩) False (fun offset => by simp [isOn])]
  simp

theorem countP_isOff_edges (nt : ScheduledNote) (start stop : Int) :
    (edgeEvents first frames nt start stop).countP (fun e => isOff at_ pitch (pos + e.offset, e)) =
      if (pos ≤ at_ ∧ at_ < pos + frames) ∧ at_ - pos + first = stop ∧
        nt.pitch = pitch then 1 else 0 := by
  rw [edgeEvents, List.countP_append,
    countP_edge pos at_ (fun offset => ⟨offset, true, nt.pitch, nt.velocity⟩) False
      (fun offset => by simp [isOff]),
    countP_edge pos at_ (fun offset => ⟨offset, false, nt.pitch, 0⟩) (nt.pitch = pitch)
      (fun offset => by simp [isOff])]
  simp

end Edge

section Session

variable {loopLen : Int}

theorem insertEv_perm (e : Ev) (sorted : List Ev) : (insertEv e sorted).Perm (e :: sorted) := by
  induction sorted with
  | nil => exact List.Perm.refl _
  | cons x sorted ih =>
      rw [insertEv]
      split
      · exact (ih.cons x).trans (List.Perm.swap e x sorted)
      · exact List.Perm.refl _

/-- Sorting neither loses nor adds an event. -/
theorem sortEvents_perm (buf : List Ev) : (sortEvents buf).Perm buf := by
  have hfold : ∀ sorted : List Ev,
      (buf.foldl (fun sorted e => insertEv e sorted) sorted).Perm (sorted ++ buf) := by
    induction buf with
    | nil =>
        intro sorted
        rw [List.append_nil]
        exact List.Perm.refl _
    | cons e buf ih =>
        intro sorted
        rw [List.foldl_cons]
        exact (ih _).trans (((insertEv_perm e sorted).append_right buf).trans
          List.perm_middle.symm)
  exact (List.reverse_perm _).trans (hfold [])

/-- A local position of the current or the next iteration is an edge of a note
in one of the two when it is one modulo the loop. -/
theorem dvd_sub_iff {x a : Int} (hlen : 0 < loopLen) (ha : 0 ≤ a) (hle : a ≤ loopLen)
    (hx : 0 ≤ x) (hlt : x < 2 * loopLen) (hseam : a = loopLen → ¬loopLen ∣ x) :
    loopLen ∣ x - a ↔ x = a + 0 * loopLen ∨ x = a + 1 * loopLen := by
  constructor
  · rintro ⟨j, hj⟩
    have hlow : -1 * loopLen ≤ j * loopLen := by
      rw [mul_comm j]
      omega
    have hhigh : j * loopLen < 2 * loopLen := by
      rw [mul_comm j]
      omega
    have hj₁ : -1 ≤ j := le_of_mul_le_mul_right hlow hlen
    have hj₂ : j < 2 := lt_of_mul_lt_mul_right hhigh hlen.le
    obtain rfl | rfl | rfl : j = -1 ∨ j = 0 ∨ j = 1 := by omega
    · exact absurd ⟨0, by omega⟩ (hseam (by omega))
    · left
      omega
    · right
      omega
  · rintro (heq | heq)
    · exact ⟨0, by omega⟩
    · exact ⟨1, by omega⟩

variable {notes : List ScheduledNote} {first pos at_ : Int} {frames pitch vel : Nat}

/-- The two iterations give at most one of their edges. -/
theorem countP_iterations {x a : Int} {p : Ev → Bool} {events : Int → List Ev}
    {block good : Prop} [Decidable block] [Decidable good] (hlen : 0 < loopLen)
    (hevents : ∀ k, (events k).countP p = if block ∧ x = a + k * loopLen ∧ good then 1 else 0)
    (hdvd : block → (loopLen ∣ x - a ↔ x = a + 0 * loopLen ∨ x = a + 1 * loopLen)) :
    ([0, 1].flatMap events).countP p = if block ∧ good ∧ loopLen ∣ x - a then 1 else 0 := by
  rw [List.flatMap_cons, List.flatMap_cons, List.flatMap_nil, List.append_nil,
    List.countP_append, hevents, hevents]
  by_cases hblock : block
  · by_cases hgood : good
    · simp only [hblock, hgood, and_true, true_and, hdvd hblock]
      by_cases hzero : x = a + 0 * loopLen
      · rw [if_pos hzero, if_neg (by omega), if_pos (Or.inl hzero)]
      · rw [if_neg hzero, Nat.zero_add]
        simp only [hzero, false_or]
    · simp [hgood]
  · simp [hblock]

theorem countP_on_loop {nt : ScheduledNote} (hfirst : 0 ≤ first) (hlt : first < loopLen)
    (hframes : (frames : Int) ≤ loopLen) (hnt : 0 ≤ nt.start ∧ nt.start < loopLen) :
    ([0, 1].flatMap (loopEvents loopLen first (first + frames) nt)).countP
        (fun e => isOn at_ pitch vel (pos + e.offset, e)) =
      if (pos ≤ at_ ∧ at_ < pos + frames) ∧ (nt.pitch = pitch ∧ nt.velocity = vel) ∧
        loopLen ∣ at_ - pos + first - nt.start then 1 else 0 := by
  apply countP_iterations (by omega)
  · exact fun k => countP_isOn_edges nt _ _
  · intro hblock
    exact dvd_sub_iff (by omega) hnt.1 hnt.2.le (by omega) (by omega) (by omega)

theorem countP_off_loop {nt : ScheduledNote} (hfirst : 0 ≤ first) (hlt : first < loopLen)
    (hframes : (frames : Int) ≤ loopLen) (hnt : 0 ≤ nt.end_ ∧ nt.end_ ≤ loopLen)
    (hseam : ¬loopLen ∣ at_ - pos + first) :
    ([0, 1].flatMap (loopEvents loopLen first (first + frames) nt)).countP
        (fun e => isOff at_ pitch (pos + e.offset, e)) =
      if (pos ≤ at_ ∧ at_ < pos + frames) ∧ nt.pitch = pitch ∧
        loopLen ∣ at_ - pos + first - nt.end_ then 1 else 0 := by
  apply countP_iterations (by omega)
  · exact fun k => countP_isOff_edges nt _ _
  · intro hblock
    exact dvd_sub_iff (by omega) hnt.1 hnt.2 (by omega) (by omega) fun _ => hseam

variable {base : Int}

theorem countP_timed {p : Int × Ev → Bool} {pos : Int} {evs : List Ev} :
    (timed pos evs).countP p = evs.countP fun e => p (pos + e.offset, e) := by
  rw [timed, List.countP_map]
  rfl

/-- The seam inside a block, the only time of an all-notes-off. -/
theorem countP_seam (slot : LoopSlot) {p : Ev → Bool} {frames : Nat}
    (hp : ∀ pitch, p ⟨(slot.loopLen - first).toNat, false, pitch, 0⟩ = false) :
    (if first + frames > slot.loopLen then
      slot.notes.map (fun nt =>
        (⟨if first + frames > slot.loopLen then (slot.loopLen - first).toNat else frames,
          false, nt.pitch, 0⟩ : Ev)) else []).countP p = 0 := by
  split
  · rw [List.countP_map, List.countP_eq_zero]
    intro nt _
    simp [hp]
  · rfl

theorem countP_emitSessionLoop (slot : LoopSlot) {p : Ev → Bool} {clock : Int} {frames : Nat}
    (hfit : (addedEvents slot.notes slot.loopLen (clock % slot.loopLen) frames).length ≤
      kSessionBuffer) :
    (emitSessionLoop slot.notes slot.loopLen clock frames).countP p =
      (addedEvents slot.notes slot.loopLen (clock % slot.loopLen) frames).countP p := by
  have hlen := slot.loopLen_pos
  rw [emitSessionLoop, if_neg (by omega), local0_eq_emod clock hlen,
    List.take_of_length_le hfit, (sortEvents_perm _).countP_eq]

/-- The blocks of a slot launched at `base`. -/
def sessionBlock (slot : LoopSlot) (base clock : Int) (frames : Nat) : List (Int × Ev) :=
  timed clock (emitSessionLoop slot.notes slot.loopLen (clock - base) frames)

/-- A block of at most one iteration whose events fit in the buffer. -/
def FitsBuffer (slot : LoopSlot) (base clock : Int) (frames : Nat) : Prop :=
  (addedEvents slot.notes slot.loopLen (local0 slot.loopLen (clock - base)) frames).length ≤
    kSessionBuffer

instance (slot : LoopSlot) (base clock : Int) (frames : Nat) :
    Decidable (FitsBuffer slot base clock frames) := inferInstanceAs (Decidable (_ ≤ _))

/-- The distance to a time in the loop, from the block's own local position. -/
theorem dvd_local_iff {clock a : Int} :
    loopLen ∣ at_ - clock + (clock - base) % loopLen - a ↔ loopLen ∣ at_ - base - a := by
  have hsplit := Int.emod_add_mul_ediv (clock - base) loopLen
  have heq : at_ - base - a =
      (at_ - clock + (clock - base) % loopLen - a) + loopLen * ((clock - base) / loopLen) := by
    linarith
  rw [heq]
  exact (Int.dvd_add_left ⟨_, rfl⟩).symm

theorem local0_bounds (slot : LoopSlot) (clock : Int) :
    0 ≤ clock % slot.loopLen ∧ clock % slot.loopLen < slot.loopLen :=
  ⟨Int.emod_nonneg clock (ne_of_gt slot.loopLen_pos), Int.emod_lt_of_pos clock slot.loopLen_pos⟩

/-- The note-ons of a block at a time inside it, and at no other. -/
theorem countP_isOn_sessionBlock (slot : LoopSlot) {clock : Int}
    (hframes : (frames : Int) ≤ slot.loopLen) (hfit : FitsBuffer slot base clock frames) :
    (sessionBlock slot base clock frames).countP (isOn at_ pitch vel) =
      if clock ≤ at_ ∧ at_ < clock + frames then
        slot.notes.countP (fun nt => decide (nt.pitch = pitch ∧ nt.velocity = vel ∧
          slot.loopLen ∣ at_ - base - nt.start)) else 0 := by
  obtain ⟨hlow, hhigh⟩ := local0_bounds slot (clock - base)
  rw [FitsBuffer, local0_eq_emod _ slot.loopLen_pos] at hfit
  rw [sessionBlock, countP_timed, countP_emitSessionLoop slot hfit, addedEvents,
    List.countP_append, countP_seam slot (fun _ => by simp [isOn]), Nat.add_zero]
  have hone : ∀ nt ∈ slot.notes,
      ([0, 1].flatMap (loopEvents slot.loopLen ((clock - base) % slot.loopLen)
        ((clock - base) % slot.loopLen + frames) nt)).countP
          (fun e => isOn at_ pitch vel (clock + e.offset, e)) =
        if decide ((clock ≤ at_ ∧ at_ < clock + frames) ∧ nt.pitch = pitch ∧
          nt.velocity = vel ∧ slot.loopLen ∣ at_ - base - nt.start) then 1 else 0 := by
    intro nt hnt
    obtain ⟨hstart, horder, hend⟩ := slot.notes_inside nt hnt
    rw [countP_on_loop hlow hhigh hframes ⟨hstart, by omega⟩]
    simp only [dvd_local_iff, decide_eq_true_eq, and_assoc]
  rw [countP_flatMap_indicator hone]
  split
  · rename_i hin
    simp only [hin, and_self, true_and]
  · rename_i hout
    simp [hout]

/-- Away from the seams, the note-offs of a block are those of the note ends. -/
theorem countP_isOff_sessionBlock (slot : LoopSlot) {clock : Int}
    (hframes : (frames : Int) ≤ slot.loopLen) (hfit : FitsBuffer slot base clock frames)
    (hseam : ¬slot.loopLen ∣ at_ - base) :
    (sessionBlock slot base clock frames).countP (isOff at_ pitch) =
      if clock ≤ at_ ∧ at_ < clock + frames then
        slot.notes.countP (fun nt => decide (nt.pitch = pitch ∧
          slot.loopLen ∣ at_ - base - nt.end_)) else 0 := by
  obtain ⟨hlow, hhigh⟩ := local0_bounds slot (clock - base)
  rw [FitsBuffer, local0_eq_emod _ slot.loopLen_pos] at hfit
  have hlocal : ¬slot.loopLen ∣ at_ - clock + (clock - base) % slot.loopLen := by
    intro hdvd
    have h := dvd_local_iff (a := 0) |>.mp (by simpa using hdvd)
    exact hseam (by simpa using h)
  rw [sessionBlock, countP_timed, countP_emitSessionLoop slot hfit, addedEvents,
    List.countP_append, countP_seam slot, Nat.add_zero]
  · have hone : ∀ nt ∈ slot.notes,
        ([0, 1].flatMap (loopEvents slot.loopLen ((clock - base) % slot.loopLen)
          ((clock - base) % slot.loopLen + frames) nt)).countP
            (fun e => isOff at_ pitch (clock + e.offset, e)) =
          if decide ((clock ≤ at_ ∧ at_ < clock + frames) ∧ nt.pitch = pitch ∧
            slot.loopLen ∣ at_ - base - nt.end_) then 1 else 0 := by
      intro nt hnt
      obtain ⟨hstart, horder, hend⟩ := slot.notes_inside nt hnt
      rw [countP_off_loop hlow hhigh hframes ⟨by omega, hend⟩ hlocal]
      simp only [dvd_local_iff, decide_eq_true_eq]
    rw [countP_flatMap_indicator hone]
    split
    · rename_i hin
      simp only [hin, and_self, true_and]
    · rename_i hout
      simp [hout]
  · intro p
    have hne : at_ ≠ clock + (slot.loopLen - (clock - base) % slot.loopLen).toNat := by
      intro heq
      have hwhole : at_ - clock + (clock - base) % slot.loopLen = slot.loopLen := by omega
      rw [hwhole] at hlocal
      exact hlocal ⟨1, (mul_one _).symm⟩
    simp only [isOff, decide_eq_false_iff_not]
    exact fun h => hne h.1.symm

theorem emitSessionLoop_ordered (slot : LoopSlot) (clock : Int) (frames : Nat) :
    Ordered (emitSessionLoop slot.notes slot.loopLen clock frames) :=
  (emitSessionLoop_pairwise slot clock frames).imp Ev.before_iff.mpr

/-- A launched slot over a stretch of session time cut into blocks: each note
starts once in each iteration and, when it ends before the seam, ends once in
each; within a block the events come by offset, note-offs first. -/
theorem emitSessionLoop_exact (slot : LoopSlot) (base start : Int) (blocks : List Nat)
    (hframes : ∀ frames ∈ blocks, 1 ≤ frames ∧ (frames : Int) ≤ slot.loopLen)
    (hfit : Every (FitsBuffer slot base) start blocks) :
    (∀ (at_ : Int) (pitch vel : Nat),
      (items (sessionBlock slot base) start blocks).countP (isOn at_ pitch vel) =
        if start ≤ at_ ∧ at_ < start + blocks.sum then
          slot.notes.countP (fun nt => decide (nt.pitch = pitch ∧ nt.velocity = vel ∧
            slot.loopLen ∣ at_ - base - nt.start)) else 0) ∧
    (∀ (at_ : Int) (pitch : Nat), ¬slot.loopLen ∣ at_ - base →
      (items (sessionBlock slot base) start blocks).countP (isOff at_ pitch) =
        if start ≤ at_ ∧ at_ < start + blocks.sum then
          slot.notes.countP (fun nt => decide (nt.pitch = pitch ∧
            slot.loopLen ∣ at_ - base - nt.end_)) else 0) ∧
    Every (fun clock frames =>
      Ordered (emitSessionLoop slot.notes slot.loopLen (clock - base) frames)) start blocks := by
  have hboth : Every (fun clock frames => FitsBuffer slot base clock frames ∧
      (frames : Int) ≤ slot.loopLen) start blocks :=
    hfit.and (Every.of_forall fun _ frames hmem => (hframes frames hmem).2)
  refine ⟨?_, ?_, ?_⟩
  · intro at_ pitch vel
    apply countP_items
    exact hboth.imp fun _ _ _ h => countP_isOn_sessionBlock slot h.2 h.1
  · intro at_ pitch hseam
    apply countP_items
    exact hboth.imp fun _ _ _ h => countP_isOff_sessionBlock slot h.2 h.1 hseam
  · exact Every.of_forall fun clock frames _ => emitSessionLoop_ordered slot (clock - base) frames

/-- A loop of two blocks, launched in the middle of a block. -/
theorem emitSessionLoop_exact_half :
    (items (sessionBlock (halfLoop 511 (by norm_num) (by norm_num)) 100) 0
      [256, 256, 256, 256]).countP (isOn 868 60 100) = 1 := by
  have hexact := (emitSessionLoop_exact (halfLoop 511 (by norm_num) (by norm_num)) 100 0
    [256, 256, 256, 256] (by decide) (by decide)).1 868 60 100
  rw [hexact]
  decide
end Session

section Timeline

/-- The samples at which a note starts (`true`) and ends. -/
def ScheduledNote.edges (nt : ScheduledNote) : List (Int × Bool) :=
  [(nt.start, true), (nt.end_, false)]

/-- In a block, the edges of `a` come before those of `b`, at the sample they
share unless `a` starts there and `b` ends. -/
def InOrder (pos : Int) (frames : Nat) (a b : ScheduledNote) : Prop :=
  ∀ x ∈ a.edges, ∀ y ∈ b.edges, pos ≤ x.1 ∧ x.1 < pos + frames →
    pos ≤ y.1 ∧ y.1 < pos + frames → x.1 < y.1 ∨ (x.1 = y.1 ∧ (x.2 = true → y.2 = true))

instance (pos : Int) (frames : Nat) (a b : ScheduledNote) : Decidable (InOrder pos frames a b) :=
  inferInstanceAs (Decidable (∀ x ∈ a.edges, ∀ y ∈ b.edges, _))

/-- The blocks of the timeline. -/
def timelineBlock (notes : List ScheduledNote) (pos : Int) (frames : Nat) : List (Int × Ev) :=
  timed pos (emitBlockNotes notes pos frames)

variable {notes : List ScheduledNote} {pos at_ : Int} {frames pitch vel : Nat}

theorem countP_isOn_timelineBlock :
    (timelineBlock notes pos frames).countP (isOn at_ pitch vel) =
      if pos ≤ at_ ∧ at_ < pos + frames then
        notes.countP (fun nt => decide (nt.start = at_ ∧ nt.pitch = pitch ∧ nt.velocity = vel))
      else 0 := by
  rw [timelineBlock, countP_timed, emitBlockNotes_eq]
  have hone : ∀ nt ∈ notes,
      (edgeEvents pos frames nt nt.start nt.end_).countP
          (fun e => isOn at_ pitch vel (pos + e.offset, e)) =
        if decide ((pos ≤ at_ ∧ at_ < pos + frames) ∧ nt.start = at_ ∧
          nt.pitch = pitch ∧ nt.velocity = vel) then 1 else 0 := by
    intro nt _
    rw [countP_isOn_edges]
    simp only [Int.sub_add_cancel, decide_eq_true_eq, eq_comm (a := at_)]
  rw [countP_flatMap_indicator hone]
  split
  · rename_i hin
    simp only [hin, and_self, true_and]
  · rename_i hout
    simp [hout]

theorem countP_isOff_timelineBlock :
    (timelineBlock notes pos frames).countP (isOff at_ pitch) =
      if pos ≤ at_ ∧ at_ < pos + frames then
        notes.countP (fun nt => decide (nt.end_ = at_ ∧ nt.pitch = pitch)) else 0 := by
  rw [timelineBlock, countP_timed, emitBlockNotes_eq]
  have hone : ∀ nt ∈ notes,
      (edgeEvents pos frames nt nt.start nt.end_).countP
          (fun e => isOff at_ pitch (pos + e.offset, e)) =
        if decide ((pos ≤ at_ ∧ at_ < pos + frames) ∧ nt.end_ = at_ ∧
          nt.pitch = pitch) then 1 else 0 := by
    intro nt _
    rw [countP_isOff_edges]
    simp only [Int.sub_add_cancel, decide_eq_true_eq, eq_comm (a := at_)]
  rw [countP_flatMap_indicator hone]
  split
  · rename_i hin
    simp only [hin, and_self, true_and]
  · rename_i hout
    simp [hout]

/-- The events a note gives to a block, by its edges. -/
theorem mem_edgeEvents {nt : ScheduledNote} {e : Ev} :
    e ∈ edgeEvents pos frames nt nt.start nt.end_ ↔
      ∃ x ∈ nt.edges, (pos ≤ x.1 ∧ x.1 < pos + frames) ∧
        e = ⟨(x.1 - pos).toNat, x.2, nt.pitch, if x.2 then nt.velocity else 0⟩ := by
  simp only [edgeEvents, ScheduledNote.edges, List.mem_append, List.mem_cons, List.not_mem_nil, or_false,
    exists_eq_or_imp, exists_eq_left, if_true]
  constructor
  · rintro (he | he)
    · split at he
      · rename_i hin
        exact Or.inl ⟨hin, List.mem_singleton.mp he⟩
      · cases he
    · split at he
      · rename_i hin
        exact Or.inr ⟨hin, List.mem_singleton.mp he⟩
      · cases he
  · rintro (⟨hin, rfl⟩ | ⟨hin, rfl⟩)
    · exact Or.inl (by rw [if_pos hin]; exact List.mem_singleton_self _)
    · exact Or.inr (by rw [if_pos hin]; exact List.mem_singleton_self _)

/-- The order of the events of a block comes down to that of its notes, taken
two by two. -/
theorem ordered_emitBlockNotes_iff (hnotes : ∀ nt ∈ notes, nt.start < nt.end_) :
    Ordered (emitBlockNotes notes pos frames) ↔ notes.Pairwise (InOrder pos frames) := by
  have hself : ∀ nt ∈ notes,
      (edgeEvents pos frames nt nt.start nt.end_).Pairwise Ev.Before := by
    intro nt hnt
    have horder := hnotes nt hnt
    simp only [edgeEvents]
    apply List.pairwise_append.mpr
    refine ⟨?_, ?_, ?_⟩
    · split
      · exact List.pairwise_singleton _ _
      · exact List.Pairwise.nil
    · split
      · exact List.pairwise_singleton _ _
      · exact List.Pairwise.nil
    · intro e he e' he'
      split at he
      · split at he'
        · rw [List.mem_singleton.mp he, List.mem_singleton.mp he']
          left
          simp only
          omega
        · cases he'
      · cases he
  rw [Ordered, emitBlockNotes_eq, List.pairwise_flatMap]
  constructor
  · rintro ⟨_, hpair⟩
    refine hpair.imp ?_
    intro a b hab x hx y hy hxin hyin
    have hbefore := hab _ (mem_edgeEvents.mpr ⟨x, hx, hxin, rfl⟩) _
      (mem_edgeEvents.mpr ⟨y, hy, hyin, rfl⟩)
    rcases hbefore with hlt | ⟨heq, hon⟩
    · left
      simp only at hlt
      omega
    · right
      simp only at heq
      exact ⟨by omega, hon⟩
  · intro hpair
    refine ⟨hself, hpair.imp ?_⟩
    intro a b hab e he e' he'
    obtain ⟨x, hx, hxin, rfl⟩ := mem_edgeEvents.mp he
    obtain ⟨y, hy, hyin, rfl⟩ := mem_edgeEvents.mp he'
    rcases hab x hx y hy hxin hyin with hlt | ⟨heq, hon⟩
    · left
      simp only
      omega
    · right
      exact ⟨by simp only [heq], hon⟩

/-- Over a stretch of the timeline cut into blocks, each note starts once and
ends once. The child receives the events of every block by offset, note-offs
first, exactly when the notes of each block are listed in that order. -/
theorem emitBlockNotes_exact_iff (notes : List ScheduledNote) (start : Int) (blocks : List Nat)
    (hnotes : ∀ nt ∈ notes, nt.start < nt.end_) :
    ((∀ (at_ : Int) (pitch vel : Nat),
      (items (timelineBlock notes) start blocks).countP (isOn at_ pitch vel) =
        if start ≤ at_ ∧ at_ < start + blocks.sum then
          notes.countP (fun nt => decide (nt.start = at_ ∧ nt.pitch = pitch ∧ nt.velocity = vel))
        else 0) ∧
    (∀ (at_ : Int) (pitch : Nat),
      (items (timelineBlock notes) start blocks).countP (isOff at_ pitch) =
        if start ≤ at_ ∧ at_ < start + blocks.sum then
          notes.countP (fun nt => decide (nt.end_ = at_ ∧ nt.pitch = pitch)) else 0) ∧
    Every (fun pos frames => Ordered (emitBlockNotes notes pos frames)) start blocks) ↔
      Every (fun pos frames => notes.Pairwise (InOrder pos frames)) start blocks := by
  rw [every_congr fun _ _ => ordered_emitBlockNotes_iff hnotes]
  constructor
  · exact fun h => h.2.2
  · intro horder
    refine ⟨?_, ?_, horder⟩
    · intro at_ pitch vel
      exact countP_items (Every.of_forall fun _ _ _ => countP_isOn_timelineBlock)
    · intro at_ pitch
      exact countP_items (Every.of_forall fun _ _ _ => countP_isOff_timelineBlock)

/-- Two notes of one pitch, the second one listed first. -/
def repeatedNote : List ScheduledNote := [⟨60, 100, 10, 20⟩, ⟨60, 100, 0, 10⟩]

theorem emitBlockNotes_exact_sorted :
    Every (fun pos frames => Ordered (emitBlockNotes repeatedNote.reverse pos frames)) 0 [256] :=
  ((emitBlockNotes_exact_iff repeatedNote.reverse 0 [256] (by decide)).mpr (by decide)).2.2

/-- The note-on of the second note reaches the plugin before the note-off of
the first, which silences it. -/
theorem not_ordered_repeatedNote :
    ¬ ∀ (notes : List ScheduledNote) (start : Int) (blocks : List Nat),
      (∀ nt ∈ notes, nt.start < nt.end_) →
      Every (fun pos frames => Ordered (emitBlockNotes notes pos frames)) start blocks := by
  intro hall
  have hclaim := hall repeatedNote 0 [256] (by decide)
  revert hclaim
  decide

end Timeline

end DawProject.Midi
