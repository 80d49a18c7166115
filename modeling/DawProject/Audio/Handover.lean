import DawProject.Audio.Immediate

/-!
A quantised launch. The slot waits in the queue for a point of the grid, and
the sub-block that holds this point is handed over from the slot that plays:
the new slot is emitted from the exact sample, and the old one is not emitted
in that sub-block at all.
-/

namespace DawProject.Midi

/-- Notes in local positions of the loop, as the builder writes them. -/
structure LocalNotes (notes : List ScheduledNote) (loopLen : Int) : Prop where
  loop : 0 < loopLen
  start : ∀ nt ∈ notes, 0 ≤ nt.start ∧ nt.start < loopLen
  stop : ∀ nt ∈ notes, 0 ≤ nt.end_ ∧ nt.end_ ≤ loopLen

section Window

variable {notes : List ScheduledNote} {loopLen first : Int} {frames : Nat}

theorem mem_loopEvents {blockEnd k : Int} {nt : ScheduledNote} {e : Ev} :
    e ∈ loopEvents loopLen first blockEnd nt k ↔
      (first ≤ nt.start + k * loopLen ∧ nt.start + k * loopLen < blockEnd ∧
        e = ⟨(nt.start + k * loopLen - first).toNat, true, nt.pitch, nt.velocity⟩) ∨
      (first ≤ nt.end_ + k * loopLen ∧ nt.end_ + k * loopLen < blockEnd ∧
        e = ⟨(nt.end_ + k * loopLen - first).toNat, false, nt.pitch, 0⟩) := by
  simp only [loopEvents, List.mem_append]
  apply or_congr
  · split
    · rename_i hin
      rw [List.mem_singleton]
      exact ⟨fun he => ⟨hin.1, hin.2, he⟩, fun h => h.2.2⟩
    · rename_i hout
      exact iff_of_false List.not_mem_nil fun h => hout ⟨h.1, h.2.1⟩
  · split
    · rename_i hin
      rw [List.mem_singleton]
      exact ⟨fun he => ⟨hin.1, hin.2, he⟩, fun h => h.2.2⟩
    · rename_i hout
      exact iff_of_false List.not_mem_nil fun h => hout ⟨h.1, h.2.1⟩

/-- A local position comes up in the window where the loop has it. -/
theorem position_of_iteration {v k : Int} (hv : 0 ≤ v) (hlt : v < loopLen)
    (hlo : first ≤ v + k * loopLen) :
    (first + (v + k * loopLen - first).toNat) % loopLen = v := by
  rw [Int.toNat_of_nonneg (by omega), add_sub_cancel, Int.add_mul_emod_self_right,
    Int.emod_eq_of_lt hv hlt]

/-- A window no longer than the loop holds each local position in the current
or in the next iteration. -/
theorem iteration_of_position {o : Nat} (hfirst : 0 ≤ first) (hlast : first < loopLen)
    (hframes : (frames : Int) ≤ loopLen) (ho : o < frames) :
    ∃ k : Int, (k = 0 ∨ k = 1) ∧ (first + o) % loopLen + k * loopLen = first + o := by
  rcases lt_or_ge (first + o) loopLen with hnow | hnext
  · refine ⟨0, Or.inl rfl, ?_⟩
    rw [Int.emod_eq_of_lt (by omega) hnow, zero_mul, add_zero]
  · refine ⟨1, Or.inr rfl, ?_⟩
    have hback : (first + o - loopLen) % loopLen = (first + o) % loopLen := Int.sub_emod_right _ _
    rw [← hback, Int.emod_eq_of_lt (by omega) (by omega), one_mul, sub_add_cancel]

theorem mem_addedEvents {e : Ev} :
    e ∈ addedEvents notes loopLen first frames ↔
      (∃ nt ∈ notes, ∃ k : Int, (k = 0 ∨ k = 1) ∧
        e ∈ loopEvents loopLen first (first + frames) nt k) ∨
      (first + frames > loopLen ∧
        ∃ nt ∈ notes, e = ⟨(loopLen - first).toNat, false, nt.pitch, 0⟩) := by
  simp only [addedEvents, List.mem_append, List.mem_flatMap]
  apply or_congr
  · simp
  · split
    · rename_i hwraps
      simp only [List.mem_map]
      constructor
      · rintro ⟨nt, hnt, rfl⟩
        exact ⟨hwraps, nt, hnt, rfl⟩
      · rintro ⟨-, nt, hnt, rfl⟩
        exact ⟨nt, hnt, rfl⟩
    · rename_i hinside
      exact iff_of_false List.not_mem_nil fun h => hinside h.1

/-- The events of a window lie in it. A note-on is that of a note that starts
at its position of the loop; a note-off that of one that ends there, or it is
sent at the seam. -/
theorem of_mem_addedEvents (hlocal : LocalNotes notes loopLen) (hlast : first < loopLen) {e : Ev}
    (he : e ∈ addedEvents notes loopLen first frames) :
    e.offset < frames ∧ ∃ nt ∈ notes,
      (e = ⟨e.offset, true, nt.pitch, nt.velocity⟩ ∧ (first + e.offset) % loopLen = nt.start) ∨
      (e = ⟨e.offset, false, nt.pitch, 0⟩ ∧
        ((first + e.offset) % loopLen = nt.end_ ∨ (first + e.offset) % loopLen = 0)) := by
  rcases mem_addedEvents.mp he with ⟨nt, hnt, k, -, hk⟩ | ⟨hwraps, nt, hnt, rfl⟩
  · rcases mem_loopEvents.mp hk with ⟨hlo, hhi, rfl⟩ | ⟨hlo, hhi, rfl⟩
    · obtain ⟨hstart, hbound⟩ := hlocal.start nt hnt
      dsimp only
      refine ⟨by omega, nt, hnt, Or.inl ⟨rfl, position_of_iteration hstart hbound hlo⟩⟩
    · obtain ⟨hstop, hbound⟩ := hlocal.stop nt hnt
      dsimp only
      refine ⟨by omega, nt, hnt, Or.inr ⟨rfl, ?_⟩⟩
      rcases lt_or_eq_of_le hbound with hinside | hseam
      · exact Or.inl (position_of_iteration hstop hinside hlo)
      · right
        rw [Int.toNat_of_nonneg (by omega), add_sub_cancel, hseam, Int.add_mul_emod_self_right,
          Int.emod_self]
  · dsimp only
    refine ⟨by omega, nt, hnt, Or.inr ⟨rfl, Or.inr ?_⟩⟩
    rw [Int.toNat_of_nonneg (by omega), add_sub_cancel, Int.emod_self]

/-- Every start and every end that the window covers is in it. -/
theorem mem_addedEvents_of_position (hfirst : 0 ≤ first) (hlast : first < loopLen)
    (hframes : (frames : Int) ≤ loopLen) {nt : ScheduledNote} (hnt : nt ∈ notes) {o : Nat}
    (ho : o < frames) :
    ((first + o) % loopLen = nt.start →
      (⟨o, true, nt.pitch, nt.velocity⟩ : Ev) ∈ addedEvents notes loopLen first frames) ∧
    ((first + o) % loopLen = nt.end_ →
      (⟨o, false, nt.pitch, 0⟩ : Ev) ∈ addedEvents notes loopLen first frames) := by
  obtain ⟨k, hk, hsplit⟩ := iteration_of_position hfirst hlast hframes ho
  constructor
  · intro hstart
    rw [hstart] at hsplit
    apply mem_addedEvents.mpr
    refine Or.inl ⟨nt, hnt, k, hk, mem_loopEvents.mpr (Or.inl ⟨by omega, by omega, ?_⟩)⟩
    rw [hsplit, add_sub_cancel_left, Int.toNat_natCast]
  · intro hstop
    rw [hstop] at hsplit
    apply mem_addedEvents.mpr
    refine Or.inl ⟨nt, hnt, k, hk, mem_loopEvents.mpr (Or.inr ⟨by omega, by omega, ?_⟩)⟩
    rw [hsplit, add_sub_cancel_left, Int.toNat_natCast]

end Window

end DawProject.Midi

namespace DawProject.Audio

open Midi

/-- A session event as the plugin hears it, at its session time. -/
structure Heard where
  time : Int
  kind : MidiKind
  key : Nat
  velocity : Nat
deriving DecidableEq, Repr

def Push.heardAt (clock : Int) (p : Push) : Heard where
  time := clock + p.event.sample_offset
  kind := p.event.kind
  key := p.event.data1
  velocity := p.event.data2

def heardOn (nt : ScheduledNote) (time : Int) : Heard :=
  ⟨time, .noteOn, nt.pitch % 128, nt.velocity % 128⟩

def heardOff (nt : ScheduledNote) (time : Int) : Heard := ⟨time, .noteOff, nt.pitch % 128, 0⟩

/-- What a slot started at `origin` has to send: at session time `t` the
starts and the ends of its notes at local time `(t - origin) mod loop_len`. -/
def SlotEvent (slot : SessionSlot) (origin : Int) (e : Heard) : Prop :=
  ∃ nt ∈ slot.notes,
    (e = heardOn nt e.time ∧ (e.time - origin) % slot.loop_len = nt.start) ∨
    (e = heardOff nt e.time ∧ (e.time - origin) % slot.loop_len = nt.end_)

/-- What the emitter adds at the seam of the loop. -/
def SeamRelease (slot : SessionSlot) (origin : Int) (e : Heard) : Prop :=
  (e.time - origin) % slot.loop_len = 0 ∧ ∃ nt ∈ slot.notes, e = heardOff nt e.time

/-- At session time `x` the events of the slot are heard, and no others. -/
def PlaysAt (slot : Option SessionSlot) (origin x : Int) (heard : List Heard) : Prop :=
  (∀ e, e.time = x → (∃ s ∈ slot, SlotEvent s origin e) → e ∈ heard) ∧
    ∀ e ∈ heard, e.time = x → ∃ s ∈ slot, SlotEvent s origin e ∨ SeamRelease s origin e

/-- The blocks the emitter is made for: local notes, no more than one seam and
no more events than its buffer holds. -/
structure Admits (slot : SessionSlot) (frames : Nat) : Prop where
  notes : LocalNotes slot.notes slot.loop_len
  frames_pos : 0 < frames
  one_seam : (frames : Int) ≤ slot.loop_len
  fits : ∀ first n, 0 ≤ first → first < slot.loop_len → n ≤ frames →
    (addedEvents slot.notes slot.loop_len first n).length ≤ kSessionBuffer

section Block

variable {clock : Int} {frames index : Nat} {t : AudioTrack} {slot : SessionSlot}

/-- The emission begins at the start of the slot or of the block, whichever is
later, and lasts until the end of the block. -/
theorem sessionPushes_eq (hslot : AudioGraph.sessionSlot t = some slot)
    (hstarts : t.launch_clock < clock + frames) :
    ∃ node, ∃ skip n : Nat, n + skip = frames ∧ t.launch_clock ≤ clock + skip ∧
      (t.launch_clock ≤ clock → skip = 0) ∧
      (clock ≤ t.launch_clock → clock + skip = t.launch_clock) ∧
      AudioGraph.sessionPushes clock frames index t =
        (emitSessionLoop slot.notes slot.loop_len (clock + skip - t.launch_clock) n).map fun e =>
          emitMidi node (.session index) e.on e.pitch e.vel (e.offset + skip) := by
  obtain ⟨-, node, hnode⟩ := instrument_of_sessionSlot hslot
  simp only [AudioGraph.sessionPushes, hslot, hnode]
  rcases le_or_gt t.launch_clock clock with hlate | hearly
  · refine ⟨node, 0, frames, by omega, by omega, fun _ => rfl, fun _ => by omega, ?_⟩
    rw [if_pos hlate]
    simp only [Nat.cast_zero, add_zero]
  · refine ⟨node, (t.launch_clock - clock).toNat, frames - (t.launch_clock - clock).toNat,
      by omega, by omega, fun _ => by omega, fun _ => by omega, ?_⟩
    rw [if_neg (by omega), if_pos (by omega)]
    have hbase : clock + ((t.launch_clock - clock).toNat : Int) - t.launch_clock = 0 := by omega
    rw [hbase]

theorem mem_emitSessionLoop_of_admits (hadmits : Admits slot frames) {base : Int} {n : Nat}
    (hn : n ≤ frames) {e : Ev} :
    e ∈ emitSessionLoop slot.notes slot.loop_len base n ↔
      e ∈ addedEvents slot.notes slot.loop_len (base % slot.loop_len) n := by
  have hlen := hadmits.notes.loop
  have hlow := Int.emod_nonneg base hlen.ne'
  have hhigh := Int.emod_lt_of_pos base hlen
  rw [emitSessionLoop, if_neg (by omega), mem_sortEvents, local0_eq_emod base hlen,
    List.take_of_length_le (hadmits.fits _ n hlow hhigh hn)]

/-- What is heard of a block in which a slot plays. -/
theorem block_plays (hslot : AudioGraph.sessionSlot t = some slot) (hadmits : Admits slot frames)
    (hstarts : t.launch_clock < clock + frames) :
    (∀ e ∈ (AudioGraph.sessionPushes clock frames index t).map (Push.heardAt clock),
      clock ≤ e.time ∧ t.launch_clock ≤ e.time ∧ e.time < clock + frames) ∧
    ∀ x, clock ≤ x → t.launch_clock ≤ x → x < clock + frames →
      PlaysAt (some slot) t.launch_clock x
        ((AudioGraph.sessionPushes clock frames index t).map (Push.heardAt clock)) := by
  obtain ⟨node, skip, n, hn, hlate, hzero, hat, hpushes⟩ :=
    @sessionPushes_eq clock frames index t slot hslot hstarts
  have hlen := hadmits.notes.loop
  have hlow := Int.emod_nonneg (clock + skip - t.launch_clock) hlen.ne'
  have hhigh := Int.emod_lt_of_pos (clock + skip - t.launch_clock) hlen
  have hposition : ∀ o : Nat, ((clock + skip - t.launch_clock) % slot.loop_len + o) %
      slot.loop_len = (clock + skip + o - t.launch_clock) % slot.loop_len := by
    intro o
    rw [Int.emod_add_emod]
    congr 1
    omega
  have hmem : ∀ e, e ∈ (AudioGraph.sessionPushes clock frames index t).map (Push.heardAt clock) ↔
      ∃ ev ∈ addedEvents slot.notes slot.loop_len
          ((clock + skip - t.launch_clock) % slot.loop_len) n,
        e = ⟨clock + skip + ev.offset, if ev.on then .noteOn else .noteOff, ev.pitch % 128,
          ev.vel % 128⟩ := by
    intro e
    rw [hpushes, List.map_map, List.mem_map]
    constructor
    · rintro ⟨ev, hev, rfl⟩
      refine ⟨ev, (mem_emitSessionLoop_of_admits hadmits (by omega)).mp hev, ?_⟩
      simp only [Function.comp_apply, Push.heardAt, emitMidi, pushMidiEvent]
      congr 1
      push_cast
      omega
    · rintro ⟨ev, hev, rfl⟩
      refine ⟨ev, (mem_emitSessionLoop_of_admits hadmits (by omega)).mpr hev, ?_⟩
      simp only [Function.comp_apply, Push.heardAt, emitMidi, pushMidiEvent]
      congr 1
      push_cast
      omega
  constructor
  · intro e he
    obtain ⟨ev, hev, rfl⟩ := (hmem e).mp he
    obtain ⟨hoffset, -⟩ := of_mem_addedEvents hadmits.notes hhigh hev
    dsimp only
    omega
  · intro x hclock hlaunch hx
    obtain ⟨o, ho⟩ : ∃ o : Nat, clock + skip + o = x := by
      refine ⟨(x - (clock + skip)).toNat, ?_⟩
      rcases le_total t.launch_clock clock with hbefore | hafter
      · rw [hzero hbefore]
        omega
      · have := hat hafter
        omega
    have hframes : (n : Int) ≤ slot.loop_len := le_trans (by omega) hadmits.one_seam
    constructor
    · rintro e he ⟨slot', hslot', nt, hnt, hevent⟩
      obtain rfl := Option.some.inj hslot'
      obtain ⟨hon, hoff⟩ := mem_addedEvents_of_position hlow hhigh hframes hnt
        (show o < n by omega)
      rw [hposition o, ho, ← he] at hon hoff
      apply (hmem e).mpr
      rcases hevent with ⟨hkind, hlocal⟩ | ⟨hkind, hlocal⟩
      · refine ⟨_, hon hlocal, ?_⟩
        rw [hkind]
        simp only [heardOn, if_true]
        congr 1
        rw [ho, he]
      · refine ⟨_, hoff hlocal, ?_⟩
        rw [hkind]
        simp only [heardOff, Bool.false_eq_true, if_false]
        congr 1
        rw [ho, he]
    · intro e he hx
      obtain ⟨ev, hev, heq⟩ := (hmem e).mp he
      obtain ⟨-, nt, hnt, hevent⟩ := of_mem_addedEvents hadmits.notes hhigh hev
      have htime : clock + skip + ev.offset = e.time := by rw [heq]
      rw [hposition ev.offset, htime] at hevent
      refine ⟨slot, rfl, ?_⟩
      rcases hevent with ⟨hev', hlocal⟩ | ⟨hev', hlocal | hseam⟩
      · refine Or.inl ⟨nt, hnt, Or.inl ⟨?_, hlocal⟩⟩
        rw [← htime, heq, hev']
        rfl
      · refine Or.inl ⟨nt, hnt, Or.inr ⟨?_, hlocal⟩⟩
        rw [← htime, heq, hev']
        rfl
      · refine Or.inr ⟨hseam, nt, hnt, ?_⟩
        rw [← htime, heq, hev']
        rfl

end Block

/-- A sub-block as one track sees it. -/
structure TrackBlock where
  frames : Nat
  playing : Bool
  position : Int

/-- The session events heard from track `index` over consecutive sub-blocks,
the first one at `clock`. -/
def runTrack (index : Nat) : AudioTrack → Int → List TrackBlock → List Heard
  | _, _, [] => []
  | t, clock, b :: rest =>
      let turn := AudioGraph.processTrack clock b.playing b.frames b.position index t
      (turn.2.filter fun p => p.source == .session index).map (Push.heardAt clock) ++
        runTrack index turn.1 (clock + b.frames) rest

/-- The session time after the sub-blocks. -/
def endTime (clock : Int) : List TrackBlock → Int
  | [] => clock
  | b :: rest => endTime (clock + b.frames) rest

/-- Where the sub-block starts in which a slot queued for `start` is
launched. -/
def handoverStart (start clock : Int) : List TrackBlock → Int
  | [] => clock
  | b :: rest =>
      if start < clock + b.frames then clock else handoverStart start (clock + b.frames) rest

section Run

variable {index : Nat} {t : AudioTrack} {clock start x : Int} {b : TrackBlock}
  {blocks : List TrackBlock}

theorem runTrack_cons :
    runTrack index t clock (b :: blocks) =
      (AudioGraph.sessionPushes clock b.frames index
        (AudioGraph.promote clock b.frames t)).map (Push.heardAt clock) ++
        runTrack index (turned clock b.frames t) (clock + b.frames) blocks := by
  rw [runTrack, filter_processTrack, if_pos rfl]
  rfl

theorem le_endTime (clock : Int) (blocks : List TrackBlock) : clock ≤ endTime clock blocks := by
  induction blocks generalizing clock with
  | nil => exact le_refl _
  | cons b rest ih => exact le_trans (by omega) (ih (clock + b.frames))

theorem le_handoverStart (start clock : Int) (blocks : List TrackBlock) :
    clock ≤ handoverStart start clock blocks := by
  induction blocks generalizing clock with
  | nil => exact le_refl _
  | cons b rest ih =>
      unfold handoverStart
      split
      · exact le_refl _
      · exact le_trans (by omega) (ih (clock + b.frames))

theorem PlaysAt.append_left {slot : Option SessionSlot} {origin : Int} {first later : List Heard}
    (hplays : PlaysAt slot origin x first) (hlater : ∀ e ∈ later, e.time ≠ x) :
    PlaysAt slot origin x (first ++ later) := by
  refine ⟨fun e he hevent => List.mem_append_left later (hplays.1 e he hevent), ?_⟩
  intro e he hx
  rcases List.mem_append.mp he with hfirst | hthen
  · exact hplays.2 e hfirst hx
  · exact absurd hx (hlater e hthen)

theorem PlaysAt.append_right {slot : Option SessionSlot} {origin : Int} {first later : List Heard}
    (hplays : PlaysAt slot origin x later) (hfirst : ∀ e ∈ first, e.time ≠ x) :
    PlaysAt slot origin x (first ++ later) := by
  refine ⟨fun e he hevent => List.mem_append_right first (hplays.1 e he hevent), ?_⟩
  intro e he hx
  rcases List.mem_append.mp he with hthen | hlater
  · exact absurd hx (hfirst e hthen)
  · exact hplays.2 e hlater hx

/-- A block of a track that plays a slot or none, from the start of the slot. -/
theorem block_plays_slot {frames : Nat}
    (hadmits : ∀ slot ∈ AudioGraph.sessionSlot t, Admits slot frames)
    (hstarts : ∀ slot ∈ AudioGraph.sessionSlot t, t.launch_clock < clock + frames) :
    (∀ e ∈ (AudioGraph.sessionPushes clock frames index t).map (Push.heardAt clock),
      clock ≤ e.time ∧ t.launch_clock ≤ e.time ∧ e.time < clock + frames) ∧
    ∀ x, clock ≤ x → t.launch_clock ≤ x → x < clock + frames →
      PlaysAt (AudioGraph.sessionSlot t) t.launch_clock x
        ((AudioGraph.sessionPushes clock frames index t).map (Push.heardAt clock)) := by
  cases hslot : AudioGraph.sessionSlot t with
  | some slot => exact block_plays hslot (hadmits slot hslot) (hstarts slot hslot)
  | none =>
      have hnothing : AudioGraph.sessionPushes clock frames index t = [] := by
        simp only [AudioGraph.sessionPushes, hslot]
      rw [hnothing, List.map_nil]
      refine ⟨by simp, fun x _ _ _ => ⟨?_, by simp⟩⟩
      rintro e - ⟨slot, hnone, -⟩
      cases hnone

/-- With an empty queue the slot plays block after block. -/
theorem runTrack_steady (hqueued : t.queued_slot = -1)
    (hadmits : ∀ slot ∈ AudioGraph.sessionSlot t, ∀ b ∈ blocks, Admits slot b.frames)
    (hstarted : ∀ slot ∈ AudioGraph.sessionSlot t, t.launch_clock ≤ clock) :
    (∀ e ∈ runTrack index t clock blocks, clock ≤ e.time) ∧
      ∀ x, clock ≤ x → t.launch_clock ≤ x → x < endTime clock blocks →
        PlaysAt (AudioGraph.sessionSlot t) t.launch_clock x (runTrack index t clock blocks) := by
  induction blocks generalizing t clock with
  | nil => exact ⟨nofun, fun x hlo _ hhi => absurd hhi (not_lt.mpr hlo)⟩
  | cons b rest ih =>
      have hstays : AudioGraph.promote clock b.frames t = t := by
        unfold AudioGraph.promote
        rw [if_neg (by omega)]
      have hturned : turned clock b.frames t = { t with prev_launched := t.launched_slot } := by
        unfold turned
        rw [hstays]
      have hnow : ∀ slot ∈ AudioGraph.sessionSlot t, Admits slot b.frames :=
        fun slot hslot => hadmits slot hslot b List.mem_cons_self
      obtain ⟨htimes, hblock⟩ := @block_plays_slot index t clock b.frames hnow
        fun slot hslot => by
          have hpos := (hnow slot hslot).frames_pos
          have hstart := hstarted slot hslot
          omega
      obtain ⟨hlater, hrest⟩ := @ih { t with prev_launched := t.launched_slot }
        (clock + b.frames) hqueued
        (fun slot hslot b' hb' => hadmits slot hslot b' (List.mem_cons_of_mem b hb'))
        fun slot hslot => (hstarted slot hslot).trans (by omega)
      rw [runTrack_cons, hstays, hturned]
      constructor
      · intro e he
        rcases List.mem_append.mp he with hfirst | hthen
        · exact (htimes e hfirst).1
        · exact le_trans (by omega) (hlater e hthen)
      · intro x hlo hlaunch hhi
        rcases lt_or_ge x (clock + b.frames) with hin | hafter
        · apply (hblock x hlo hlaunch hin).append_left
          intro e he
          have := hlater e he
          omega
        · apply (hrest x hafter hlaunch hhi).append_right
          intro e he
          have := (htimes e he).2.2
          omega

/-- The track once its queued slot is launched. -/
def promoted (t : AudioTrack) : AudioTrack :=
  { t with
    launch_clock := t.queued_start
    launched_slot := t.queued_slot
    queued_slot := -1 }

/-- A queued slot: the old one is heard in the sub-blocks before that of the
start, nothing before the start in that one, the new one from the start on. -/
theorem runTrack_queued (hqueued : 0 ≤ t.queued_slot)
    (hold : ∀ slot ∈ AudioGraph.sessionSlot t, ∀ b ∈ blocks, Admits slot b.frames)
    (hnew : ∀ slot ∈ AudioGraph.sessionSlot (promoted t), ∀ b ∈ blocks, Admits slot b.frames)
    (hstarted : ∀ slot ∈ AudioGraph.sessionSlot t, t.launch_clock ≤ clock) :
    (∀ e ∈ runTrack index t clock blocks, clock ≤ e.time) ∧
      (∀ x, clock ≤ x → t.launch_clock ≤ x → x < handoverStart t.queued_start clock blocks →
        x < endTime clock blocks →
        PlaysAt (AudioGraph.sessionSlot t) t.launch_clock x (runTrack index t clock blocks)) ∧
      (∀ e ∈ runTrack index t clock blocks, handoverStart t.queued_start clock blocks ≤ e.time →
        t.queued_start ≤ e.time) ∧
      ∀ x, clock ≤ x → t.queued_start ≤ x → x < endTime clock blocks →
        PlaysAt (AudioGraph.sessionSlot (promoted t)) t.queued_start x
          (runTrack index t clock blocks) := by
  induction blocks generalizing t clock with
  | nil =>
      refine ⟨nofun, fun x hlo _ _ hhi => absurd hhi (not_lt.mpr hlo), nofun, ?_⟩
      exact fun x hlo _ hhi => absurd hhi (not_lt.mpr hlo)
  | cons b rest ih =>
      rcases lt_or_ge t.queued_start (clock + b.frames) with hfalls | hwaits
      · have hpromote : AudioGraph.promote clock b.frames t = promoted t := by
          unfold AudioGraph.promote
          rw [if_pos ⟨hqueued, hfalls⟩]
          rfl
        have hturned : turned clock b.frames t =
            { promoted t with prev_launched := t.queued_slot } := by
          unfold turned
          rw [hpromote]
          rfl
        have hhere : handoverStart t.queued_start clock (b :: rest) = clock := by
          rw [handoverStart, if_pos hfalls]
        obtain ⟨htimes, hblock⟩ := @block_plays_slot index (promoted t) clock b.frames
          (fun slot hslot => hnew slot hslot b List.mem_cons_self) fun _ _ => hfalls
        obtain ⟨hlater, hrest⟩ := @runTrack_steady index
          { promoted t with prev_launched := t.queued_slot } (clock + b.frames) rest rfl
          (fun slot hslot b' hb' => hnew slot hslot b' (List.mem_cons_of_mem b hb'))
          fun _ _ => hfalls.le
        rw [runTrack_cons, hpromote, hturned, hhere]
        refine ⟨?_, fun x hlo _ hbefore _ => absurd hbefore (not_lt.mpr hlo), ?_, ?_⟩
        · intro e he
          rcases List.mem_append.mp he with hfirst | hthen
          · exact (htimes e hfirst).1
          · exact le_trans (by omega) (hlater e hthen)
        · intro e he _
          rcases List.mem_append.mp he with hfirst | hthen
          · exact (htimes e hfirst).2.1
          · exact hfalls.le.trans (hlater e hthen)
        · intro x hlo hstart hhi
          rcases lt_or_ge x (clock + b.frames) with hin | hafter
          · apply (hblock x hlo hstart hin).append_left
            intro e he
            have := hlater e he
            omega
          · apply (hrest x hafter hstart hhi).append_right
            intro e he
            have := (htimes e he).2.2
            omega
      · have hstays : AudioGraph.promote clock b.frames t = t := by
          unfold AudioGraph.promote
          rw [if_neg (by omega)]
        have hturned : turned clock b.frames t = { t with prev_launched := t.launched_slot } := by
          unfold turned
          rw [hstays]
        have hlaterStart : handoverStart t.queued_start clock (b :: rest) =
            handoverStart t.queued_start (clock + b.frames) rest := by
          rw [handoverStart, if_neg (by omega)]
        have hnow : ∀ slot ∈ AudioGraph.sessionSlot t, Admits slot b.frames :=
          fun slot hslot => hold slot hslot b List.mem_cons_self
        obtain ⟨htimes, hblock⟩ := @block_plays_slot index t clock b.frames hnow
          fun slot hslot => by
            have hpos := (hnow slot hslot).frames_pos
            have hstart := hstarted slot hslot
            omega
        obtain ⟨hlater, hbefore, hsilent, hafterStart⟩ :=
          @ih { t with prev_launched := t.launched_slot } (clock + b.frames) hqueued
            (fun slot hslot b' hb' => hold slot hslot b' (List.mem_cons_of_mem b hb'))
            (fun slot hslot b' hb' => hnew slot hslot b' (List.mem_cons_of_mem b hb'))
            fun slot hslot => (hstarted slot hslot).trans (by omega)
        have hle := le_handoverStart t.queued_start (clock + b.frames) rest
        rw [runTrack_cons, hstays, hturned, hlaterStart]
        refine ⟨?_, ?_, ?_, ?_⟩
        · intro e he
          rcases List.mem_append.mp he with hfirst | hthen
          · exact (htimes e hfirst).1
          · exact le_trans (by omega) (hlater e hthen)
        · intro x hlo hlaunch hx hhi
          rcases lt_or_ge x (clock + b.frames) with hin | hafter
          · apply (hblock x hlo hlaunch hin).append_left
            intro e he
            have := hlater e he
            omega
          · apply (hbefore x hafter hlaunch hx hhi).append_right
            intro e he
            have := (htimes e he).2.2
            omega
        · intro e he hx
          rcases List.mem_append.mp he with hfirst | hthen
          · have := (htimes e hfirst).2.2
            omega
          · exact hsilent e hthen hx
        · intro x hlo hstart hhi
          apply (hafterStart x (hwaits.trans hstart) hstart hhi).append_right
          intro e he
          have := (htimes e he).2.2
          omega

end Run

section Engine

variable {s next : EngineState} {l : Label} {rendered : Option BlockRecord} {labels : List Label}
  {records : List BlockRecord}

theorem launch_clock_setMonitor (g : AudioGraph) (track_id : String) (solo mute : Bool) :
    (g.setMonitor track_id solo mute).tracks.map AudioTrack.launch_clock =
      g.tracks.map AudioTrack.launch_clock := by
  apply map_updateTrackById
  intro t
  rfl

theorem launch_clock_copyMonitorState (old new : AudioGraph) :
    (AudioGraph.copyMonitorState old new).tracks.map AudioTrack.launch_clock =
      new.tracks.map AudioTrack.launch_clock := by
  unfold AudioGraph.copyMonitorState
  induction old.tracks generalizing new with
  | nil => rfl
  | cons t rest ih => exact (ih _).trans (launch_clock_setMonitor _ _ _ _)

theorem launch_clock_launchSlot {g : AudioGraph} {track_id scene_id : String}
    {stop quantize : Bool} {t : AudioTrack}
    (ht : t ∈ (g.launchSlot track_id scene_id stop quantize).tracks) :
    (∃ old ∈ g.tracks, t.launch_clock = old.launch_clock) ∨ t.launch_clock = g.session_clock := by
  unfold AudioGraph.launchSlot at ht
  split at ht
  · exact Or.inl ⟨t, ht, rfl⟩
  · split at ht
    · rcases mem_updateTrackById ht with hold | ⟨old, hold, rfl⟩
      · exact Or.inl ⟨t, hold, rfl⟩
      · exact Or.inl ⟨old, List.mem_of_find?_eq_some hold, rfl⟩
    · split at ht
      · exact Or.inl ⟨t, ht, rfl⟩
      · rcases mem_updateTrackById ht with hold | ⟨old, hold, rfl⟩
        · exact Or.inl ⟨t, hold, rfl⟩
        · split
          · exact Or.inl ⟨old, List.mem_of_find?_eq_some hold, rfl⟩
          · exact Or.inr rfl

/-- No slot that plays starts after the time of the callback. -/
theorem launch_clock_le_of_step (hs : s.ClockBehind)
    (hold : ∀ t ∈ s.graph.tracks, t.launch_clock ≤ s.session_clock) (hfresh : l.StartsClock)
    (hstep : step s l = some (next, rendered)) :
    ∀ t ∈ next.graph.tracks, t.launch_clock ≤ next.session_clock := by
  have hviews : ∀ {g g' : AudioGraph} {clock : Int},
      g'.tracks.map AudioTrack.launch_clock = g.tracks.map AudioTrack.launch_clock →
      (∀ t ∈ g.tracks, t.launch_clock ≤ clock) → ∀ t ∈ g'.tracks, t.launch_clock ≤ clock := by
    intro g g' clock hmap hbound t ht
    have hmem : t.launch_clock ∈ g.tracks.map AudioTrack.launch_clock :=
      hmap ▸ List.mem_map_of_mem ht
    obtain ⟨old, hmem, heq⟩ := List.mem_map.mp hmem
    rw [← heq]
    exact hbound old hmem
  by_cases haudio : l.isAudio = true
  · rcases audio_step_cases haudio hstep with ⟨-, hgraph, hclock⟩ | ⟨cb, live, -, -, hgraph, hclock⟩
    · rw [hgraph]
      exact fun t ht => (hold t ht).trans hclock
    · intro t ht
      rw [hgraph] at ht
      obtain ⟨old, hmem, rfl⟩ :=
        mem_of_forall₂ (forall₂_process (blockGraph s cb) cb.start live cb.chunk_le) ht
      have hbound : old.launch_clock ≤ s.session_clock := hold old hmem
      rw [hclock]
      split
      · unfold turned AudioGraph.promote
        dsimp only
        split
        · rename_i hqueued
          exact hqueued.2.le
        · exact hbound.trans (by omega)
      · exact hbound.trans (by omega)
  · cases l with
    | enter frame_count cmds => exact absurd rfl haudio
    | block live => exact absurd rfl haudio
    | leave => exact absurd rfl haudio
    | setMonitor track_id solo mute =>
        obtain ⟨rfl, -⟩ := Prod.mk.inj (Option.some.inj hstep)
        exact hviews (launch_clock_setMonitor s.graph track_id solo mute) hold
    | launch track_id scene_id stop quantize =>
        obtain ⟨rfl, -⟩ := Prod.mk.inj (Option.some.inj hstep)
        intro t ht
        rcases launch_clock_launchSlot ht with ⟨old, hmem, heq⟩ | heq
        · exact heq.le.trans (hold old hmem)
        · exact heq.le.trans hs.2
    | rebuild graph content_end vst3_nodes =>
        obtain ⟨-, rfl, -⟩ := step_rebuild hstep
        apply hviews (launch_clock_copyMonitorState s.graph graph)
        intro t ht
        rw [hfresh.2 t ht]
        exact hs.1

theorem launch_clock_le_of_reachable (hs : s.Reachable) :
    ∀ t ∈ s.graph.tracks, t.launch_clock ≤ s.session_clock := by
  obtain ⟨graph, past, records, hzero, hfresh, hrun⟩ := hs
  have hinv : s.ClockBehind ∧ ∀ t ∈ s.graph.tracks, t.launch_clock ≤ s.session_clock := by
    apply runTrace_invariant (P := fun s => s.ClockBehind ∧
      ∀ t ∈ s.graph.tracks, t.launch_clock ≤ s.session_clock) hrun
    · exact ⟨⟨le_refl _, hzero.1.le⟩, fun t ht => (hzero.2 t ht).le⟩
    · intro l hl a b rendered hstep hnow
      exact ⟨clockBehind_of_step hnow.1 (hfresh l hl) hstep,
        launch_clock_le_of_step hnow.1 hnow.2 (hfresh l hl) hstep⟩
  exact hinv.2

/-- While a slot is engaged no callback returns at once, and session time
passes in sub-blocks only. -/
theorem clock_of_engaged (hcount : 0 < s.graph.launched_count) (haudio : l.isAudio = true)
    (hstep : step s l = some (next, none)) : next.session_clock = s.session_clock := by
  cases l with
  | enter frame_count cmds =>
      obtain ⟨-, rfl, -⟩ := step_enter hstep
      unfold enterCallback
      split
      · rfl
      · dsimp only
        split
        · rename_i hsilent
          simp [hcount] at hsilent
        · rfl
  | block live =>
      obtain ⟨cb, -, -, hrendered⟩ := step_block hstep
      unfold renderBlock at hrendered
      split at hrendered
      · obtain ⟨rfl, -⟩ := Prod.mk.inj hrendered
        rfl
      · cases hrendered
  | leave =>
      obtain ⟨cb, -, -, rfl, -⟩ := step_leave hstep
      rfl
  | setMonitor track_id solo mute => cases haudio
  | launch track_id scene_id stop quantize => cases haudio
  | rebuild graph content_end vst3_nodes => cases haudio

/-- A sub-block as track `i` sees it. -/
def BlockRecord.trackBlock (r : BlockRecord) : TrackBlock where
  frames := r.frames
  playing := r.graph.transport_playing
  position := r.position

/-- The session events of the sub-blocks of a run, in session time. -/
def heardFrom (i : Nat) (records : List BlockRecord) : List Heard :=
  records.flatMap fun r => (r.sessionEvents i).map (Push.heardAt r.graph.session_clock)

theorem audible_turned {clock : Int} {frames : Nat} {t : AudioTrack} :
    (turned clock frames t).solo = t.solo ∧ (turned clock frames t).mute = t.mute := by
  unfold turned AudioGraph.promote
  dsimp only
  split <;> exact ⟨rfl, rfl⟩

theorem any_solo_of_turned {audible : AudioTrack → Bool} {clock : Int} {frames : Nat}
    {tracks later : List AudioTrack}
    (hall : List.Forall₂ (fun t t' => t' = if audible t then turned clock frames t else t)
      tracks later) : later.any AudioTrack.solo = tracks.any AudioTrack.solo := by
  induction hall with
  | nil => rfl
  | cons hhead _ ih =>
      rw [List.any_cons, List.any_cons, ih, hhead]
      congr 1
      split
      · exact audible_turned.1
      · rfl

theorem hasSolo_process (g : AudioGraph) {frames : Nat} (position : Int) (live : List MidiEvent)
    (hsize : frames ≤ kRingBlockSize) :
    (g.process frames position live).1.hasSolo = g.hasSolo :=
  any_solo_of_turned (forall₂_process g position live hsize)

/-- What a run of the audio thread sends for an audible track is what its
turns send, one after the other. -/
theorem heardFrom_run {i : Nat} {t : AudioTrack} (hcount : 0 < s.graph.launched_count)
    (haudio : ∀ l ∈ labels, l.isAudio = true) (ht : s.graph.tracks[i]? = some t)
    (haudible : AudioGraph.audible s.graph.hasSolo t = true)
    (hrun : runTrace s labels = some (next, records)) :
    heardFrom i records =
      runTrack i t s.session_clock (records.map BlockRecord.trackBlock) := by
  induction labels generalizing s t records with
  | nil =>
      obtain ⟨-, rfl⟩ := Prod.mk.inj (Option.some.inj hrun)
      rfl
  | cons l labels ih =>
      obtain ⟨middle, rendered, later, hstep, hlater, rfl⟩ := runTrace_cons hrun
      have haudio' : ∀ l ∈ labels, l.isAudio = true :=
        fun l' hl' => haudio l' (List.mem_cons_of_mem l hl')
      rcases audio_step_cases (haudio l List.mem_cons_self) hstep with
        ⟨rfl, hgraph, -⟩ | ⟨cb, live, -, rfl, hgraph, hclock⟩
      · rw [← clock_of_engaged hcount (haudio l List.mem_cons_self) hstep]
        exact ih (hgraph ▸ hcount) haudio' (hgraph ▸ ht) (hgraph ▸ haudible) hlater
      · obtain ⟨t', ht', hturn⟩ := getElem?_of_forall₂
          (forall₂_process (blockGraph s cb) cb.start live cb.chunk_le) ht
        have hheard : AudioGraph.audible (blockGraph s cb).hasSolo t = true := haudible
        rw [if_pos hheard] at hturn
        subst hturn
        have hcount' : 0 < middle.graph.launched_count := by
          rw [hgraph]
          have hsession := process_session (blockGraph s cb) cb.chunk cb.start live
          exact hcount.trans_eq (congrArg (fun view => view.2.1) hsession).symm
        have haudible' : AudioGraph.audible middle.graph.hasSolo
            (turned (blockGraph s cb).session_clock cb.chunk t) = true := by
          rw [hgraph, hasSolo_process _ _ _ cb.chunk_le]
          unfold AudioGraph.audible at haudible ⊢
          rw [audible_turned.1, audible_turned.2]
          exact haudible
        have hrest := ih hcount' haudio' (hgraph ▸ ht') haudible' hlater
        rw [hclock] at hrest
        rw [Option.toList_some, List.singleton_append, List.map_cons, runTrack_cons, heardFrom,
          List.flatMap_cons]
        apply congrArg₂ (· ++ ·) _ hrest
        unfold BlockRecord.sessionEvents
        dsimp only
        have hpushes := @filter_process cb.start cb.chunk (blockGraph s cb) live i t cb.chunk_le ht
        rw [hpushes, if_pos hheard]
        rfl

end Engine

/-- The grid of the launches: `epoch + k * quantum`, or every sample without a
quantum. -/
def OnGrid (epoch quantum x : Int) : Prop := quantum ≤ 0 ∨ ∃ k : Nat, x = epoch + k * quantum

theorem nextQuantumStart_isLeast (now epoch quantum : Int) :
    IsLeast {x | now ≤ x ∧ OnGrid epoch quantum x}
      (AudioGraph.nextQuantumStart now epoch quantum) := by
  unfold AudioGraph.nextQuantumStart
  split
  · rename_i hquantum
    exact ⟨⟨le_refl _, Or.inl hquantum⟩, fun x hx => hx.1⟩
  · rename_i hquantum
    have hpos : 0 < quantum := not_le.mp hquantum
    dsimp only
    split
    · rename_i hearly
      refine ⟨⟨by omega, Or.inr ⟨0, by simp⟩⟩, ?_⟩
      rintro x ⟨-, hnone | ⟨k, rfl⟩⟩
      · exact absurd hnone hquantum
      · exact le_add_of_nonneg_right (Int.mul_nonneg (Int.natCast_nonneg k) hpos.le)
    · rename_i hlate
      rw [Int.tdiv_eq_ediv_of_nonneg (by omega)]
      have hceil : 0 ≤ (now - epoch + quantum - 1) / quantum :=
        Int.ediv_nonneg (by omega) hpos.le
      have hsplit := Int.emod_add_ediv_mul (now - epoch + quantum - 1) quantum
      have hrest := Int.emod_lt_of_pos (now - epoch + quantum - 1) hpos
      have hrest' := Int.emod_nonneg (now - epoch + quantum - 1) hpos.ne'
      constructor
      · refine ⟨by omega, Or.inr ⟨((now - epoch + quantum - 1) / quantum).toNat, ?_⟩⟩
        rw [Int.toNat_of_nonneg hceil]
      · rintro x ⟨hnow, hnone | ⟨k, rfl⟩⟩
        · exact absurd hnone hquantum
        · apply Int.add_le_add_left
          apply Int.mul_le_mul_of_nonneg_right _ hpos.le
          apply Int.le_of_lt_add_one
          apply Int.ediv_lt_of_lt_mul hpos
          have hgrow : ((k : Int) + 1) * quantum = k * quantum + quantum := by ring
          omega

/-- The law of a quantised launch, on what is heard of the track: the slot
starts at the least point of the grid, the old one is heard before it, the new
one from it on. -/
structure HandsOver (g : AudioGraph) (t : AudioTrack) (slot : SessionSlot) (start clock : Int)
    (blocks : List TrackBlock) (heard : List Heard) : Prop where
  least : IsLeast {x | g.session_clock ≤ x ∧ OnGrid g.session_epoch g.session_quantum x} start
  old : ∀ x, clock ≤ x → x < start → x < endTime clock blocks →
    PlaysAt (AudioGraph.sessionSlot t) t.launch_clock x heard
  new : ∀ x, start ≤ x → x < endTime clock blocks → PlaysAt (some slot) start x heard

/-- Nothing is due where nothing is sent: no event of the new slot between its
start and the first sub-block after the request, none of the old slot in the
sub-block that holds the start, before it. -/
def Seamless (t : AudioTrack) (slot : SessionSlot) (start clock : Int)
    (blocks : List TrackBlock) : Prop :=
  (∀ e, start ≤ e.time → e.time < clock → ¬SlotEvent slot start e) ∧
    ∀ e, handoverStart start clock blocks ≤ e.time → e.time < start →
      e.time < endTime clock blocks →
      ∀ old ∈ AudioGraph.sessionSlot t, ¬SlotEvent old t.launch_clock e

section Request

variable {g : AudioGraph} {track_id scene_id : String} {i idx : Nat} {t : AudioTrack}
  {slot : SessionSlot} {clock : Int} {blocks : List TrackBlock}

/-- The track after a quantised request. -/
def queuedFor (g : AudioGraph) (t : AudioTrack) (idx : Nat) : AudioTrack :=
  { t with
    queued_start :=
      AudioGraph.nextQuantumStart g.session_clock g.session_epoch g.session_quantum
    queued_slot := idx }

theorem getElem?_launchSlot (hslot : g.slotFor track_id scene_id = some (t, idx))
    (hcount : g.launched_count ≠ 0)
    (hindex : g.tracks.findIdx? (fun t => t.id = track_id) = some i) :
    (g.launchSlot track_id scene_id false true).tracks[i]? = some (queuedFor g t idx) := by
  have hlaunched := @launchSlot_of_slotFor g track_id scene_id true t idx hslot
  obtain ⟨hfind, rfl, hlaunch⟩ := hlaunched
  rw [hlaunch]
  unfold AudioGraph.startSlot
  simp only [hcount, decide_false, Bool.not_false, Bool.and_self, if_true, Bool.false_eq_true,
    if_false]
  rw [getElem?_updateTrackById_first hindex, hfind]
  rfl

/-- A quantised launch is heard as it should be exactly when nothing is due in
the two gaps. -/
theorem handsOver_iff (hslot : g.slotFor track_id scene_id = some (t, idx))
    (hidx : t.session_slots[idx]? = some slot) (hcount : g.launched_count ≠ 0)
    (hindex : g.tracks.findIdx? (fun t => t.id = track_id) = some i)
    (hhosted : t.instrument_node ≠ none) (hstarted : t.launch_clock ≤ clock)
    (hold : ∀ old ∈ AudioGraph.sessionSlot t, ∀ b ∈ blocks, Admits old b.frames)
    (hnew : ∀ b ∈ blocks, Admits slot b.frames) :
    ∃ t', (g.launchSlot track_id scene_id false true).tracks[i]? = some t' ∧
      (HandsOver g t slot t'.queued_start clock blocks (runTrack i t' clock blocks) ↔
        Seamless t slot t'.queued_start clock blocks) := by
  refine ⟨_, getElem?_launchSlot hslot hcount hindex, ?_⟩
  have hpromoted : AudioGraph.sessionSlot (promoted (queuedFor g t idx)) = some slot := by
    have hbound : idx < t.session_slots.length := (List.getElem?_eq_some_iff.mp hidx).1
    have hsome : t.instrument_node.isSome = true := Option.isSome_iff_ne_none.mpr hhosted
    show (if (idx : Int) ≥ 0 ∧ (idx : Int) < t.session_slots.length ∧
      t.instrument_node.isSome = true then t.session_slots[(idx : Int).toNat]? else none) = _
    rw [if_pos ⟨by omega, by omega, hsome⟩, Int.toNat_natCast, hidx]
  obtain ⟨htimes, hbefore, hsilent, hafter⟩ := @runTrack_queued i (queuedFor g t idx) clock blocks
    (Int.natCast_nonneg idx) hold
    (fun slot' hslot' b hb => by
      rw [hpromoted] at hslot'
      obtain rfl := Option.some.inj hslot'
      exact hnew b hb)
    fun _ _ => hstarted
  rw [hpromoted] at hafter
  have hfirst := le_handoverStart (queuedFor g t idx).queued_start clock blocks
  have hlast := le_endTime clock blocks
  constructor
  · rintro ⟨-, holdHeard, hnewHeard⟩
    constructor
    · intro e hstart hclock hevent
      have hheard := (hnewHeard e.time hstart (hclock.trans_le hlast)).1 e rfl
        ⟨slot, rfl, hevent⟩
      exact absurd (htimes e hheard) (not_le.mpr hclock)
    · intro e hblock hstart hend old hplaying hevent
      have hheard := (holdHeard e.time (hfirst.trans hblock) hstart hend).1 e rfl
        ⟨old, hplaying, hevent⟩
      exact absurd (hsilent e hheard hblock) (not_le.mpr hstart)
  · rintro ⟨hnoNew, hnoOld⟩
    refine ⟨nextQuantumStart_isLeast _ _ _, ?_, ?_⟩
    · intro x hclock hstart hend
      rcases lt_or_ge x (handoverStart (queuedFor g t idx).queued_start clock blocks)
        with hearly | hblock
      · exact hbefore x hclock (hstarted.trans hclock) hearly hend
      · constructor
        · rintro e rfl ⟨old, hplaying, hevent⟩
          exact absurd hevent (hnoOld e hblock hstart hend old hplaying)
        · rintro e he rfl
          exact absurd (hsilent e he hblock) (not_le.mpr hstart)
    · intro x hstart hend
      rcases lt_or_ge x clock with hearly | hclock
      · constructor
        · rintro e rfl ⟨slot', hslot', hevent⟩
          obtain rfl := Option.some.inj hslot'
          exact absurd hevent (hnoNew e hstart hearly)
        · rintro e he rfl
          exact absurd (htimes e he) (not_le.mpr hearly)
      · exact hafter x hclock hstart hend

end Request

section Examples

theorem length_loopEvents_le (loopLen first blockEnd : Int) (nt : ScheduledNote) (k : Int) :
    (loopEvents loopLen first blockEnd nt k).length ≤ 2 := by
  rw [loopEvents, List.length_append]
  split <;> split <;> simp

theorem length_addedEvents_le (notes : List ScheduledNote) (loopLen first : Int) (frames : Nat) :
    (addedEvents notes loopLen first frames).length ≤ 5 * notes.length := by
  have hnotes : (notes.flatMap fun nt =>
      [0, 1].flatMap (loopEvents loopLen first (first + frames) nt)).length ≤
        4 * notes.length := by
    induction notes with
    | nil => simp
    | cons nt rest ih =>
        have hnow := length_loopEvents_le loopLen first (first + frames) nt 0
        have hnext := length_loopEvents_le loopLen first (first + frames) nt 1
        simp only [List.flatMap_cons, List.flatMap_nil, List.append_nil, List.length_append,
          List.length_cons] at ih ⊢
        omega
  simp only [addedEvents, List.length_append]
  split
  · rw [List.length_map]
    omega
  · rw [List.length_nil]
    omega

/-- A short list of notes never fills the buffer. -/
theorem admits_of_length {slot : SessionSlot} {frames : Nat}
    (hlocal : LocalNotes slot.notes slot.loop_len) (hpos : 0 < frames)
    (hseam : (frames : Int) ≤ slot.loop_len) (hlength : 5 * slot.notes.length ≤ kSessionBuffer) :
    Admits slot frames where
  notes := hlocal
  frames_pos := hpos
  one_seam := hseam
  fits := fun first n _ _ _ =>
    (length_addedEvents_le slot.notes slot.loop_len first n).trans hlength

def oldSlot : SessionSlot := ⟨"old", 1000, [⟨60, 100, 800, 900⟩]⟩

def newSlot : SessionSlot := ⟨"new", 1000, [⟨62, 100, 0, 500⟩]⟩

def playingTrack : AudioTrack where
  id := "track"
  chain := ["synth"]
  session_slots := [oldSlot, newSlot]
  launched_slot := 0

/-- The first slot plays since zero, and the last sub-block started at 512. -/
def playingOld (quantum : Int) : AudioGraph where
  tracks := [playingTrack]
  session_clock := 512
  launched_count := 1
  session_quantum := quantum

def fullBlock : TrackBlock := ⟨256, false, 0⟩

theorem oldSlot_admits : Admits oldSlot 256 :=
  admits_of_length ⟨by decide, by decide, by decide⟩ (by decide) (by decide) (by decide)

theorem newSlot_admits : Admits newSlot 256 :=
  admits_of_length ⟨by decide, by decide, by decide⟩ (by decide) (by decide) (by decide)

theorem admits_playingTrack {blocks : List TrackBlock} (hfull : ∀ b ∈ blocks, b.frames = 256) :
    (∀ old ∈ AudioGraph.sessionSlot playingTrack, ∀ b ∈ blocks, Admits old b.frames) ∧
      ∀ b ∈ blocks, Admits newSlot b.frames := by
  constructor
  · intro old hslot b hb
    obtain rfl : oldSlot = old := Option.some.inj hslot
    rw [hfull b hb]
    exact oldSlot_admits
  · intro b hb
    rw [hfull b hb]
    exact newSlot_admits

/-- A point of the grid on the edge of a sub-block. -/
theorem handsOver_onEdge :
    ∃ t', ((playingOld 1024).launchSlot "track" "new" false true).tracks[0]? = some t' ∧
      HandsOver (playingOld 1024) playingTrack newSlot t'.queued_start 768 [fullBlock, fullBlock]
        (runTrack 0 t' 768 [fullBlock, fullBlock]) := by
  obtain ⟨hold, hnew⟩ := @admits_playingTrack [fullBlock, fullBlock] (by decide)
  obtain ⟨t', ht', hiff⟩ := @handsOver_iff (playingOld 1024) "track" "new" 0 1 playingTrack newSlot
    768 [fullBlock, fullBlock] rfl rfl (by decide) rfl (by decide) (by decide) hold hnew
  refine ⟨t', ht', hiff.mpr ?_⟩
  obtain rfl := Option.some.inj ht'
  constructor
  · intro e hlo hhi
    exact absurd (hlo.trans_lt hhi) (by decide)
  · intro e hlo hhi
    exact absurd (hlo.trans_lt hhi) (by decide)

/-- A point of the grid inside a sub-block: the note that the old slot starts
before it in the same sub-block is not sent. -/
theorem not_handsOver_inside :
    ¬∀ (g : AudioGraph) (t : AudioTrack) (idx : Nat) (slot : SessionSlot) (clock : Int)
      (blocks : List TrackBlock) (t' : AudioTrack), g.slotFor "track" "new" = some (t, idx) →
      t.session_slots[idx]? = some slot → g.launched_count ≠ 0 → t.instrument_node ≠ none →
      t.launch_clock ≤ clock → g.session_clock + 256 = clock →
      (∀ old ∈ AudioGraph.sessionSlot t, ∀ b ∈ blocks, Admits old b.frames) →
      (∀ b ∈ blocks, Admits slot b.frames) →
      (g.launchSlot "track" "new" false true).tracks[0]? = some t' →
      HandsOver g t slot t'.queued_start clock blocks (runTrack 0 t' clock blocks) := by
  intro hall
  obtain ⟨hold, hnew⟩ := @admits_playingTrack [fullBlock] (by decide)
  have hclaim := hall (playingOld 1000) playingTrack 1 newSlot 768 [fullBlock] _ rfl rfl (by decide)
    (by decide) (by decide) (by decide) hold hnew rfl
  have hdue := (hclaim.old 800 (by decide) (by decide) (by decide)).1 ⟨800, .noteOn, 60, 100⟩ rfl
    ⟨oldSlot, rfl, ⟨60, 100, 800, 900⟩, by decide, Or.inl ⟨by decide, by decide⟩⟩
  exact absurd hdue (by decide)

end Examples

end DawProject.Audio
