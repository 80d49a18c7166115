import DawProject.Audio.Callback

/-!
What a run of the engine sends for the notes of the timeline. A pass over the
graph skips silent tracks, so the pushes made for the notes of a track are
those of its own turn; they are the edges of its notes that lie in the block,
or nothing when the block is not exactly the size of the ring.
-/

namespace DawProject.Audio

open Midi

/-- The sub-blocks rendered by a run, in order. -/
def runTrace : EngineState → List Label → Option (EngineState × List BlockRecord)
  | s, [] => some (s, [])
  | s, l :: labels => do
      let (next, rendered) ← step s l
      let (last, later) ← runTrace next labels
      return (last, rendered.toList ++ later)

/-- One label and then the others, as the run takes them. -/
theorem runTrace_cons {s last : EngineState} {l : Label} {labels : List Label}
    {records : List BlockRecord} (hrun : runTrace s (l :: labels) = some (last, records)) :
    ∃ next rendered later, step s l = some (next, rendered) ∧
      runTrace next labels = some (last, later) ∧ records = rendered.toList ++ later := by
  simp only [runTrace, Option.bind_eq_bind, Option.bind_eq_some_iff] at hrun
  obtain ⟨⟨next, rendered⟩, hstep, ⟨last', later⟩, hlater, hdone⟩ := hrun
  obtain ⟨rfl, rfl⟩ := Prod.mk.inj (Option.some.inj hdone)
  exact ⟨next, rendered, later, hstep, hlater, rfl⟩

/-- What every label of the run keeps holds at its end. -/
theorem runTrace_invariant {P : EngineState → Prop} {s last : EngineState} {labels : List Label}
    {records : List BlockRecord} (hrun : runTrace s labels = some (last, records)) (hstart : P s)
    (hstep : ∀ l ∈ labels, ∀ a b rendered, step a l = some (b, rendered) → P a → P b) :
    P last := by
  induction labels generalizing s records with
  | nil =>
      obtain ⟨rfl, -⟩ := Prod.mk.inj (Option.some.inj hrun)
      exact hstart
  | cons l labels ih =>
      obtain ⟨next, rendered, later, hfirst, hlater, -⟩ := runTrace_cons hrun
      apply ih hlater (hstep l List.mem_cons_self s next rendered hfirst hstart)
      exact fun l' hl' => hstep l' (List.mem_cons_of_mem l hl')

/-- Every record of the run has what the steps give their records. -/
theorem runTrace_records {P : EngineState → Prop} {Q : BlockRecord → Prop} {s last : EngineState}
    {labels : List Label} {records : List BlockRecord}
    (hrun : runTrace s labels = some (last, records)) (hstart : P s)
    (hstep : ∀ a l b rendered, step a l = some (b, rendered) → P a →
      P b ∧ ∀ r, rendered = some r → Q r) : ∀ r ∈ records, Q r := by
  induction labels generalizing s records with
  | nil =>
      obtain ⟨-, rfl⟩ := Prod.mk.inj (Option.some.inj hrun)
      exact List.forall_mem_nil _
  | cons l labels ih =>
      obtain ⟨next, rendered, later, hfirst, hlater, rfl⟩ := runTrace_cons hrun
      obtain ⟨hnext, hhere⟩ := hstep s l next rendered hfirst hstart
      intro r hr
      rcases List.mem_append.mp hr with hnow | hthen
      · exact hhere r (Option.mem_toList.mp hnow)
      · exact ih hlater hnext r hthen

/-- The start or the end of a note, on the timeline. -/
structure Edge where
  at_ : Int
  on : Bool
  note : ScheduledNote
deriving DecidableEq, Repr

def noteEdges (nt : ScheduledNote) : List Edge := [⟨nt.start, true, nt⟩, ⟨nt.end_, false, nt⟩]

/-- The edges of a list of notes in the interval `[a, b)`. -/
def edgesIn (notes : List ScheduledNote) (a b : Int) : List Edge :=
  (notes.flatMap noteEdges).filter fun e => decide (a ≤ e.at_) && decide (e.at_ < b)

/-- The edge a push announces, when it was made for a note of track `i`. -/
def pushedEdge (position : Int) (i : Nat) (p : Push) : Option Edge :=
  match p.source with
  | .timeline j nt =>
      if j = i then some ⟨position + p.event.sample_offset, p.event.kind == .noteOn, nt⟩ else none
  | _ => none

/-- The edges a sub-block pushed for track `i`. -/
def BlockRecord.edges (r : BlockRecord) (i : Nat) : List Edge :=
  r.pushes.filterMap (pushedEdge r.position i)

/-- The edges of the notes that the sub-block covers. -/
def BlockRecord.window (r : BlockRecord) (notes : List ScheduledNote) : List Edge :=
  edgesIn notes r.position (r.position + r.frames)

/-- Track `i` plays the timeline in this sub-block: the transport plays, the
track is hosted and audible, and no slot is launched or queued on it. -/
def BlockRecord.Hosts (r : BlockRecord) (i : Nat) (notes : List ScheduledNote) : Prop :=
  r.graph.transport_playing = true ∧
    ∃ t ∈ r.graph.tracks[i]?, AudioGraph.audible r.graph.hasSolo t = true ∧
      t.instrument_node ≠ none ∧ t.notes = notes ∧ t.launched_slot = -1 ∧ t.queued_slot = -1

instance (r : BlockRecord) (i : Nat) (notes : List ScheduledNote) :
    Decidable (r.Hosts i notes) := inferInstanceAs (Decidable (_ ∧ _))

section Pushes

variable {position : Int} {i : Nat}

theorem pushedEdge_of_source {p : Push} (hsource : ∀ j nt, p.source ≠ .timeline j nt) :
    pushedEdge position i p = none := by
  unfold pushedEdge
  split
  · rename_i j nt hj
    exact absurd hj (hsource j nt)
  · rfl

theorem filterMap_pushedEdge_nil {pushes : List Push}
    (hsource : ∀ p ∈ pushes, ∀ j nt, p.source ≠ .timeline j nt) :
    pushes.filterMap (pushedEdge position i) = [] := by
  rw [List.filterMap_eq_nil_iff]
  intro p hp
  exact pushedEdge_of_source (hsource p hp)

theorem source_of_mem_allNotesOff {node : String} {p : Push} (hp : p ∈ allNotesOff node) :
    p.source = .allNotesOff := by
  obtain ⟨_, _, rfl⟩ := List.mem_map.mp hp
  rfl

theorem source_of_mem_routeLive {g : AudioGraph} {live : List MidiEvent} {p : Push}
    (hp : p ∈ (g.routeLive live).2) : p.source = .allNotesOff ∨ p.source = .live := by
  simp only [AudioGraph.routeLive, List.mem_append] at hp
  rcases hp with hp | hp
  · left
    split at hp
    · split at hp
      · exact source_of_mem_allNotesOff hp
      · cases hp
    · cases hp
  · right
    split at hp
    · split at hp
      · obtain ⟨_, _, rfl⟩ := List.mem_map.mp hp
        rfl
      · cases hp
    · cases hp

theorem source_of_mem_sessionPushes {clock : Int} {frames index : Nat} {t : AudioTrack} {p : Push}
    (hp : p ∈ AudioGraph.sessionPushes clock frames index t) : p.source = .session index := by
  unfold AudioGraph.sessionPushes at hp
  split at hp
  · dsimp only at hp
    split at hp
    · obtain ⟨_, _, rfl⟩ := List.mem_map.mp hp
      rfl
    · split at hp
      · obtain ⟨_, _, rfl⟩ := List.mem_map.mp hp
        rfl
      · cases hp
  · cases hp

/-- A full block pushes, for each note, the edges of the note it covers. -/
theorem filterMap_notePushes (node : String) (nt : ScheduledNote) (frames : Nat) :
    (AudioGraph.notePushes node i position frames nt).filterMap (pushedEdge position i) =
      (noteEdges nt).filter fun e =>
        decide (position ≤ e.at_) && decide (e.at_ < position + frames) := by
  by_cases hon : nt.start ≥ position ∧ nt.start < position + frames <;>
    by_cases hoff : nt.end_ ≥ position ∧ nt.end_ < position + frames <;>
    simp [AudioGraph.notePushes, emitBlockNotes, noteEdges, pushedEdge, emitMidi, pushMidiEvent,
      hon, hoff]

theorem filterMap_proxyProcess (node : String) (notes : List ScheduledNote) (frames : Nat) :
    (AudioGraph.proxyProcess node i notes false frames position).filterMap
        (pushedEdge position i) =
      if frames = kRingBlockSize then edgesIn notes position (position + frames) else [] := by
  unfold AudioGraph.proxyProcess
  by_cases hfull : frames = kRingBlockSize
  · subst hfull
    rw [if_neg (not_not.mpr rfl), if_pos rfl]
    cases notes with
    | nil => rfl
    | cons nt notes =>
        simp only [List.isEmpty_cons, Bool.not_false, Bool.and_self, if_true, edgesIn]
        rw [List.filterMap_flatMap, List.filter_flatMap]
        simp only [filterMap_notePushes]
  · rw [if_pos hfull, if_neg hfull]
    rfl

/-- The proxy node pushes events of the notes of its track only. -/
theorem mem_proxyProcess {node : String} {j frames : Nat} {notes : List ScheduledNote}
    {suppress : Bool} {p : Push}
    (hp : p ∈ AudioGraph.proxyProcess node j notes suppress frames position) :
    ∃ nt ev, p = pushMidiEvent node (.timeline j nt) ev := by
  unfold AudioGraph.proxyProcess at hp
  split at hp
  · cases hp
  · split at hp
    · obtain ⟨nt, _, hp⟩ := List.mem_flatMap.mp hp
      obtain ⟨e, _, rfl⟩ := List.mem_map.mp hp
      exact ⟨nt, _, rfl⟩
    · cases hp

theorem filterMap_proxyProcess_of_ne {j : Nat} (hne : j ≠ i) (node : String)
    (notes : List ScheduledNote) (suppress : Bool) (frames : Nat) :
    (AudioGraph.proxyProcess node j notes suppress frames position).filterMap
        (pushedEdge position i) = [] := by
  rw [List.filterMap_eq_nil_iff]
  intro p hp
  obtain ⟨nt, ev, rfl⟩ := mem_proxyProcess hp
  simp [pushedEdge, pushMidiEvent, hne]

end Pushes

section Track

variable {clock position : Int} {frames i : Nat} {t : AudioTrack}

/-- The turn of a track pushes edges of that track only, and only through its
proxy node. -/
theorem filterMap_processTrack (playing : Bool) (j : Nat) :
    (AudioGraph.processTrack clock playing frames position j t).2.filterMap
        (pushedEdge position i) =
      match (AudioGraph.promote clock frames t).instrument_node with
      | some node =>
          (AudioGraph.proxyProcess node j (AudioGraph.promote clock frames t).notes
            (!(playing && !(AudioGraph.sessionSlot (AudioGraph.promote clock frames t)).isSome))
            frames position).filterMap (pushedEdge position i)
      | none => [] := by
  simp only [AudioGraph.processTrack, List.filterMap_append]
  rw [filterMap_pushedEdge_nil, filterMap_pushedEdge_nil]
  · simp only [List.nil_append, AudioTrack.instrument_node]
    cases (AudioGraph.promote clock frames t).chain.head? <;> rfl
  · intro p hp j' nt
    rw [source_of_mem_sessionPushes hp]
    simp
  · intro p hp j' nt
    split at hp
    · split at hp
      · rw [source_of_mem_allNotesOff hp]
        simp
      · cases hp
    · cases hp

theorem filterMap_processTrack_of_ne (playing : Bool) {j : Nat} (hne : j ≠ i) :
    (AudioGraph.processTrack clock playing frames position j t).2.filterMap
        (pushedEdge position i) = [] := by
  rw [filterMap_processTrack]
  split
  · exact filterMap_proxyProcess_of_ne hne _ _ _ _
  · rfl

/-- A track without a slot plays its timeline notes through a full block. -/
theorem filterMap_processTrack_of_idle (hhosted : t.instrument_node ≠ none)
    (hlaunched : t.launched_slot = -1) (hqueued : t.queued_slot = -1) :
    (AudioGraph.processTrack clock true frames position i t).2.filterMap
        (pushedEdge position i) =
      if frames = kRingBlockSize then edgesIn t.notes position (position + frames) else [] := by
  have hstay : AudioGraph.promote clock frames t = t := by
    simp [AudioGraph.promote, hqueued]
  obtain ⟨node, hnode⟩ := Option.ne_none_iff_exists'.mp hhosted
  have hfree : AudioGraph.sessionSlot t = none := by
    simp [AudioGraph.sessionSlot, hlaunched]
  rw [filterMap_processTrack, hstay, hnode]
  simp only [hfree, Option.isSome_none, Bool.not_false, Bool.and_self, Bool.not_true]
  exact filterMap_proxyProcess node t.notes frames

/-- The edges pushed for track `i` are those of its own turn. -/
theorem filterMap_processTracks (hasSolo playing : Bool) (tracks : List AudioTrack) (k : Nat) :
    (AudioGraph.processTracks hasSolo clock playing frames position k tracks).2.filterMap
        (pushedEdge position (k + i)) =
      match tracks[i]? with
      | some t =>
          if AudioGraph.audible hasSolo t then
            (AudioGraph.processTrack clock playing frames position (k + i) t).2.filterMap
              (pushedEdge position (k + i))
          else []
      | none => [] := by
  induction tracks generalizing k i with
  | nil => rfl
  | cons t rest ih =>
      simp only [AudioGraph.processTracks, List.filterMap_append]
      cases i with
      | zero =>
          have hlater : (AudioGraph.processTracks hasSolo clock playing frames position (k + 1)
              rest).2.filterMap (pushedEdge position k) = [] := by
            clear ih
            have hskip : ∀ m, k < m → (AudioGraph.processTracks hasSolo clock playing frames
                position m rest).2.filterMap (pushedEdge position k) = [] := by
              induction rest with
              | nil => exact fun _ _ => rfl
              | cons t' rest ih' =>
                  intro m hm
                  simp only [AudioGraph.processTracks, List.filterMap_append]
                  rw [ih' (m + 1) (by omega), List.append_nil]
                  split
                  · exact filterMap_processTrack_of_ne playing (by omega)
                  · rfl
            exact hskip (k + 1) (by omega)
          simp only [Nat.add_zero, List.getElem?_cons_zero, hlater, List.append_nil]
          split <;> rfl
      | succ i =>
          have hshift : k + (i + 1) = k + 1 + i := by omega
          have hhere : (if AudioGraph.audible hasSolo t then
              AudioGraph.processTrack clock playing frames position k t
              else (t, [])).2.filterMap (pushedEdge position (k + 1 + i)) = [] := by
            split
            · exact filterMap_processTrack_of_ne playing (by omega)
            · rfl
          rw [hshift, hhere, List.nil_append, ih]
          rfl

end Track

/-- A pass over a graph with tracks: live MIDI, then each track. -/
theorem process_pushes {g : AudioGraph} {frames : Nat} {position : Int} {live : List MidiEvent}
    (hsize : frames ≤ kRingBlockSize) (hsome : g.tracks ≠ []) :
    (g.process frames position live).2 = (g.routeLive live).2 ++
      (AudioGraph.processTracks g.hasSolo g.session_clock g.transport_playing frames position 0
        g.tracks).2 := by
  unfold AudioGraph.process
  rw [if_neg (not_lt.mpr hsize), if_neg (by simpa using hsome)]

/-- What a pass over the graph pushes for the notes of one track. -/
theorem filterMap_process {g : AudioGraph} {frames : Nat} {position : Int}
    {live : List MidiEvent} {i : Nat} {t : AudioTrack} (hsize : frames ≤ kRingBlockSize)
    (htrack : g.tracks[i]? = some t) :
    (g.process frames position live).2.filterMap (pushedEdge position i) =
      if AudioGraph.audible g.hasSolo t then
        (AudioGraph.processTrack g.session_clock g.transport_playing frames position i
          t).2.filterMap (pushedEdge position i)
      else [] := by
  have hsome : g.tracks ≠ [] := by
    intro hempty
    rw [hempty] at htrack
    cases htrack
  have hpass := @filterMap_processTracks g.session_clock position frames i g.hasSolo
    g.transport_playing g.tracks 0
  rw [htrack, Nat.zero_add] at hpass
  rw [process_pushes hsize hsome, List.filterMap_append, hpass]
  rw [filterMap_pushedEdge_nil, List.nil_append]
  intro p hp j nt
  rcases source_of_mem_routeLive hp with hsource | hsource <;> rw [hsource] <;> simp

section Run

/-- The sub-block is a pass over its graph, at most as long as the ring. -/
def BlockRecord.Rendered (r : BlockRecord) : Prop :=
  r.frames ≤ kRingBlockSize ∧
    ∃ live, r.pushes = (r.graph.process r.frames r.position live).2

theorem Callback.chunk_le (cb : Callback) : cb.chunk ≤ kRingBlockSize := by
  have hmin : min kRingBlockSize cb.remaining ≤ kRingBlockSize := min_le_left _ _
  unfold Callback.chunk
  dsimp only
  split
  · rename_i hcut
    omega
  · exact hmin

theorem rendered_of_step {s next : EngineState} {l : Label} {r : BlockRecord}
    (hstep : step s l = some (next, some r)) : r.Rendered := by
  obtain ⟨cb, live, -, -, -, -, rfl⟩ := step_rendered hstep
  exact ⟨cb.chunk_le, live, rfl⟩

theorem rendered_of_runTrace {s last : EngineState} {labels : List Label}
    {records : List BlockRecord} (hrun : runTrace s labels = some (last, records)) :
    ∀ r ∈ records, r.Rendered := by
  apply runTrace_records (P := fun _ => True) (Q := BlockRecord.Rendered) hrun trivial
  rintro a l b rendered hstep -
  refine ⟨trivial, ?_⟩
  rintro r rfl
  exact rendered_of_step hstep

/-- A sub-block that hosts the track pushes the edges it covers when it has the
size of the ring, and none otherwise. -/
theorem BlockRecord.edges_of_hosts {r : BlockRecord} {i : Nat} {notes : List ScheduledNote}
    (hrendered : r.Rendered) (hhosts : r.Hosts i notes) :
    r.edges i = if r.frames = kRingBlockSize then r.window notes else [] := by
  obtain ⟨hsize, live, hpushes⟩ := hrendered
  obtain ⟨hplaying, t, htrack, haudible, hhosted, hnotes, hlaunched, hqueued⟩ := hhosts
  unfold BlockRecord.edges BlockRecord.window
  rw [hpushes, filterMap_process hsize htrack, if_pos haudible, hplaying,
    filterMap_processTrack_of_idle hhosted hlaunched hqueued, hnotes]

end Run

/-- One track whose instrument plays a single note. -/
def oneNote (nt : ScheduledNote) : EngineState where
  transport := { content_end := 48000 }
  graph := { tracks := [{ id := "track", chain := ["synth"], notes := [nt] }] }

end DawProject.Audio
