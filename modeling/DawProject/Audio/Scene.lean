import DawProject.Audio.Launch

/-!
A scene launch, `handleSessionLaunch` of
`engine/src/websocket/websocket_server.cpp`: a message without a track is a
loop of independent `launchSlot` calls, each of which reads the clock of the
graph while the audio thread advances it.
-/

namespace DawProject.Audio

/-- The session times at which the slots of a track start: of the one that
plays, and of the one in the queue. -/
def AudioTrack.starts (t : AudioTrack) : List Int :=
  (if t.launched_slot ≥ 0 then [t.launch_clock] else []) ++
    (if t.queued_slot ≥ 0 then [t.queued_start] else [])

/-- Nothing plays and nothing is queued. -/
def AudioGraph.Idle (g : AudioGraph) : Prop :=
  g.launched_count = 0 ∧ ∀ t ∈ g.tracks, t.launched_slot < 0 ∧ t.queued_slot < 0

instance (g : AudioGraph) : Decidable g.Idle := inferInstanceAs (Decidable (_ ∧ _))

/-- One call of the loop: what the audio thread does before it, and the track. -/
structure SceneCall where
  played : List Label
  track_id : String

/-- A call that launched: the clock it read, and the start it gave the slot. -/
structure Launched where
  clock : Int
  start : Int
deriving DecidableEq, Repr

/-- Where the track that has just been launched starts: a slot in the queue
waits for its start, any other plays from its launch. -/
def AudioGraph.startOf (g : AudioGraph) (track_id : String) : Option Int :=
  (g.tracks.find? fun t => t.id = track_id).map fun t =>
    if t.queued_slot ≥ 0 then t.queued_start else t.launch_clock

/-- The loop over the tracks. -/
def runScene (scene_id : String) (quantize : Bool) :
    EngineState → List SceneCall → Option (EngineState × List Launched)
  | s, [] => some (s, [])
  | s, call :: calls => do
      let (now, _) ← runTrace s call.played
      let (next, _) ← step now (.launch call.track_id scene_id false quantize)
      let (last, later) ← runScene scene_id quantize next calls
      let here := (now.graph.slotFor call.track_id scene_id).bind fun _ =>
        (next.graph.startOf call.track_id).map (Launched.mk now.graph.session_clock)
      return (last, here.toList ++ later)

/-- The message handled in a state: a call for each track of its graph, with
the audio thread alone in between and after the last one. -/
def SceneMessage (scene_id : String) (quantize : Bool) (s last : EngineState)
    (launches : List Launched) : Prop :=
  ∃ calls middle after records,
    calls.map SceneCall.track_id = s.graph.tracks.map AudioTrack.id ∧
      (∀ call ∈ calls, ∀ l ∈ call.played, l.isAudio = true) ∧
      runScene scene_id quantize s calls = some (middle, launches) ∧
      (∀ l ∈ after, l.isAudio = true) ∧ runTrace middle after = some (last, records)

/-- All the slots launched by the message share one start, and so does every
slot that plays or waits in the graph. -/
def SharesStart (g : AudioGraph) (launches : List Launched) : Prop :=
  ∃ start, (∀ a ∈ launches, a.start = start) ∧ ∀ t ∈ g.tracks, ∀ x ∈ t.starts, x = start

section Grid

/-- The next point of a grid is its origin for a clock that stands there
only. -/
theorem nextQuantumStart_eq_epoch_iff {now epoch quantum : Int} (hlate : epoch ≤ now) :
    AudioGraph.nextQuantumStart now epoch quantum = epoch ↔ now = epoch := by
  unfold AudioGraph.nextQuantumStart
  split
  · exact Iff.rfl
  · rename_i hquantum
    dsimp only
    split
    · rename_i hearly
      exact iff_of_true rfl (by omega)
    · rename_i hsince
      have hone : 1 ≤ (now - epoch + quantum - 1).tdiv quantum := by
        rw [Int.tdiv_eq_ediv_of_nonneg (by omega)]
        exact (Int.le_ediv_iff_mul_le (by omega)).mpr (by omega)
      have hpast : quantum ≤ (now - epoch + quantum - 1).tdiv quantum * quantum :=
        le_mul_of_one_le_left (by omega) hone
      exact iff_of_false (by omega) (by omega)

end Grid

section Call

variable {g : AudioGraph} {track_id scene_id : String} {quantize : Bool}

section Start

variable {t : AudioTrack} {idx : Nat} {loop_len : Int}

theorem startOf_startSlot (hfind : g.tracks.find? (fun t => t.id = track_id) = some t)
    (hid : t.id = track_id) :
    (g.startSlot t idx loop_len quantize).startOf track_id =
      some (if g.launched_count = 0 ∨ quantize = false then g.session_clock
        else AudioGraph.nextQuantumStart g.session_clock g.session_epoch g.session_quantum) := by
  unfold AudioGraph.startOf AudioGraph.startSlot
  rw [hid]
  by_cases hanchor : g.launched_count = 0
  · rw [find?_updateTrackById, hfind]
    · simp [hanchor]
    · intro t
      simp [hanchor]
  · cases quantize with
    | false =>
        rw [find?_updateTrackById, hfind]
        · simp
        · intro t
          simp
    | true =>
        rw [find?_updateTrackById, hfind]
        · simp [hanchor]
        · intro t
          simp [hanchor]

/-- A launch leaves the starts of the other tracks, and gives its own. -/
theorem starts_startSlot (hfind : g.tracks.find? (fun t => t.id = track_id) = some t)
    (hid : t.id = track_id) {t' : AudioTrack} {x : Int}
    (hmem : t' ∈ (g.startSlot t idx loop_len quantize).tracks) (hx : x ∈ t'.starts) :
    (∃ old ∈ g.tracks, x ∈ old.starts) ∨
      (g.startSlot t idx loop_len quantize).startOf track_id = some x := by
  have hmem' := hmem
  unfold AudioGraph.startSlot at hmem'
  rcases mem_updateTrackById hmem' with hold | ⟨old, hold, rfl⟩
  · exact Or.inl ⟨t', hold, hx⟩
  · rw [hid, hfind] at hold
    obtain rfl := Option.some.inj hold
    rw [startOf_startSlot hfind hid]
    by_cases hqueues : g.launched_count = 0 ∨ quantize = false
    · right
      rw [if_pos hqueues]
      have hnow : (!decide (g.launched_count = 0) && quantize) = false := by
        rcases hqueues with hanchor | hplain
        · simp [hanchor]
        · simp [hplain]
      simp only [AudioTrack.starts, hnow, Bool.false_eq_true, if_false] at hx
      simpa [eq_comm] using hx
    · obtain ⟨hcount, hquantize⟩ := not_or.mp hqueues
      have hlater : (!decide (g.launched_count = 0) && quantize) = true := by
        simp [hcount, hquantize]
      simp only [AudioTrack.starts, hlater, if_true, List.mem_append] at hx
      rcases hx with hplays | hwaits
      · refine Or.inl ⟨t, List.mem_of_find?_eq_some hfind, ?_⟩
        exact List.mem_append_left _ hplays
      · right
        rw [if_neg hqueues]
        simpa [hcount, eq_comm] using hwaits

end Start

end Call

section Audio

variable {s next : EngineState} {l : Label} {rendered : Option BlockRecord}

/-- A turn of the audio thread moves a start from the queue to the slot that
plays, at most. -/
theorem starts_turned {clock : Int} {frames : Nat} {t : AudioTrack} {x : Int}
    (hx : x ∈ (turned clock frames t).starts) : x ∈ t.starts := by
  unfold turned AudioGraph.promote at hx
  dsimp only at hx
  split at hx
  · rename_i hqueued
    simp only [AudioTrack.starts, hqueued.1, if_true, List.mem_append] at hx ⊢
    right
    simpa using hx
  · exact hx

/-- What the audio thread keeps of the session: the grid and the count, and no
start that was not there. The clock of the graph moves forward only. -/
structure Plays (s next : EngineState) : Prop where
  count : next.graph.launched_count = s.graph.launched_count
  epoch : next.graph.session_epoch = s.graph.session_epoch
  quantum : next.graph.session_quantum = s.graph.session_quantum
  clock : s.graph.session_clock ≤ next.graph.session_clock
  behind : next.ClockBehind
  starts : ∀ t ∈ next.graph.tracks, ∀ x ∈ t.starts, ∃ old ∈ s.graph.tracks, x ∈ old.starts

theorem Plays.refl (hs : s.ClockBehind) : Plays s s :=
  ⟨rfl, rfl, rfl, le_refl _, hs, fun t ht _ hx => ⟨t, ht, hx⟩⟩

theorem Plays.trans {last : EngineState} (hfirst : Plays s next) (hsecond : Plays next last) :
    Plays s last where
  count := hsecond.count.trans hfirst.count
  epoch := hsecond.epoch.trans hfirst.epoch
  quantum := hsecond.quantum.trans hfirst.quantum
  clock := hfirst.clock.trans hsecond.clock
  behind := hsecond.behind
  starts := by
    intro t ht x hx
    obtain ⟨old, hold, hx'⟩ := hsecond.starts t ht x hx
    exact hfirst.starts old hold x hx'

theorem startsClock_of_isAudio (haudio : l.isAudio = true) : l.StartsClock := by
  cases l with
  | rebuild graph content_end vst3_nodes => cases haudio
  | _ => trivial

theorem plays_of_step (hs : s.ClockBehind) (haudio : l.isAudio = true)
    (hstep : step s l = some (next, rendered)) : Plays s next := by
  have hbehind := clockBehind_of_step hs (startsClock_of_isAudio haudio) hstep
  rcases audio_step_cases haudio hstep with ⟨-, hgraph, -⟩ | ⟨cb, live, -, -, hgraph, -⟩
  · refine ⟨?_, ?_, ?_, ?_, hbehind, ?_⟩
    · rw [hgraph]
    · rw [hgraph]
    · rw [hgraph]
    · rw [hgraph]
    · rw [hgraph]
      exact fun t ht x hx => ⟨t, ht, hx⟩
  · have hsession := process_session (blockGraph s cb) cb.chunk cb.start live
    rw [← hgraph] at hsession
    simp only [AudioGraph.session, Prod.mk.injEq] at hsession
    obtain ⟨hclock, hcount, hepoch, hquantum, -⟩ := hsession
    refine ⟨hcount, hepoch, hquantum, hclock ▸ hs.2, hbehind, ?_⟩
    intro t ht x hx
    rw [hgraph] at ht
    obtain ⟨old, hold, rfl⟩ :=
      mem_of_forall₂ (forall₂_process (blockGraph s cb) cb.start live cb.chunk_le) ht
    refine ⟨old, hold, ?_⟩
    split at hx
    · exact starts_turned hx
    · exact hx

theorem plays_of_run {labels : List Label} {records : List BlockRecord} (hs : s.ClockBehind)
    (haudio : ∀ l ∈ labels, l.isAudio = true) (hrun : runTrace s labels = some (next, records)) :
    Plays s next :=
  runTrace_invariant hrun (Plays.refl hs) fun l hl _ _ _ hstep hnow =>
    hnow.trans (plays_of_step hnow.behind (haudio l hl) hstep)

end Audio

section Message

variable {scene_id : String} {quantize : Bool} {s next last : EngineState}
  {call : SceneCall} {calls : List SceneCall} {launches : List Launched}

theorem starts_eq_nil {t : AudioTrack} (hidle : t.launched_slot < 0 ∧ t.queued_slot < 0) :
    t.starts = [] := by
  unfold AudioTrack.starts
  rw [if_neg (by omega), if_neg (by omega)]
  rfl

theorem AudioGraph.Idle.no_starts {g : AudioGraph} (hidle : g.Idle) {t : AudioTrack}
    (ht : t ∈ g.tracks) (x : Int) : x ∉ t.starts := by
  rw [starts_eq_nil (hidle.2 t ht)]
  exact List.not_mem_nil

theorem idle_of_plays (hidle : s.graph.Idle) (hplays : Plays s next) : next.graph.Idle := by
  refine ⟨hplays.count.trans hidle.1, ?_⟩
  intro t ht
  have hnone : ∀ x, x ∉ t.starts := by
    intro x hx
    obtain ⟨old, hold, hx'⟩ := hplays.starts t ht x hx
    exact hidle.no_starts hold x hx'
  constructor
  · by_contra hlaunched
    apply hnone t.launch_clock
    simp [AudioTrack.starts, not_lt.mp hlaunched]
  · by_contra hqueued
    apply hnone t.queued_start
    simp [AudioTrack.starts, not_lt.mp hqueued]

/-- What a call that launches does to the graph: the first one sets the grid,
the later ones start on it or at once. -/
structure LaunchedBy (g next : AudioGraph) (quantize : Bool) (start : Int) : Prop where
  clock : next.session_clock = g.session_clock
  count : 0 < next.launched_count
  epoch : next.session_epoch =
    if g.launched_count = 0 then g.session_clock else g.session_epoch
  start_eq : start =
    if g.launched_count = 0 ∨ quantize = false then g.session_clock
    else AudioGraph.nextQuantumStart g.session_clock g.session_epoch g.session_quantum
  starts : ∀ t ∈ next.tracks, ∀ x ∈ t.starts, (∃ old ∈ g.tracks, x ∈ old.starts) ∨ x = start

theorem launchedBy_of_slotFor {g : AudioGraph} {track_id : String} {t : AudioTrack} {idx : Nat}
    (hopen : g.Idle ∨ 0 < g.launched_count)
    (hslot : g.slotFor track_id scene_id = some (t, idx)) :
    ∃ start, (g.launchSlot track_id scene_id false quantize).startOf track_id = some start ∧
      LaunchedBy g (g.launchSlot track_id scene_id false quantize) quantize start := by
  have hlaunched := @launchSlot_of_slotFor g track_id scene_id quantize t idx hslot
  obtain ⟨hfind, hid, hlaunch⟩ := hlaunched
  have hstart := @startOf_startSlot g track_id quantize t idx
    ((t.session_slots[idx]?.map SessionSlot.loop_len).getD 0) hfind hid
  rw [hlaunch]
  refine ⟨_, hstart, ?_⟩
  constructor
  · rfl
  · dsimp only [AudioGraph.startSlot]
    rcases hopen with ⟨hzero, hnone⟩ | hcount
    · have hidle := hnone t (List.mem_of_find?_eq_some hfind)
      rw [if_neg (by simpa using hidle), hzero]
      exact Int.one_pos
    · split <;> omega
  · simp only [AudioGraph.startSlot, decide_eq_true_eq]
  · rfl
  · intro t' ht' x hx
    rcases starts_startSlot hfind hid ht' hx with hold | hnew
    · exact Or.inl hold
    · right
      exact (Option.some.inj (hstart.symm.trans hnew)).symm

/-- One call and then the others: the audio thread plays, then the call
launches or finds no slot. -/
theorem runScene_cons
    (hrun : runScene scene_id quantize s (call :: calls) = some (last, launches)) :
    ∃ now records later, runTrace s call.played = some (now, records) ∧
      runScene scene_id quantize
        { now with graph := now.graph.launchSlot call.track_id scene_id false quantize } calls =
          some (last, later) ∧
      launches = ((now.graph.slotFor call.track_id scene_id).bind fun _ =>
        ((now.graph.launchSlot call.track_id scene_id false quantize).startOf call.track_id).map
          (Launched.mk now.graph.session_clock)).toList ++ later := by
  simp only [runScene, step, Option.bind_eq_bind, Option.bind_eq_some_iff,
    Option.some.injEq] at hrun
  obtain ⟨⟨now, records⟩, hplayed, ⟨next, rendered⟩, hnext, ⟨last', later⟩, hlater, hdone⟩ := hrun
  obtain ⟨rfl, -⟩ := Prod.mk.inj hnext
  obtain ⟨rfl, rfl⟩ := Prod.mk.inj (Option.some.inj hdone)
  exact ⟨now, records, later, hplayed, hlater, rfl⟩

/-- A call of the loop, with what it launched. -/
theorem call_cases {g : AudioGraph} {track_id : String} (hopen : g.Idle ∨ 0 < g.launched_count) :
    ((g.launchSlot track_id scene_id false quantize = g ∧
      ((g.slotFor track_id scene_id).bind fun _ =>
        ((g.launchSlot track_id scene_id false quantize).startOf track_id).map
          (Launched.mk g.session_clock)) = none)) ∨
    ∃ start, LaunchedBy g (g.launchSlot track_id scene_id false quantize) quantize start ∧
      ((g.slotFor track_id scene_id).bind fun _ =>
        ((g.launchSlot track_id scene_id false quantize).startOf track_id).map
          (Launched.mk g.session_clock)) = some ⟨g.session_clock, start⟩ := by
  cases hslot : g.slotFor track_id scene_id with
  | none => exact Or.inl ⟨launchSlot_of_no_slot hslot, rfl⟩
  | some slot =>
      right
      obtain ⟨start, hstart, hby⟩ :=
        @launchedBy_of_slotFor scene_id quantize g track_id slot.1 slot.2 hopen hslot
      refine ⟨start, hby, ?_⟩
      rw [Option.bind_some, hstart, Option.map_some]

/-- With the grid set, a launch starts on its origin when the clock stands
there and only then. -/
theorem launches_of_anchored (hs : s.ClockBehind) (hcount : 0 < s.graph.launched_count)
    (hepoch : s.graph.session_epoch ≤ s.graph.session_clock)
    (haudio : ∀ call ∈ calls, ∀ l ∈ call.played, l.isAudio = true)
    (hrun : runScene scene_id quantize s calls = some (last, launches)) :
    last.ClockBehind ∧
      (∀ a ∈ launches, a.start = s.graph.session_epoch ↔ a.clock = s.graph.session_epoch) ∧
      ∀ t ∈ last.graph.tracks, ∀ x ∈ t.starts,
        (∃ old ∈ s.graph.tracks, x ∈ old.starts) ∨ ∃ a ∈ launches, x = a.start := by
  induction calls generalizing s launches with
  | nil =>
      obtain ⟨rfl, rfl⟩ := Prod.mk.inj (Option.some.inj hrun)
      exact ⟨hs, List.forall_mem_nil _, fun t ht x hx => Or.inl ⟨t, ht, hx⟩⟩
  | cons call calls ih =>
      obtain ⟨now, records, later, hplayed, hlater, rfl⟩ := runScene_cons hrun
      have hplays := plays_of_run hs (haudio call List.mem_cons_self) hplayed
      have haudio' : ∀ call ∈ calls, ∀ l ∈ call.played, l.isAudio = true :=
        fun call' hcall' => haudio call' (List.mem_cons_of_mem call hcall')
      have hcount' : 0 < now.graph.launched_count := hplays.count ▸ hcount
      have hepoch' : now.graph.session_epoch ≤ now.graph.session_clock :=
        hplays.epoch ▸ hepoch.trans hplays.clock
      have hcases := @call_cases scene_id quantize now.graph call.track_id (Or.inr hcount')
      rcases hcases with ⟨hsame, hnone⟩ | ⟨start, hby, hsome⟩
      · rw [hsame] at hlater hnone
        rw [hsame, hnone]
        obtain ⟨hbehind, hstarts, htracks⟩ := ih hplays.behind hcount' hepoch' haudio' hlater
        refine ⟨hbehind, hplays.epoch ▸ hstarts, ?_⟩
        intro t ht x hx
        rcases htracks t ht x hx with ⟨old, hold, hx'⟩ | hlaunched
        · exact Or.inl (hplays.starts old hold x hx')
        · exact Or.inr hlaunched
      · rw [hsome]
        have hkept : (now.graph.launchSlot call.track_id scene_id false quantize).session_epoch =
            now.graph.session_epoch := by
          rw [hby.epoch, if_neg (by omega)]
        have hnext : EngineState.ClockBehind { now with
            graph := now.graph.launchSlot call.track_id scene_id false quantize } :=
          ⟨hplays.behind.1, hby.clock.le.trans hplays.behind.2⟩
        obtain ⟨hbehind, hstarts, htracks⟩ := ih hnext hby.count
          (hkept.le.trans (hepoch'.trans hby.clock.ge)) haudio' hlater
        rw [hkept, hplays.epoch] at hstarts
        refine ⟨hbehind, ?_, ?_⟩
        · intro a ha
          rcases List.mem_cons.mp ha with rfl | ha
          · rw [← hplays.epoch]
            dsimp only
            rw [hby.start_eq]
            split
            · exact Iff.rfl
            · exact nextQuantumStart_eq_epoch_iff hepoch'
          · exact hstarts a ha
        · intro t ht x hx
          rcases htracks t ht x hx with ⟨old, hold, hx'⟩ | ⟨a, ha, hxa⟩
          · rcases hby.starts old hold x hx' with ⟨older, holder, hx''⟩ | hnew
            · exact Or.inl (hplays.starts older holder x hx'')
            · exact Or.inr ⟨_, List.mem_cons_self, hnew⟩
          · exact Or.inr ⟨a, List.mem_cons_of_mem _ ha, hxa⟩

/-- From an idle session nothing is launched, or the first launch sets the
grid where it starts. -/
theorem launches_of_idle (hs : s.ClockBehind) (hidle : s.graph.Idle)
    (haudio : ∀ call ∈ calls, ∀ l ∈ call.played, l.isAudio = true)
    (hrun : runScene scene_id quantize s calls = some (last, launches)) :
    last.ClockBehind ∧
      (launches = [] ∨ ∃ origin, (∃ a ∈ launches, a.clock = origin ∧ a.start = origin) ∧
        ∀ a ∈ launches, a.start = origin ↔ a.clock = origin) ∧
      ∀ t ∈ last.graph.tracks, ∀ x ∈ t.starts, ∃ a ∈ launches, x = a.start := by
  induction calls generalizing s launches with
  | nil =>
      obtain ⟨rfl, rfl⟩ := Prod.mk.inj (Option.some.inj hrun)
      exact ⟨hs, Or.inl rfl, fun t ht x hx => absurd hx (hidle.no_starts ht x)⟩
  | cons call calls ih =>
      obtain ⟨now, records, later, hplayed, hlater, rfl⟩ := runScene_cons hrun
      have hplays := plays_of_run hs (haudio call List.mem_cons_self) hplayed
      have haudio' : ∀ call ∈ calls, ∀ l ∈ call.played, l.isAudio = true :=
        fun call' hcall' => haudio call' (List.mem_cons_of_mem call hcall')
      have hidle' := idle_of_plays hidle hplays
      have hcases := @call_cases scene_id quantize now.graph call.track_id (Or.inl hidle')
      rcases hcases with ⟨hsame, hnone⟩ | ⟨start, hby, hsome⟩
      · rw [hsame] at hlater hnone
        rw [hsame, hnone]
        exact ih hplays.behind hidle' haudio' hlater
      · rw [hsome]
        have horigin : (now.graph.launchSlot call.track_id scene_id false quantize).session_epoch =
            now.graph.session_clock := by
          rw [hby.epoch, if_pos hidle'.1]
        have hstart : start = now.graph.session_clock := by
          rw [hby.start_eq, if_pos (Or.inl hidle'.1)]
        have hnext : EngineState.ClockBehind { now with
            graph := now.graph.launchSlot call.track_id scene_id false quantize } :=
          ⟨hplays.behind.1, hby.clock.le.trans hplays.behind.2⟩
        obtain ⟨hbehind, hstarts, htracks⟩ := launches_of_anchored hnext hby.count
          (horigin.le.trans hby.clock.ge) haudio' hlater
        rw [horigin] at hstarts
        refine ⟨hbehind, Or.inr ⟨now.graph.session_clock, ?_, ?_⟩, ?_⟩
        · exact ⟨_, List.mem_cons_self, rfl, hstart⟩
        · intro a ha
          rcases List.mem_cons.mp ha with rfl | ha
          · exact iff_of_true hstart rfl
          · exact hstarts a ha
        · intro t ht x hx
          rcases htracks t ht x hx with ⟨old, hold, hx'⟩ | ⟨a, ha, hxa⟩
          · rcases hby.starts old hold x hx' with ⟨older, holder, hx''⟩ | hnew
            · exact absurd hx'' (hidle'.no_starts holder x)
            · exact ⟨_, List.mem_cons_self, hnew⟩
          · exact ⟨a, List.mem_cons_of_mem _ ha, hxa⟩

/-- The tracks that a scene message launches from an idle session share one
start exactly when its launches all read the same clock of the graph. -/
theorem sharesStart_iff (hreach : s.Reachable) (hidle : s.graph.Idle)
    (hmessage : SceneMessage scene_id quantize s last launches) :
    SharesStart last.graph launches ↔ ∀ a ∈ launches, ∀ b ∈ launches, a.clock = b.clock := by
  obtain ⟨calls, middle, after, records, -, haudio, hrun, hafter, hlast⟩ := hmessage
  obtain ⟨hbehind, horigin, htracks⟩ := launches_of_idle hreach.clockBehind hidle haudio hrun
  have hplays := plays_of_run hbehind hafter hlast
  have hheld : ∀ t ∈ last.graph.tracks, ∀ x ∈ t.starts, ∃ a ∈ launches, x = a.start := by
    intro t ht x hx
    obtain ⟨old, hold, hx'⟩ := hplays.starts t ht x hx
    exact htracks old hold x hx'
  constructor
  · rintro ⟨start, hshared, -⟩ a ha b hb
    rcases horigin with rfl | ⟨origin, ⟨first, hfirst, -, hstart⟩, hiff⟩
    · cases ha
    · have horig : start = origin := (hshared first hfirst).symm.trans hstart
      rw [(hiff a ha).mp ((hshared a ha).trans horig), (hiff b hb).mp ((hshared b hb).trans horig)]
  · intro hclocks
    rcases horigin with rfl | ⟨origin, ⟨first, hfirst, hclock, -⟩, hiff⟩
    · refine ⟨0, List.forall_mem_nil _, ?_⟩
      intro t ht x hx
      obtain ⟨a, ha, -⟩ := hheld t ht x hx
      cases ha
    · have hstarts : ∀ a ∈ launches, a.start = origin :=
        fun a ha => (hiff a ha).mpr ((hclocks a ha first hfirst).trans hclock)
      refine ⟨origin, hstarts, ?_⟩
      intro t ht x hx
      obtain ⟨a, ha, rfl⟩ := hheld t ht x hx
      exact hstarts a ha

end Message

/-- Two tracks with a slot for the same scene. -/
def twoTracks : EngineState where
  graph := { tracks :=
    [{ id := "a", chain := ["lead"], session_slots := [⟨"scene", 1000, [⟨60, 100, 0, 500⟩]⟩] },
     { id := "b", chain := ["bass"], session_slots := [⟨"scene", 1000, [⟨36, 100, 0, 500⟩]⟩] }] }

theorem twoTracks_reachable : twoTracks.Reachable :=
  EngineState.reachable_of_unstarted ⟨rfl, by decide⟩

theorem twoTracks_message {calls : List SceneCall} {launches : List Launched}
    (htracks : calls.map SceneCall.track_id = ["a", "b"])
    (haudio : ∀ call ∈ calls, ∀ l ∈ call.played, l.isAudio = true)
    (hrun : (runScene "scene" false twoTracks calls).map Prod.snd = some launches) :
    ∃ last, SceneMessage "scene" false twoTracks last launches := by
  obtain ⟨⟨last, _⟩, hlast, rfl⟩ := Option.map_eq_some_iff.mp hrun
  exact ⟨last, calls, last, [], [], htracks, haudio, hlast, List.forall_mem_nil _, rfl⟩

/-- Without a callback in between, the two tracks start together. -/
theorem sharesStart_twoTracks :
    ∃ last, SceneMessage "scene" false twoTracks last [⟨0, 0⟩, ⟨0, 0⟩] ∧
      SharesStart last.graph [⟨0, 0⟩, ⟨0, 0⟩] := by
  obtain ⟨last, hlast⟩ := @twoTracks_message [⟨[], "a"⟩, ⟨[], "b"⟩] [⟨0, 0⟩, ⟨0, 0⟩] rfl
    (by decide) rfl
  refine ⟨last, hlast, ?_⟩
  apply (sharesStart_iff twoTracks_reachable (by decide) hlast).mpr
  decide

/-- A buffer of two sub-blocks between the two launches moves the clock that
the second one reads. -/
theorem not_sharesStart_buffer_between :
    ¬∀ (s last : EngineState) (launches : List Launched), s.Reachable → s.graph.Idle →
      SceneMessage "scene" false s last launches → SharesStart last.graph launches := by
  intro hall
  obtain ⟨last, hlast⟩ := @twoTracks_message
    [⟨[], "a"⟩, ⟨[.enter 512 [], .block [], .block [], .leave], "b"⟩] [⟨0, 0⟩, ⟨256, 256⟩] rfl
    (by decide) rfl
  obtain ⟨start, hshared, -⟩ := hall twoTracks last _ twoTracks_reachable (by decide) hlast
  have hfirst := hshared ⟨0, 0⟩ (by decide)
  have hsecond := hshared ⟨256, 256⟩ (by decide)
  rw [← hsecond] at hfirst
  exact absurd hfirst (by decide)

end DawProject.Audio
