import DawProject.Audio.Partition

/-!
The session clock over a run of callbacks. It advances sub-block by sub-block
when the graph is processed, and in bulk on the silent paths. A callback that
reaches the end of the content stops in the middle of its buffer, and the
silent tail is not counted.
-/

namespace DawProject.Audio

open Midi

/-- The engine with its graph slot: `active_graph` is null until the first
graph is published. -/
structure Device where
  engine : EngineState
  loaded : Bool
deriving DecidableEq, Repr

/-- A callback that finds no graph: silence, and the clock goes on. -/
def silentCallback (s : EngineState) (frame_count : Nat) (cmds : List AudioCommand) :
    EngineState :=
  if frame_count > MAX_REASONABLE_FRAMES ∨ frame_count = 0 then s
  else
    { s with
      transport := processCommands s.transport cmds
      session_clock := s.session_clock + frame_count }

/-- A step of the device. The control thread has no graph to launch on, mute
or solo before the first one. -/
def Device.step (d : Device) : Label → Option Device
  | .enter frame_count cmds =>
      if d.engine.inside.isNone then
        if d.loaded then some { d with engine := enterCallback d.engine frame_count cmds }
        else some { d with engine := silentCallback d.engine frame_count cmds }
      else none
  | .rebuild graph content_end vst3_nodes =>
      (Audio.step d.engine (.rebuild graph content_end vst3_nodes)).map
        fun next => ⟨next.1, true⟩
  | .setMonitor track_id solo mute =>
      if d.loaded then
        (Audio.step d.engine (.setMonitor track_id solo mute)).map fun next => ⟨next.1, true⟩
      else some d
  | .launch track_id scene_id stop quantize =>
      if d.loaded then
        (Audio.step d.engine (.launch track_id scene_id stop quantize)).map
          fun next => ⟨next.1, true⟩
      else some d
  | .block live => (Audio.step d.engine (.block live)).map fun next => ⟨next.1, d.loaded⟩
  | .leave => (Audio.step d.engine .leave).map fun next => ⟨next.1, d.loaded⟩

def Device.run : Device → List Label → Option Device
  | d, [] => some d
  | d, l :: labels => do
      let next ← d.step l
      next.run labels

/-- A callback is counted in full: it is not refused for its size, and does not
go past the end of the content of a transport that plays without a loop. -/
def Device.Covers (d : Device) : Label → Prop
  | .enter frame_count cmds =>
      frame_count ≤ MAX_REASONABLE_FRAMES ∧
        (d.loaded = true → 0 < frame_count →
          (processCommands d.engine.transport cmds).playing = true →
          (processCommands d.engine.transport cmds).looping = false →
          0 < (processCommands d.engine.transport cmds).content_end →
          (processCommands d.engine.transport cmds).position + frame_count ≤
            (processCommands d.engine.transport cmds).content_end)
  | _ => True

/-- Every label of the run is taken in a state where `P` holds of it. -/
def Device.Every (P : Device → Label → Prop) : Device → List Label → Prop
  | _, [] => True
  | d, l :: labels => P d l ∧ ∀ next, d.step l = some next → next.Every P labels

section Lost

variable {cb : Callback} {s : EngineState} {d : Device}

/-- The frames of the buffer past the end of the content. -/
def Callback.lost (cb : Callback) : Nat :=
  if cb.is_playing = true ∧ cb.bounded ∧ cb.looping = false then
    min cb.remaining (cb.position + cb.remaining - cb.loop_end).toNat
  else 0

theorem Callback.lost_le (cb : Callback) : cb.lost ≤ cb.remaining := by
  unfold Callback.lost
  split <;> omega

/-- The clock at the end of the callback. -/
def EngineState.due (s : EngineState) : Int :=
  match s.inside with
  | some cb => s.session_clock + cb.remaining - cb.lost
  | none => s.session_clock

theorem due_of_idle (hidle : s.inside = none) : s.due = s.session_clock := by
  simp only [EngineState.due, hidle]

theorem due_of_inside (hcb : s.inside = some cb) :
    s.due = s.session_clock + cb.remaining - cb.lost := by
  simp only [EngineState.due, hcb]

theorem Callback.lost_of_end (hplays : cb.is_playing = true) (hbounded : cb.bounded)
    (hlooping : cb.looping = false) :
    cb.lost = min cb.remaining (cb.position + cb.remaining - cb.loop_end).toNat :=
  if_pos ⟨hplays, hbounded, hlooping⟩

theorem Callback.lost_of_no_end
    (hends : ¬(cb.is_playing = true ∧ cb.bounded ∧ cb.looping = false)) : cb.lost = 0 :=
  if_neg hends

/-- A sub-block counts its frames, and leaves the others due. -/
theorem lost_of_chunk {rest : Callback} (hgo : ¬(cb.atEnd ∧ cb.looping = false))
    (hrest : rest = { cb with
      remaining := cb.remaining - cb.chunk
      position := if cb.is_playing then cb.start + cb.chunk else cb.start }) :
    rest.lost = cb.lost := by
  have hsize : cb.chunk ≤ cb.remaining := Callback.chunk_le_remaining
  by_cases hends : cb.is_playing = true ∧ cb.bounded ∧ cb.looping = false
  · obtain ⟨hplays, hbounded, hlooping⟩ := hends
    have hstart : cb.start = cb.position := by
      rw [Callback.start, if_neg (by simp [hlooping])]
    have hlt := Callback.start_lt hbounded hplays hgo
    have hbrace := Callback.chunk_le_brace hbounded hplays hgo
    have hsame : rest.is_playing = true ∧ rest.bounded ∧ rest.looping = false := by
      rw [hrest]
      exact ⟨hplays, hbounded, hlooping⟩
    rw [Callback.lost_of_end hplays hbounded hlooping,
      Callback.lost_of_end hsame.1 hsame.2.1 hsame.2.2, hrest]
    simp only [hplays, if_true]
    omega
  · have hsame : ¬(rest.is_playing = true ∧ rest.bounded ∧ rest.looping = false) := by
      rw [hrest]
      exact hends
    rw [Callback.lost_of_no_end hends, Callback.lost_of_no_end hsame]

theorem due_of_renderBlock (hcb : s.inside = some cb) (live : List MidiEvent) :
    (renderBlock s cb live).1.due = s.due := by
  rw [due_of_inside hcb]
  unfold renderBlock
  split
  · rename_i hend
    obtain ⟨⟨hplays, hbounded, hat⟩, hlooping⟩ := hend
    have hall : cb.lost = cb.remaining := by
      rw [Callback.lost, if_pos ⟨hplays, hbounded, hlooping⟩]
      omega
    have hnone : ({ cb with remaining := 0, position := cb.loop_end } : Callback).lost = 0 :=
      Nat.le_zero.mp (Callback.lost_le _)
    rw [due_of_inside rfl, hall, hnone]
    simp
  · rename_i hgo
    have hsize : cb.chunk ≤ cb.remaining := Callback.chunk_le_remaining
    rw [due_of_inside rfl, lost_of_chunk hgo rfl]
    dsimp only
    omega

/-- The frames of the label that the clock never counts. -/
def Device.lost (d : Device) : Label → Nat
  | .enter frame_count cmds =>
      if frame_count > MAX_REASONABLE_FRAMES then frame_count
      else if d.loaded = true ∧ (processCommands d.engine.transport cmds).playing = true ∧
          (processCommands d.engine.transport cmds).looping = false ∧
          0 < (processCommands d.engine.transport cmds).content_end then
        min frame_count ((processCommands d.engine.transport cmds).position + frame_count -
          (processCommands d.engine.transport cmds).content_end).toNat
      else 0
  | _ => 0

theorem covers_iff (l : Label) : d.Covers l ↔ d.lost l = 0 := by
  cases l with
  | enter frame_count cmds =>
      simp only [Device.Covers, Device.lost]
      by_cases hbig : frame_count > MAX_REASONABLE_FRAMES
      · rw [if_pos hbig]
        omega
      · rw [if_neg hbig]
        split
        · rename_i hends
          simp only [hends, true_imp_iff]
          omega
        · rename_i hends
          constructor
          · exact fun _ => rfl
          · intro _
            refine ⟨by omega, ?_⟩
            intro hloaded _ hplaying hlooping hcontent
            exact absurd ⟨hloaded, hplaying, hlooping, hcontent⟩ hends
  | block live => simp [Device.Covers, Device.lost]
  | leave => simp [Device.Covers, Device.lost]
  | setMonitor track_id solo mute => simp [Device.Covers, Device.lost]
  | launch track_id scene_id stop quantize => simp [Device.Covers, Device.lost]
  | rebuild graph content_end vst3_nodes => simp [Device.Covers, Device.lost]

theorem due_of_enterCallback (hidle : d.engine.inside = none) (hloaded : d.loaded = true)
    (frame_count : Nat) (cmds : List AudioCommand) :
    (enterCallback d.engine frame_count cmds).due + d.lost (.enter frame_count cmds) =
      d.engine.session_clock + frame_count := by
  simp only [Device.lost, hloaded, true_and]
  unfold enterCallback
  split
  · rename_i hrefused
    rw [due_of_idle hidle]
    split
    · rfl
    · have hzero : frame_count = 0 := by omega
      subst hzero
      split <;> simp
  · rename_i haccepted
    rw [if_neg (fun hbig => haccepted (Or.inl hbig))]
    dsimp only
    split
    · rename_i hsilent
      have hstopped : (processCommands d.engine.transport cmds).playing = false := by
        simp only [Bool.and_eq_true, Bool.not_eq_true'] at hsilent
        exact hsilent.1
      simp only [EngineState.due, hidle, hstopped]
      simp
    · rw [due_of_inside rfl, Callback.lost]
      dsimp only [Callback.bounded]
      by_cases hlooping : (processCommands d.engine.transport cmds).looping = true
      · simp [hlooping]
      · rw [Bool.not_eq_true] at hlooping
        simp only [hlooping, Bool.false_eq_true, if_false, and_true, true_and, gt_iff_lt]
        omega

theorem due_of_silentCallback (hidle : d.engine.inside = none) (hloaded : d.loaded = false)
    (frame_count : Nat) (cmds : List AudioCommand) :
    (silentCallback d.engine frame_count cmds).due + d.lost (.enter frame_count cmds) =
      d.engine.session_clock + frame_count := by
  simp only [Device.lost, hloaded, Bool.false_eq_true, false_and, if_false]
  unfold silentCallback
  split
  · rename_i hrefused
    rw [due_of_idle hidle]
    split <;> omega
  · rename_i haccepted
    rw [if_neg (fun hbig => haccepted (Or.inl hbig))]
    simp only [EngineState.due, hidle]
    simp

/-- What a step of the engine inside a callback leaves due. -/
theorem due_of_engineStep {next : EngineState} {rendered : Option BlockRecord} {l : Label}
    (hl : ∀ frame_count cmds, l ≠ .enter frame_count cmds)
    (hstep : Audio.step s l = some (next, rendered)) : next.due = s.due := by
  cases l with
  | enter frame_count cmds => exact absurd rfl (hl frame_count cmds)
  | block live =>
      simp only [Audio.step] at hstep
      split at hstep
      · rename_i cb hcb
        obtain ⟨_, hnext⟩ := Option.ite_none_right_eq_some.mp hstep
        have hdue := due_of_renderBlock hcb live
        rwa [Option.some.inj hnext] at hdue
      · cases hstep
  | leave =>
      simp only [Audio.step] at hstep
      split at hstep
      · rename_i cb hcb
        obtain ⟨hdone, hnext⟩ := Option.ite_none_right_eq_some.mp hstep
        cases hnext
        have hnone := cb.lost_le
        rw [due_of_inside hcb, due_of_idle rfl]
        simp only [leaveCallback]
        omega
      · cases hstep
  | setMonitor track_id solo mute =>
      cases hstep
      rfl
  | launch track_id scene_id stop quantize =>
      cases hstep
      rfl
  | rebuild graph content_end vst3_nodes =>
      simp only [Audio.step] at hstep
      obtain ⟨_, hnext⟩ := Option.ite_none_right_eq_some.mp hstep
      cases hnext
      rfl

/-- A step adds its frames to what is due, but for those it loses. -/
theorem due_of_step {next : Device} {l : Label} (hstep : d.step l = some next) :
    next.engine.due + d.lost l = d.engine.due + l.frames := by
  have hengine : ∀ {l : Label} {loaded : Bool}, (∀ frame_count cmds, l ≠ .enter frame_count cmds) →
      (Audio.step d.engine l).map (fun next => (⟨next.1, loaded⟩ : Device)) = some next →
      next.engine.due = d.engine.due := by
    intro l loaded hl hmap
    obtain ⟨⟨engine, rendered⟩, hnext, rfl⟩ := Option.map_eq_some_iff.mp hmap
    exact due_of_engineStep hl hnext
  cases l with
  | enter frame_count cmds =>
      simp only [Device.step] at hstep
      obtain ⟨hidle, hnext⟩ := Option.ite_none_right_eq_some.mp hstep
      rw [Option.isNone_iff_eq_none] at hidle
      rw [due_of_idle hidle, Label.frames]
      split at hnext
      · rename_i hloaded
        cases hnext
        exact due_of_enterCallback hidle hloaded frame_count cmds
      · rename_i hloaded
        cases hnext
        exact due_of_silentCallback hidle (by simpa using hloaded) frame_count cmds
  | block live => simpa [Device.lost, Label.frames] using hengine (by simp) hstep
  | leave => simpa [Device.lost, Label.frames] using hengine (by simp) hstep
  | setMonitor track_id solo mute =>
      simp only [Device.step] at hstep
      split at hstep
      · simpa [Device.lost, Label.frames] using hengine (by simp) hstep
      · cases hstep
        simp [Device.lost, Label.frames]
  | launch track_id scene_id stop quantize =>
      simp only [Device.step] at hstep
      split at hstep
      · simpa [Device.lost, Label.frames] using hengine (by simp) hstep
      · cases hstep
        simp [Device.lost, Label.frames]
  | rebuild graph content_end vst3_nodes =>
      simpa [Device.lost, Label.frames] using hengine (by simp) hstep

/-- In any run the clock is late by the frames its callbacks lose. -/
theorem due_of_run {labels : List Label} {last : Device} (hrun : d.run labels = some last) :
    last.engine.due ≤ d.engine.due + totalFrames labels ∧
      (last.engine.due = d.engine.due + totalFrames labels ↔ d.Every Device.Covers labels) := by
  induction labels generalizing d with
  | nil =>
      cases hrun
      simp [totalFrames, Device.Every]
  | cons l labels ih =>
      obtain ⟨next, hnext, hrest⟩ := Option.bind_eq_some_iff.mp hrun
      have hstep := due_of_step hnext
      obtain ⟨hle, hiff⟩ := ih hrest
      have htotal : totalFrames (l :: labels) = l.frames + totalFrames labels := by
        simp [totalFrames]
      have hevery : d.Every Device.Covers (l :: labels) ↔
          d.lost l = 0 ∧ next.Every Device.Covers labels := by
        simp only [Device.Every, hnext, Option.some.injEq, forall_eq', covers_iff]
      rw [htotal, hevery, ← hiff]
      constructor <;> omega

end Lost

/-- Between two callbacks the session clock is never ahead of the frames the
device asked for, and it has counted them all exactly when every callback so
far was of an accepted size and did not go past the end of the content. -/
theorem sessionClock_exact_iff (d last : Device) (labels : List Label)
    (hstart : d.engine.inside = none) (hrun : d.run labels = some last)
    (hlast : last.engine.inside = none) :
    last.engine.session_clock ≤ d.engine.session_clock + totalFrames labels ∧
      (last.engine.session_clock = d.engine.session_clock + totalFrames labels ↔
        d.Every Device.Covers labels) := by
  have hdue := due_of_run hrun
  rwa [due_of_idle hstart, due_of_idle hlast] at hdue

/-- A device before its first graph. -/
def bareDevice : Device := ⟨{ graph := { tracks := [] } }, false⟩

/-- A callback before the first graph, and one of `frame_count` frames that
starts to play a content of 300 samples, with three turns at most. -/
def playOnce300 (frame_count turns : Nat) : List Label :=
  [.enter 128 [], .rebuild { tracks := [] } 300 [], .enter frame_count [.play]] ++
    List.replicate turns (.block []) ++ [.leave]

/-- A callback that ends before the content does is counted. -/
theorem sessionClock_exact_inside :
    bareDevice.Every Device.Covers (playOnce300 256 1) :=
  (sessionClock_exact_iff bareDevice ((bareDevice.run (playOnce300 256 1)).getD bareDevice)
    (playOnce300 256 1) rfl rfl rfl).2.mp rfl

/-- A callback of 512 frames stops after 300, and so does the clock. -/
theorem not_sessionClock_exact_at_end :
    ¬ ∀ (d last : Device) (labels : List Label), d.engine.inside = none →
      d.run labels = some last → last.engine.inside = none →
      last.engine.session_clock = d.engine.session_clock + totalFrames labels := by
  intro hall
  have hclaim := hall bareDevice ((bareDevice.run (playOnce300 512 3)).getD bareDevice)
    (playOnce300 512 3) rfl rfl rfl
  revert hclaim
  decide

end DawProject.Audio
