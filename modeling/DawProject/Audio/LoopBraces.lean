import DawProject.Lib.Run

/-!
The loop braces of `engine/src/transport/transport_state.h`: `setContentEnd`
and, on a project switch, `clearUserLoop` on the control thread of
`engine/src/main.cpp`; `setUserLoop`, `clearUserLoop` and the two loads of the
braces on the audio thread, in `engine/src/audio/audio_callback.cpp`. Every
access to an atomic is a step of its own.
-/

namespace DawProject.Audio.LoopBraces

structure TransportState where
  loop_start_ : Int := 0
  loop_end_ : Int := 0
  content_end_ : Int := 0
  user_loop_ : Bool := false

/-- Where a thread is in a call, named by the access that comes next. -/
inductive Call where
  | idle
  /-- `setContentEnd` -/
  | contentStore (end_ : Int)
  | flagLoad (end_ : Int)
  /-- `setUserLoop` -/
  | flagSet (start end_ : Int)
  /-- `clearUserLoop` -/
  | flagClear
  | contentLoad
  /-- `setLoopPoints` -/
  | startStore (start end_ : Int)
  | endStore (end_ : Int)
deriving DecidableEq, Repr

@[grind] def setContentEnd (end_ : Int) : Call := .contentStore end_

@[grind] def setUserLoop (start end_ : Int) : Call := .flagSet start end_

@[grind] def clearUserLoop : Call := .flagClear

@[grind] def setLoopPoints (start end_ : Int) : Call := .startStore start end_

/-- One access. -/
@[grind] def Call.advance (t : TransportState) : Call → Call × TransportState
  | .idle => (.idle, t)
  | .contentStore end_ => (.flagLoad end_, { t with content_end_ := end_ })
  | .flagLoad end_ => (if t.user_loop_ then .idle else setLoopPoints 0 end_, t)
  | .flagSet start end_ => (setLoopPoints start end_, { t with user_loop_ := true })
  | .flagClear => (.contentLoad, { t with user_loop_ := false })
  | .contentLoad => (setLoopPoints 0 t.content_end_, t)
  | .startStore start end_ => (.endStore end_, { t with loop_start_ := start })
  | .endStore end_ => (.idle, { t with loop_end_ := end_ })

/-- Past its access to the flag, with stores to the braces to come. -/
@[grind] def Call.writing : Call → Bool
  | .contentLoad | .startStore _ _ | .endStore _ => true
  | .idle | .contentStore _ | .flagLoad _ | .flagSet _ _ | .flagClear => false

inductive AudioThread where
  | call (next : Call)
  /-- Between the loads of `loop_start_` and `loop_end_`. -/
  | reading (start : Int)
deriving DecidableEq, Repr

@[grind] def AudioThread.writing : AudioThread → Bool
  | .call next => next.writing
  | .reading _ => false

/-- What a callback has read, with the content end of that moment and, while the
control thread is inside a call, the content end that was replaced last. -/
structure Observation where
  start : Int
  end_ : Int
  content_end : Int
  replaced : Option Int

/-- `region` is the region of the last command, `none` after a clear, and
`replaced` the content end before the last store to it. -/
structure State where
  transport : TransportState := {}
  control : Call := .idle
  /-- The call of the control thread belongs to a project switch. -/
  switching : Bool := false
  audio : AudioThread := .call .idle
  region : Option (Int × Int) := none
  replaced : Int := 0
  observed : List Observation := []

/-- A region command counts from its access to the flag. -/
@[grind] def Call.region (region : Option (Int × Int)) : Call → Option (Int × Int)
  | .flagSet start end_ => some (start, end_)
  | .flagClear => none
  | _ => region

@[grind] def Call.replaced (content_end replaced : Int) : Call → Int
  | .contentStore _ => content_end
  | _ => replaced

inductive Step (s : State) : State → Prop where
  | rebuilt (end_ : Int) (hcontrol : s.control = .idle) (hend : 0 ≤ end_) :
      Step s { s with control := setContentEnd end_, switching := false }
  | switched (hcontrol : s.control = .idle) :
      Step s { s with control := clearUserLoop, switching := true }
  | control :
      Step s { s with
        control := (s.control.advance s.transport).1
        transport := (s.control.advance s.transport).2
        region := s.control.region s.region
        replaced := s.control.replaced s.transport.content_end_ s.replaced }
  | set_region (start end_ : Int) (haudio : s.audio = .call .idle) (hstart : 0 ≤ start)
      (hend : start < end_) :
      Step s { s with audio := .call (setUserLoop start end_) }
  | clear_region (haudio : s.audio = .call .idle) :
      Step s { s with audio := .call clearUserLoop }
  | audio {next : Call} (haudio : s.audio = .call next) :
      Step s { s with
        audio := .call (next.advance s.transport).1
        transport := (next.advance s.transport).2
        region := next.region s.region }
  | getLoopStart (haudio : s.audio = .call .idle) :
      Step s { s with audio := .reading s.transport.loop_start_ }
  | getLoopEnd {start : Int} (haudio : s.audio = .reading start) :
      Step s { s with
        audio := .call .idle
        observed := s.observed ++ [⟨start, s.transport.loop_end_, s.transport.content_end_,
          if s.control = .idle then none else some s.replaced⟩] }

/-- The two threads do not write the braces at once, and a project switch does
not write them between the two loads of a callback. -/
structure Apart (s : State) : Prop where
  calls : s.control.writing = true → s.audio.writing = false
  loads : s.switching = true → s.control.writing = true → ∀ start, s.audio ≠ .reading start

/-- No call is under way. -/
def Quiet (s : State) : Prop := s.control = .idle ∧ s.audio = .call .idle

/-- The braces follow the content until a region is set. -/
def Settled (s : State) : Prop :=
  s.transport.user_loop_ = s.region.isSome ∧
    (s.transport.loop_start_, s.transport.loop_end_) =
      s.region.getD (0, s.transport.content_end_)

/-- Not inverted, and empty only for a content that is empty, or that was empty
before the call under way: the callback then neither wraps nor stops. -/
@[grind] def Observation.Fair (o : Observation) : Prop :=
  0 ≤ o.start ∧
    (o.start < o.end_ ∨
      o.start = 0 ∧ o.end_ = 0 ∧ (o.content_end = 0 ∨ o.replaced = some 0))

section Kept

/-- What the next access of the control thread relies on. -/
@[grind] def ControlSound (s : State) : Prop :=
  match s.control with
  | .idle => True
  | .contentStore end_ => 0 ≤ end_ ∧ s.switching = false
  | .flagLoad end_ => end_ = s.transport.content_end_ ∧ s.switching = false
  | .flagSet _ _ => False
  | .flagClear => s.switching = true
  | .contentLoad => s.region = none ∧ s.switching = true
  | .startStore start end_ => s.region = none ∧ start = 0 ∧ end_ = s.transport.content_end_
  | .endStore end_ =>
      s.region = none ∧ s.transport.loop_start_ = 0 ∧ end_ = s.transport.content_end_

/-- The content end, or the one before it while the control thread has still to
look at the flag. -/
@[grind] def Recent (s : State) (end_ : Int) : Prop :=
  0 ≤ end_ ∧
    (end_ = s.transport.content_end_ ∨
      s.control = .flagLoad s.transport.content_end_ ∧ end_ = s.replaced)

@[grind] def AudioSound (s : State) : Prop :=
  match s.audio with
  | .call .idle | .call .flagClear => True
  | .call (.contentStore _) | .call (.flagLoad _) => False
  | .call (.flagSet start end_) => 0 ≤ start ∧ start < end_
  | .call .contentLoad => s.region = none
  | .call (.startStore start end_) =>
      s.region = some (start, end_) ∨ s.region = none ∧ start = 0 ∧ Recent s end_
  | .call (.endStore end_) =>
      s.region = some (s.transport.loop_start_, end_) ∨
        s.region = none ∧ s.transport.loop_start_ = 0 ∧ Recent s end_
  | .reading start =>
      s.region = some (start, s.transport.loop_end_) ∨ s.region = none ∧ start = 0

/-- The braces while the audio thread does not write them. -/
@[grind] def BracesSound (s : State) : Prop :=
  match s.region with
  | some (start, end_) => s.transport.loop_start_ = start ∧ s.transport.loop_end_ = end_
  | none =>
      if s.control.writing then
        s.switching = true ∨ s.transport.loop_start_ = 0 ∧ 0 ≤ s.transport.loop_end_ ∧
          (s.transport.loop_end_ = s.transport.content_end_ ∨
            s.transport.loop_end_ = s.replaced)
      else s.transport.loop_start_ = 0 ∧ Recent s s.transport.loop_end_

structure Sound (s : State) : Prop where
  flag : s.transport.user_loop_ = s.region.isSome
  region : ∀ start end_, s.region = some (start, end_) → 0 ≤ start ∧ start < end_
  content : 0 ≤ s.transport.content_end_
  control : ControlSound s
  audio : AudioSound s
  braces : s.audio.writing = false → BracesSound s
  observed : ∀ o ∈ s.observed, o.Fair

variable {s t : State}

theorem sound_started : Sound {} where
  flag := rfl
  region := nofun
  content := Int.le_refl 0
  control := trivial
  audio := trivial
  braces _ := ⟨rfl, Int.le_refl 0, Or.inl rfl⟩
  observed := List.forall_mem_nil _

/-- An access of the control thread. It stores to the braces only while no
region is set, and the audio thread looks on. -/
theorem Sound.control_step (hs : Sound s) (hapart : Apart s)
    (hcontrol : t.control = (s.control.advance s.transport).1)
    (htransport : t.transport = (s.control.advance s.transport).2)
    (hregion : t.region = s.control.region s.region)
    (hreplaced : t.replaced = s.control.replaced s.transport.content_end_ s.replaced)
    (hswitching : t.switching = s.switching) (haudio : t.audio = s.audio)
    (hobserved : t.observed = s.observed) (hnext : Apart t) : Sound t := by
  obtain ⟨hflag, hordered, hcontent, hcontrolled, hplayed, hbraces, hfair⟩ := hs
  have hcalls := hapart.calls
  have hcalls' := hnext.calls
  have hloads' := hnext.loads
  cases hphase : s.control with
  | idle => constructor <;> grind -linarith
  | contentStore end_ =>
      -- the braces fall behind the content until the flag has been looked at
      constructor <;> grind -linarith
  | flagLoad end_ =>
      -- a region ends the call; without one the audio thread is not writing either
      constructor <;> grind -linarith
  | flagSet start end_ => constructor <;> grind -linarith
  | flagClear =>
      -- no callback is between its two loads, so none mixes the region with the content
      constructor <;> grind -linarith
  | contentLoad => constructor <;> grind -linarith
  | startStore start end_ => constructor <;> grind -linarith
  | endStore end_ => constructor <;> grind -linarith

/-- An access of the audio thread in one of its calls, which the stores of the
control thread stay clear of. -/
theorem Sound.audio_step (hs : Sound s) (hapart : Apart s) {next : Call}
    (haudio : s.audio = .call next)
    (hadvanced : t.audio = .call (next.advance s.transport).1)
    (htransport : t.transport = (next.advance s.transport).2)
    (hregion : t.region = next.region s.region) (hreplaced : t.replaced = s.replaced)
    (hswitching : t.switching = s.switching) (hcontrol : t.control = s.control)
    (hobserved : t.observed = s.observed) (hnext : Apart t) : Sound t := by
  obtain ⟨hflag, hordered, hcontent, hcontrolled, hplayed, hbraces, hfair⟩ := hs
  have hcalls := hapart.calls
  have hcalls' := hnext.calls
  cases next with
  | idle => constructor <;> grind -linarith
  | contentStore end_ => constructor <;> grind -linarith
  | flagLoad end_ => constructor <;> grind -linarith
  | flagSet start end_ =>
      -- from here on the control thread sees the flag and leaves the braces alone
      constructor <;> grind -linarith
  | flagClear => constructor <;> grind -linarith
  | contentLoad => constructor <;> grind -linarith
  | startStore start end_ => constructor <;> grind -linarith
  | endStore end_ => constructor <;> grind -linarith

theorem Sound.getLoopEnd (hs : Sound s) (hapart : Apart s) {start : Int}
    (haudio : s.audio = .reading start) :
    Observation.Fair ⟨start, s.transport.loop_end_, s.transport.content_end_,
      if s.control = .idle then none else some s.replaced⟩ := by
  have hplayed := hs.audio
  have hbraces := hs.braces (by rw [haudio]; rfl)
  simp only [AudioSound, haudio] at hplayed
  rcases hplayed with hregion | ⟨hregion, rfl⟩
  · obtain ⟨hstart, hend⟩ := hs.region _ _ hregion
    exact ⟨hstart, Or.inl hend⟩
  · simp only [BracesSound, hregion] at hbraces
    refine ⟨Int.le_refl 0, ?_⟩
    have hloads := hapart.loads
    have hcontent := hs.content
    by_cases hempty : s.transport.loop_end_ = 0
    · right
      grind
    · left
      grind

theorem sound_of_step (hs : Sound s) (hapart : Apart s) (hstep : Step s t) (hnext : Apart t) :
    Sound t := by
  cases hstep with
  | rebuilt end_ hcontrol hend =>
      obtain ⟨hflag, hordered, hcontent, hcontrolled, hplayed, hbraces, hfair⟩ := hs
      constructor <;> grind -linarith
  | switched hcontrol =>
      obtain ⟨hflag, hordered, hcontent, hcontrolled, hplayed, hbraces, hfair⟩ := hs
      constructor <;> grind -linarith
  | control => exact hs.control_step hapart rfl rfl rfl rfl rfl rfl rfl hnext
  | set_region start end_ haudio hstart hend =>
      obtain ⟨hflag, hordered, hcontent, hcontrolled, hplayed, hbraces, hfair⟩ := hs
      constructor <;> grind -linarith
  | clear_region haudio =>
      obtain ⟨hflag, hordered, hcontent, hcontrolled, hplayed, hbraces, hfair⟩ := hs
      constructor <;> grind -linarith
  | audio haudio => exact hs.audio_step hapart haudio rfl rfl rfl rfl rfl rfl rfl hnext
  | getLoopStart haudio =>
      have hloads := hnext.loads
      obtain ⟨hflag, hordered, hcontent, hcontrolled, hplayed, hbraces, hfair⟩ := hs
      constructor <;> grind -linarith
  | @getLoopEnd start haudio =>
      have hread := hs.getLoopEnd hapart haudio
      obtain ⟨hflag, hordered, hcontent, hcontrolled, hplayed, hbraces, hfair⟩ := hs
      constructor <;> grind -linarith

theorem Sound.settled (hs : Sound s) (hquiet : Quiet s) : Settled s := by
  obtain ⟨hcontrol, haudio⟩ := hquiet
  have hbraces := hs.braces (by rw [haudio]; rfl)
  refine ⟨hs.flag, ?_⟩
  unfold BracesSound at hbraces
  split at hbraces
  · rename_i start end_ hregion
    rw [hregion, hbraces.1, hbraces.2]
    rfl
  · rename_i hregion
    rw [hcontrol] at hbraces
    obtain ⟨hstart, -, hend⟩ := hbraces
    rw [hcontrol] at hend
    rw [hregion, hstart, hend.resolve_right fun h => nomatch h.1]
    rfl

end Kept

end DawProject.Audio.LoopBraces
