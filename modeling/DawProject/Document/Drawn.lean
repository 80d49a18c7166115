import DawProject.Lib.Mapped
import DawProject.Tempo.Twins
import DawProject.Document.Geometry
import DawProject.Document.Resolve

/-!
What the web draws against what the engine plays. Each side resolves the
musical positions of a document on its own: the web from the presence of a
tick, the engine from its sign and from version 2 on. Where the ticks of a
version 2 document are not negative and both read the same tempo map, the two
leave the same samples on every clip and note.
-/

namespace DawProject.Document

open Tempo
open Machine
open Tempo.Engine (kInt64Max kMaxSampleRate kMaxTick)

/-- The drawn position and length of a note are those the engine plays. -/
def NoteAgrees (doc : ProjectDef) (c : ClipDef) (n : NoteDef) (e : Engine.NoteDef) : Prop :=
  noteStartSamples n c doc = .ok e.start_sample ∧
    noteLengthSamples n c doc = .ok e.length_samples

def ClipAgrees (doc : ProjectDef) (c : ClipDef) (e : Engine.ClipDef) : Prop :=
  clipStartSamples c doc = .ok e.start_sample ∧ clipLengthSamples c doc = .ok e.length_samples ∧
    List.Forall₂ (NoteAgrees doc c) (c.notes.getD []) e.notes

def TrackAgrees (doc : ProjectDef) (t : TrackDef) (e : Engine.TrackDef) : Prop :=
  List.Forall₂ (ClipAgrees doc) t.clips e.clips

/-- The engine resolves the document without overflow, and every clip and
every note is drawn where it is played. -/
def DrawnAsPlayed (doc : ProjectDef) : Prop :=
  ∃ played, Engine.resolveMusicalTime (Engine.readDocument doc) = some played ∧
    List.Forall₂ (TrackAgrees doc) doc.tracks played.tracks

/-- An integer that a number of the language holds exactly. -/
def SafeTick (tick : Option Int) : Prop := ∀ v ∈ tick, v.natAbs < 2 ^ 53

def NoteDef.Safe (n : NoteDef) : Prop := SafeTick n.startTick ∧ SafeTick n.lengthTick

def ClipDef.Safe (c : ClipDef) : Prop :=
  SafeTick c.startTick ∧ SafeTick c.lengthTick ∧ ∀ n ∈ c.notes.getD [], n.Safe

/-- Every tick of the document is an exact integer. -/
def ProjectDef.Safe (doc : ProjectDef) : Prop :=
  (∀ t ∈ doc.tracks, ∀ c ∈ t.clips, c.Safe) ∧
    ∀ p ∈ doc.tempoMap.getD [], p.tick.natAbs < 2 ^ 53

/-- A note tick that is present is not negative, and neither is its length. -/
def NoteDef.TicksFit (n : NoteDef) : Prop :=
  ∀ start ∈ n.startTick, 0 ≤ start ∧ ∀ length ∈ n.lengthTick, 0 ≤ length

def ClipDef.TicksFit (c : ClipDef) : Prop :=
  ∀ start ∈ c.startTick, 0 ≤ start ∧ (∀ length ∈ c.lengthTick, 0 ≤ length) ∧
    ∀ n ∈ c.notes.getD [], n.TicksFit

/-- The register of the engine: a tempo that is not positive reads as absent. -/
def engineRegister (doc : ProjectDef) : Int :=
  if doc.tempoMilliBpm.getD 0 > 0 then doc.tempoMilliBpm.getD 0 else 120000

/-- Both sides read the same register, or the map starts at tick zero and
neither reads it. -/
def RegisterAgrees (doc : ProjectDef) : Prop :=
  (∀ m ∈ doc.tempoMilliBpm, 0 < m) ∨
    ∃ p rest, doc.tempoMap.getD [] = p :: rest ∧ p.tick = 0

/-- Before version 2 no clip is musical. From version 2 on the tempo map is in
order, its table fits in 64 bits, both sides read the same register and no
tick is negative. -/
def ResolvesAlike (doc : ProjectDef) : Prop :=
  if doc.schemaVersion < 2 then ∀ t ∈ doc.tracks, ∀ c ∈ t.clips, c.startTick = none
  else
    SortedFromZero (doc.tempoMap.getD []) ∧
      TableFits (engineRegister doc) (doc.tempoMap.getD []) doc.sampleRate ∧
      RegisterAgrees doc ∧ ∀ t ∈ doc.tracks, ∀ c ∈ t.clips, c.TicksFit

section Positions

/-- A common reading of ticks: both kernels compute it, it stays within the
exact numbers, and it does not tell apart ticks beyond the clamp. -/
structure Positions (r : Resolver) (at_ : Int → Option Int) where
  pos : Int → Int
  web : ∀ t, r.at_ t = .ok (pos t)
  engine : ∀ t, at_ t = some (pos t)
  nonneg : ∀ t, 0 ≤ pos t
  small : ∀ t, pos t < 2 ^ 53
  clamped : ∀ s t, MAX_TICK ≤ s → MAX_TICK ≤ t → pos s = pos t

variable {r : Resolver} {at_ : Int → Option Int}

/-- Rounding a sum of ticks to a double leaves its position. -/
theorem Positions.pos_ofInt (P : Positions r at_) {x : Int} (hx : 0 ≤ x) :
    P.pos (Binary64.ofInt x) = P.pos x := by
  rcases lt_or_ge x (2 ^ 53) with hsmall | hlarge
  · rw [Binary64.ofInt_of_natAbs_lt (by omega)]
  · apply P.clamped
    · exact le_trans (by norm_num [MAX_TICK]) (Binary64.le_ofInt_of_le hlarge)
    · exact le_trans (by norm_num [MAX_TICK]) hlarge

theorem Positions.pos_plus (P : Positions r at_) {a b : Int} (ha : 0 ≤ a) (hb : 0 ≤ b) :
    P.pos (plus a b) = P.pos (a + b) :=
  P.pos_ofInt (by omega)

theorem Positions.pos_plus_plus (P : Positions r at_) {a b c : Int} (ha : 0 ≤ a) (hb : 0 ≤ b)
    (hc : 0 ≤ c) : P.pos (plus (plus a b) c) = P.pos (a + b + c) := by
  have hab : 0 ≤ plus a b := Binary64.min_le_ofInt (by omega) (by norm_num) (by omega)
  rw [P.pos_plus hab hc]
  rcases lt_or_ge (a + b) (2 ^ 53) with hsmall | hlarge
  · rw [plus, Binary64.ofInt_of_natAbs_lt (by omega)]
  · have hround : 2 ^ 53 ≤ plus a b := Binary64.le_ofInt_of_le hlarge
    apply P.clamped <;> unfold MAX_TICK <;> omega

theorem Positions.minus_pos (P : Positions r at_) (s t : Int) :
    minus (P.pos s) (P.pos t) = P.pos s - P.pos t := by
  have hs := P.small s
  have ht := P.small t
  have hs' := P.nonneg s
  have ht' := P.nonneg t
  exact Binary64.ofInt_of_natAbs_lt (by omega)

theorem Positions.fit_sub (P : Positions r at_) (s t : Int) :
    int64.fit (P.pos s - P.pos t) = some (P.pos s - P.pos t) := by
  have hs := P.small s
  have ht := P.small t
  have hs' := P.nonneg s
  have ht' := P.nonneg t
  exact Range.fit_of_mem (by simp only [int64_lo]; omega) (by simp only [int64_hi]; omega)

theorem fit_of_small {x : Int} (hx : x.natAbs < 2 ^ 56) : int64.fit x = some x :=
  Range.fit_of_mem (by simp only [int64_lo]; omega) (by simp only [int64_hi]; omega)

variable {doc : ProjectDef}

/-- A note of a musical clip. -/
theorem noteAgrees_of_positions (P : Positions r at_) (hresolver : resolverFor doc = .ok r)
    {c : ClipDef} {n : NoteDef} {start : Int} (hmusical : c.startTick = some start)
    (hstart : 0 ≤ start) (hsafe : start.natAbs < 2 ^ 53) (hn : n.Safe) (hfit : n.TicksFit) :
    ∃ e, Engine.resolveNote at_ start (P.pos start) (Engine.readNote n) = some e ∧
      NoteAgrees doc c n e := by
  cases htick : n.startTick with
  | none =>
      refine ⟨Engine.readNote n, ?_, ?_, ?_⟩
      · unfold Engine.resolveNote
        rw [if_pos (by simp [Engine.readNote, htick])]
      · simp only [noteStartSamples, hmusical, htick, Engine.readNote]
      · simp only [noteLengthSamples, hmusical, htick, Engine.readNote]
  | some noteTick =>
      obtain ⟨hnote, hlengths⟩ := hfit noteTick htick
      have hnoteSafe := hn.1 noteTick htick
      have hread : (Engine.readNote n).start_tick = noteTick := by simp [Engine.readNote, htick]
      have hdraws : noteStartSamples n c doc =
          .ok (P.pos (start + noteTick) - P.pos start) := by
        simp only [noteStartSamples, hmusical, htick, hresolver, bind, Except.bind, P.web,
          P.pos_plus hstart hnote, P.minus_pos]
        rfl
      have hsum : int64.fit (start + noteTick) = some (start + noteTick) :=
        fit_of_small (by omega)
      unfold Engine.resolveNote
      rw [if_neg (by rw [hread]; omega), hread]
      simp only [hsum, P.engine, P.fit_sub, Option.bind_eq_bind, Option.bind_some]
      cases hlen : n.lengthTick with
      | none =>
          have hreadLen : ¬ (Engine.readNote n).length_tick ≥ 0 := by
            simp [Engine.readNote, hlen]
          rw [if_neg hreadLen]
          refine ⟨_, rfl, hdraws, ?_⟩
          simp only [noteLengthSamples, hmusical, htick, hlen, Engine.readNote]
      | some lengthTick =>
          have hlength := hlengths lengthTick hlen
          have hlengthSafe := hn.2 lengthTick hlen
          have hreadLen : (Engine.readNote n).length_tick = lengthTick := by
            simp [Engine.readNote, hlen]
          have hstop : int64.fit (start + noteTick + lengthTick) =
              some (start + noteTick + lengthTick) := fit_of_small (by omega)
          rw [if_pos (by rw [hreadLen]; exact hlength), hreadLen]
          simp only [hstop, Option.bind_some]
          refine ⟨_, rfl, hdraws, ?_⟩
          simp only [noteLengthSamples, hmusical, htick, hlen, hresolver, bind, Except.bind, P.web,
            P.pos_plus hstart hnote, P.pos_plus_plus hstart hnote hlength, P.minus_pos]
          rfl

/-- An absolute clip is left as it is read. -/
theorem resolveClip_of_absolute {c : ClipDef} (habsolute : c.startTick = none) :
    Engine.resolveClip at_ (Engine.readClip c) = some (Engine.readClip c) := by
  unfold Engine.resolveClip Engine.ClipDef.isMusical
  rw [if_neg (by simp [Engine.readClip, habsolute])]

theorem clipAgrees_of_absolute {c : ClipDef} (habsolute : c.startTick = none) :
    ClipAgrees doc c (Engine.readClip c) := by
  refine ⟨?_, ?_, ?_⟩
  · simp only [clipStartSamples, habsolute, Engine.readClip]
  · simp only [clipLengthSamples, habsolute, Engine.readClip]
  · simp only [Engine.readClip]
    rw [List.forall₂_map_right_iff, List.forall₂_same]
    intro n _
    constructor
    · simp only [noteStartSamples, habsolute, Engine.readNote]
    · simp only [noteLengthSamples, habsolute, Engine.readNote]

theorem clipAgrees_of_positions (P : Positions r at_) (hresolver : resolverFor doc = .ok r)
    {c : ClipDef} (hsafe : c.Safe) (hfit : c.TicksFit) :
    ∃ e, Engine.resolveClip at_ (Engine.readClip c) = some e ∧ ClipAgrees doc c e := by
  cases htick : c.startTick with
  | none => exact ⟨_, resolveClip_of_absolute htick, clipAgrees_of_absolute htick⟩
  | some start =>
      obtain ⟨hstart, hlengths, hnotes⟩ := hfit start htick
      obtain ⟨hstartSafe, hlengthSafe, hnotesSafe⟩ := hsafe
      have hstartSafe' := hstartSafe start htick
      have hread : (Engine.readClip c).start_tick = start := by simp [Engine.readClip, htick]
      have hmusical : (Engine.readClip c).isMusical = true := by
        simp [Engine.ClipDef.isMusical, hread, hstart]
      obtain ⟨notes, hnotesRead, hnotesAgree⟩ := Mapped.mapM_of_forall
        (f := fun n => Engine.resolveNote at_ start (P.pos start) (Engine.readNote n))
        (R := NoteAgrees doc c) (l := c.notes.getD [])
        (fun n hn => noteAgrees_of_positions P hresolver htick hstart hstartSafe'
          (hnotesSafe n hn) (hnotes n hn))
      have hnotesRead' : (Engine.readClip c).notes.mapM
          (Engine.resolveNote at_ start (P.pos start)) = some notes := by
        simp only [Engine.readClip, List.mapM_map]
        exact hnotesRead
      have hdraws : clipStartSamples c doc = .ok (P.pos start) := by
        simp only [clipStartSamples, htick, hresolver, bind, Except.bind, P.web]
      unfold Engine.resolveClip
      rw [if_pos hmusical, hread]
      simp only [P.engine, Option.bind_eq_bind, Option.bind_some, hnotesRead']
      cases hlen : c.lengthTick with
      | none =>
          have hkeep : Engine.resolveLength at_ (P.pos start) (Engine.readClip c) =
              some (Engine.readClip c).length_samples := by
            unfold Engine.resolveLength
            rw [if_neg (by simp [Engine.readClip, hlen])]
          simp only [hkeep, Option.bind_some]
          refine ⟨_, rfl, hdraws, ?_, hnotesAgree⟩
          simp only [clipLengthSamples, htick, hlen, Engine.readClip]
      | some lengthTick =>
          have hlength := hlengths lengthTick hlen
          have hlengthSafe' := hlengthSafe lengthTick hlen
          have hreadLen : (Engine.readClip c).length_tick = lengthTick := by
            simp [Engine.readClip, hlen]
          have hresolve : Engine.resolveLength at_ (P.pos start) (Engine.readClip c) =
              some (P.pos (start + lengthTick) - P.pos start) := by
            unfold Engine.resolveLength
            rw [if_pos (by rw [hreadLen]; exact hlength), hread, hreadLen]
            simp only [fit_of_small (x := start + lengthTick) (by omega), P.engine, P.fit_sub,
              Option.bind_eq_bind, Option.bind_some]
          simp only [hresolve, Option.bind_some]
          refine ⟨_, rfl, hdraws, ?_, hnotesAgree⟩
          simp only [clipLengthSamples, htick, hlen, hresolver, bind, Except.bind, P.web,
            P.pos_plus hstart hlength, P.minus_pos]
          rfl

theorem resolveLane_of_positions (P : Positions r at_) (lane : Engine.AutomationLaneDef) :
    ∃ e, Engine.resolveLane at_ lane = some e := by
  unfold Engine.resolveLane
  split
  · obtain ⟨points, hpoints, _⟩ := Mapped.mapM_of_forall (f := at_) (R := fun _ _ => True)
      (l := lane.points) (fun t _ => ⟨P.pos t, P.engine t, trivial⟩)
    exact ⟨{ lane with points := points }, by rw [hpoints]; rfl⟩
  · exact ⟨lane, rfl⟩

theorem resolveLanes_of_positions (P : Positions r at_) (lanes : List Engine.AutomationLaneDef) :
    ∃ es, lanes.mapM (Engine.resolveLane at_) = some es := by
  obtain ⟨es, hes, _⟩ := Mapped.mapM_of_forall (f := Engine.resolveLane at_)
    (R := fun _ _ => True) (l := lanes) (fun lane _ =>
      let ⟨e, he⟩ := resolveLane_of_positions P lane
      ⟨e, he, trivial⟩)
  exact ⟨es, hes⟩

theorem trackAgrees_of_positions (P : Positions r at_) (hresolver : resolverFor doc = .ok r)
    {t : TrackDef} (hsafe : ∀ c ∈ t.clips, c.Safe) (hfit : ∀ c ∈ t.clips, c.TicksFit) :
    ∃ e, Engine.resolveTrack at_ (Engine.readTrack t) = some e ∧ TrackAgrees doc t e := by
  obtain ⟨clips, hclips, hagree⟩ := Mapped.mapM_of_forall
    (f := fun c => Engine.resolveClip at_ (Engine.readClip c)) (R := ClipAgrees doc)
    (l := t.clips) (fun c hc => clipAgrees_of_positions P hresolver (hsafe c hc) (hfit c hc))
  obtain ⟨lanes, hlanes⟩ := resolveLanes_of_positions P (Engine.readTrack t).automation
  have hclips' : (Engine.readTrack t).clips.mapM (Engine.resolveClip at_) = some clips := by
    simp only [Engine.readTrack, List.mapM_map]
    exact hclips
  refine ⟨{ clips := clips, automation := lanes }, ?_, hagree⟩
  simp only [Engine.resolveTrack, hclips', hlanes, Option.bind_eq_bind, Option.bind_some]
  rfl

end Positions

end DawProject.Document
