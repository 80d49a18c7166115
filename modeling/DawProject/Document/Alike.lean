import DawProject.Document.Drawn

/-!
Which documents are drawn as they are played. One where both sides resolve
alike is, whatever samples it stores; conversely a document with a clip past
tick zero that is drawn as played whatever samples it stores resolves alike.
-/

namespace DawProject.Document

open Tempo
open Tempo.Engine (kInt64Max kMaxSampleRate kMaxTick)

section Alike

variable {doc : ProjectDef}

/-- Where both sides read the same register, they read the same map. -/
theorem effectiveTempoMap_eq (hregister : RegisterAgrees doc) :
    effectiveTempoMap doc =
      Web.effectiveMap (engineRegister doc) (doc.tempoMap.getD []) := by
  rcases hregister with hpos | ⟨p, rest, hmap, hzero⟩
  · unfold effectiveTempoMap engineRegister
    cases htempo : doc.tempoMilliBpm with
    | none => rfl
    | some m =>
        have hm := hpos m htempo
        simp only [Option.getD_some]
        rw [if_pos hm]
  · unfold effectiveTempoMap
    rw [hmap]
    simp only [Web.effectiveMap, hzero, ne_eq, not_true_eq_false, if_false]

theorem readDocument_rate (hsr : 0 < doc.sampleRate) (hmax : doc.sampleRate ≤ kMaxSampleRate) :
    ((Engine.readDocument doc).sample_rate : Int) = doc.sampleRate := by
  unfold kMaxSampleRate at hmax
  simp only [Engine.readDocument, Engine.readUint]
  rw [if_pos (by omega)]
  omega

theorem readDocument_version (hversion : doc.schemaVersion ≤ 2) :
    (Engine.readDocument doc).schema_version < 2 ↔ doc.schemaVersion < 2 := by
  simp only [Engine.readDocument, Engine.readUint]
  split <;> omega

theorem docTempoMap_eq :
    Engine.docTempoMap (Engine.readDocument doc) =
      Tempo.Engine.effectiveMap (engineRegister doc) (doc.tempoMap.getD []) := rfl

/-- On a sorted map that fits, the two tables give a common reading. -/
theorem exists_positions (hsafe : doc.Safe) (hsr : 0 < doc.sampleRate)
    (hmax : doc.sampleRate ≤ kMaxSampleRate) (hsorted : SortedFromZero (doc.tempoMap.getD []))
    (hfit : TableFits (engineRegister doc) (doc.tempoMap.getD []) doc.sampleRate)
    (hregister : RegisterAgrees doc) :
    ∃ r S, resolverFor doc = .ok r ∧
      Tempo.Engine.buildBoundaryTable (Engine.docTempoMap (Engine.readDocument doc))
        doc.sampleRate = some S ∧
      Nonempty (Positions r (Tempo.Engine.samplesAtTick
        (Engine.docTempoMap (Engine.readDocument doc)) S doc.sampleRate)) := by
  have hint : ∀ p ∈ doc.tempoMap.getD [], p.tick ≤ kInt64Max := by
    intro p hp
    have htick := hsafe.2 p hp
    unfold kInt64Max
    omega
  obtain ⟨p, rest, hmap, hzero, horder, hweb, hengine⟩ :=
    buildBoundaryTable_agree hsr hint hsorted hfit
  have hrange := Web.effectiveMap_inRange (engineRegister doc) (doc.tempoMap.getD [])
  rw [hmap] at hrange
  have hread : effectiveTempoMap doc = p :: rest := (effectiveTempoMap_eq hregister).trans hmap
  have hreadEngine : Engine.docTempoMap (Engine.readDocument doc) = p :: rest := by
    rw [docTempoMap_eq, ← effectiveMap_agree, hmap]
  refine ⟨⟨p :: rest, 0 :: (tableFrom Binary64.ofInt doc.sampleRate ⟨0, p⟩ rest).map
      Boundary.start, doc.sampleRate⟩,
    0 :: (tableFrom id doc.sampleRate ⟨0, p⟩ rest).map Boundary.start, ?_, ?_, ⟨?_⟩⟩
  · unfold resolverFor
    simp only [hread, hweb]
    rfl
  · rw [hreadEngine]
    exact hengine
  · rw [hreadEngine]
    have hexact := fun t => samplesAtTick_agree hsr hmax p rest t _ rfl hzero horder hrange
    have hclamp : ∀ t, 0 ≤ max 0 (min kMaxTick t) ∧ max 0 (min kMaxTick t) ≤ MAX_TICK := by
      intro t
      unfold kMaxTick MAX_TICK
      omega
    refine ⟨fun t => (locateTick id doc.sampleRate ⟨0, p⟩ rest
      (max 0 (min kMaxTick t))).sampleOf doc.sampleRate (max 0 (min kMaxTick t)),
      fun t => (hexact t).1, fun t => (hexact t).2, ?_, ?_, ?_⟩
    · intro t
      exact start_le_sampleOf_locateTick safeDiff_id hsr.le ⟨0, p⟩ rest _
        (by rw [hzero]; exact (hclamp t).1) horder (fun q hq => (hrange q hq).pos)
    · intro t
      have hle := sampleOf_locateTick_le safeDiff_id hsr.le ⟨0, p⟩ rest _ hzero.ge
        (by rw [hzero]; exact (hclamp t).1) (hclamp t).2 horder hrange
      simp only [hzero, sub_zero, mul_zero, zero_add] at hle
      have hprod : max 0 (min kMaxTick t) * doc.sampleRate ≤ MAX_TICK * kMaxSampleRate :=
        mul_le_mul (hclamp t).2 hmax hsr.le (by norm_num [MAX_TICK])
      unfold MAX_TICK kMaxSampleRate at hprod
      norm_num at hprod
      omega
    · intro s t hs ht
      have hsame : max 0 (min kMaxTick s) = max 0 (min kMaxTick t) := by
        unfold kMaxTick
        omega
      simp only [hsame]

/-- A document that both sides resolve alike is drawn as it is played. -/
theorem drawnAsPlayed_of_alike (hsafe : doc.Safe) (hversion : doc.schemaVersion ≤ 2)
    (hsr : 0 < doc.sampleRate) (hmax : doc.sampleRate ≤ kMaxSampleRate)
    (halike : ResolvesAlike doc) : DrawnAsPlayed doc := by
  unfold ResolvesAlike at halike
  unfold DrawnAsPlayed Engine.resolveMusicalTime
  split at halike
  · rename_i hlegacy
    rw [if_pos ((readDocument_version hversion).mpr hlegacy)]
    refine ⟨_, rfl, ?_⟩
    simp only [Engine.readDocument]
    rw [List.forall₂_map_right_iff, List.forall₂_same]
    intro t ht
    unfold TrackAgrees Engine.readTrack
    rw [List.forall₂_map_right_iff, List.forall₂_same]
    intro c hc
    exact clipAgrees_of_absolute (halike t ht c hc)
  · rename_i hmusical
    obtain ⟨hsorted, hfit, hregister, hticks⟩ := halike
    obtain ⟨r, S, hresolver, htable, ⟨P⟩⟩ :=
      exists_positions hsafe hsr hmax hsorted hfit hregister
    rw [if_neg (fun h => hmusical ((readDocument_version hversion).mp h))]
    let position := Tempo.Engine.samplesAtTick (Engine.docTempoMap (Engine.readDocument doc)) S
      doc.sampleRate
    obtain ⟨tracks, htracks, hagree⟩ := Mapped.mapM_of_forall
      (f := fun t => Engine.resolveTrack position (Engine.readTrack t)) (R := TrackAgrees doc)
      (l := doc.tracks) (fun t ht => trackAgrees_of_positions P hresolver (hsafe.1 t ht)
        (hticks t ht))
    obtain ⟨lanes, hlanes⟩ := resolveLanes_of_positions P (Engine.readDocument doc).automation
    have htracks' : (Engine.readDocument doc).tracks.mapM (Engine.resolveTrack position) =
        some tracks := by
      simp only [Engine.readDocument, List.mapM_map]
      exact htracks
    refine ⟨{ Engine.readDocument doc with tracks := tracks, automation := lanes }, ?_, hagree⟩
    simp only [readDocument_rate hsr hmax, htable, Option.bind_eq_bind, Option.bind_some]
    rw [show (Engine.readDocument doc).tracks.mapM (Engine.resolveTrack _) = some tracks from
      htracks', hlanes]
    rfl

end Alike

section Slower

variable {sr : Int}

/-- Later starts carry over to every later tick. -/
theorem sampleOf_locateTick_lt {s s' : Int} (hlt : s < s') (p : TempoPoint)
    (rest : List TempoPoint) (t : Int) :
    (locateTick id sr ⟨s, p⟩ rest t).sampleOf sr t <
      (locateTick id sr ⟨s', p⟩ rest t).sampleOf sr t := by
  induction rest generalizing s s' p with
  | nil =>
      simp only [locateTick, tableFrom, LeadingRun.lastOfRun, Boundary.sampleOf]
      omega
  | cons q rest ih =>
      rw [locateTick_cons, locateTick_cons]
      split
      · apply ih
        simp only
        omega
      · simp only [Boundary.sampleOf]
        omega

/-- The tempo the web clamps to is slower than the one the engine falls back
to, by a sample at least from the first tick on. -/
theorem span_register_lt {dt : Int} (hsr : 160 ≤ sr) (hdt : 1 ≤ dt) :
    span sr dt 120000 < span sr dt 20000 := by
  have hprod : 1 * 160 ≤ dt * sr := mul_le_mul hdt hsr (by norm_num) (by omega)
  unfold span HalfUp.halfUp
  omega

theorem sampleOf_register_lt {rest : List TempoPoint} {t : Int} (hsr : 160 ≤ sr) (ht : 1 ≤ t)
    (hfirst : ∀ q later, rest = q :: later → 0 < q.tick) :
    (locateTick id sr ⟨0, ⟨0, 120000⟩⟩ rest t).sampleOf sr t <
      (locateTick id sr ⟨0, ⟨0, 20000⟩⟩ rest t).sampleOf sr t := by
  have hhere := span_register_lt hsr ht
  cases rest with
  | nil =>
      simp only [locateTick, tableFrom, LeadingRun.lastOfRun, Boundary.sampleOf, sub_zero]
      omega
  | cons q later =>
      have hspan := span_register_lt hsr (show 1 ≤ q.tick from hfirst q later rfl)
      rw [locateTick_cons, locateTick_cons]
      split
      · apply sampleOf_locateTick_lt
        simp only [id, sub_zero]
        omega
      · simp only [Boundary.sampleOf, sub_zero]
        omega

end Slower

section Stored

/-- The note with `x` in its two sample fields, its ticks as they are. -/
def NoteDef.setSamples (x : Int) (n : NoteDef) : NoteDef :=
  { n with startSample := some x, lengthSamples := some x }

def ClipDef.setSamples (x : Int) (c : ClipDef) : ClipDef :=
  { c with
    startSample := some x
    lengthSamples := some x
    notes := c.notes.map (List.map (NoteDef.setSamples x)) }

def TrackDef.setSamples (x : Int) (t : TrackDef) : TrackDef :=
  { t with clips := t.clips.map (ClipDef.setSamples x) }

/-- The document with `x` in the sample fields of every clip and note. -/
def ProjectDef.setSamples (x : Int) (doc : ProjectDef) : ProjectDef :=
  { doc with tracks := doc.tracks.map (TrackDef.setSamples x) }

variable {doc : ProjectDef} {t : TrackDef} {c : ClipDef} {n : NoteDef}

theorem setSamples_notes (x : Int) (c : ClipDef) :
    (c.setSamples x).notes.getD [] = (c.notes.getD []).map (NoteDef.setSamples x) := by
  cases hnotes : c.notes <;> simp [ClipDef.setSamples, hnotes]

/-- In a version 1 document the engine plays what is stored. -/
theorem clipAgrees_of_drawn_legacy (hdrawn : DrawnAsPlayed doc)
    (hlegacy : (Engine.readDocument doc).schema_version < 2) (ht : t ∈ doc.tracks)
    (hc : c ∈ t.clips) : ClipAgrees doc c (Engine.readClip c) := by
  obtain ⟨played, hplayed, htracks⟩ := hdrawn
  unfold Engine.resolveMusicalTime at hplayed
  rw [if_pos hlegacy] at hplayed
  obtain rfl := Option.some.inj hplayed
  simp only [Engine.readDocument] at htracks
  rw [List.forall₂_map_right_iff, List.forall₂_same] at htracks
  have hclips := htracks t ht
  unfold TrackAgrees Engine.readTrack at hclips
  rw [List.forall₂_map_right_iff, List.forall₂_same] at hclips
  exact hclips c hc

/-- From version 2 on the engine plays the clip it resolved. -/
theorem clipAgrees_of_drawn (hdrawn : DrawnAsPlayed doc)
    (hmusical : ¬ (Engine.readDocument doc).schema_version < 2) (ht : t ∈ doc.tracks)
    (hc : c ∈ t.clips) :
    ∃ S e, Tempo.Engine.buildBoundaryTable (Engine.docTempoMap (Engine.readDocument doc))
        (Engine.readDocument doc).sample_rate = some S ∧
      Engine.resolveClip (Tempo.Engine.samplesAtTick (Engine.docTempoMap (Engine.readDocument doc))
        S (Engine.readDocument doc).sample_rate) (Engine.readClip c) = some e ∧
      ClipAgrees doc c e := by
  obtain ⟨played, hplayed, htracks⟩ := hdrawn
  unfold Engine.resolveMusicalTime at hplayed
  rw [if_neg hmusical] at hplayed
  simp only [Option.bind_eq_bind, Option.bind_eq_some_iff] at hplayed
  obtain ⟨S, htable, tracks, hresolved, lanes, _, hdone⟩ := hplayed
  obtain rfl := Option.some.inj hdone
  simp only [Engine.readDocument, List.mapM_map] at hresolved
  obtain ⟨track, htrack, hread⟩ :=
    Mapped.exists_of_mem htracks (Mapped.forall₂_of_mapM hresolved) ht
  simp only [Function.comp, Engine.resolveTrack, Engine.readTrack, List.mapM_map,
    Option.bind_eq_bind, Option.bind_eq_some_iff] at hread
  obtain ⟨clips, hclips, lanes', _, hdone'⟩ := hread
  obtain rfl := Option.some.inj hdone'
  obtain ⟨e, hagree, hclip⟩ :=
    Mapped.exists_of_mem htrack (Mapped.forall₂_of_mapM hclips) hc
  exact ⟨S, e, htable, hclip, hagree⟩

/-- What the engine leaves in a musical clip. -/
theorem resolveClip_musical {at_ : Int → Option Int} {clip e : Engine.ClipDef}
    (hresolved : Engine.resolveClip at_ clip = some e) (hstart : 0 ≤ clip.start_tick) :
    at_ clip.start_tick = some e.start_sample ∧
      Engine.resolveLength at_ e.start_sample clip = some e.length_samples ∧
      List.Forall₂ (fun n n' => Engine.resolveNote at_ clip.start_tick e.start_sample n = some n')
        clip.notes e.notes := by
  unfold Engine.resolveClip at hresolved
  rw [if_pos (by simp [Engine.ClipDef.isMusical, hstart])] at hresolved
  simp only [Option.bind_eq_bind, Option.bind_eq_some_iff] at hresolved
  obtain ⟨cs, hcs, length, hlength, notes, hnotes, hdone⟩ := hresolved
  obtain rfl := Option.some.inj hdone
  exact ⟨hcs, hlength, Mapped.forall₂_of_mapM hnotes⟩

/-- A clip whose tick is negative plays the samples it stores. -/
theorem resolveClip_negative {at_ : Int → Option Int} {clip e : Engine.ClipDef}
    (hresolved : Engine.resolveClip at_ clip = some e) (hstart : clip.start_tick < 0) :
    e = clip := by
  unfold Engine.resolveClip at hresolved
  rw [if_neg (by simp [Engine.ClipDef.isMusical, hstart])] at hresolved
  exact (Option.some.inj hresolved).symm

theorem resolveNote_negative {at_ : Int → Option Int} {start cs : Int} {n e : Engine.NoteDef}
    (hresolved : Engine.resolveNote at_ start cs n = some e) (hstart : n.start_tick < 0) :
    e = n := by
  unfold Engine.resolveNote at hresolved
  rw [if_pos hstart] at hresolved
  exact (Option.some.inj hresolved).symm

theorem resolveNote_length_negative {at_ : Int → Option Int} {start cs : Int}
    {n e : Engine.NoteDef} (hresolved : Engine.resolveNote at_ start cs n = some e)
    (hlength : n.length_tick < 0) : e.length_samples = n.length_samples := by
  unfold Engine.resolveNote at hresolved
  split at hresolved
  · rw [← Option.some.inj hresolved]
  · simp only [Option.bind_eq_bind, Option.bind_eq_some_iff] at hresolved
    obtain ⟨_, _, _, _, _, _, hdone⟩ := hresolved
    rw [if_neg (by omega)] at hdone
    rw [← Option.some.inj hdone]

/-- One value is not every number. -/
theorem not_forall_ok (drawn : Except String Int)
    (hall : ∀ x, 0 ≤ x → drawn = .ok x) : False := by
  have hzero := hall 0 (le_refl 0)
  rw [hall 1 (by norm_num)] at hzero
  cases hzero

/-- What a clip that is drawn as played, whatever it stores, shows of the two
readings: its tick is not negative, and both sides place it by their table. -/
theorem clip_of_drawn (hsr : 0 < doc.sampleRate) (hmax : doc.sampleRate ≤ kMaxSampleRate)
    (hmusical : ¬ (Engine.readDocument doc).schema_version < 2)
    (hdrawn : ∀ x, 0 ≤ x → DrawnAsPlayed (doc.setSamples x)) (ht : t ∈ doc.tracks)
    (hc : c ∈ t.clips) {start : Int} (hstart : c.startTick = some start) :
    0 ≤ start ∧ ∀ x, 0 ≤ x → ∃ S e,
      Tempo.Engine.buildBoundaryTable (Engine.docTempoMap (Engine.readDocument doc))
        doc.sampleRate = some S ∧
      Tempo.Engine.samplesAtTick (Engine.docTempoMap (Engine.readDocument doc)) S doc.sampleRate
        start = some e.start_sample ∧
      clipStartSamples c doc = .ok e.start_sample ∧
      ClipAgrees (doc.setSamples x) (c.setSamples x) e ∧
      Engine.resolveLength (Tempo.Engine.samplesAtTick
        (Engine.docTempoMap (Engine.readDocument doc)) S doc.sampleRate) e.start_sample
        (Engine.readClip (c.setSamples x)) = some e.length_samples ∧
      List.Forall₂ (fun n n' => ∃ at_ : Int → Option Int,
        Engine.resolveNote at_ start e.start_sample n = some n')
        (Engine.readClip (c.setSamples x)).notes e.notes := by
  have hdraws : ∀ x, clipStartSamples (c.setSamples x) (doc.setSamples x) =
      clipStartSamples c doc := by
    intro x
    simp only [clipStartSamples, ClipDef.setSamples, hstart]
    rfl
  have hread : ∀ x, (Engine.readClip (c.setSamples x)).start_tick = start := by
    intro x
    simp [Engine.readClip, ClipDef.setSamples, hstart]
  have hplays : ∀ x, 0 ≤ x → ∃ S e,
      Tempo.Engine.buildBoundaryTable (Engine.docTempoMap (Engine.readDocument doc))
        doc.sampleRate = some S ∧
      Engine.resolveClip (Tempo.Engine.samplesAtTick (Engine.docTempoMap (Engine.readDocument doc))
        S doc.sampleRate) (Engine.readClip (c.setSamples x)) = some e ∧
      ClipAgrees (doc.setSamples x) (c.setSamples x) e := by
    intro x hx
    have hplayed := clipAgrees_of_drawn (hdrawn x hx) hmusical (List.mem_map_of_mem ht)
      (List.mem_map_of_mem hc)
    rw [← readDocument_rate hsr hmax]
    exact hplayed
  have hnonneg : 0 ≤ start := by
    by_contra hneg
    apply not_forall_ok (clipStartSamples c doc)
    intro x hx
    obtain ⟨_, e, _, hresolved, hagree, _⟩ := hplays x hx
    rw [hdraws] at hagree
    rw [hagree, resolveClip_negative hresolved (by rw [hread]; omega)]
    rfl
  refine ⟨hnonneg, fun x hx => ?_⟩
  obtain ⟨S, e, htable, hresolved, hagree⟩ := hplays x hx
  obtain ⟨hat, hlength, hnotes⟩ := resolveClip_musical hresolved (by rw [hread]; exact hnonneg)
  rw [hread] at hat hnotes
  refine ⟨S, e, htable, hat, ?_, hagree, hlength, hnotes.imp fun _ _ h => ⟨_, h⟩⟩
  rw [← hdraws x]
  exact hagree.1

theorem ticksFit_of_drawn (hsr : 0 < doc.sampleRate) (hmax : doc.sampleRate ≤ kMaxSampleRate)
    (hmusical : ¬ (Engine.readDocument doc).schema_version < 2)
    (hdrawn : ∀ x, 0 ≤ x → DrawnAsPlayed (doc.setSamples x)) (ht : t ∈ doc.tracks)
    (hc : c ∈ t.clips) : c.TicksFit := by
  intro start hstart
  rw [Option.mem_def] at hstart
  obtain ⟨hnonneg, hall⟩ := clip_of_drawn hsr hmax hmusical hdrawn ht hc hstart
  refine ⟨hnonneg, ?_, ?_⟩
  · intro length hlength
    rw [Option.mem_def] at hlength
    by_contra hneg
    apply not_forall_ok (clipLengthSamples c doc)
    intro x hx
    obtain ⟨S, e, _, _, _, hagree, hresolved, _⟩ := hall x hx
    have hdraws : clipLengthSamples (c.setSamples x) (doc.setSamples x) =
        clipLengthSamples c doc := by
      simp only [clipLengthSamples, ClipDef.setSamples, hstart, hlength]
      rfl
    unfold Engine.resolveLength at hresolved
    rw [if_neg (by simp only [Engine.readClip, ClipDef.setSamples, hlength, Option.getD_some]
                   omega)] at hresolved
    rw [← hdraws, hagree.2.1, ← Option.some.inj hresolved]
    rfl
  · intro n hn noteTick hnote
    rw [Option.mem_def] at hnote
    have hnotes : ∀ x, 0 ≤ x → ∃ (e : Engine.NoteDef),
        NoteAgrees (doc.setSamples x) (c.setSamples x) (n.setSamples x) e ∧
        ∃ at_ cs, Engine.resolveNote at_ start cs (Engine.readNote (n.setSamples x)) =
          some e := by
      intro x hx
      obtain ⟨S, e, _, _, _, hagree, _, hresolved⟩ := hall x hx
      have hread := hagree.2.2
      simp only [Engine.readClip] at hresolved
      rw [setSamples_notes, List.forall₂_map_left_iff] at hread
      rw [setSamples_notes, List.map_map, List.forall₂_map_left_iff] at hresolved
      obtain ⟨played, hnoteAgrees, at_, hnoteResolved⟩ :=
        Mapped.exists_of_mem hread hresolved hn
      exact ⟨played, hnoteAgrees, at_, _, hnoteResolved⟩
    constructor
    · by_contra hneg
      apply not_forall_ok (noteStartSamples n c doc)
      intro x hx
      obtain ⟨e, hagree, at_, cs, hresolved⟩ := hnotes x hx
      have hdraws : noteStartSamples (n.setSamples x) (c.setSamples x) (doc.setSamples x) =
          noteStartSamples n c doc := by
        simp only [noteStartSamples, ClipDef.setSamples, NoteDef.setSamples, hstart, hnote]
        rfl
      rw [← hdraws, hagree.1, resolveNote_negative hresolved (by
        simp only [Engine.readNote, NoteDef.setSamples, hnote, Option.getD_some]
        omega)]
      rfl
    · intro length hlength
      rw [Option.mem_def] at hlength
      by_contra hneg
      apply not_forall_ok (noteLengthSamples n c doc)
      intro x hx
      obtain ⟨e, hagree, at_, cs, hresolved⟩ := hnotes x hx
      have hdraws : noteLengthSamples (n.setSamples x) (c.setSamples x) (doc.setSamples x) =
          noteLengthSamples n c doc := by
        simp only [noteLengthSamples, ClipDef.setSamples, NoteDef.setSamples, hstart, hnote,
          hlength]
        rfl
      rw [← hdraws, hagree.2, resolveNote_length_negative hresolved (by
        simp only [Engine.readNote, NoteDef.setSamples, hlength, Option.getD_some]
        omega)]
      rfl

/-- A clip past tick zero that both sides place on one sample shows that both
read the same register. -/
theorem registerAgrees_of_start (hrate : 160 ≤ doc.sampleRate)
    (hmax : doc.sampleRate ≤ kMaxSampleRate) (hsorted : SortedFromZero (doc.tempoMap.getD []))
    (hint : ∀ p ∈ doc.tempoMap.getD [], p.tick ≤ kInt64Max) {S : List Int} {start s : Int}
    (hstart : c.startTick = some start) (hpos : 0 < start)
    (hengine : Tempo.Engine.buildBoundaryTable (Engine.docTempoMap (Engine.readDocument doc))
      doc.sampleRate = some S)
    (hplayed : Tempo.Engine.samplesAtTick (Engine.docTempoMap (Engine.readDocument doc)) S
      doc.sampleRate start = some s)
    (hdrawn : clipStartSamples c doc = .ok s) : RegisterAgrees doc := by
  have hsr : 0 < doc.sampleRate := by omega
  by_contra hnot
  unfold RegisterAgrees at hnot
  push Not at hnot
  obtain ⟨⟨m, hm, hlow⟩, hfirst⟩ := hnot
  rw [Option.mem_def] at hm
  -- neither side drops the register, which the web clamps and the engine replaces
  have hmap : ∀ reg, Web.effectiveMap reg (doc.tempoMap.getD []) =
      ⟨0, clampMilliBpm reg⟩ :: (doc.tempoMap.getD []).map TempoPoint.clamp := by
    intro reg
    cases hraw : doc.tempoMap.getD [] with
    | nil => rfl
    | cons p rest => simp only [Web.effectiveMap, if_pos (hfirst p rest hraw)]
  have hweb : effectiveTempoMap doc =
      ⟨0, 20000⟩ :: (doc.tempoMap.getD []).map TempoPoint.clamp := by
    have hclamp : clampMilliBpm m = 20000 := by
      unfold clampMilliBpm MIN_MILLI_BPM MAX_MILLI_BPM
      omega
    rw [effectiveTempoMap, hmap, hm, Option.getD_some, hclamp]
  have hregister : engineRegister doc = 120000 := by
    unfold engineRegister
    rw [hm, Option.getD_some, if_neg (by omega)]
  have hread : Engine.docTempoMap (Engine.readDocument doc) =
      ⟨0, 120000⟩ :: (doc.tempoMap.getD []).map TempoPoint.clamp := by
    rw [docTempoMap_eq, hregister, ← effectiveMap_agree, hmap]
    rfl
  have hfit : TableFits (engineRegister doc) (doc.tempoMap.getD []) doc.sampleRate :=
    fits_of_buildBoundaryTable hsr hsorted hengine
  obtain ⟨p, rest, hmapEngine, hzero, horder, _, htable⟩ :=
    buildBoundaryTable_agree hsr hint hsorted hfit
  rw [effectiveMap_agree, ← docTempoMap_eq, hread] at hmapEngine
  obtain ⟨rfl, rfl⟩ := List.cons.inj hmapEngine
  have horderWeb : List.IsChain (fun p q : TempoPoint => p.tick ≤ q.tick)
      (⟨0, 20000⟩ :: (doc.tempoMap.getD []).map TempoPoint.clamp) :=
    (isChain_clamp_iff _ _).mpr hsorted
  have hrangeWeb := Web.effectiveMap_inRange (doc.tempoMilliBpm.getD 120000)
    (doc.tempoMap.getD [])
  have hrangeEngine := Web.effectiveMap_inRange (engineRegister doc) (doc.tempoMap.getD [])
  rw [← effectiveTempoMap, hweb] at hrangeWeb
  rw [effectiveMap_agree, ← docTempoMap_eq, hread] at hrangeEngine
  have hplaces := (samplesAtTick_agree hsr hmax ⟨0, 120000⟩ _ start _ rfl rfl horder
    hrangeEngine).2
  have hdraws := (samplesAtTick_agree hsr hmax ⟨0, 20000⟩ _ start _ rfl rfl horderWeb
    hrangeWeb).1
  have hbuilt := Web.buildBoundaryTable_of_sorted hsr.le ⟨0, 20000⟩ _ horderWeb
    (fun q hq => (hrangeWeb q hq).pos)
  rw [hread, htable] at hengine
  rw [hread, ← Option.some.inj hengine, hplaces] at hplayed
  simp only [clipStartSamples, hstart, resolverFor, hweb, hbuilt, bind, Except.bind, pure,
    Except.pure, Resolver.at_, hdraws, Except.ok.injEq] at hdrawn
  have hlater : ∀ q later, (doc.tempoMap.getD []).map TempoPoint.clamp = q :: later →
      0 < q.tick := by
    intro q later hcons
    obtain ⟨q', later', hraw, rfl, _⟩ := List.map_eq_cons_iff.mp hcons
    have hnonneg : 0 ≤ q'.tick := by
      unfold SortedFromZero at hsorted
      rw [hraw, List.map_cons, List.isChain_cons_cons] at hsorted
      exact hsorted.1
    have hne := hfirst q' later' hraw
    rw [TempoPoint.clamp_tick]
    omega
  have htick : 1 ≤ max 0 (min kMaxTick start) := by
    unfold kMaxTick MAX_TICK
    omega
  have hlt := sampleOf_register_lt hrate htick hlater
  rw [hdrawn, Option.some.inj hplayed] at hlt
  exact lt_irrefl s hlt

/-- The document has a clip past tick zero, which both sides have to place. -/
def HasLaterClip (doc : ProjectDef) : Prop :=
  ∃ t ∈ doc.tracks, ∃ c ∈ t.clips, ∃ start, c.startTick = some start ∧ 0 < start

theorem resolvesAlike_of_drawn (hsafe : doc.Safe) (hversion : doc.schemaVersion ≤ 2)
    (hrate : 160 ≤ doc.sampleRate) (hmax : doc.sampleRate ≤ kMaxSampleRate)
    (hlater : HasLaterClip doc) (hdrawn : ∀ x, 0 ≤ x → DrawnAsPlayed (doc.setSamples x)) :
    ResolvesAlike doc := by
  have hsr : 0 < doc.sampleRate := by omega
  obtain ⟨t₀, ht₀, c₀, hc₀, start, hstart, hpos⟩ := hlater
  unfold ResolvesAlike
  split
  · rename_i hlegacy
    intro t ht c hc
    have hclip := fun x hx => clipAgrees_of_drawn_legacy (hdrawn x hx)
      ((readDocument_version hversion).mpr hlegacy) (List.mem_map_of_mem ht)
      (List.mem_map_of_mem hc)
    cases htick : c.startTick with
    | none => rfl
    | some tick =>
        refine (not_forall_ok (clipStartSamples c doc) fun x hx => ?_).elim
        have hdraws : clipStartSamples (c.setSamples x) (doc.setSamples x) =
            clipStartSamples c doc := by
          simp only [clipStartSamples, ClipDef.setSamples, htick]
          rfl
        rw [← hdraws, (hclip x hx).1]
        rfl
  · rename_i hnew
    have hmusical : ¬ (Engine.readDocument doc).schema_version < 2 := fun h =>
      hnew ((readDocument_version hversion).mp h)
    obtain ⟨_, hall⟩ := clip_of_drawn hsr hmax hmusical hdrawn ht₀ hc₀ hstart
    obtain ⟨S, e, htable, hplayed, hdraws, _⟩ := hall 0 (le_refl 0)
    have hint : ∀ p ∈ doc.tempoMap.getD [], p.tick ≤ kInt64Max := by
      intro p hp
      have htick := hsafe.2 p hp
      unfold kInt64Max
      omega
    have hsorted : SortedFromZero (doc.tempoMap.getD []) := by
      cases hbuilt : Web.buildBoundaryTable (effectiveTempoMap doc) doc.sampleRate with
      | ok W => exact sorted_of_buildBoundaryTable hsr hbuilt
      | error message =>
          simp [clipStartSamples, hstart, resolverFor, hbuilt, bind, Except.bind] at hdraws
    refine ⟨hsorted, fits_of_buildBoundaryTable hsr hsorted htable, ?_, ?_⟩
    · exact registerAgrees_of_start hrate hmax hsorted hint hstart hpos htable hplayed hdraws
    · intro t ht c hc
      exact ticksFit_of_drawn hsr hmax hmusical hdrawn ht hc

/-- Stored samples do not matter to whether a document resolves alike. -/
theorem setSamples_safe (hsafe : doc.Safe) (x : Int) : (doc.setSamples x).Safe := by
  refine ⟨?_, hsafe.2⟩
  intro t' ht' c' hc'
  obtain ⟨t, ht, rfl⟩ := List.mem_map.mp ht'
  obtain ⟨c, hc, rfl⟩ := List.mem_map.mp hc'
  obtain ⟨hstart, hlength, hnotes⟩ := hsafe.1 t ht c hc
  refine ⟨hstart, hlength, ?_⟩
  intro n' hn'
  rw [setSamples_notes] at hn'
  obtain ⟨n, hn, rfl⟩ := List.mem_map.mp hn'
  exact hnotes n hn

theorem setSamples_ticksFit (hfit : c.TicksFit) (x : Int) : (c.setSamples x).TicksFit := by
  intro start hstart
  obtain ⟨hnonneg, hlength, hnotes⟩ := hfit start hstart
  refine ⟨hnonneg, hlength, ?_⟩
  intro n' hn'
  rw [setSamples_notes] at hn'
  obtain ⟨n, hn, rfl⟩ := List.mem_map.mp hn'
  exact hnotes n hn

theorem setSamples_alike (halike : ResolvesAlike doc) (x : Int) :
    ResolvesAlike (doc.setSamples x) := by
  unfold ResolvesAlike at halike ⊢
  split at halike
  · rename_i hlegacy
    rw [if_pos (show (doc.setSamples x).schemaVersion < 2 from hlegacy)]
    intro t' ht' c' hc'
    obtain ⟨t, ht, rfl⟩ := List.mem_map.mp ht'
    obtain ⟨c, hc, rfl⟩ := List.mem_map.mp hc'
    exact halike t ht c hc
  · rename_i hnew
    rw [if_neg (show ¬ (doc.setSamples x).schemaVersion < 2 from hnew)]
    obtain ⟨hsorted, hfit, hregister, hticks⟩ := halike
    refine ⟨hsorted, hfit, hregister, ?_⟩
    intro t' ht' c' hc'
    obtain ⟨t, ht, rfl⟩ := List.mem_map.mp ht'
    obtain ⟨c, hc, rfl⟩ := List.mem_map.mp hc'
    exact setSamples_ticksFit (hticks t ht c hc) x

end Stored

/-- A version 2 document with a musical clip and a musical note in it. -/
def oneMusicalClip : ProjectDef where
  schemaVersion := 2
  tracks := [{
    id := "t"
    name := "Piste"
    clips := [{
      id := "c"
      startTick := some 960
      lengthTick := some 1920
      notes := some [{ pitch := 60, velocity := 100, startTick := some 0, lengthTick := some 240 }]
    }]
  }]

theorem oneMusicalClip_safe : oneMusicalClip.Safe := by
  simp [ProjectDef.Safe, ClipDef.Safe, NoteDef.Safe, SafeTick, oneMusicalClip]

theorem oneMusicalClip_alike : ResolvesAlike oneMusicalClip := by
  refine ⟨by decide, by decide, Or.inl (by simp [oneMusicalClip]), ?_⟩
  simp [ClipDef.TicksFit, NoteDef.TicksFit, oneMusicalClip]

end DawProject.Document
