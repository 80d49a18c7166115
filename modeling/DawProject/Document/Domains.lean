import DawProject.Lib.Register
import DawProject.Document.Quiet

/-!
The domain of a clip, ticks or samples, when two peers work on it at once. A
clip is moved by a write of one position, and changes domain by a write of the
other and the removal of the first; on one peer that keeps a single position.
Merged, a position that a peer has written survives its removal by the other, so
a clip that one peer moves while the other changes its domain has both.
-/

namespace DawProject.Document

open Keyed

section Local

def ClipDef.Ambiguous (c : ClipDef) : Prop := c.startTick.isSome ∧ c.startSample.isSome

def ProjectDef.Unambiguous (d : ProjectDef) : Prop := ∀ c, d.HasClip c → ¬c.Ambiguous

/-- Each clip is in one domain. -/
def ProjectDef.EachInOneDomain (d : ProjectDef) : Prop :=
  ∀ c, d.HasClip c → c.startTick.isSome ≠ c.startSample.isSome

/-- The call is given no clip, and no timing, with both positions. -/
def InverseOp.Plain : InverseOp → Prop
  | .setClipTiming _ _ timing => ¬(timing.startTick.isSome ∧ timing.startSample.isSome)
  | .addClip _ clip => ¬clip.Ambiguous
  | .addTrack track => ∀ c ∈ track.clips, ¬c.Ambiguous
  | .restoreScene _ _ clips => ∀ placed ∈ clips, ¬placed.clip.Ambiguous
  | _ => True

def Mutator.Plain : Mutator → Prop
  | .named _ op => op.Plain
  | _ => True

variable {d : ProjectDef} {trackId clipId : String} {c : ClipDef}

theorem unambiguous_of_domains (hd : d.EachInOneDomain) : d.Unambiguous :=
  fun c hc hboth => hd c hc (hboth.1.trans hboth.2.symm)

theorem hasClip_of_findClip (hfind : d.findClip trackId clipId = some c) : d.HasClip c := by
  obtain ⟨track, htrack, hclip⟩ := Option.bind_eq_some_iff.mp hfind
  exact ⟨track, List.mem_of_find?_eq_some htrack, List.mem_of_find?_eq_some hclip⟩

theorem hasClip_updateTrack {f : TrackDef → TrackDef} (h : (d.updateTrack trackId f).HasClip c) :
    d.HasClip c ∨ ∃ t, d.findTrack trackId = some t ∧ c ∈ (f t).clips := by
  obtain ⟨t, ht, hc⟩ := h
  rcases mem_updateFirst ht with hold | ⟨before, hbefore, rfl⟩
  · exact Or.inl ⟨t, hold, hc⟩
  · exact Or.inr ⟨before, hbefore, hc⟩

theorem hasClip_updateClip {f : ClipDef → ClipDef}
    (h : (d.updateClip trackId clipId f).HasClip c) :
    d.HasClip c ∨ ∃ y, d.findClip trackId clipId = some y ∧ c = f y := by
  rcases hasClip_updateTrack h with hold | ⟨t, hfind, hc⟩
  · exact Or.inl hold
  · rcases mem_updateFirst hc with hold | ⟨before, hbefore, rfl⟩
    · exact Or.inl ⟨t, List.mem_of_find?_eq_some hfind, hold⟩
    · refine Or.inr ⟨before, ?_, rfl⟩
      rw [ProjectDef.findClip, hfind, Option.bind_some]
      exact hbefore

theorem unambiguous_ensureV2 (hd : d.Unambiguous) : (ensureV2 d).Unambiguous := by
  rw [ensureV2]
  split <;> exact hd

theorem unambiguous_of_quiet {e : Effect} (hd : d.Unambiguous) (hquiet : e.Quiet d) :
    (e.result d).Unambiguous := by
  cases e with
  | throws message => exact hd
  | ignored => exact hd
  | writes inverse doc =>
      intro c hc hboth
      obtain ⟨c', hc', heq⟩ := hquiet.1 c hc
      have htiming := (Prod.mk.inj heq).1
      have htick : c.startTick = c'.startTick := congrArg ClipTiming.startTick htiming
      have hsample : c.startSample = c'.startSample := congrArg ClipTiming.startSample htiming
      rw [ClipDef.Ambiguous, htick, hsample] at hboth
      exact hd c' hc' hboth

theorem unambiguous_updateClip {f : ClipDef → ClipDef} (hd : d.Unambiguous)
    (hf : ∀ c, d.findClip trackId clipId = some c → ¬(f c).Ambiguous) :
    (d.updateClip trackId clipId f).Unambiguous := by
  intro c hc
  rcases hasClip_updateClip hc with hold | ⟨y, hy, rfl⟩
  · exact hd c hold
  · exact hf y hy

theorem unambiguous_updateTrack {f : TrackDef → TrackDef} (hd : d.Unambiguous)
    (hf : ∀ t, d.findTrack trackId = some t → ∀ c ∈ (f t).clips, c ∈ t.clips ∨ ¬c.Ambiguous) :
    (d.updateTrack trackId f).Unambiguous := by
  intro c hc
  rcases hasClip_updateTrack hc with hold | ⟨t, hfind, hmem⟩
  · exact hd c hold
  · rcases hf t hfind c hmem with hold | hplain
    · exact hd c ⟨t, List.mem_of_find?_eq_some hfind, hold⟩
    · exact hplain

theorem setClipTiming_unambiguous {timing : ClipTiming} (hd : d.Unambiguous)
    (hplain : ¬(timing.startTick.isSome ∧ timing.startSample.isSome)) :
    ((setClipTiming trackId clipId timing d).result d).Unambiguous := by
  have hset : ∀ c : ClipDef, ¬(c.setTiming timing).Ambiguous := by
    intro c
    simpa [ClipDef.Ambiguous, ClipDef.setTiming] using hplain
  dsimp only [setClipTiming]
  split
  · exact hd
  · dsimp only [Effect.result]
    split
    · exact unambiguous_updateClip (unambiguous_ensureV2 hd) fun c _ => hset c
    · exact unambiguous_updateClip hd fun c _ => hset c

/-- The timing that a musical clip is moved with has no sample position. -/
theorem timing_unambiguous (hd : d.Unambiguous) (hfind : d.findClip trackId clipId = some c)
    (hmusical : isMusicalClip c = true) : (timingOf c).startSample = none := by
  have hone := hd c (hasClip_of_findClip hfind)
  rw [ClipDef.Ambiguous, not_and, Bool.not_eq_true, Option.isSome_eq_false_iff,
    Option.isNone_iff_eq_none] at hone
  exact hone hmusical

/-- A clip in samples stays one whatever samples it is given. -/
theorem unambiguous_updateClip_of_samples {clip : ClipDef} {f : ClipDef → ClipDef}
    (hd : d.Unambiguous) (hfind : d.findClip trackId clipId = some clip)
    (hmusical : ¬isMusicalClip clip = true) (hticks : ∀ c, (f c).startTick = c.startTick) :
    (d.updateClip trackId clipId f).Unambiguous := by
  refine unambiguous_updateClip hd fun c hc => ?_
  rw [hfind] at hc
  cases hc
  rw [ClipDef.Ambiguous, hticks]
  exact fun hboth => hmusical hboth.1

theorem setClipStart_unambiguous (hd : d.Unambiguous) (startSample : Int) :
    ((setClipStart trackId clipId startSample d).result d).Unambiguous := by
  rw [setClipStart]
  split
  · exact hd
  · rename_i clip hfind
    split
    · rename_i hmusical
      split
      · exact hd
      · refine setClipTiming_unambiguous hd ?_
        rw [timing_unambiguous hd hfind hmusical]
        simp
    · rename_i hmusical
      exact unambiguous_updateClip_of_samples hd hfind hmusical fun _ => rfl

theorem boundsTiming_startSample {bounds : ClipBounds} {timing : ClipTiming}
    (h : boundsTiming d c bounds = .ok timing) : timing.startSample = c.startSample := by
  simp only [boundsTiming, bind, Except.bind] at h
  split at h
  · cases h
  · split at h
    · split at h
      · cases h
      · cases h
        rfl
    · cases h
      rfl

theorem setClipBounds_unambiguous (hd : d.Unambiguous) (bounds : ClipBounds) :
    ((setClipBounds trackId clipId bounds d).result d).Unambiguous := by
  rw [setClipBounds]
  split
  · exact hd
  · rename_i clip hfind
    split
    · rename_i hmusical
      split
      · exact hd
      · rename_i timing htiming
        refine setClipTiming_unambiguous hd ?_
        have hnone : clip.startSample = none := timing_unambiguous hd hfind hmusical
        rw [boundsTiming_startSample htiming, hnone]
        simp
    · rename_i hmusical
      exact unambiguous_updateClip_of_samples hd hfind hmusical fun _ => rfl

theorem addClip_unambiguous {clip : ClipDef} (hd : d.Unambiguous) (hplain : ¬clip.Ambiguous) :
    ((addClip trackId clip d).result d).Unambiguous := by
  have hadd : ∀ {d : ProjectDef}, d.Unambiguous →
      (d.updateTrack trackId fun t => { t with clips := t.clips ++ [clip] }).Unambiguous := by
    intro d hd
    refine unambiguous_updateTrack hd fun t _ c hc => ?_
    rcases List.mem_append.mp hc with hold | hnew
    · exact Or.inl hold
    · rw [List.mem_singleton.mp hnew]
      exact Or.inr hplain
  dsimp only [addClip]
  split
  · exact hd
  · dsimp only [Effect.result]
    split
    · exact hadd (unambiguous_ensureV2 hd)
    · exact hadd hd

theorem deleteClip_unambiguous (hd : d.Unambiguous) :
    ((deleteClip trackId clipId d).result d).Unambiguous := by
  rw [deleteClip]
  split
  · exact hd
  · exact unambiguous_updateTrack hd fun t _ c hc => Or.inl (List.mem_of_mem_eraseP hc)

theorem addTrack_unambiguous {track : TrackDef} (hd : d.Unambiguous)
    (hplain : ∀ c ∈ track.clips, ¬c.Ambiguous) : ((addTrack track d).result d).Unambiguous := by
  rintro c ⟨t, ht, hc⟩
  rcases List.mem_append.mp ht with hold | hnew
  · exact hd c ⟨t, hold, hc⟩
  · cases List.mem_singleton.mp hnew
    exact hplain c hc

theorem deleteTrack_unambiguous (hd : d.Unambiguous) :
    ((deleteTrack trackId d).result d).Unambiguous := by
  rw [deleteTrack]
  split
  · exact hd
  · rintro c ⟨t, ht, hc⟩
    exact hd c ⟨t, List.mem_of_mem_eraseP ht, hc⟩

theorem toggleNote_unambiguous (hd : d.Unambiguous) (freshId : String) (note : NoteDef) :
    ((toggleNote freshId trackId clipId note d).result d).Unambiguous := by
  rw [toggleNote]
  split
  · exact hd
  · dsimp only [Effect.result]
    split
    · exact unambiguous_updateClip hd fun c hc => hd c (hasClip_of_findClip hc)
    · split
      · have hbumped := unambiguous_ensureV2 hd
        exact unambiguous_updateClip hbumped fun c hc => hbumped c (hasClip_of_findClip hc)
      · exact unambiguous_updateClip hd fun c hc => hd c (hasClip_of_findClip hc)

theorem updateNote_unambiguous (hd : d.Unambiguous) (noteId : String) (patch : NotePatch) :
    ((updateNote trackId clipId noteId patch d).result d).Unambiguous := by
  rw [updateNote]
  split
  · exact hd
  · exact unambiguous_updateClip hd fun c hc => hd c (hasClip_of_findClip hc)

theorem deleteScene_unambiguous (hd : d.Unambiguous) (sceneId : String) :
    ((deleteScene sceneId d).result d).Unambiguous := by
  rw [deleteScene]
  split
  · exact hd
  · rintro c ⟨t, ht, hc⟩
    obtain ⟨before, hbefore, rfl⟩ := List.mem_map.mp ht
    exact hd c ⟨before, hbefore, (List.mem_filter.mp hc).1⟩

theorem foldl_placeBack_unambiguous {clips : List PlacedClip} (hd : d.Unambiguous)
    (hplain : ∀ placed ∈ clips, ¬placed.clip.Ambiguous) :
    (clips.foldl ProjectDef.placeBack d).Unambiguous := by
  induction clips generalizing d with
  | nil => exact hd
  | cons placed clips ih =>
      refine ih ?_ fun other hother => hplain other (List.mem_cons_of_mem placed hother)
      refine unambiguous_updateTrack hd fun t _ c hc => ?_
      split at hc
      · exact Or.inl hc
      · rcases List.mem_append.mp hc with hold | hnew
        · exact Or.inl hold
        · rw [List.mem_singleton.mp hnew]
          exact Or.inr (hplain placed List.mem_cons_self)

theorem restoreScene_unambiguous {clips : List PlacedClip} (hd : d.Unambiguous)
    (hplain : ∀ placed ∈ clips, ¬placed.clip.Ambiguous) (scene : SceneDef) (index : Int) :
    ((restoreScene scene index clips d).result d).Unambiguous := by
  rw [restoreScene]
  split
  · exact hd
  · have hscenes : ({ d with scenes := some (insertAt index scene (d.scenes.getD [])) } :
        ProjectDef).Unambiguous := hd
    exact foldl_placeBack_unambiguous hscenes hplain

theorem mutatorOf_unambiguous (hd : d.Unambiguous) (freshId : String) {op : InverseOp}
    (hplain : op.Plain) : ((mutatorOf freshId op d).result d).Unambiguous := by
  cases op with
  | setClipTiming trackId clipId timing => exact setClipTiming_unambiguous hd hplain
  | setClipStart trackId clipId startSample => exact setClipStart_unambiguous hd startSample
  | setClipBounds trackId clipId bounds => exact setClipBounds_unambiguous hd bounds
  | addClip trackId clip => exact addClip_unambiguous hd hplain
  | deleteClip trackId clipId => exact deleteClip_unambiguous hd
  | addTrack track => exact addTrack_unambiguous hd hplain
  | deleteTrack trackId => exact deleteTrack_unambiguous hd
  | toggleNote trackId clipId note => exact toggleNote_unambiguous hd freshId note
  | updateNote trackId clipId noteId patch => exact updateNote_unambiguous hd noteId patch
  | deleteScene sceneId => exact deleteScene_unambiguous hd sceneId
  | restoreScene scene index clips => exact restoreScene_unambiguous hd hplain scene index
  | _ => exact unambiguous_of_quiet hd (mutatorOf_quiet freshId rfl)

/-- On one peer every clip keeps a single position, as long as no call is given
both. -/
theorem edit_unambiguous (hd : d.Unambiguous) {m : Mutator} (hplain : m.Plain) :
    ((m.edit d).result d).Unambiguous := by
  cases m with
  | named freshId op => exact mutatorOf_unambiguous hd freshId hplain
  | addProcessor trackId proc index =>
      exact unambiguous_of_quiet hd (addProcessor_quiet proc index)
  | addScene id name => exact hd
  | addAutomationLane id trackId target =>
      exact unambiguous_of_quiet hd (addAutomationLane_quiet target)

end Local

inductive Peer where
  | first
  | second
deriving DecidableEq, Repr

/-- The id of a write; those of the common document have no peer. -/
structure OpId where
  peer : Option Peer
  counter : Nat
deriving DecidableEq, Repr

/-- The position keys of the clip, as the replicas hold them. -/
structure ClipKeys where
  startTick : Register OpId Int
  startSample : Register OpId Int

/-- A peer's document and the keys of the clip of the common document, gone once
the peer has removed it. -/
structure Replica where
  doc : ProjectDef
  clip : Option ClipKeys

/-- What the common document has under a key. -/
def common (value : Option Int) : Register OpId Int where
  puts := value.toList.map fun v => (⟨none, 0⟩, v)

/-- A change writes a key whose value it changes: a put, or a delete. -/
def follow (peer : Peer) (value : Option Int) (r : Register OpId Int) : Register OpId Int :=
  if r.visible.map Prod.snd = value.toList then r
  else
    match value with
    | some v => r.put ⟨some peer, r.puts.length⟩ v
    | none => r.delete

section Merge

variable (trackId clipId : String)

/-- The call takes the clip out of its track, or its track out of the document. -/
def Mutator.removes (d : ProjectDef) : Mutator → Bool
  | .named _ (.deleteClip t c) => t == trackId && c == clipId
  | .named _ (.deleteTrack t) => t == trackId
  | .named _ (.deleteScene sceneId) =>
      (d.findScene sceneId).isSome &&
        (d.findClip trackId clipId).bind ClipDef.sceneId == some sceneId
  | _ => false

/-- The peer takes over the common document. -/
def Replica.start (d : ProjectDef) : Replica where
  doc := d
  clip := (d.findClip trackId clipId).map fun c => ⟨common c.startTick, common c.startSample⟩

def Replica.call (peer : Peer) (r : Replica) (m : Mutator) : Replica :=
  let doc := (m.edit r.doc).result r.doc
  { doc := doc
    clip :=
      if m.removes trackId clipId r.doc then none
      else do
        let keys ← r.clip
        let c ← doc.findClip trackId clipId
        return ⟨follow peer c.startTick keys.startTick,
          follow peer c.startSample keys.startSample⟩ }

def Replica.calls (peer : Peer) (r : Replica) (ms : List Mutator) : Replica :=
  ms.foldl (Replica.call trackId clipId peer) r

end Merge

def mergeKeys (x y : ClipKeys) : ClipKeys where
  startTick := x.startTick.merge y.startTick
  startSample := x.startSample.merge y.startSample

/-- The merged clip, which is there if neither peer has removed it. -/
def mergeClip (a b : Replica) : Option ClipKeys := do
  let x ← a.clip
  let y ← b.clip
  return mergeKeys x y

/-- The clip is in one domain at most. -/
def ClipKeys.Exclusive (keys : ClipKeys) : Prop :=
  ¬(keys.startTick.Present ∧ keys.startSample.Present)

def own (peer : Peer) (i : OpId) : Prop := i.peer = some peer

/-- One peer has written the tick its clip has, the other the sample. -/
def Crosses (p q : Peer) (x y : ClipKeys) : Prop :=
  x.startTick.Stands (own p) ∧ y.startSample.Stands (own q)

/-- The clip of one peer has both positions, the common one among them being
one that the other peer has kept. -/
def Doubles (base : ClipKeys) (p : Peer) (x y : ClipKeys) : Prop :=
  (x.startTick.Stands (own p) ∨ base.startTick.Kept x.startTick y.startTick) ∧
    (x.startSample.Stands (own p) ∨ base.startSample.Kept x.startSample y.startSample)

def Compatible (base x y : ClipKeys) : Prop :=
  ¬Crosses .first .second x y ∧ ¬Crosses .second .first y x ∧
    ¬Doubles base .first x y ∧ ¬Doubles base .second y x

section Follows

variable {peer : Peer} {base value next : Option Int} {r : Register OpId Int}

/-- The key of a replica: what its peer has written since the common document,
reading as the clip does. -/
structure Follows (peer : Peer) (base : Option Int) (r : Register OpId Int)
    (value : Option Int) : Prop where
  branch : (common base).Branch (own peer) r
  reads : r.visible.map Prod.snd = value.toList
  counters : ∀ p ∈ r.puts, p.1.counter < r.puts.length

theorem follows_common (peer : Peer) (value : Option Int) :
    Follows peer value (common value) value where
  branch := .refl _ _
  reads := by cases value <;> rfl
  counters p hp := by
    cases value with
    | none => cases hp
    | some v =>
        rw [List.mem_singleton.mp hp]
        exact Nat.zero_lt_one

theorem Follows.fresh (h : Follows peer base r value) {p : Peer} :
    (∀ x ∈ r.puts, x.1 ≠ ⟨some p, r.puts.length⟩) ∧ ⟨some p, r.puts.length⟩ ∉ r.overwritten := by
  have hnew : ∀ x ∈ r.puts, x.1 ≠ ⟨some p, r.puts.length⟩ := by
    intro x hx heq
    have hlt := h.counters x hx
    rw [heq] at hlt
    exact absurd hlt (Nat.lt_irrefl _)
  refine ⟨hnew, fun hgone => ?_⟩
  rcases h.branch.had _ hgone with hbefore | ⟨x, hx, heq⟩
  · cases hbefore
  · exact hnew x hx heq

theorem Follows.written (h : Follows peer base r value) (next : Option Int) :
    Follows peer base (follow peer next r) next := by
  unfold follow
  split
  · rename_i hsame
    exact ⟨h.branch, hsame, h.counters⟩
  · cases next with
    | none =>
        refine ⟨h.branch.delete, ?_, h.counters⟩
        rw [Register.visible_delete]
        rfl
    | some v =>
        obtain ⟨hnew, hlive⟩ := h.fresh (p := peer)
        have hown : own peer ⟨some peer, r.puts.length⟩ := rfl
        refine ⟨h.branch.put hown v, ?_, ?_⟩
        · rw [Register.visible_put hnew hlive]
          rfl
        · intro x hx
          simp only [Register.put, List.length_append, List.length_singleton]
          rcases List.mem_append.mp hx with hold | hput
          · exact Nat.lt_succ_of_lt (h.counters x hold)
          · rw [List.mem_singleton.mp hput]
            exact Nat.lt_succ_self _

theorem Follows.present (h : Follows peer base r value) : r.Present ↔ value.isSome = true := by
  rw [Register.present_iff_visible]
  have hreads := h.reads
  cases value with
  | none => simpa using hreads
  | some v =>
      constructor
      · exact fun _ => rfl
      · rintro - hnone
        rw [hnone] at hreads
        cases hreads

end Follows

section Runs

variable {trackId clipId : String} {peer : Peer} {r : Replica} {c : ClipDef}

/-- While the clip is there, its keys follow the clip of the document. -/
def Replica.Tracks (trackId clipId : String) (peer : Peer) (c : ClipDef) (r : Replica) : Prop :=
  ∀ keys, r.clip = some keys → ∃ now, r.doc.findClip trackId clipId = some now ∧
    Follows peer c.startTick keys.startTick now.startTick ∧
    Follows peer c.startSample keys.startSample now.startSample

theorem tracks_start {d : ProjectDef} (peer : Peer) (hfind : d.findClip trackId clipId = some c) :
    (Replica.start trackId clipId d).Tracks trackId clipId peer c := by
  intro keys hkeys
  rw [Replica.start, hfind] at hkeys
  obtain rfl := Option.some.inj hkeys
  exact ⟨c, hfind, follows_common peer _, follows_common peer _⟩

theorem Replica.Tracks.call (h : r.Tracks trackId clipId peer c) (m : Mutator) :
    (r.call trackId clipId peer m).Tracks trackId clipId peer c := by
  intro keys hkeys
  dsimp only [Replica.call] at hkeys
  split at hkeys
  · cases hkeys
  · obtain ⟨before, hbefore, hrest⟩ := Option.bind_eq_some_iff.mp hkeys
    obtain ⟨now, hnow, hdone⟩ := Option.bind_eq_some_iff.mp hrest
    obtain rfl := Option.some.inj hdone
    obtain ⟨old, -, htick, hsample⟩ := h before hbefore
    exact ⟨now, hnow, htick.written _, hsample.written _⟩

theorem Replica.Tracks.calls (h : r.Tracks trackId clipId peer c) (ms : List Mutator) :
    (r.calls trackId clipId peer ms).Tracks trackId clipId peer c := by
  induction ms generalizing r with
  | nil => exact h
  | cons m ms ih => exact ih (h.call m)

theorem calls_unambiguous {ms : List Mutator} (hdoc : r.doc.Unambiguous)
    (hplain : ∀ m ∈ ms, m.Plain) : (r.calls trackId clipId peer ms).doc.Unambiguous := by
  induction ms generalizing r with
  | nil => exact hdoc
  | cons m ms ih =>
      refine @ih (r.call trackId clipId peer m) ?_ fun m' hm' =>
        hplain m' (List.mem_cons_of_mem m hm')
      exact edit_unambiguous hdoc (hplain m List.mem_cons_self)

end Runs

section Merged

variable {c now : ClipDef} {base x y : ClipKeys} {p q : Peer}

/-- The keys a peer's clip has, with the clip of its document. -/
structure KeysOf (c now : ClipDef) (p : Peer) (x : ClipKeys) : Prop where
  tick : Follows p c.startTick x.startTick now.startTick
  sample : Follows p c.startSample x.startSample now.startSample

theorem present_mergeKeys {value : Option Int} {r s : Register OpId Int} {vr vs : Option Int}
    (hr : Follows .first value r vr) (hs : Follows .second value s vs) :
    (r.merge s).Present ↔
      r.Stands (own .first) ∨ s.Stands (own .second) ∨ (common value).Kept r s := by
  apply Register.present_merge hr.branch hs.branch
  · intro i hfirst hsecond
    cases hfirst.symm.trans hsecond
  · intro x hx
    obtain ⟨v, -, rfl⟩ := List.mem_map.mp hx
    exact ⟨nofun, nofun⟩

theorem kept_comm {b r s : Register OpId Int} : b.Kept r s ↔ b.Kept s r := by
  simp only [Register.Kept, and_comm]

/-- In one domain to begin with, the merged clip is in one domain when neither
the positions of the two peers nor those of one of them meet. -/
theorem exclusive_iff (hone : c.startTick.isSome ≠ c.startSample.isSome) {nowX nowY : ClipDef}
    (hx : KeysOf c nowX .first x) (hy : KeysOf c nowY .second y) :
    (mergeKeys x y).Exclusive ↔
      Compatible ⟨common c.startTick, common c.startSample⟩ x y := by
  have hbase : ¬((common c.startTick).Kept x.startTick y.startTick ∧
      (common c.startSample).Kept x.startSample y.startSample) := by
    rintro ⟨⟨t, ht, -⟩, ⟨s, hs, -⟩⟩
    obtain ⟨tick, htick, -⟩ := List.mem_map.mp ht
    obtain ⟨sample, hsample, -⟩ := List.mem_map.mp hs
    rw [Option.mem_toList] at htick hsample
    rw [htick, hsample] at hone
    exact hone rfl
  simp only [ClipKeys.Exclusive, mergeKeys, present_mergeKeys hx.tick hy.tick,
    present_mergeKeys hx.sample hy.sample, Compatible, Crosses, Doubles,
    kept_comm (r := y.startTick), kept_comm (r := y.startSample)]
  tauto

theorem not_doubles (hx : KeysOf c now p x) (hplain : ¬now.Ambiguous) :
    ¬Doubles ⟨common c.startTick, common c.startSample⟩ p x y := by
  have hpresent : ∀ {value v : Option Int} {r s : Register OpId Int}, Follows p value r v →
      r.Stands (own p) ∨ (common value).Kept r s → v.isSome = true := by
    intro value v r s hr hhas
    rw [← hr.present]
    rcases hhas with ⟨w, hw, -, hlive⟩ | ⟨w, hw, hlive, -⟩
    · exact ⟨w, hw, hlive⟩
    · obtain ⟨mine, heq, -⟩ := hr.branch.puts
      refine ⟨w, ?_, hlive⟩
      rw [heq]
      exact List.mem_append_left _ hw
  rintro ⟨htick, hsample⟩
  exact hplain ⟨hpresent hx.tick htick, hpresent hx.sample hsample⟩

/-- The merged clip, if it is there, is in one domain at most. -/
def ExclusiveMerge (a b : Replica) : Prop := ∀ keys, mergeClip a b = some keys → keys.Exclusive

theorem exclusiveMerge_iff {a b : Replica} {P : ClipKeys → ClipKeys → Prop}
    (hmerge : ∀ x y, a.clip = some x → b.clip = some y → ((mergeKeys x y).Exclusive ↔ P x y)) :
    ExclusiveMerge a b ↔ ∀ x y, a.clip = some x → b.clip = some y → P x y := by
  constructor
  · intro hall x y hx hy
    apply (hmerge x y hx hy).mp
    apply hall
    rw [mergeClip, hx, hy]
    rfl
  · intro hall keys hkeys
    obtain ⟨x, hx, hrest⟩ := Option.bind_eq_some_iff.mp hkeys
    obtain ⟨y, hy, hdone⟩ := Option.bind_eq_some_iff.mp hrest
    obtain rfl := Option.some.inj hdone
    exact (hmerge x y hx hy).mpr (hall x y hx hy)

/-- Two peers start from a document whose clips are each in one domain and call
any mutators. The merged clip is in one domain exactly when the keys of the
peers are compatible; without a call that is given both positions, when neither
peer has written the tick its clip has while the other has written the sample,
and then no clip of either document has both. -/
theorem exclusive_iff_of_merge (d : ProjectDef) (hd : d.EachInOneDomain)
    (trackId clipId : String) (c : ClipDef) (hfind : d.findClip trackId clipId = some c)
    (first second : List Mutator) :
    let start := Replica.start trackId clipId d
    let a := start.calls trackId clipId .first first
    let b := start.calls trackId clipId .second second
    (ExclusiveMerge a b ↔ ∀ x y, a.clip = some x → b.clip = some y →
        Compatible ⟨common c.startTick, common c.startSample⟩ x y) ∧
      ((∀ m ∈ first ++ second, m.Plain) → a.doc.Unambiguous ∧ b.doc.Unambiguous ∧
        (ExclusiveMerge a b ↔ ∀ x y, a.clip = some x → b.clip = some y →
          ¬Crosses .first .second x y ∧ ¬Crosses .second .first y x)) := by
  intro start a b
  have hone := hd c (hasClip_of_findClip hfind)
  have ha : a.Tracks trackId clipId .first c := (tracks_start .first hfind).calls first
  have hb : b.Tracks trackId clipId .second c := (tracks_start .second hfind).calls second
  have hfull : ∀ x y, a.clip = some x → b.clip = some y → ((mergeKeys x y).Exclusive ↔
      Compatible ⟨common c.startTick, common c.startSample⟩ x y) := by
    intro x y hx hy
    obtain ⟨nowX, -, htickX, hsampleX⟩ := ha x hx
    obtain ⟨nowY, -, htickY, hsampleY⟩ := hb y hy
    exact exclusive_iff hone ⟨htickX, hsampleX⟩ ⟨htickY, hsampleY⟩
  refine ⟨exclusiveMerge_iff hfull, fun hplain => ?_⟩
  have hstart : start.doc.Unambiguous := unambiguous_of_domains hd
  have hdocA : a.doc.Unambiguous :=
    calls_unambiguous hstart fun m hm => hplain m (List.mem_append_left _ hm)
  have hdocB : b.doc.Unambiguous :=
    calls_unambiguous hstart fun m hm => hplain m (List.mem_append_right _ hm)
  refine ⟨hdocA, hdocB, exclusiveMerge_iff fun x y hx hy => ?_⟩
  obtain ⟨nowX, hnowX, htickX, hsampleX⟩ := ha x hx
  obtain ⟨nowY, hnowY, htickY, hsampleY⟩ := hb y hy
  have hsingleX : ¬Doubles ⟨common c.startTick, common c.startSample⟩ .first x y :=
    not_doubles ⟨htickX, hsampleX⟩ (hdocA nowX (hasClip_of_findClip hnowX))
  have hsingleY : ¬Doubles ⟨common c.startTick, common c.startSample⟩ .second y x :=
    not_doubles ⟨htickY, hsampleY⟩ (hdocB nowY (hasClip_of_findClip hnowY))
  rw [hfull x y hx hy, Compatible]
  simp [hsingleX, hsingleY]

/-- A clip of the arrangement at a sample. -/
def oneAudioClip : ProjectDef where
  tracks :=
    [{ id := "t", name := "Piste"
       clips := [{ id := "c", startSample := some 0, lengthSamples := some 48000 }] }]

/-- `Rendre musical`: the position becomes a tick, the content keeps its samples. -/
def toMusical : Mutator :=
  .named "n" (.setClipTiming "t" "c" { startTick := some 0, lengthSamples := some 48000 })

def drag (startSample : Int) : Mutator := .named "n" (.setClipStart "t" "c" startSample)

theorem oneAudioClip_domains : oneAudioClip.EachInOneDomain := by
  rintro c ⟨t, ht, hc⟩
  cases List.mem_singleton.mp ht
  cases List.mem_singleton.mp hc
  decide

theorem exclusive_iff_of_merge_drags :
    let start := Replica.start "t" "c" oneAudioClip
    let a := start.calls "t" "c" .first [drag 24000]
    let b := start.calls "t" "c" .second [drag 96000]
    (oneAudioClip.EachInOneDomain ∧ (oneAudioClip.findClip "t" "c").isSome) ∧
      (ExclusiveMerge a b ↔ ∀ x y, a.clip = some x → b.clip = some y →
        Compatible ⟨common none, common (some 0)⟩ x y) :=
  ⟨⟨oneAudioClip_domains, by decide⟩,
    (exclusive_iff_of_merge oneAudioClip oneAudioClip_domains "t" "c"
      { id := "c", startSample := some 0, lengthSamples := some 48000 } (by decide)
      [drag 24000] [drag 96000]).1⟩

/-- One peer drags the clip while the other makes it musical. -/
theorem not_exclusive_merge_dragged :
    ¬∀ (d : ProjectDef) (trackId clipId : String) (first second : List Mutator),
      d.EachInOneDomain →
        ExclusiveMerge
          ((Replica.start trackId clipId d).calls trackId clipId .first first)
          ((Replica.start trackId clipId d).calls trackId clipId .second second) := by
  intro hall
  have hmerge := hall oneAudioClip "t" "c" [drag 24000] [toMusical] oneAudioClip_domains _ rfl
  exact hmerge (by decide)

end Merged

end DawProject.Document
