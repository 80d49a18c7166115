import DawProject.Lib.Ranked
import DawProject.Document.Gesture
import DawProject.Document.Lookup
import Mathlib.Data.Rat.Cast.Order

/-!
The order in which the tracks are shown, `orderedTracks` of
`web/src/document/schema.ts`, over the deletion of a track and its undo. The
undo adds the track at the end of the list, so the tracks that followed it fall
by one index, and it takes the last one.
-/

namespace DawProject.Document

open Ranked

/-- The record `{ t, key, i }` that is sorted. -/
structure Shown where
  t : TrackDef
  key : ℚ
  i : Nat

def shownAt (t : TrackDef) (i : Nat) : Shown := ⟨t, t.order.getD i, i⟩

/-- By key, then by index. -/
def Shown.rank (s : Shown) : ℚ ×ₗ ℕ := toLex (s.key, s.i)

def shown (tracks : List TrackDef) : List Shown :=
  tracks.zipIdx.map fun (t, i) => shownAt t i

def orderedTracks (doc : ProjectDef) : List TrackDef :=
  (sortBy Shown.rank (shown doc.tracks)).map Shown.t

/-- The ids of the tracks, in the order shown. -/
def shownIds (doc : ProjectDef) : List String := (orderedTracks doc).map TrackDef.id

/-- No two tracks have one place in the list. -/
theorem ranks_shown (tracks : List TrackDef) : ((shown tracks).map Shown.rank).Nodup := by
  have hindex : ((shown tracks).map Shown.rank).map (fun r => (ofLex r).2) =
      List.range' 0 tracks.length := by
    rw [← List.zipIdx_map_snd]
    simp [shown, Function.comp_def, Shown.rank, shownAt]
  apply List.Nodup.of_map (fun r => (ofLex r).2)
  rw [hindex]
  exact List.nodup_range'

theorem map_shown (tracks : List TrackDef) : (shown tracks).map Shown.t = tracks := by
  simp [shown, Function.comp_def, shownAt]

section Placements

/-- A track with the index it had and the one it has after the undo. -/
structure Placement where
  t : TrackDef
  i : Nat
  j : Nat

/-- The tracks that stay: those after the deleted one fall by one. -/
def kept (before after : List TrackDef) : List Placement :=
  (before ++ after).zipIdx.map fun (t, j) => ⟨t, if j < before.length then j else j + 1, j⟩

def placements (before : List TrackDef) (x : TrackDef) (after : List TrackDef) : List Placement :=
  kept before after ++ [⟨x, before.length, before.length + after.length⟩]

def Placement.before (m : Placement) : Shown := shownAt m.t m.i

def Placement.after (m : Placement) : Shown := shownAt m.t m.j

variable {before after : List TrackDef} {x : TrackDef}

theorem shown_after :
    shown (before ++ after ++ [x]) = (placements before x after).map Placement.after := by
  rw [shown, placements, kept, List.zipIdx_append, List.map_append, List.map_append, List.map_map]
  simp [Placement.after, shownAt]

theorem shown_before :
    (shown (before ++ x :: after)).Perm ((placements before x after).map Placement.before) := by
  have hfirst : ∀ m ∈ before.zipIdx, shownAt m.1 (if m.2 < before.length then m.2 else m.2 + 1) =
      shownAt m.1 m.2 := by
    rintro ⟨t, j⟩ hmem
    rw [if_pos (by simpa using List.snd_lt_of_mem_zipIdx hmem)]
  have hlast : ∀ m ∈ after.zipIdx before.length,
      shownAt m.1 (if m.2 < before.length then m.2 else m.2 + 1) = shownAt m.1 (m.2 + 1) := by
    rintro ⟨t, j⟩ hmem
    rw [if_neg (not_lt.mpr (List.le_snd_of_mem_zipIdx hmem))]
  have hplaced : (placements before x after).map Placement.before =
      before.zipIdx.map (fun m => shownAt m.1 m.2) ++
        (after.zipIdx before.length).map (fun m => shownAt m.1 (m.2 + 1)) ++
        [shownAt x before.length] := by
    rw [← List.map_congr_left hfirst, ← List.map_congr_left hlast]
    simp [placements, kept, List.zipIdx_append, Placement.before, Function.comp_def]
  have hshown : shown (before ++ x :: after) =
      before.zipIdx.map (fun m => shownAt m.1 m.2) ++ shownAt x before.length ::
        (after.zipIdx before.length).map fun m => shownAt m.1 (m.2 + 1) := by
    simp [shown, List.zipIdx_append, List.zipIdx_succ, Function.comp_def]
  rw [hplaced, hshown, List.append_assoc]
  exact (List.perm_append_singleton _ _).symm.append_left _

theorem orderedTracks_before {doc : ProjectDef} (htracks : doc.tracks = before ++ x :: after) :
    orderedTracks doc =
      (sortBy (fun m => m.before.rank) (placements before x after)).map Placement.t := by
  rw [orderedTracks, htracks, sortBy_congr shown_before (ranks_shown _), sortBy_map, List.map_map]
  rfl

theorem orderedTracks_after {doc : ProjectDef} (htracks : doc.tracks = before ++ after ++ [x]) :
    orderedTracks doc =
      (sortBy (fun m => m.after.rank) (placements before x after)).map Placement.t := by
  rw [orderedTracks, htracks, shown_after, sortBy_map, List.map_map]
  rfl

theorem ranks_before (before : List TrackDef) (x : TrackDef) (after : List TrackDef) :
    ((placements before x after).map fun m => m.before.rank).Nodup := by
  have hranks := (shown_before.map Shown.rank).nodup_iff.mp
    (ranks_shown (before ++ x :: after))
  rwa [List.map_map] at hranks

theorem ranks_after (before : List TrackDef) (x : TrackDef) (after : List TrackDef) :
    ((placements before x after).map fun m => m.after.rank).Nodup := by
  have hranks := ranks_shown (before ++ after ++ [x])
  rwa [shown_after, List.map_map] at hranks

theorem tracks_placements (before : List TrackDef) (x : TrackDef) (after : List TrackDef) :
    (before ++ x :: after).Perm ((placements before x after).map Placement.t) := by
  have htracks : ((shown (before ++ x :: after)).map Shown.t).Perm
      (((placements before x after).map Placement.before).map Shown.t) :=
    shown_before.map Shown.t
  rwa [map_shown, List.map_map] at htracks

theorem index_of_kept {m : Placement} (hm : m ∈ kept before after) :
    m.j < before.length + after.length ∧
      m.i = if m.j < before.length then m.j else m.j + 1 := by
  obtain ⟨⟨t, j⟩, hmem, rfl⟩ := List.mem_map.mp hm
  refine ⟨?_, rfl⟩
  simpa using List.snd_lt_of_mem_zipIdx hmem

theorem eq_of_index {m u : Placement} (hm : m ∈ kept before after) (hu : u ∈ kept before after)
    (hj : m.j = u.j) : m = u := by
  obtain ⟨⟨t, j⟩, hmem, rfl⟩ := List.mem_map.mp hm
  obtain ⟨⟨t', j'⟩, hmem', rfl⟩ := List.mem_map.mp hu
  rw [List.mk_mem_zipIdx_iff_getElem?] at hmem hmem'
  dsimp only at hj
  subst hj
  rw [hmem] at hmem'
  cases hmem'
  rfl

/-- The orders that the indices of the tracks without one leave out: when a
track without order falls from `i` to `j`, no order lies in between; nor does
the order of the moved track, or, where it has none, any order between its old
index and the last. -/
structure KeepsOrder (before : List TrackDef) (x : TrackDef) (after : List TrackDef) : Prop where
  stays : ∀ m ∈ kept before after, m.t.order = none →
    ∀ u ∈ kept before after, ∀ o, u.t.order = some o →
      (u.j < m.j → ¬((m.j : ℚ) < o ∧ o ≤ m.i)) ∧ (m.j < u.j → ¬((m.j : ℚ) ≤ o ∧ o < m.i))
  moved : ∀ o, x.order = some o → ∀ m ∈ kept before after, m.j < m.i →
    m.t.order ≠ some o ∧ (m.t.order = none → ¬((m.j : ℚ) ≤ o ∧ o ≤ m.i))
  orderless : x.order = none → ∀ m ∈ kept before after,
    (m.t.order = none → m.j = m.i) ∧
      ∀ o, m.t.order = some o →
        (m.j = m.i → ¬((before.length : ℚ) < o ∧ o ≤ (before.length + after.length : ℕ))) ∧
          (m.j < m.i → ¬((before.length : ℚ) ≤ o ∧ o ≤ (before.length + after.length : ℕ)))

section Agree

variable {m u : Placement}

theorem before_lt_of_lt (hi : m.i < u.i) :
    m.before.rank < u.before.rank ↔ m.t.order.getD m.i ≤ u.t.order.getD u.i :=
  toLex_lt_of_lt hi

theorem before_lt_of_gt (hi : u.i < m.i) :
    m.before.rank < u.before.rank ↔ m.t.order.getD m.i < u.t.order.getD u.i :=
  toLex_lt_of_gt hi

theorem after_lt_of_lt (hj : m.j < u.j) :
    m.after.rank < u.after.rank ↔ m.t.order.getD m.j ≤ u.t.order.getD u.j :=
  toLex_lt_of_lt hj

theorem after_lt_of_gt (hj : u.j < m.j) :
    m.after.rank < u.after.rank ↔ m.t.order.getD m.j < u.t.order.getD u.j :=
  toLex_lt_of_gt hj

/-- Two tracks that stay. -/
theorem agree_of_stays (hkeeps : KeepsOrder before x after) (hm : m ∈ kept before after)
    (hu : u ∈ kept before after) (hlt : m.before.rank < u.before.rank) :
    m.after.rank < u.after.rank := by
  obtain ⟨_, hmi⟩ := index_of_kept hm
  obtain ⟨_, hui⟩ := index_of_kept hu
  rcases lt_trichotomy m.j u.j with hj | hj | hj
  · have hi : m.i < u.i := by
      split at hmi <;> split at hui <;> omega
    have hfall : (m.j : ℚ) ≤ m.i := by
      exact_mod_cast (by split at hmi <;> omega : m.j ≤ m.i)
    rw [before_lt_of_lt hi] at hlt
    rw [after_lt_of_lt hj]
    cases hmo : m.t.order with
    | none =>
        cases huo : u.t.order with
        | none =>
            simp only [Option.getD_none]
            exact_mod_cast hj.le
        | some o =>
            rw [hmo, huo, Option.getD_none, Option.getD_some] at hlt
            exact hfall.trans hlt
    | some o =>
        cases huo : u.t.order with
        | none =>
            rw [hmo, huo, Option.getD_none, Option.getD_some] at hlt
            have hgap := (hkeeps.stays u hu huo m hm o hmo).1 hj
            exact not_lt.mp fun hbeyond => hgap ⟨hbeyond, hlt⟩
        | some o' =>
            rw [hmo, huo, Option.getD_some, Option.getD_some] at hlt
            exact hlt
  · rw [eq_of_index hm hu hj] at hlt
    exact absurd hlt (lt_irrefl _)
  · have hi : u.i < m.i := by
      split at hmi <;> split at hui <;> omega
    have hfall : (m.j : ℚ) ≤ m.i := by
      exact_mod_cast (by split at hmi <;> omega : m.j ≤ m.i)
    rw [before_lt_of_gt hi] at hlt
    rw [after_lt_of_gt hj]
    cases hmo : m.t.order with
    | none =>
        cases huo : u.t.order with
        | none =>
            rw [hmo, huo, Option.getD_none, Option.getD_none, Nat.cast_lt] at hlt
            omega
        | some o =>
            rw [hmo, huo, Option.getD_none, Option.getD_some] at hlt
            exact hfall.trans_lt hlt
    | some o =>
        cases huo : u.t.order with
        | none =>
            rw [hmo, huo, Option.getD_none, Option.getD_some] at hlt
            have hgap := (hkeeps.stays u hu huo m hm o hmo).2 hj
            exact not_le.mp fun hbeyond => hgap ⟨hbeyond, hlt⟩
        | some o' =>
            rw [hmo, huo, Option.getD_some, Option.getD_some] at hlt
            exact hlt

/-- The moved track and one that stays. -/
theorem agree_of_moved (hkeeps : KeepsOrder before x after) (hm : m ∈ kept before after)
    (hu : u = ⟨x, before.length, before.length + after.length⟩) :
    (m.before.rank < u.before.rank → m.after.rank < u.after.rank) ∧
      (u.before.rank < m.before.rank → u.after.rank < m.after.rank) := by
  obtain ⟨hlast, hmi⟩ := index_of_kept hm
  have hj : m.j < u.j := by
    rw [hu]
    exact hlast
  have hlastcast : (m.j : ℚ) ≤ (before.length + after.length : ℕ) := by
    exact_mod_cast hlast.le
  rw [after_lt_of_lt hj, after_lt_of_gt hj]
  by_cases hside : m.j < before.length
  · rw [if_pos hside] at hmi
    have hi : m.i < u.i := by
      rw [hu, hmi]
      exact hside
    rw [before_lt_of_lt hi, before_lt_of_gt hi, hmi, hu]
    have hcast : (m.j : ℚ) < before.length := by
      exact_mod_cast hside
    have hlength : (before.length : ℚ) ≤ (before.length + after.length : ℕ) := by
      exact_mod_cast Nat.le_add_right _ _
    cases hx : x.order with
    | some q => exact ⟨id, id⟩
    | none =>
        simp only [Option.getD_none]
        cases hmo : m.t.order with
        | none =>
            simp only [Option.getD_none]
            exact ⟨fun _ => hlastcast, fun h => absurd h (lt_asymm hcast)⟩
        | some o =>
            simp only [Option.getD_some]
            have hgap := ((hkeeps.orderless hx m hm).2 o hmo).1 hmi.symm
            refine ⟨fun h => h.trans hlength, fun h => ?_⟩
            exact not_le.mp fun hwithin => hgap ⟨h, hwithin⟩
  · rw [if_neg hside] at hmi
    have hfall : m.j < m.i := by omega
    have hi : u.i < m.i := by
      rw [hu, hmi]
      exact Nat.lt_succ_of_le (not_lt.mp hside)
    rw [before_lt_of_gt hi, before_lt_of_lt hi, hu]
    cases hx : x.order with
    | some q =>
        have hgap := hkeeps.moved q hx m hm hfall
        have hcast : (m.j : ℚ) ≤ m.i := by
          exact_mod_cast hfall.le
        simp only [Option.getD_some]
        cases hmo : m.t.order with
        | none =>
            simp only [Option.getD_none]
            refine ⟨fun h => hcast.trans h.le, fun h => ?_⟩
            exact not_le.mp fun hwithin => hgap.2 hmo ⟨hwithin, h⟩
        | some o =>
            simp only [Option.getD_some]
            refine ⟨le_of_lt, fun h => lt_of_le_of_ne h ?_⟩
            rintro rfl
            exact hgap.1 hmo
    | none =>
        have hgap := hkeeps.orderless hx m hm
        simp only [Option.getD_none]
        cases hmo : m.t.order with
        | none => exact absurd (hgap.1 hmo) hfall.ne
        | some o =>
            simp only [Option.getD_some]
            have hout := (hgap.2 o hmo).2 hfall
            have hlength : (before.length : ℚ) ≤ (before.length + after.length : ℕ) := by
              exact_mod_cast Nat.le_add_right _ _
            refine ⟨fun h => h.le.trans hlength, fun h => ?_⟩
            exact not_le.mp fun hwithin => hout ⟨h, hwithin⟩

theorem keepsOrder_of_agree
    (hagree : ∀ m ∈ placements before x after, ∀ u ∈ placements before x after,
      m.before.rank < u.before.rank → m.after.rank < u.after.rank) : KeepsOrder before x after := by
  have hstays {m u : Placement} (hm : m ∈ kept before after) (hu : u ∈ kept before after) :
      m.before.rank < u.before.rank → m.after.rank < u.after.rank :=
    hagree m (List.mem_append_left _ hm) u (List.mem_append_left _ hu)
  have hmoved {m : Placement} (hm : m ∈ kept before after) :=
    hagree _ (List.mem_append_right _ List.mem_cons_self) m (List.mem_append_left _ hm)
  constructor
  · intro m hm hmo u hu o huo
    obtain ⟨_, hmi⟩ := index_of_kept hm
    obtain ⟨_, hui⟩ := index_of_kept hu
    constructor
    · rintro hj ⟨hlow, hhigh⟩
      have hi : u.i < m.i := by
        split at hmi <;> split at hui <;> omega
      have hlt := hstays hu hm
      rw [before_lt_of_lt hi, after_lt_of_lt hj, hmo, huo] at hlt
      exact absurd (hlt hhigh) (not_le.mpr hlow)
    · rintro hj ⟨hlow, hhigh⟩
      have hi : m.i < u.i := by
        split at hmi <;> split at hui <;> omega
      have hlt := hstays hu hm
      rw [before_lt_of_gt hi, after_lt_of_gt hj, hmo, huo] at hlt
      exact absurd (hlt hhigh) (not_lt.mpr hlow)
  · intro q hx m hm hfall
    obtain ⟨hlast, hmi⟩ := index_of_kept hm
    have hi : before.length < m.i := by
      split at hmi <;> omega
    have hlt := hmoved hm
    rw [before_lt_of_lt hi, after_lt_of_gt hlast, hx] at hlt
    constructor
    · intro hmo
      rw [hmo] at hlt
      exact absurd (hlt le_rfl) (lt_irrefl _)
    · rintro hmo ⟨hlow, hhigh⟩
      rw [hmo] at hlt
      exact absurd (hlt hhigh) (not_lt.mpr hlow)
  · intro hx m hm
    obtain ⟨hlast, hmi⟩ := index_of_kept hm
    have hlt := hmoved hm
    refine ⟨?_, fun o hmo => ⟨?_, ?_⟩⟩
    · intro hmo
      by_contra hne
      have hi : before.length < m.i := by
        split at hmi <;> omega
      rw [before_lt_of_lt hi, after_lt_of_gt hlast, hx, hmo, Option.getD_none, Option.getD_none,
        Option.getD_none, Option.getD_none, Nat.cast_le, Nat.cast_lt] at hlt
      exact absurd (hlt hi.le) (lt_asymm hlast)
    · rintro hsame ⟨hlow, hhigh⟩
      have hi : m.i < before.length := by
        split at hmi <;> omega
      rw [before_lt_of_gt hi, after_lt_of_gt hlast, hx, hmo] at hlt
      exact absurd (hlt hlow) (not_lt.mpr hhigh)
    · rintro hfall ⟨hlow, hhigh⟩
      have hi : before.length < m.i := by
        split at hmi <;> omega
      rw [before_lt_of_lt hi, after_lt_of_gt hlast, hx, hmo] at hlt
      exact absurd (hlt hlow) (not_lt.mpr hhigh)

/-- The indices agree about every two tracks exactly when they leave the orders out. -/
theorem agree_iff :
    (∀ m ∈ placements before x after, ∀ u ∈ placements before x after,
      m.before.rank < u.before.rank → m.after.rank < u.after.rank) ↔
        KeepsOrder before x after := by
  refine ⟨keepsOrder_of_agree, ?_⟩
  intro hkeeps m hm u hu hlt
  rcases List.mem_append.mp hm with hm | hm
  · rcases List.mem_append.mp hu with hu | hu
    · exact agree_of_stays hkeeps hm hu hlt
    · exact (agree_of_moved hkeeps hm (List.mem_singleton.mp hu)).1 hlt
  · rcases List.mem_append.mp hu with hu | hu
    · exact (agree_of_moved hkeeps hu (List.mem_singleton.mp hm)).2 hlt
    · rw [List.mem_singleton.mp hm, List.mem_singleton.mp hu] at hlt
      exact absurd hlt (lt_irrefl _)

end Agree

end Placements

section Undo

variable {p : Project} {before after : List TrackDef} {x : TrackDef}

/-- The undo of a deletion adds the track at the end. -/
theorem undo_deleteTrack (freshId : Nat → String) (hrest : p.AtRest)
    (htracks : p.doc.tracks = before ++ x :: after) (hfirst : ∀ t ∈ before, t.id ≠ x.id) :
    ((p.edit (deleteTrack x.id)).undo freshId).doc =
      { p.doc with tracks := before ++ after ++ [x] } := by
  have hfind : p.doc.findTrack x.id = some x := by
    rw [ProjectDef.findTrack, htracks, List.find?_append, List.find?_eq_none.mpr]
    · simp
    · simpa using hfirst
  have herase : p.doc.tracks.eraseP (fun t => t.id == x.id) = before ++ after := by
    rw [htracks, List.eraseP_append_right]
    · simp
    · simpa using hfirst
  have hdelete : deleteTrack x.id p.doc =
      .writes (.addTrack x) { p.doc with tracks := before ++ after } := by
    simp only [deleteTrack, hfind, herase]
  rw [undo_edit hrest hdelete freshId]
  rfl

/-- A deletion and its undo keep the order shown exactly when the indices that
move leave the orders out. -/
theorem shownIds_undo_deleteTrack (freshId : Nat → String) (hrest : p.AtRest)
    (htracks : p.doc.tracks = before ++ x :: after) (hfirst : ∀ t ∈ before, t.id ≠ x.id) :
    (KeepsOrder before x after →
        shownIds ((p.edit (deleteTrack x.id)).undo freshId).doc = shownIds p.doc) ∧
      ((p.doc.tracks.map TrackDef.id).Nodup →
        shownIds ((p.edit (deleteTrack x.id)).undo freshId).doc = shownIds p.doc →
          KeepsOrder before x after) := by
  have hundone := undo_deleteTrack freshId hrest htracks hfirst
  have hbefore := orderedTracks_before htracks
  have hafter : orderedTracks ((p.edit (deleteTrack x.id)).undo freshId).doc = _ :=
    orderedTracks_after (congrArg ProjectDef.tracks hundone)
  have hsorts := (sortBy_eq_sortBy_iff (.refl _) (ranks_before before x after)
    (ranks_after before x after)).trans agree_iff
  rw [shownIds, shownIds, hbefore, hafter, List.map_map, List.map_map]
  constructor
  · intro hkeeps
    rw [hsorts.mpr hkeeps]
  · intro hids hsame
    apply hsorts.mp
    have hperm : (sortBy (fun m => m.after.rank) (placements before x after)).Perm
        (sortBy (fun m => m.before.rank) (placements before x after)) :=
      (sortBy_perm _ _).trans (sortBy_perm _ _).symm
    have hnames : ((sortBy (fun m => m.after.rank) (placements before x after)).map
        (TrackDef.id ∘ Placement.t)).Nodup := by
      rw [((sortBy_perm _ _).map _).nodup_iff, ← List.map_map,
        ← ((tracks_placements before x after).map TrackDef.id).nodup_iff, ← htracks]
      exact hids
    exact ((map_eq_map_iff hperm hnames).mp hsame).symm

def drums : TrackDef := { id := "drums", name := "Drums" }

/-- A track with an order between the index of `drums` and the order of `pad`. -/
def bass : TrackDef := { id := "bass", name := "Bass", order := some (1 / 2) }

def pad : TrackDef := { id := "pad", name := "Pad", order := some 2 }

def bassBetween : Project where
  doc := { tracks := [drums, bass, pad] }

theorem keepsOrder_bass : KeepsOrder [drums] bass [pad] := by
  have hkept : ∀ m ∈ kept [drums] [pad], m = ⟨drums, 0, 0⟩ ∨ m = ⟨pad, 2, 1⟩ := by
    simp [kept]
  constructor
  · intro m hm hmo u _ o _
    rcases hkept m hm with rfl | rfl
    · constructor
      · rintro _ ⟨hlow, hhigh⟩
        exact absurd hhigh (not_le.mpr hlow)
      · rintro _ ⟨hlow, hhigh⟩
        exact absurd hhigh (not_lt.mpr hlow)
    · cases hmo
  · rintro q ⟨⟩ m hm hfall
    rcases hkept m hm with rfl | rfl
    · cases hfall
    · exact ⟨by decide +kernel, nofun⟩
  · exact nofun

theorem shownIds_undo_deleteTrack_bass :
    shownIds ((bassBetween.edit (deleteTrack "bass")).undo fun _ => "n").doc =
      shownIds bassBetween.doc := by
  have htracks : bassBetween.doc.tracks = [drums] ++ bass :: [pad] := rfl
  exact (shownIds_undo_deleteTrack (fun _ => "n") ⟨rfl, rfl⟩ htracks (by decide)).1 keepsOrder_bass

/-- Two tracks without order: the first one comes back last. -/
def twoPlain : Project where
  doc := { tracks := [{ id := "a", name := "A" }, { id := "b", name := "B" }] }

theorem not_shownIds_plain :
    shownIds twoPlain.doc = ["a", "b"] ∧
      shownIds ((twoPlain.edit (deleteTrack "a")).undo fun _ => "n").doc = ["b", "a"] := by
  decide +kernel

end Undo

end DawProject.Document
