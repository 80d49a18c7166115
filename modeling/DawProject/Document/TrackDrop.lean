import DawProject.Lib.Retrace
import DawProject.Document.TrackOrder
import Mathlib.Tactic.Linarith
import Mathlib.Tactic.NormNum

/-!
The drop of a dragged track, `applyDrop` of `web/src/app/track_reorder.ts`. The
track takes an order between those of its new neighbours, or all tracks are
numbered again where there is no room; both are one gesture.
-/

namespace DawProject.Document

open Keyed Ranked

/-- Below this gap the middle no longer separates two neighbours. -/
def MIN_GAP : ℚ := 1 / 1000000000

/-- `keyOf.get(id)!`. The map keeps the last entry under an id. -/
def keyOf (doc : ProjectDef) (id : String) : ℚ :=
  (((shown doc.tracks).reverse.find? fun s => s.t.id == id).map Shown.key).getD 0

/-- The mutators called between `beginUndoGroup` and `endUndoGroup`. -/
def dropEdits (doc : ProjectDef) (trackId : String) (others : List TrackDef) (posInOthers : Nat) :
    List Edit :=
  let prev := if posInOthers = 0 then none else others[posInOthers - 1]?
  let next := others[posInOthers]?
  match prev, next with
  | none, none => []
  | none, some next => [setTrackOrder trackId (keyOf doc next.id - 1)]
  | some prev, none => [setTrackOrder trackId (keyOf doc prev.id + 1)]
  | some prev, some next =>
      let a := keyOf doc prev.id
      let b := keyOf doc next.id
      if b - a < MIN_GAP then
        ((others.map TrackDef.id).insertIdx posInOthers trackId).zipIdx.map fun (id, i) =>
          setTrackOrder id (i : ℚ)
      else [setTrackOrder trackId ((a + b) / 2)]

def Project.applyDrop (p : Project) (trackId : String) (slot : Nat) : Project :=
  let shownTracks := orderedTracks p.doc
  let srcPos := shownTracks.findIdx fun t => t.id == trackId
  if shownTracks.length ≤ srcPos then p
  else if slot = srcPos ∨ slot = srcPos + 1 then p
  else
    let others := shownTracks.filter fun t => t.id != trackId
    let posInOthers := if srcPos < slot then slot - 1 else slot
    p.gesture (dropEdits p.doc trackId others posInOthers)

/-- A list with one of its names moved to a slot, the slots counted with the
name in its old place. -/
def movedTo (slot : Nat) (name : String) (names : List String) : List String :=
  (names.take slot).filter (· != name) ++ name :: (names.drop slot).filter (· != name)

section Moved

variable {name : String} {l r : List String}

theorem filter_ne_of_not_mem (hl : name ∉ l) : l.filter (· != name) = l := by
  rw [List.filter_eq_self]
  intro a ha
  rw [bne_iff_ne]
  rintro rfl
  exact hl ha

theorem movedTo_split (hl : name ∉ l) (hr : name ∉ r) (slot : Nat) :
    movedTo slot name (l ++ name :: r) =
      (l ++ r).take (if l.length < slot then slot - 1 else slot) ++
        name :: (l ++ r).drop (if l.length < slot then slot - 1 else slot) := by
  have hsub {l' : List String} (hl' : l'.Sublist l) : l'.filter (· != name) = l' :=
    filter_ne_of_not_mem fun hmem => hl (hl'.subset hmem)
  have hsub' {r' : List String} (hr' : r'.Sublist r) : r'.filter (· != name) = r' :=
    filter_ne_of_not_mem fun hmem => hr (hr'.subset hmem)
  rw [movedTo]
  split
  · rename_i hslot
    obtain ⟨k, rfl⟩ := Nat.exists_eq_add_of_lt hslot
    have hk : l.length + k + 1 - l.length = k + 1 := by omega
    have hk' : l.length + k - l.length = k := by omega
    rw [Nat.add_sub_cancel, List.take_append, List.drop_append, List.take_append, List.drop_append,
      hk, hk', List.take_succ_cons, List.drop_succ_cons, List.filter_append, List.filter_append,
      List.filter_cons_of_neg (by simp), hsub (List.take_sublist _ _),
      hsub (List.drop_sublist _ _), hsub' (List.take_sublist _ _), hsub' (List.drop_sublist _ _),
      List.take_of_length_le (by omega : l.length ≤ l.length + k + 1),
      List.take_of_length_le (by omega : l.length ≤ l.length + k),
      List.drop_eq_nil_of_le (by omega : l.length ≤ l.length + k + 1),
      List.drop_eq_nil_of_le (by omega : l.length ≤ l.length + k)]
  · rename_i hslot
    have hzero : slot - l.length = 0 := by omega
    rw [List.take_append, List.drop_append, List.take_append, List.drop_append, hzero,
      List.take_zero, List.drop_zero, List.filter_append, List.filter_append,
      List.filter_cons_of_neg (by simp), hsub (List.take_sublist _ _),
      hsub (List.drop_sublist _ _), hsub' (List.Sublist.refl _)]
    rfl

theorem movedTo_same (hl : name ∉ l) (hr : name ∉ r) {slot : Nat}
    (hslot : slot = l.length ∨ slot = l.length + 1) :
    movedTo slot name (l ++ name :: r) = l ++ name :: r := by
  have hpos : (if l.length < slot then slot - 1 else slot) = l.length := by
    split <;> omega
  rw [movedTo_split hl hr, hpos, List.take_left, List.drop_left]

/-- Any other slot changes the list. -/
theorem movedTo_ne (hl : name ∉ l) (hr : name ∉ r) {slot : Nat}
    (hslot : slot ≤ (l ++ name :: r).length) (hne : ¬(slot = l.length ∨ slot = l.length + 1)) :
    movedTo slot name (l ++ name :: r) ≠ l ++ name :: r := by
  intro heq
  have hindex := congrArg (List.idxOf name) heq
  have htake : name ∉ (l ++ r).take (if l.length < slot then slot - 1 else slot) := by
    intro hmem
    rcases List.mem_append.mp (List.mem_of_mem_take hmem) with h | h
    · exact hl h
    · exact hr h
  rw [movedTo_split hl hr, List.idxOf_append_of_notMem htake, List.idxOf_append_of_notMem hl,
    List.idxOf_cons_self, List.idxOf_cons_self, List.length_take] at hindex
  simp only [List.length_append, List.length_cons] at hslot hindex
  split at hindex <;> omega

end Moved

section Writes

variable {d : ProjectDef} {trackId : String}

theorem setTrackOrder_result (order : ℚ) :
    (setTrackOrder trackId order d).result d =
      d.updateTrack trackId fun t => { t with order := some order } := by
  unfold setTrackOrder
  split
  · rename_i hnone
    have hself : d.updateTrack trackId (fun t => { t with order := some order }) = d := by
      rw [updateTrack_eq_self_iff, hnone]
      exact nofun
    exact hself.symm
  · rename_i track hfind
    split
    · rename_i hsame
      have hself : d.updateTrack trackId (fun t => { t with order := some order }) = d := by
        rw [updateTrack_eq_self_iff, hfind]
        rintro _ ⟨⟩
        rw [← hsame]
      exact hself.symm
    · rfl

theorem setTrackOrder_takesBack (order : ℚ) : TakesBack (setTrackOrder trackId order) := by
  intro d inverse doc heffect freshId
  rw [setTrackOrder] at heffect
  split at heffect
  · cases heffect
  · rename_i track hfind
    split at heffect
    · cases heffect
    · rename_i hne
      cases heffect
      have hfound : (d.updateTrack trackId fun t => { t with order := some order }).findTrack
          trackId = some { track with order := some order } := by
        rw [findTrack_updateTrack, hfind]
        · rfl
        · exact fun _ => rfl
      have hback (before : Option ℚ) (hbefore : track.order = before) :
          (d.updateTrack trackId fun t => { t with order := some order }).updateTrack trackId
            (fun t => { t with order := before }) = d := by
        rw [updateTrack_updateTrack, updateTrack_eq_self_iff, hfind]
        · rintro _ ⟨⟩
          rw [← hbefore]
        · exact fun _ => rfl
      cases horder : track.order with
      | none =>
          refine ⟨.setTrackOrder trackId order, ?_⟩
          dsimp only [mutatorOf, clearTrackOrder]
          rw [hfound, Option.bind_some]
          dsimp only
          rw [hback none horder]
      | some before =>
          refine ⟨.setTrackOrder trackId order, ?_⟩
          have hdiff : ¬(some order = some before) := by
            rw [← horder]
            exact fun h => hne h.symm
          dsimp only [mutatorOf, setTrackOrder]
          rw [hfound]
          dsimp only
          rw [if_neg hdiff, hback (some before) horder]

/-- Orders written one after the other. -/
def orderEdits (orders : List (String × ℚ)) : List Edit :=
  orders.map fun m => setTrackOrder m.1 m.2

theorem orderEdits_takesBack {orders : List (String × ℚ)} :
    ∀ e ∈ orderEdits orders, TakesBack e := by
  intro e he
  obtain ⟨m, _, rfl⟩ := List.mem_map.mp he
  exact setTrackOrder_takesBack m.2

theorem targetKey_of_setTrackOrder {order : ℚ} {inverse : InverseOp} {doc : ProjectDef}
    (heffect : setTrackOrder trackId order d = .writes inverse doc) :
    targetKey inverse = s!"order:{trackId}" := by
  rw [setTrackOrder] at heffect
  split at heffect
  · cases heffect
  · split at heffect
    · cases heffect
    · cases heffect
      split <;> rfl

theorem keys_orderEdits (orders : List (String × ℚ)) (d : ProjectDef) :
    ((editsCaptures (orderEdits orders) d).map targetKey).Sublist
      (orders.map fun m => s!"order:{m.1}") := by
  induction orders generalizing d with
  | nil => exact .slnil
  | cons m orders ih =>
      rw [orderEdits, List.map_cons, editsCaptures, List.map_cons]
      cases heffect : setTrackOrder m.1 m.2 d with
      | throws message => exact (ih d).cons _
      | ignored => exact (ih d).cons _
      | writes inverse doc =>
          dsimp only
          rw [List.map_cons, targetKey_of_setTrackOrder heffect]
          exact (ih doc).cons_cons _

/-- Orders written to distinct tracks are all kept. -/
theorem nodup_keys_orderEdits {orders : List (String × ℚ)}
    (hids : (orders.map Prod.fst).Nodup) (d : ProjectDef) :
    ((editsCaptures (orderEdits orders) d).map targetKey).Nodup := by
  apply (keys_orderEdits orders d).nodup
  have hinj : Function.Injective fun id : String => s!"order:{id}" := by
    intro a b hab
    simpa [toString] using hab
  have hkeys := hids.map hinj
  rwa [List.map_map] at hkeys

/-- Every track that is named takes its order. -/
theorem editsDoc_orderEdits {orders : List (String × ℚ)} (hids : (orders.map Prod.fst).Nodup)
    (hnames : (d.tracks.map TrackDef.id).Nodup) :
    editsDoc (orderEdits orders) d =
      { d with
        tracks := d.tracks.map fun t =>
          { t with order := (orders.lookup t.id).or t.order } } := by
  induction orders generalizing d with
  | nil =>
      have hsame : (fun t : TrackDef => { t with order := (List.lookup t.id []).or t.order }) = id :=
        rfl
      rw [hsame, List.map_id]
      rfl
  | cons m orders ih =>
      rw [List.map_cons, List.nodup_cons] at hids
      have hwrite : (setTrackOrder m.1 m.2 d).result d =
          { d with
            tracks := d.tracks.map fun t =>
              if t.id == m.1 then { t with order := some m.2 } else t } := by
        rw [setTrackOrder_result, ProjectDef.updateTrack, updateFirst_eq_map hnames]
      have hkept : ((d.tracks.map fun t =>
          if t.id == m.1 then { t with order := some m.2 } else t).map TrackDef.id) =
            d.tracks.map TrackDef.id := by
        rw [List.map_map]
        apply List.map_congr_left
        intro t _
        dsimp only [Function.comp_apply]
        split <;> rfl
      rw [orderEdits, List.map_cons, editsDoc, hwrite, ← orderEdits, ih hids.2]
      · rw [List.map_map]
        congr 1
        apply List.map_congr_left
        intro t _
        rw [Function.comp_apply, List.lookup_cons]
        cases ht : t.id == m.1 with
        | true =>
            have hid : t.id = m.1 := beq_iff_eq.mp ht
            have hlater : orders.lookup t.id = none := by
              rw [List.lookup_eq_none_iff]
              intro m' hm'
              rw [bne_iff_ne, hid]
              rintro hsame
              exact hids.1 (hsame ▸ List.mem_map_of_mem hm')
            rw [if_pos rfl, hlater]
            rfl
        | false =>
            rw [if_neg (by simp)]
      · rw [hkept]
        exact hnames

end Writes

section Reorder

variable {d : ProjectDef} {trackId : String} {orders : List (String × ℚ)}

/-- The tracks with the orders that are written. -/
def TrackDef.reordered (orders : List (String × ℚ)) (t : TrackDef) : TrackDef :=
  { t with order := (orders.lookup t.id).or t.order }

/-- A record with the key its track then has. -/
def Shown.reordered (orders : List (String × ℚ)) (s : Shown) : Shown :=
  shownAt (s.t.reordered orders) s.i

theorem eq_shownAt {tracks : List TrackDef} {s : Shown} (hs : s ∈ shown tracks) :
    s = shownAt s.t s.i := by
  obtain ⟨m, _, rfl⟩ := List.mem_map.mp hs
  rfl

theorem reordered_of_not_mem {tracks : List TrackDef} {s : Shown} (hs : s ∈ shown tracks)
    (hnot : orders.lookup s.t.id = none) : s.reordered orders = s := by
  conv_rhs => rw [eq_shownAt hs]
  rw [Shown.reordered, TrackDef.reordered, hnot]
  rfl

/-- An arrangement of the records in which the new keys increase is the one shown. -/
theorem shownIds_reordered {E : List Shown} (hperm : E.Perm (shown d.tracks))
    (hsorted : (E.map (Shown.reordered orders)).Pairwise fun s u => s.rank < u.rank) :
    shownIds { d with tracks := d.tracks.map (TrackDef.reordered orders) } =
      E.map fun s => s.t.id := by
  have hshown : shown (d.tracks.map (TrackDef.reordered orders)) =
      (shown d.tracks).map (Shown.reordered orders) := by
    simp [shown, List.zipIdx_map, Function.comp_def, Shown.reordered, shownAt]
  have hsort : sortBy Shown.rank (shown (d.tracks.map (TrackDef.reordered orders))) =
      E.map (Shown.reordered orders) := by
    rw [hshown]
    exact sortBy_eq (hperm.map _) hsorted
  rw [shownIds, orderedTracks, hsort, List.map_map, List.map_map]
  rfl

/-- The records around the dragged track, in the order shown. -/
structure Around (d : ProjectDef) (trackId : String) (before : List Shown) (dragged : Shown)
    (after : List Shown) : Prop where
  sorted : sortBy Shown.rank (shown d.tracks) = before ++ dragged :: after
  id : dragged.t.id = trackId
  names : ((before ++ dragged :: after).map fun s => s.t.id).Nodup

theorem exists_around (hnames : (d.tracks.map TrackDef.id).Nodup)
    (htrack : ∃ t ∈ d.tracks, t.id = trackId) :
    ∃ before dragged after, Around d trackId before dragged after := by
  obtain ⟨t, ht, hid⟩ := htrack
  rw [← map_shown d.tracks, List.mem_map] at ht
  obtain ⟨s, hs, rfl⟩ := ht
  obtain ⟨before, after, hsplit⟩ := List.append_of_mem (mem_sortBy.mpr hs : s ∈ sortBy Shown.rank _)
  refine ⟨before, s, after, hsplit, hid, ?_⟩
  rw [← hsplit, ((sortBy_perm _ _).map _).nodup_iff]
  rw [← map_shown d.tracks, List.map_map] at hnames
  exact hnames

section Around

variable {before after : List Shown} {dragged : Shown}

theorem Around.shownIds_eq (h : Around d trackId before dragged after) :
    shownIds d = before.map (fun s => s.t.id) ++ trackId :: after.map fun s => s.t.id := by
  rw [shownIds, orderedTracks, h.sorted, List.map_map, List.map_append, List.map_cons, ← h.id]
  rfl

theorem Around.not_mem (h : Around d trackId before dragged after) :
    trackId ∉ before.map (fun s => s.t.id) ∧ trackId ∉ after.map fun s => s.t.id := by
  have hnames := h.names
  rw [List.map_append, List.map_cons, List.nodup_middle, List.nodup_cons, h.id,
    List.mem_append, not_or] at hnames
  exact hnames.1

theorem Around.mem (h : Around d trackId before dragged after) {s : Shown}
    (hs : s ∈ before ++ after) : s ∈ shown d.tracks ∧ s.t.id ≠ trackId := by
  constructor
  · have hmem : s ∈ before ++ dragged :: after := by
      rcases List.mem_append.mp hs with hs | hs
      · exact List.mem_append_left _ hs
      · exact List.mem_append_right _ (List.mem_cons_of_mem _ hs)
    rw [← h.sorted] at hmem
    exact mem_sortBy.mp hmem
  · rintro hid
    rcases List.mem_append.mp hs with hs | hs
    · exact h.not_mem.1 (hid ▸ List.mem_map_of_mem hs)
    · exact h.not_mem.2 (hid ▸ List.mem_map_of_mem hs)

/-- The others stand in order. -/
theorem Around.pairwise (h : Around d trackId before dragged after) :
    (before ++ after).Pairwise fun s u => s.rank < u.rank := by
  have hsorted := pairwise_lt_sortBy (ranks_shown d.tracks)
  rw [h.sorted] at hsorted
  exact hsorted.sublist ((List.Sublist.refl before).append (List.sublist_cons_self _ _))

theorem Around.perm (h : Around d trackId before dragged after) (pos : Nat) :
    ((before ++ after).take pos ++ dragged :: (before ++ after).drop pos).Perm (shown d.tracks) := by
  have hall : (dragged :: (before ++ after)).Perm (shown d.tracks) := by
    refine List.perm_middle.symm.trans ?_
    rw [← h.sorted]
    exact sortBy_perm _ _
  refine List.perm_middle.trans ?_
  rw [List.take_append_drop]
  exact hall

theorem rank_lt_of_key_lt {s u : Shown} (h : s.key < u.key) : s.rank < u.rank :=
  Prod.Lex.toLex_lt_toLex.mpr (Or.inl h)

theorem key_le_of_rank_lt {s u : Shown} (h : s.rank < u.rank) : s.key ≤ u.key := by
  rcases Prod.Lex.toLex_lt_toLex.mp h with hlt | ⟨heq, _⟩
  · exact hlt.le
  · exact heq.le

theorem keyOf_of_mem (hnames : (d.tracks.map TrackDef.id).Nodup) {s : Shown}
    (hs : s ∈ shown d.tracks) : keyOf d s.t.id = s.key := by
  rw [← map_shown d.tracks, List.map_map] at hnames
  have hinj := List.inj_on_of_nodup_map hnames
  have hfound : ((shown d.tracks).reverse.find? fun u => u.t.id == s.t.id).isSome := by
    rw [List.find?_isSome]
    exact ⟨s, List.mem_reverse.mpr hs, beq_self_eq_true _⟩
  obtain ⟨u, hu⟩ := Option.isSome_iff_exists.mp hfound
  have hid : (u.t.id == s.t.id) = true := List.find?_some (p := fun u : Shown => u.t.id == s.t.id) hu
  have hmem := List.mem_reverse.mp (List.mem_of_find?_eq_some hu)
  rw [keyOf, hu, hinj hmem hs (beq_iff_eq.mp hid)]
  rfl

/-- One order between the keys on both sides puts the dragged track there. -/
theorem Around.pairwise_single (h : Around d trackId before dragged after) {pos : Nat} {order : ℚ}
    (hlow : ∀ s ∈ (before ++ after).take pos, s.key < order)
    (hhigh : ∀ s ∈ (before ++ after).drop pos, order < s.key) :
    (((before ++ after).take pos ++ dragged :: (before ++ after).drop pos).map
      (Shown.reordered [(trackId, order)])).Pairwise fun s u => s.rank < u.rank := by
  have hsame : ∀ s ∈ before ++ after, s.reordered [(trackId, order)] = s := by
    intro s hs
    obtain ⟨hmem, hne⟩ := h.mem hs
    apply reordered_of_not_mem hmem
    rw [List.lookup_cons, beq_eq_false_iff_ne.mpr hne]
    rfl
  have hsub {l : List Shown} (hl : l.Sublist (before ++ after)) :
      l.map (Shown.reordered [(trackId, order)]) = l := by
    rw [List.map_congr_left fun s hs => hsame s (hl.subset hs), List.map_id']
  have hkey : (dragged.reordered [(trackId, order)]).key = order := by
    simp [Shown.reordered, TrackDef.reordered, shownAt, h.id]
  have hsplit := h.pairwise
  rw [← List.take_append_drop pos (before ++ after), List.pairwise_append] at hsplit
  obtain ⟨hfirst, hlast, hcross⟩ := hsplit
  rw [List.map_append, List.map_cons, hsub (List.take_sublist _ _), hsub (List.drop_sublist _ _),
    List.pairwise_append]
  refine ⟨hfirst, List.pairwise_cons.mpr ⟨?_, hlast⟩, ?_⟩
  · intro u hu
    apply rank_lt_of_key_lt
    rw [hkey]
    exact hhigh u hu
  · intro s hs u hu
    rcases List.mem_cons.mp hu with rfl | hu
    · apply rank_lt_of_key_lt
      rw [hkey]
      exact hlow s hs
    · exact hcross s hs u hu

end Around

/-- The names of a list, each with its index. -/
def numbered (names : List String) : List (String × ℚ) :=
  names.zipIdx.map fun (id, i) => (id, (i : ℚ))

theorem map_numbered (names : List String) : (numbered names).map Prod.fst = names := by
  simp [numbered, Function.comp_def]

theorem lookup_of_mem {orders : List (String × ℚ)} (hids : (orders.map Prod.fst).Nodup)
    {id : String} {order : ℚ} (hmem : (id, order) ∈ orders) : orders.lookup id = some order := by
  induction orders with
  | nil => cases hmem
  | cons m orders ih =>
      rw [List.map_cons, List.nodup_cons] at hids
      rcases List.mem_cons.mp hmem with rfl | hlater
      · exact List.lookup_cons_self
      · have hne : (id == m.1) = false := by
          rw [beq_eq_false_iff_ne]
          rintro rfl
          exact hids.1 (List.mem_map.mpr ⟨(m.1, order), hlater, rfl⟩)
        rw [List.lookup_cons, hne]
        exact ih hids.2 hlater

/-- Numbering the tracks puts them in the order of the numbers. -/
theorem pairwise_numbered {E : List Shown} (hnames : (E.map fun s => s.t.id).Nodup) :
    (E.map (Shown.reordered (numbered (E.map fun s => s.t.id)))).Pairwise
      fun s u => s.rank < u.rank := by
  have hids : ((numbered (E.map fun s => s.t.id)).map Prod.fst).Nodup := by
    rwa [map_numbered]
  rw [List.pairwise_iff_getElem]
  intro i j hi hj hij
  rw [List.length_map] at hi hj
  have hkey : ∀ k (hk : k < E.length),
      (E[k].reordered (numbered (E.map fun s => s.t.id))).key = (k : ℚ) := by
    intro k hk
    have hmem : (E[k].t.id, (k : ℚ)) ∈ numbered (E.map fun s => s.t.id) := by
      refine List.mem_map.mpr ⟨(E[k].t.id, k), ?_, rfl⟩
      rw [List.mk_mem_zipIdx_iff_getElem?]
      simp [hk]
    rw [Shown.reordered, TrackDef.reordered, lookup_of_mem hids hmem]
    rfl
  apply rank_lt_of_key_lt
  rw [List.getElem_map, List.getElem_map, hkey i hi, hkey j hj]
  exact_mod_cast hij

/-- The new neighbours. -/
theorem getLast?_take_of_le {α : Type} {pos : Nat} {l : List α} (hpos : pos ≤ l.length) :
    (l.take pos).getLast? = if pos = 0 then none else l[pos - 1]? := by
  rw [List.getLast?_take]
  split
  · rfl
  · rename_i hne
    have hlt : pos - 1 < l.length := by omega
    rw [List.getElem?_eq_getElem hlt, Option.some_or]

section Around

variable {before after : List Shown} {dragged : Shown}

theorem key_le_last {l : List Shown} {prev : Shown}
    (hl : l.Pairwise fun s u => s.rank < u.rank) (hprev : l.getLast? = some prev) :
    ∀ s ∈ l, s.key ≤ prev.key := by
  obtain ⟨l', rfl⟩ := List.getLast?_eq_some_iff.mp hprev
  intro s hs
  rcases List.mem_append.mp hs with hs | hs
  · exact key_le_of_rank_lt ((List.pairwise_append.mp hl).2.2 s hs prev List.mem_cons_self)
  · rw [List.mem_singleton.mp hs]

theorem head_le_key {l : List Shown} {next : Shown}
    (hl : l.Pairwise fun s u => s.rank < u.rank) (hnext : l.head? = some next) :
    ∀ s ∈ l, next.key ≤ s.key := by
  obtain ⟨l', rfl⟩ := List.head?_eq_some_iff.mp hnext
  intro s hs
  rcases List.mem_cons.mp hs with rfl | hs
  · exact le_rfl
  · exact key_le_of_rank_lt ((List.pairwise_cons.mp hl).1 s hs)

theorem Around.names_at (h : Around d trackId before dragged after)
    (hnames : (d.tracks.map TrackDef.id).Nodup) (pos : Nat) :
    (((before ++ after).take pos ++ dragged :: (before ++ after).drop pos).map
      fun s => s.t.id).Nodup := by
  rw [((h.perm pos).map _).nodup_iff]
  rwa [← map_shown d.tracks, List.map_map] at hnames

/-- A drop writes orders that put the dragged track at its place. -/
theorem Around.dropEdits_spec (h : Around d trackId before dragged after)
    (hnames : (d.tracks.map TrackDef.id).Nodup) {pos : Nat}
    (hpos : pos ≤ (before ++ after).length) :
    ∃ orders, dropEdits d trackId ((before ++ after).map Shown.t) pos = orderEdits orders ∧
      (orders.map Prod.fst).Nodup ∧
      (((before ++ after).take pos ++ dragged :: (before ++ after).drop pos).map
        (Shown.reordered orders)).Pairwise fun s u => s.rank < u.rank := by
  have hprev : (if pos = 0 then none else ((before ++ after).map Shown.t)[pos - 1]?) =
      ((before ++ after).take pos).getLast?.map Shown.t := by
    rw [getLast?_take_of_le hpos, List.getElem?_map]
    split <;> rfl
  have hnext : ((before ++ after).map Shown.t)[pos]? =
      ((before ++ after).drop pos).head?.map Shown.t := by
    rw [List.head?_drop, List.getElem?_map]
  have hkey : ∀ s ∈ before ++ after, keyOf d s.t.id = s.key :=
    fun s hs => keyOf_of_mem hnames (h.mem hs).1
  have hlow : ∀ prev, ((before ++ after).take pos).getLast? = some prev →
      prev ∈ before ++ after ∧ ∀ s ∈ (before ++ after).take pos, s.key ≤ prev.key :=
    fun prev hlast => ⟨List.mem_of_mem_take (List.mem_of_getLast? hlast),
      key_le_last (h.pairwise.sublist (List.take_sublist _ _)) hlast⟩
  have hhigh : ∀ next, ((before ++ after).drop pos).head? = some next →
      next ∈ before ++ after ∧ ∀ s ∈ (before ++ after).drop pos, next.key ≤ s.key :=
    fun next hhead => ⟨List.mem_of_mem_drop (List.mem_of_head? hhead),
      head_le_key (h.pairwise.sublist (List.drop_sublist _ _)) hhead⟩
  have htarget : (((before ++ after).map Shown.t).map TrackDef.id).insertIdx pos trackId =
      ((before ++ after).take pos ++ dragged :: (before ++ after).drop pos).map fun s => s.t.id := by
    rw [Retrace.insertIdx_eq _ _ (by simpa using hpos), List.map_map, ← h.id, ← List.map_take,
      ← List.map_drop, List.map_append, List.map_cons]
    rfl
  rw [dropEdits, hprev, hnext]
  cases hlast : ((before ++ after).take pos).getLast? with
  | none =>
      rw [List.getLast?_eq_none_iff] at hlast
      cases hhead : ((before ++ after).drop pos).head? with
      | none =>
          rw [List.head?_eq_none_iff] at hhead
          refine ⟨[], rfl, List.nodup_nil, ?_⟩
          rw [hlast, hhead]
          exact List.pairwise_singleton _ _
      | some next =>
          obtain ⟨hmem, hbound⟩ := hhigh next hhead
          refine ⟨[(trackId, next.key - 1)], ?_, List.nodup_singleton _, h.pairwise_single ?_ ?_⟩
          · simp only [Option.map_some, Option.map_none, hkey next hmem]
            rfl
          · rw [hlast]
            exact nofun
          · intro s hs
            have := hbound s hs
            linarith
  | some prev =>
      obtain ⟨hmem, hbound⟩ := hlow prev hlast
      cases hhead : ((before ++ after).drop pos).head? with
      | none =>
          rw [List.head?_eq_none_iff] at hhead
          refine ⟨[(trackId, prev.key + 1)], ?_, List.nodup_singleton _, h.pairwise_single ?_ ?_⟩
          · simp only [Option.map_some, Option.map_none, hkey prev hmem]
            rfl
          · intro s hs
            have := hbound s hs
            linarith
          · rw [hhead]
            exact nofun
      | some next =>
          obtain ⟨hmem', hbound'⟩ := hhigh next hhead
          simp only [Option.map_some, hkey prev hmem, hkey next hmem']
          split
          · refine ⟨_, ?_, ?_, pairwise_numbered (h.names_at hnames pos)⟩
            · rw [htarget, orderEdits, numbered, List.map_map]
              rfl
            · rw [map_numbered]
              exact h.names_at hnames pos
          · rename_i hgap
            have hroom : prev.key < next.key := by
              have : (0 : ℚ) < MIN_GAP := by norm_num [MIN_GAP]
              linarith
            refine ⟨[(trackId, (prev.key + next.key) / 2)], rfl, List.nodup_singleton _,
              h.pairwise_single ?_ ?_⟩
            · intro s hs
              have := hbound s hs
              linarith
            · intro s hs
              have := hbound' s hs
              linarith

/-- The two answers of a drop: nothing in place, one gesture elsewhere. -/
theorem Around.applyDrop_eq {p : Project} (h : Around p.doc trackId before dragged after)
    (slot : Nat) :
    p.applyDrop trackId slot =
      if slot = before.length ∨ slot = before.length + 1 then p
      else p.gesture (dropEdits p.doc trackId ((before ++ after).map Shown.t)
        (if before.length < slot then slot - 1 else slot)) := by
  have hshown : orderedTracks p.doc = (before ++ dragged :: after).map Shown.t := by
    rw [orderedTracks, h.sorted]
  have hne : ∀ s ∈ before ++ after, s.t.id ≠ trackId := fun s hs => (h.mem hs).2
  have hfind : (orderedTracks p.doc).findIdx (fun t => t.id == trackId) = before.length := by
    have hnone : ¬(before.map Shown.t).findIdx (fun t => t.id == trackId) <
        (before.map Shown.t).length := by
      rw [List.findIdx_lt_length]
      rintro ⟨t, ht, hid⟩
      obtain ⟨s, hs, rfl⟩ := List.mem_map.mp ht
      exact hne s (List.mem_append_left _ hs) (beq_iff_eq.mp hid)
    rw [hshown, List.map_append, List.map_cons, List.findIdx_append, if_neg hnone,
      List.findIdx_cons, h.id, beq_self_eq_true, cond_true, Nat.zero_add, List.length_map]
  have hothers : (orderedTracks p.doc).filter (fun t => t.id != trackId) =
      (before ++ after).map Shown.t := by
    have hdragged : (dragged.t :: after.map Shown.t).filter (fun t => t.id != trackId) =
        (after.map Shown.t).filter fun t => t.id != trackId := by
      rw [List.filter_cons, h.id, bne_self_eq_false]
      rfl
    rw [hshown, List.map_append, List.map_cons, List.filter_append, hdragged,
      ← List.filter_append, ← List.map_append, List.filter_eq_self]
    intro t ht
    obtain ⟨s, hs, rfl⟩ := List.mem_map.mp ht
    exact bne_iff_ne.mpr (hne s hs)
  rw [Project.applyDrop, hfind, hothers, if_neg]
  rw [hshown]
  simp

end Around

end Reorder

section Drop

variable {p : Project} {trackId : String} {slot : Nat}

/-- A drop moves the track to its slot. In place it records nothing; elsewhere
it records one entry, and its undo gives the document back. -/
theorem applyDrop_moves (freshId : Nat → String) (hrest : p.AtRest)
    (hnames : (p.doc.tracks.map TrackDef.id).Nodup) (htrack : ∃ t ∈ p.doc.tracks, t.id = trackId)
    (hslot : slot ≤ p.doc.tracks.length) :
    shownIds (p.applyDrop trackId slot).doc = movedTo slot trackId (shownIds p.doc) ∧
      (if slot = (shownIds p.doc).idxOf trackId ∨ slot = (shownIds p.doc).idxOf trackId + 1 then
        p.applyDrop trackId slot = p
      else
        (∃ e, (p.applyDrop trackId slot).journal.undoStack =
          UndoJournal.pushCapped p.journal.undoStack e) ∧
        ((p.applyDrop trackId slot).undo freshId).doc = p.doc) := by
  obtain ⟨before, dragged, after, h⟩ := exists_around hnames htrack
  obtain ⟨hfirst, hlast⟩ := h.not_mem
  have hids := h.shownIds_eq
  have hindex : (shownIds p.doc).idxOf trackId = before.length := by
    rw [hids, List.idxOf_append_of_notMem hfirst, List.idxOf_cons_self, List.length_map,
      Nat.add_zero]
  have hcount : slot ≤ before.length + after.length + 1 := by
    have hlength := congrArg List.length h.sorted
    rw [length_sortBy, shown, List.length_map, List.length_zipIdx] at hlength
    simp only [List.length_append, List.length_cons] at hlength
    omega
  rw [hindex, h.applyDrop_eq slot]
  split
  · rename_i hplace
    refine ⟨?_, rfl⟩
    rw [hids, movedTo_same hfirst hlast (by simpa using hplace)]
  · rename_i hplace
    have hpos : (if before.length < slot then slot - 1 else slot) ≤ (before ++ after).length := by
      rw [List.length_append]
      split <;> omega
    obtain ⟨orders, hedits, hdistinct, hsorted⟩ := h.dropEdits_spec hnames hpos
    have hdoc : editsDoc (orderEdits orders) p.doc =
        { p.doc with tracks := p.doc.tracks.map (TrackDef.reordered orders) } :=
      editsDoc_orderEdits hdistinct hnames
    have hmoved : shownIds (editsDoc (orderEdits orders) p.doc) =
        movedTo slot trackId (shownIds p.doc) := by
      rw [hdoc, shownIds_reordered (h.perm _) hsorted, hids, movedTo_split hfirst hlast,
        List.length_map, List.map_append, List.map_cons, h.id, List.map_take, List.map_drop,
        List.map_append]
    have hsome : editsCaptures (orderEdits orders) p.doc ≠ [] := by
      intro hnone
      rw [editsDoc_of_silent hnone] at hmoved
      have hchanged : movedTo slot trackId _ ≠ _ :=
        movedTo_ne hfirst hlast (by simp; omega) (by simpa using hplace)
      rw [← hids] at hchanged
      exact hchanged hmoved.symm
    obtain ⟨_, hafter, _, e, hstack, _⟩ := gesture_of_captures hrest hsome
    rw [hedits]
    refine ⟨?_, ⟨e, hstack⟩, ?_⟩
    · rw [hafter, hmoved]
    · exact undo_gesture_of_takesBack hrest hsome orderEdits_takesBack
        (nodup_keys_orderEdits hdistinct _) freshId

theorem applyDrop_moves_last :
    shownIds (twoPlain.applyDrop "a" 2).doc = movedTo 2 "a" (shownIds twoPlain.doc) ∧
      (if 2 = (shownIds twoPlain.doc).idxOf "a" ∨ 2 = (shownIds twoPlain.doc).idxOf "a" + 1 then
        twoPlain.applyDrop "a" 2 = twoPlain
      else
        (∃ e, (twoPlain.applyDrop "a" 2).journal.undoStack =
          UndoJournal.pushCapped twoPlain.journal.undoStack e) ∧
        ((twoPlain.applyDrop "a" 2).undo fun _ => "n").doc = twoPlain.doc) :=
  applyDrop_moves (fun _ => "n") ⟨rfl, rfl⟩ (by decide) (by decide) (by decide)

/-- A drop in place records no entry. -/
theorem not_recorded_in_place :
    ¬∃ e, (twoPlain.applyDrop "a" 0).journal.undoStack =
      UndoJournal.pushCapped twoPlain.journal.undoStack e := by
  rintro ⟨e, hstack⟩
  have hnone : (twoPlain.applyDrop "a" 0).journal.undoStack.length = 0 := by
    decide +kernel
  rw [hstack] at hnone
  cases hnone

end Drop

end DawProject.Document
