import DawProject.Document.Schema
import Mathlib.Data.List.Nodup

/-!
The selection of clips, `web/src/app/clip_selection.ts`: a principal clip and
the lot it belongs to, while clips come and go in the document. The principal is
in the lot, or both are empty, as long as no clip with an empty identifier is
selected.
-/

namespace DawProject.Document

/-- A `Set` of identifiers, in the order of insertion. -/
structure IdSet where
  ids : List String := []
  nodup : ids.Nodup := by decide

namespace IdSet

variable (lot : IdSet)

def add (id : String) : IdSet :=
  if h : id ∈ lot.ids then lot
  else
    { ids := lot.ids ++ [id]
      nodup := List.nodup_append'.mpr
        ⟨lot.nodup, List.nodup_singleton id, by simpa using h⟩ }

def filter (keep : String → Bool) : IdSet where
  ids := lot.ids.filter keep
  nodup := lot.nodup.filter keep

def delete (id : String) : IdSet := lot.filter fun id' => id' != id

end IdSet

/-- The part of the context that the selection is in. -/
structure Selection where
  project : Option ProjectDef := none
  selectedTrackId : Option String := none
  selectedClipId : Option String := none
  selectedClipIds : IdSet := {}
  /-- In seconds. -/
  timeSelection : Option (ℚ × ℚ) := none

namespace Selection

variable (ctx : Selection)

def selectClip (clipId trackId : String) (additive : Bool) : Selection :=
  let ctx := { ctx with timeSelection := none }
  if additive then
    if clipId ∈ ctx.selectedClipIds.ids ∧ ctx.selectedClipIds.ids.length > 1 then
      let lot := ctx.selectedClipIds.delete clipId
      { ctx with
        selectedClipIds := lot
        selectedClipId :=
          if ctx.selectedClipId = some clipId then lot.ids.getLast? else ctx.selectedClipId
        selectedTrackId := some trackId }
    else
      { ctx with
        selectedClipIds := ctx.selectedClipIds.add clipId
        selectedClipId := some clipId
        selectedTrackId := some trackId }
  else
    { ctx with
      selectedClipIds := IdSet.add {} clipId
      selectedClipId := some clipId
      selectedTrackId := some trackId }

def clearClipSelection : Selection :=
  { ctx with selectedClipIds := {}, selectedClipId := none, timeSelection := none }

def setTimeSelection (startSec endSec : ℚ) : Selection :=
  { ctx with timeSelection := if endSec > startSec then some (startSec, endSec) else none }

def setClipSelection (ids : List String) (additive : Bool) : Selection :=
  let lot := ids.foldl IdSet.add (if additive then ctx.selectedClipIds else {})
  { ctx with
    selectedClipIds := lot
    selectedClipId :=
      match ids.getLast? with
      | some id => some id
      | none => if !additive || lot.ids.isEmpty then none else ctx.selectedClipId }

/-- The clips of a document, each with its track. -/
def occurrences (doc : ProjectDef) : List (String × ClipDef) :=
  doc.tracks.flatMap fun t => t.clips.map fun c => (t.id, c)

/-- The clips of the lot in the document, and the selection without the ones
that are gone. -/
def selectedClips : Selection × List (String × ClipDef) :=
  match ctx.project with
  | none => (ctx, [])
  | some doc =>
      let out := (occurrences doc).filter fun x => ctx.selectedClipIds.ids.contains x.2.id
      let alive := out.map fun x => x.2.id
      let principal :=
        match ctx.selectedClipId with
        -- an empty identifier is falsy
        | some id =>
            if id ≠ "" ∧ id ∉ alive then out.getLast?.map fun x => x.2.id else some id
        | none => none
      ({ ctx with
          selectedClipIds := ctx.selectedClipIds.filter fun id => alive.contains id
          selectedClipId := principal }, out)

/-- The principal is in the lot, or both are empty. -/
def Consistent : Prop :=
  (∃ id ∈ ctx.selectedClipIds.ids, ctx.selectedClipId = some id) ∨
    (ctx.selectedClipId = none ∧ ctx.selectedClipIds.ids = [])

/-- What `selectedClips` answers is in the document, every clip once. -/
structure Answers (doc : ProjectDef) (out : List (String × ClipDef)) : Prop where
  exist : ∀ x ∈ out, ∃ t ∈ doc.tracks, x.1 = t.id ∧ x.2 ∈ t.clips
  once : out.Sublist (occurrences doc)
  nodup : ((occurrences doc).map fun x => x.2.id).Nodup → (out.map fun x => x.2.id).Nodup

end Selection

inductive SelectionEvent where
  | selectClip (clipId trackId : String) (additive : Bool)
  | clearClipSelection
  | setTimeSelection (startSec endSec : ℚ)
  | setClipSelection (ids : List String) (additive : Bool)
  | selectedClips
  /-- Any change of the document, or its end. -/
  | document (project : Option ProjectDef)

def Selection.step (ctx : Selection) : SelectionEvent → Selection
  | .selectClip clipId trackId additive => ctx.selectClip clipId trackId additive
  | .clearClipSelection => ctx.clearClipSelection
  | .setTimeSelection startSec endSec => ctx.setTimeSelection startSec endSec
  | .setClipSelection ids additive => ctx.setClipSelection ids additive
  | .selectedClips => ctx.selectedClips.1
  | .document project => { ctx with project := project }

/-- No clip with an empty identifier is selected. -/
def SelectionEvent.Named : SelectionEvent → Prop
  | .selectClip clipId _ _ => clipId ≠ ""
  | .setClipSelection ids _ => "" ∉ ids
  | _ => True

section Sets

variable {lot : IdSet} {id id' : String}

@[simp] theorem IdSet.mem_add : id' ∈ (lot.add id).ids ↔ id' ∈ lot.ids ∨ id' = id := by
  rw [IdSet.add]
  split
  · rename_i hmem
    constructor
    · exact Or.inl
    · rintro (hold | rfl)
      · exact hold
      · exact hmem
  · simp

@[simp] theorem IdSet.mem_filter {keep : String → Bool} :
    id' ∈ (lot.filter keep).ids ↔ id' ∈ lot.ids ∧ keep id' = true :=
  List.mem_filter

theorem IdSet.mem_foldl_add {ids : List String} :
    id' ∈ (ids.foldl IdSet.add lot).ids ↔ id' ∈ lot.ids ∨ id' ∈ ids := by
  induction ids generalizing lot with
  | nil => simp
  | cons id ids ih =>
      rw [List.foldl_cons, ih, IdSet.mem_add, List.mem_cons, or_assoc]

/-- Something else is left when one of several is taken out. -/
theorem IdSet.delete_ne_nil (hlength : lot.ids.length > 1) : (lot.delete id).ids ≠ [] := by
  have hnodup := lot.nodup
  intro hnil
  have hgone : ∀ id' ∈ lot.ids, id' = id := by
    intro id' hid'
    by_contra hne
    have hmem : id' ∈ (lot.delete id).ids := IdSet.mem_filter.mpr ⟨hid', by simpa using hne⟩
    rw [hnil] at hmem
    cases hmem
  match hids : lot.ids with
  | [] =>
      rw [hids] at hlength
      cases hlength
  | [_] =>
      rw [hids] at hlength
      exact absurd hlength (Nat.lt_irrefl 1)
  | first :: second :: _ =>
      rw [hids] at hnodup hgone
      have hfirst := hgone first List.mem_cons_self
      have hsecond := hgone second (List.mem_cons_of_mem first List.mem_cons_self)
      rw [hfirst, hsecond] at hnodup
      exact (List.nodup_cons.mp hnodup).1 List.mem_cons_self

end Sets

namespace Selection

variable {ctx : Selection} {id : String}

/-- The invariant of a selection without the empty identifier. -/
structure Inv (ctx : Selection) : Prop where
  consistent : ctx.Consistent
  named : "" ∉ ctx.selectedClipIds.ids

theorem consistent_of_mem (id : String) (hmem : id ∈ ctx.selectedClipIds.ids)
    (hprincipal : ctx.selectedClipId = some id) : ctx.Consistent :=
  Or.inl ⟨id, hmem, hprincipal⟩

theorem inv_selectClip {clipId : String} (hinv : ctx.Inv) (hname : clipId ≠ "") (trackId : String)
    (additive : Bool) : (ctx.selectClip clipId trackId additive).Inv := by
  rw [selectClip]
  dsimp only
  split
  · split
    · rename_i hremove
      obtain ⟨hmem, hlength⟩ := hremove
      refine ⟨?_, fun hempty => hinv.named (IdSet.mem_filter.mp hempty).1⟩
      split
      · -- the principal is taken out, and the last of the rest takes its place
        have hne : (ctx.selectedClipIds.delete clipId).ids ≠ [] := IdSet.delete_ne_nil hlength
        exact consistent_of_mem _ (List.getLast_mem hne) (List.getLast?_eq_some_getLast hne)
      · rename_i hother
        rcases hinv.consistent with ⟨id, hid, hprincipal⟩ | ⟨-, hnil⟩
        · refine consistent_of_mem _ (IdSet.mem_filter.mpr ⟨hid, ?_⟩) hprincipal
          simp only [bne_iff_ne, ne_eq]
          rintro rfl
          exact hother hprincipal
        · rw [hnil] at hmem
          cases hmem
    · refine ⟨consistent_of_mem _ (IdSet.mem_add.mpr (Or.inr rfl)) rfl, ?_⟩
      intro hempty
      rcases IdSet.mem_add.mp hempty with hold | hnew
      · exact hinv.named hold
      · exact hname hnew.symm
  · refine ⟨consistent_of_mem _ (IdSet.mem_add.mpr (Or.inr rfl)) rfl, ?_⟩
    intro hempty
    rcases IdSet.mem_add.mp hempty with hold | hnew
    · cases hold
    · exact hname hnew.symm

theorem inv_setClipSelection {ids : List String} (hinv : ctx.Inv) (hnames : "" ∉ ids)
    (additive : Bool) : (ctx.setClipSelection ids additive).Inv := by
  have hnamed : "" ∉ (ids.foldl IdSet.add (if additive then ctx.selectedClipIds else {})).ids := by
    intro hempty
    rcases IdSet.mem_foldl_add.mp hempty with hold | hnew
    · split at hold
      · exact hinv.named hold
      · cases hold
    · exact hnames hnew
  refine ⟨?_, hnamed⟩
  rw [setClipSelection]
  cases hlast : ids.getLast? with
  | some id =>
      refine consistent_of_mem id ?_ rfl
      exact IdSet.mem_foldl_add.mpr (Or.inr (List.mem_of_getLast? hlast))
  | none =>
      rw [List.getLast?_eq_none_iff.mp hlast]
      cases additive with
      | false => exact Or.inr ⟨rfl, rfl⟩
      | true =>
          -- nothing is added, and the principal stays
          rcases hinv.consistent with ⟨id, hid, hprincipal⟩ | ⟨hnone, hnil⟩
          · have hne : ctx.selectedClipIds.ids.isEmpty = false := by
              cases hids : ctx.selectedClipIds.ids with
              | nil => rw [hids] at hid; cases hid
              | cons _ _ => rfl
            exact consistent_of_mem id hid (by simp [hne, hprincipal])
          · exact Or.inr ⟨by simp [hnone], hnil⟩

/-- The lot loses what is not in the answer, and a principal that is gone is
replaced by the last of the answer. -/
theorem inv_selectedClips (hinv : ctx.Inv) : ctx.selectedClips.1.Inv := by
  rw [selectedClips]
  cases hproject : ctx.project with
  | none => exact hinv
  | some doc =>
      dsimp only
      refine ⟨?_, fun hempty => hinv.named (IdSet.mem_filter.mp hempty).1⟩
      generalize hout : (occurrences doc).filter
        (fun x => ctx.selectedClipIds.ids.contains x.2.id) = out
      have hlot : ∀ x ∈ out, x.2.id ∈ ctx.selectedClipIds.ids := by
        intro x hx
        rw [← hout] at hx
        simpa using (List.mem_filter.mp hx).2
      rcases hinv.consistent with ⟨id, hid, hprincipal⟩ | ⟨hnone, hnil⟩
      · rw [hprincipal]
        dsimp only
        split
        · cases hlast : out.getLast? with
          | none =>
              rw [List.getLast?_eq_none_iff.mp hlast]
              exact Or.inr ⟨rfl, by simp [IdSet.filter]⟩
          | some x =>
              have hx := List.mem_of_getLast? hlast
              refine consistent_of_mem _ (IdSet.mem_filter.mpr ⟨hlot x hx, ?_⟩) rfl
              exact List.contains_iff_mem.mpr (List.mem_map_of_mem hx)
        · rename_i hstays
          have hne : id ≠ "" := fun hempty => hinv.named (hempty ▸ hid)
          refine consistent_of_mem _ (IdSet.mem_filter.mpr ⟨hid, ?_⟩) rfl
          by_contra hgone
          exact hstays ⟨hne, by simpa using hgone⟩
      · rw [hnone]
        exact Or.inr ⟨rfl, by simp [IdSet.filter, hnil]⟩

theorem answers_selectedClips {doc : ProjectDef} (hproject : ctx.project = some doc) :
    Answers doc ctx.selectedClips.2 := by
  rw [selectedClips, hproject]
  dsimp only
  refine ⟨?_, List.filter_sublist, ?_⟩
  · intro x hx
    obtain ⟨t, ht, hclip⟩ := List.mem_flatMap.mp (List.mem_filter.mp hx).1
    obtain ⟨c, hc, rfl⟩ := List.mem_map.mp hclip
    exact ⟨t, ht, rfl, hc⟩
  · exact fun hids => hids.sublist (List.filter_sublist.map _)

theorem inv_step (hinv : ctx.Inv) {event : SelectionEvent} (hnamed : event.Named) :
    (ctx.step event).Inv := by
  cases event with
  | selectClip clipId trackId additive => exact inv_selectClip hinv hnamed trackId additive
  | clearClipSelection => exact ⟨Or.inr ⟨rfl, rfl⟩, List.not_mem_nil⟩
  | setTimeSelection startSec endSec => exact ⟨hinv.consistent, hinv.named⟩
  | setClipSelection ids additive => exact inv_setClipSelection hinv hnamed additive
  | selectedClips => exact inv_selectedClips hinv
  | document project => exact ⟨hinv.consistent, hinv.named⟩

theorem inv_foldl (hinv : ctx.Inv) {events : List SelectionEvent}
    (hnamed : ∀ event ∈ events, event.Named) : (events.foldl step ctx).Inv := by
  induction events generalizing ctx with
  | nil => exact hinv
  | cons event events ih =>
      apply ih (inv_step hinv (hnamed event List.mem_cons_self))
      exact fun event' hevent' => hnamed event' (List.mem_cons_of_mem event hevent')

/-- In every run that selects no clip with an empty identifier, the selection
is consistent after every step, and a call that comes next answers clips of the
document, each once. -/
theorem selection_consistent (events : List SelectionEvent)
    (hnamed : ∀ event ∈ events, event.Named) :
    (events.foldl step {}).Consistent ∧ (events.foldl step {}).selectedClips.1.Consistent ∧
      (match (events.foldl step {}).project with
      | none => (events.foldl step {}).selectedClips.2 = []
      | some doc => Answers doc (events.foldl step {}).selectedClips.2) := by
  have hinv : (events.foldl step {}).Inv :=
    inv_foldl ⟨Or.inr ⟨rfl, rfl⟩, List.not_mem_nil⟩ hnamed
  refine ⟨hinv.consistent, (inv_selectedClips hinv).consistent, ?_⟩
  cases hproject : (events.foldl step {}).project with
  | none => simp [selectedClips, hproject]
  | some doc => exact answers_selectedClips hproject

section Example

/-- A track with the given clips. -/
def trackWith (ids : List String) : ProjectDef where
  tracks := [{ id := "t", name := "t", clips := ids.map fun id => { id := id } }]

/-- Two clips are selected, and one of them is deleted. -/
theorem selection_consistent_deletion :
    (([.document (trackWith ["a", "b"]), .setClipSelection ["a", "b"] false,
        .document (trackWith ["a"]), .selectedClips] : List SelectionEvent).foldl step
      {}).Consistent := by
  refine (selection_consistent _ ?_).1
  simp [SelectionEvent.Named]

/-- The selected clips, the last of them with an empty identifier, which a peer
deletes. -/
def emptyIdRun : List SelectionEvent :=
  [.document (trackWith ["a", ""]), .selectClip "a" "t" false, .selectClip "" "t" true,
    .document (trackWith ["a"]), .selectedClips]

/-- An empty identifier stays the principal after its clip is gone. -/
theorem not_selection_consistent_emptyId :
    (emptyIdRun.foldl step {}).selectedClipIds.ids = ["a"] ∧
      (emptyIdRun.foldl step {}).selectedClipId = some "" ∧
      ¬ ∀ events : List SelectionEvent, (events.foldl step {}).Consistent := by
  have hlot : (emptyIdRun.foldl step {}).selectedClipIds.ids = ["a"] := by decide
  have hprincipal : (emptyIdRun.foldl step {}).selectedClipId = some "" := by decide
  refine ⟨hlot, hprincipal, ?_⟩
  intro hconsistent
  rcases hconsistent emptyIdRun with ⟨id, hid, hsame⟩ | ⟨hnone, -⟩
  · rw [hprincipal] at hsame
    rw [hlot, ← Option.some.inj hsame] at hid
    exact absurd hid (by decide)
  · rw [hprincipal] at hnone
    cases hnone

end Example

end Selection

end DawProject.Document
