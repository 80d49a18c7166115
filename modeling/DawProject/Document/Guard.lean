import DawProject.Document.Exchange

/-!
The guard on incoming changes: `applyChange` of `web/src/document/project.ts`
and of `engine/src/document/automerge_document.cpp`, with their callers. A
change whose dependencies are missing is buffered without an error; the web
compares how many hashes are missing before and after, the engine does not.
-/

namespace DawProject.Document.Exchange

variable {H : Type} [DecidableEq H]

section Code

variable (deps : H → List H)

/-- What a caller does with an incoming change: the document, whether
`applyChange` reports success, and whether a resync is requested. -/
structure Outcome (H : Type) where
  doc : Doc H
  success : Bool
  resync : Bool

/-- `Project.applyChange`. Bytes that are no change make Automerge throw. The
document is kept also when the guard refuses. -/
def applyChange (doc : Doc H) (change : Option H) : Doc H × Bool :=
  match change with
  | none => (doc, false)
  | some change =>
      let missingBefore := (doc.getMissingDeps deps).length
      let newDoc := doc.applyChanges deps [change]
      if (newDoc.getMissingDeps deps).length > missingBefore then (newDoc, false)
      else (newDoc, true)

/-- `onChange` of `web/src/app/wiring.ts`. -/
def onChange (doc : Doc H) (change : Option H) : Outcome H :=
  let applied := applyChange deps doc change
  { doc := applied.1, success := applied.2, resync := !applied.2 }

/-- `AutomergeDocument::applyChange` on a loaded document. -/
def engineApplyChange (doc : Doc H) (change : Option H) : Doc H × Bool :=
  match change with
  | none => (doc, false)
  | some change => (doc.applyChanges deps [change], true)

/-- The change callback of the engine logs a failure. -/
def engineOnChange (doc : Doc H) (change : Option H) : Outcome H :=
  let applied := engineApplyChange deps doc change
  { doc := applied.1, success := applied.2, resync := false }

end Code

section Buffered

variable (deps : H → List H)

/-- A document as Automerge holds it: the history is closed under
dependencies, and what waits is not ready. -/
structure Doc.Consistent (doc : Doc H) : Prop where
  ordered : Causal.Extends deps [] doc.history
  waiting : ∀ c ∈ doc.queue, isCausallyReady deps doc.history c = false

/-- The dependencies of a change that no buffered change was missing. -/
def newlyMissing (doc : Doc H) (change : H) : List H :=
  ((deps change).filter fun d =>
    decide (d ∉ doc.history) && decide (d ∉ doc.queue) && decide (d ≠ change) &&
      decide (d ∉ doc.getMissingDeps deps)).dedup

/-- The counts tell that the change adds missing dependencies: it adds some,
and more than one where it was missing itself. -/
def CountGrows (doc : Doc H) (change : H) : Prop :=
  (if change ∈ doc.getMissingDeps deps then 1 else 0) < (newlyMissing deps doc change).length

instance (doc : Doc H) (change : H) : Decidable (CountGrows deps doc change) :=
  inferInstanceAs (Decidable (_ < _))

variable {deps} {doc : Doc H} {change : H}

theorem mem_getMissingDeps {d : H} : d ∈ doc.getMissingDeps deps ↔
    (∃ c ∈ doc.queue, d ∈ deps c) ∧ d ∉ doc.history ∧ d ∉ doc.queue := by
  simp only [Doc.getMissingDeps, List.mem_dedup, List.mem_filter, List.mem_flatMap,
    Bool.and_eq_true, decide_eq_true_eq]

theorem mem_newlyMissing {d : H} : d ∈ newlyMissing deps doc change ↔
    d ∈ deps change ∧ d ∉ doc.history ∧ d ∉ doc.queue ∧ d ≠ change ∧
      d ∉ doc.getMissingDeps deps := by
  simp only [newlyMissing, List.mem_dedup, List.mem_filter, Bool.and_eq_true, decide_eq_true_eq]
  tauto

theorem drain_of_waiting (fuel : Nat)
    (hwaiting : ∀ c ∈ doc.queue, isCausallyReady deps doc.history c = false) :
    doc.drain deps fuel = doc := by
  cases fuel with
  | zero => rfl
  | succ fuel =>
      have hnone : doc.queue.find? (isCausallyReady deps doc.history) = none := by
        rw [List.find?_eq_none]
        intro c hc
        rw [hwaiting c hc]
        exact Bool.false_ne_true
      rw [Doc.drain, hnone]

theorem history_subset_drain (fuel : Nat) (doc : Doc H) :
    ∀ x ∈ doc.history, x ∈ (doc.drain deps fuel).history := by
  induction fuel generalizing doc with
  | zero => exact fun _ hx => hx
  | succ fuel ih =>
      intro x hx
      rw [Doc.drain]
      split
      · exact hx
      · dsimp only
        split
        · exact ih _ x hx
        · exact ih _ x (List.mem_append_left _ hx)

/-- A change whose dependencies are there is incorporated. -/
theorem mem_applyChanges_of_ready (hready : isCausallyReady deps doc.history change = true) :
    change ∈ (doc.applyChanges deps [change]).history := by
  rw [Doc.applyChanges, List.foldl_cons, List.foldl_nil]
  apply history_subset_drain
  rw [Doc.receive, if_pos hready]
  split
  · assumption
  · exact List.mem_append_right _ (List.mem_singleton_self change)

theorem mem_applyChanges_of_mem (hmem : change ∈ doc.history) :
    change ∈ (doc.applyChanges deps [change]).history := by
  rw [Doc.applyChanges, List.foldl_cons, List.foldl_nil]
  apply history_subset_drain
  rwa [Doc.receive, if_pos hmem]

/-- Any other change is buffered. -/
theorem applyChanges_of_unready (hdoc : doc.Consistent deps) (hnew : change ∉ doc.history)
    (hready : isCausallyReady deps doc.history change = false) :
    doc.applyChanges deps [change] = { doc with queue := doc.queue ++ [change] } := by
  have hreceive : doc.receive deps change = { doc with queue := doc.queue ++ [change] } := by
    rw [Doc.receive, if_neg hnew, hready, if_neg Bool.false_ne_true]
  rw [Doc.applyChanges, List.foldl_cons, List.foldl_nil, hreceive]
  apply drain_of_waiting
  intro c hc
  rcases List.mem_append.mp hc with hold | hlast
  · exact hdoc.waiting c hold
  · rw [List.mem_singleton.mp hlast]
    exact hready

/-- A change is incorporated when it was, or when its dependencies are. -/
theorem incorporated_iff (hdoc : doc.Consistent deps) :
    change ∈ (doc.applyChanges deps [change]).history ↔
      change ∈ doc.history ∨ isCausallyReady deps doc.history change = true := by
  constructor
  · intro hin
    by_contra hnot
    obtain ⟨hnew, hready⟩ := not_or.mp hnot
    rw [applyChanges_of_unready hdoc hnew (Bool.eq_false_iff.mpr hready)] at hin
    exact hnew hin
  · rintro (hmem | hready)
    · exact mem_applyChanges_of_mem hmem
    · exact mem_applyChanges_of_ready hready

/-- What is missing once a change is buffered. -/
theorem getMissingDeps_buffered :
    (({ doc with queue := doc.queue ++ [change] } : Doc H).getMissingDeps deps).Perm
      ((doc.getMissingDeps deps).erase change ++ newlyMissing deps doc change) := by
  have hmissing : (doc.getMissingDeps deps).Nodup := List.nodup_dedup _
  have hnodup : ((doc.getMissingDeps deps).erase change ++ newlyMissing deps doc change).Nodup := by
    apply List.Nodup.append (hmissing.erase change) (List.nodup_dedup _)
    intro d hold hnew
    exact (mem_newlyMissing.mp hnew).2.2.2.2 (List.mem_of_mem_erase hold)
  apply (List.perm_ext_iff_of_nodup (List.nodup_dedup _) hnodup).mpr
  intro d
  have hafter : d ∈ ({ doc with queue := doc.queue ++ [change] } : Doc H).getMissingDeps deps ↔
      (∃ c ∈ doc.queue ++ [change], d ∈ deps c) ∧ d ∉ doc.history ∧
        d ∉ doc.queue ++ [change] := mem_getMissingDeps
  refine hafter.trans ?_
  simp only [List.mem_append, List.mem_singleton, hmissing.mem_erase_iff, mem_newlyMissing,
    mem_getMissingDeps]
  constructor
  · rintro ⟨⟨c, hc | rfl, hd⟩, hhistory, hqueue⟩
    · exact Or.inl ⟨fun heq => hqueue (Or.inr heq), ⟨c, hc, hd⟩, hhistory,
        fun hin => hqueue (Or.inl hin)⟩
    · by_cases hold : ∃ c ∈ doc.queue, d ∈ deps c
      · exact Or.inl ⟨fun heq => hqueue (Or.inr heq), hold, hhistory,
          fun hin => hqueue (Or.inl hin)⟩
      · exact Or.inr ⟨hd, hhistory, fun hin => hqueue (Or.inl hin),
          fun heq => hqueue (Or.inr heq), fun hmissing => hold hmissing.1⟩
  · rintro (⟨hne, ⟨c, hc, hd⟩, hhistory, hqueue⟩ | ⟨hd, hhistory, hqueue, hne, -⟩)
    · exact ⟨⟨c, Or.inl hc, hd⟩, hhistory, not_or.mpr ⟨hqueue, hne⟩⟩
    · exact ⟨⟨change, Or.inr rfl, hd⟩, hhistory, not_or.mpr ⟨hqueue, hne⟩⟩

theorem count_buffered :
    (({ doc with queue := doc.queue ++ [change] } : Doc H).getMissingDeps deps).length >
        (doc.getMissingDeps deps).length ↔ CountGrows deps doc change := by
  rw [getMissingDeps_buffered.length_eq, List.length_append, CountGrows]
  split
  · rename_i hmissing
    have hpos := List.length_pos_of_mem hmissing
    rw [List.length_erase_of_mem hmissing]
    omega
  · rename_i hmissing
    rw [List.erase_of_not_mem hmissing]
    omega

/-- Automerge keeps its documents so. -/
theorem Doc.Consistent.drain (fuel : Nat) (doc : Doc H) (hlength : doc.queue.length ≤ fuel)
    (hordered : Causal.Extends deps [] doc.history) :
    (doc.drain deps fuel).Consistent deps := by
  induction fuel generalizing doc with
  | zero =>
      refine ⟨hordered, ?_⟩
      intro c hc
      rw [Doc.drain, List.length_eq_zero_iff.mp (Nat.le_zero.mp hlength)] at hc
      cases hc
  | succ fuel ih =>
      rw [Doc.drain]
      split
      · rename_i hnone
        refine ⟨hordered, ?_⟩
        intro c hc
        exact Bool.eq_false_iff.mpr (List.find?_eq_none.mp hnone c hc)
      · rename_i c hfound
        have hmem : c ∈ doc.queue := List.mem_of_find?_eq_some hfound
        have hready : isCausallyReady deps doc.history c = true := List.find?_some hfound
        have hshorter : (doc.queue.erase c).length ≤ fuel := by
          rw [List.length_erase_of_mem hmem]
          omega
        dsimp only
        split
        · exact ih _ hshorter hordered
        · rename_i hnew
          apply ih _ hshorter
          apply hordered.append
          refine ⟨hnew, ?_, trivial⟩
          intro d hd
          rw [isCausallyReady, List.all_eq_true] at hready
          exact of_decide_eq_true (hready d hd)

theorem Doc.Consistent.applyChanges (hdoc : doc.Consistent deps) (change : H) :
    (doc.applyChanges deps [change]).Consistent deps := by
  rw [Doc.applyChanges, List.foldl_cons, List.foldl_nil]
  apply Doc.Consistent.drain _ _ (Nat.le_refl _)
  rw [Doc.receive]
  split
  · exact hdoc.ordered
  · rename_i hnew
    split
    · rename_i hready
      apply hdoc.ordered.append
      refine ⟨hnew, ?_, trivial⟩
      intro d hd
      rw [isCausallyReady, List.all_eq_true] at hready
      exact of_decide_eq_true (hready d hd)
    · exact hdoc.ordered

end Buffered

section Law

variable {deps : H → List H} {doc : Doc H}

/-- Success is reported for a change that is incorporated only, and any other
one makes the caller ask for the document again. -/
def Guarded (change : Option H) (outcome : Outcome H) : Prop :=
  (outcome.success = true → ∃ c, change = some c ∧ c ∈ outcome.doc.history) ∧
    ((¬∃ c, change = some c ∧ c ∈ outcome.doc.history) → outcome.resync = true)

/-- The dependencies of the change are in the document, or it was there. -/
def Complete (deps : H → List H) (doc : Doc H) (change : H) : Prop :=
  change ∈ doc.history ∨ ∀ d ∈ deps change, d ∈ doc.history

theorem isCausallyReady_iff {change : H} : isCausallyReady deps doc.history change = true ↔
    ∀ d ∈ deps change, d ∈ doc.history := by
  simp only [isCausallyReady, List.all_eq_true, decide_eq_true_eq]

theorem incorporated_iff_complete (hdoc : doc.Consistent deps) {change : H} :
    change ∈ (doc.applyChanges deps [change]).history ↔ Complete deps doc change := by
  rw [incorporated_iff hdoc, isCausallyReady_iff, Complete]

theorem success_of_incomplete (hdoc : doc.Consistent deps) {change : H}
    (hincomplete : ¬Complete deps doc change) :
    (applyChange deps doc (some change)).2 = true ↔ ¬CountGrows deps doc change := by
  have hnot : ¬change ∈ (doc.applyChanges deps [change]).history :=
    fun hin => hincomplete ((incorporated_iff_complete hdoc).mp hin)
  obtain ⟨hnew, hready⟩ := not_or.mp fun h => hnot ((incorporated_iff hdoc).mpr h)
  dsimp only [applyChange]
  rw [applyChanges_of_unready hdoc hnew (Bool.eq_false_iff.mpr hready)]
  split
  · rename_i hgrows
    exact iff_of_false Bool.false_ne_true (not_not_intro (count_buffered.mp hgrows))
  · rename_i hsame
    exact iff_of_true rfl fun hgrows => hsame (count_buffered.mpr hgrows)

theorem doc_applyChange (doc : Doc H) (change : H) :
    (applyChange deps doc (some change)).1 = doc.applyChanges deps [change] := by
  dsimp only [applyChange]
  split <;> rfl

theorem web_guarded_iff (hdoc : doc.Consistent deps) (change : H) :
    Guarded (some change) (onChange deps doc (some change)) ↔
      Complete deps doc change ∨ CountGrows deps doc change := by
  have hdoc' : (onChange deps doc (some change)).doc = doc.applyChanges deps [change] :=
    doc_applyChange doc change
  rw [Guarded, hdoc']
  by_cases hcomplete : Complete deps doc change
  · have hin := (incorporated_iff_complete hdoc).mpr hcomplete
    refine iff_of_true ⟨fun _ => ⟨change, rfl, hin⟩, ?_⟩ (Or.inl hcomplete)
    exact fun hout => absurd ⟨change, rfl, hin⟩ hout
  · have hout : ¬∃ c, some change = some c ∧ c ∈ (doc.applyChanges deps [change]).history := by
      rintro ⟨c, hc, hin⟩
      cases hc
      exact hcomplete ((incorporated_iff_complete hdoc).mp hin)
    have hsuccess := success_of_incomplete hdoc hcomplete
    rw [or_iff_right hcomplete]
    constructor
    · rintro ⟨hreports, -⟩
      by_contra hsame
      exact hout (hreports (hsuccess.mpr hsame))
    · intro hgrows
      have hrefused : (applyChange deps doc (some change)).2 = false :=
        Bool.eq_false_iff.mpr fun h => hsuccess.mp h hgrows
      refine ⟨fun h => absurd h (by rw [onChange, hrefused]; exact Bool.false_ne_true), ?_⟩
      intro _
      rw [onChange, hrefused]
      rfl

/-- The guard of the web holds for a change that is complete, and for one whose
missing dependencies show in the count. The engine, which has no guard and does
not ask for the document, holds for complete changes only. -/
theorem guarded_iff (hdoc : doc.Consistent deps) (change : Option H) :
    (Guarded change (onChange deps doc change) ↔
        ∀ c, change = some c → Complete deps doc c ∨ CountGrows deps doc c) ∧
      (Guarded change (engineOnChange deps doc change) ↔
        ∃ c, change = some c ∧ Complete deps doc c) := by
  cases change with
  | none =>
      constructor
      · exact iff_of_true ⟨fun h => absurd h Bool.false_ne_true, fun _ => rfl⟩ nofun
      · apply iff_of_false
        · rintro ⟨-, hresync⟩
          exact absurd (hresync nofun) Bool.false_ne_true
        · rintro ⟨c, hc, -⟩
          cases hc
  | some change =>
      constructor
      · rw [web_guarded_iff hdoc]
        constructor
        · rintro h c hc
          cases hc
          exact h
        · exact fun h => h change rfl
      · constructor
        · rintro ⟨hsuccess, -⟩
          obtain ⟨c, hc, hin⟩ := hsuccess rfl
          cases hc
          exact ⟨change, rfl, (incorporated_iff_complete hdoc).mp hin⟩
        · rintro ⟨c, hc, hcomplete⟩
          cases hc
          have hin := (incorporated_iff_complete hdoc).mpr hcomplete
          exact ⟨fun _ => ⟨change, rfl, hin⟩, fun hout => absurd ⟨change, rfl, hin⟩ hout⟩

/-- A change lost long ago, hash 1, is what 2 waits for and what 3 depends on. -/
def scarred : Doc Nat where
  history := [0]
  queue := [2]

def onLost : Nat → List Nat
  | 2 => [1]
  | 3 => [1]
  | 4 => [0]
  | _ => []

theorem scarred_consistent : scarred.Consistent onLost := by
  refine ⟨by simp [scarred, Causal.Extends, onLost], ?_⟩
  intro c hc
  rw [List.mem_singleton.mp hc]
  decide

/-- On the scarred document a complete change is incorporated by both. -/
theorem guarded_iff_scarred :
    Guarded (some 4) (onChange onLost scarred (some 4)) ∧
      Guarded (some 4) (engineOnChange onLost scarred (some 4)) := by
  have hcomplete : Complete onLost scarred 4 := Or.inr (by decide)
  obtain ⟨hweb, hengine⟩ := guarded_iff scarred_consistent (some 4)
  refine ⟨hweb.mpr ?_, hengine.mpr ⟨4, rfl, hcomplete⟩⟩
  rintro c hc
  cases hc
  exact Or.inl hcomplete

/-- A change that waits for a hash already missing is reported as applied by
the web, and so is every change by the engine. -/
theorem not_guarded_scarred :
    ¬(∀ (deps : Nat → List Nat) (doc : Doc Nat) (change : Option Nat), doc.Consistent deps →
      Guarded change (onChange deps doc change)) ∧
    ¬∀ (deps : Nat → List Nat) (doc : Doc Nat) (change : Option Nat), doc.Consistent deps →
      Guarded change (engineOnChange deps doc change) := by
  constructor
  · intro hall
    obtain ⟨c, hc, hin⟩ := (hall onLost scarred (some 3) scarred_consistent).1 rfl
    cases hc
    revert hin
    decide
  · intro hall
    obtain ⟨c, hc, hin⟩ := (hall onLost scarred (some 3) scarred_consistent).1 rfl
    cases hc
    revert hin
    decide

end Law

end DawProject.Document.Exchange
