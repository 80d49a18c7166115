import DawProject.Document.Guard

/-!
The file of a project, `FileStore::apply_change` of
`server/src/document/file_store.rs`, with the operations of the disk, each of
which may fail.
-/

namespace DawProject.Server

open Document.Exchange

variable {H : Type}

/-- The project file and the temporary one. -/
structure Disk (H : Type) where
  file : Option (Doc H) := none
  tmp : Option (Doc H) := none
deriving DecidableEq, Repr

/-- Which operations fail. -/
structure Faults where
  read : Bool := false
  write : Bool := false
  rename : Bool := false

/-- `write_atomic`: whether it succeeds, and the disk. -/
def write_atomic (faults : Faults) (disk : Disk H) (data : Doc H) : Disk H × Bool :=
  if faults.write then (disk, false)
  else
    let written := { disk with tmp := some data }
    if faults.rename then (written, false)
    else ({ file := some data, tmp := none }, true)

variable {disk : Disk H}

theorem write_atomic_error {faults : Faults} {data : Doc H}
    (herror : (write_atomic faults disk data).2 = false) :
    (write_atomic faults disk data).1.file = disk.file := by
  dsimp only [write_atomic] at herror ⊢
  cases hwrite : faults.write <;> cases hrename : faults.rename <;>
    simp only [hwrite, hrename, if_true, if_false, Bool.false_eq_true] at herror ⊢
  cases herror

theorem write_atomic_ok {faults : Faults} {data : Doc H}
    (hok : (write_atomic faults disk data).2 = true) :
    (write_atomic faults disk data).1.file = some data := by
  dsimp only [write_atomic] at hok ⊢
  cases hwrite : faults.write <;> cases hrename : faults.rename <;>
    simp only [hwrite, hrename, if_true, if_false, Bool.false_eq_true] at hok ⊢

section Code

-- The changes a change depends on, and those of the seed document.
variable [DecidableEq H] (deps : H → List H) (seed : List H)

/-- `FileStore::apply_change`. Bytes that are no change are an error of
`load_incremental`. -/
def FileStore.apply_change (faults : Faults) (disk : Disk H) (change : Option H) :
    Disk H × Bool :=
  if disk.file.isSome && faults.read then (disk, false)
  else
    match change with
    | none => (disk, false)
    | some change =>
        match Document.Exchange.apply_change deps seed disk.file change with
        | none => (disk, false)
        | some doc => write_atomic faults disk doc

end Code

section Law

variable [DecidableEq H] {deps : H → List H} {seed : List H}

/-- The document a change is applied to. -/
def Disk.stored (seed : List H) (disk : Disk H) : Doc H := disk.file.getD { history := seed }

/-- An accepted change and its dependencies are in the file; a refused one
leaves the file alone. -/
def AllOrNothing (deps : H → List H) (seed : List H) (disk : Disk H) (change : Option H)
    (result : Disk H × Bool) : Prop :=
  (result.2 = true → ∃ c, change = some c ∧ (∀ d ∈ deps c, d ∈ (disk.stored seed).history) ∧
      ∃ doc, result.1.file = some doc ∧ c ∈ doc.history) ∧
    (result.2 = false → result.1.file = disk.file)

/-- A call stops at an error, or the guard accepts the change and the document
is written. -/
theorem FileStore.apply_change_cases (deps : H → List H) (seed : List H) (faults : Faults)
    (disk : Disk H) (change : Option H) :
    FileStore.apply_change deps seed faults disk change = (disk, false) ∨
      ∃ c doc, change = some c ∧
        Document.Exchange.apply_change deps seed disk.file c = some doc ∧
        FileStore.apply_change deps seed faults disk change = write_atomic faults disk doc := by
  unfold FileStore.apply_change
  split
  · exact Or.inl rfl
  · cases change with
    | none => exact Or.inl rfl
    | some c =>
        dsimp only
        cases happly : Document.Exchange.apply_change deps seed disk.file c with
        | none => exact Or.inl rfl
        | some doc => exact Or.inr ⟨c, doc, rfl, happly, rfl⟩

/-- An error leaves the file as it was. -/
theorem file_of_error {faults : Faults} {change : Option H}
    (herror : (FileStore.apply_change deps seed faults disk change).2 = false) :
    (FileStore.apply_change deps seed faults disk change).1.file = disk.file := by
  rcases FileStore.apply_change_cases deps seed faults disk change with
    hstopped | ⟨c, doc, -, -, hwritten⟩
  · rw [hstopped]
  · rw [hwritten] at herror ⊢
    exact write_atomic_error herror

theorem file_of_ok {faults : Faults} {change : Option H}
    (hok : (FileStore.apply_change deps seed faults disk change).2 = true) :
    ∃ c doc, change = some c ∧ Document.Exchange.apply_change deps seed disk.file c = some doc ∧
      (FileStore.apply_change deps seed faults disk change).1.file = some doc := by
  rcases FileStore.apply_change_cases deps seed faults disk change with
    hstopped | ⟨c, doc, hchange, happly, hwritten⟩
  · rw [hstopped] at hok
    cases hok
  · rw [hwritten] at hok ⊢
    exact ⟨c, doc, hchange, happly, write_atomic_ok hok⟩

theorem deps_of_complete {doc : Doc H} (hdoc : doc.Consistent deps) {change : H}
    (hcomplete : Complete deps doc change) : ∀ d ∈ deps change, d ∈ doc.history := by
  rcases hcomplete with hmem | hdeps
  · exact fun d hd => hdoc.ordered.deps_mem change hmem d hd
  · exact hdeps

/-- The count is the guard: an accepted change is buffered when its missing
dependencies do not show in it. -/
theorem apply_change_eq (change : H) :
    Document.Exchange.apply_change deps seed disk.file change =
      if (applyChange deps (disk.stored seed) (some change)).2 = true then
        some ((disk.stored seed).applyChanges deps [change])
      else none := by
  dsimp only [Document.Exchange.apply_change, applyChange, Disk.stored]
  split <;> rfl

theorem accepted_iff (hstored : (disk.stored seed).Consistent deps) {change : H}
    (hincomplete : ¬Complete deps (disk.stored seed) change) :
    Document.Exchange.apply_change deps seed disk.file change ≠ none ↔
      ¬CountGrows deps (disk.stored seed) change := by
  rw [apply_change_eq, ← success_of_incomplete hstored hincomplete]
  split
  · rename_i hsuccess
    exact iff_of_true nofun hsuccess
  · rename_i hrefused
    exact iff_of_false (fun h => h rfl) hrefused

/-- `apply_change` is all or nothing, whatever fails on the disk, exactly for
the changes that are complete or whose missing dependencies show in the count. -/
theorem allOrNothing_iff (hstored : (disk.stored seed).Consistent deps) (change : Option H) :
    (∀ faults, AllOrNothing deps seed disk change
        (FileStore.apply_change deps seed faults disk change)) ↔
      ∀ c, change = some c →
        Complete deps (disk.stored seed) c ∨ CountGrows deps (disk.stored seed) c := by
  constructor
  · intro hall c hchange
    by_contra hnot
    obtain ⟨hincomplete, hsame⟩ := not_or.mp hnot
    have haccepted := (accepted_iff hstored hincomplete).mpr hsame
    obtain ⟨doc, hdoc⟩ := Option.ne_none_iff_exists'.mp haccepted
    have hresult : FileStore.apply_change deps seed {} disk change =
        ({ file := some doc, tmp := none }, true) := by
      rw [hchange]
      simp only [FileStore.apply_change, hdoc, Bool.and_false, Bool.false_eq_true, if_false]
      rfl
    obtain ⟨hok, -⟩ := hall {}
    rw [hresult] at hok
    obtain ⟨c', hc', hdeps, -⟩ := hok rfl
    rw [hchange] at hc'
    cases hc'
    exact hincomplete (Or.inr hdeps)
  · intro hcondition faults
    refine ⟨?_, file_of_error⟩
    intro hok
    obtain ⟨c, doc, hchange, happly, hfile⟩ := file_of_ok hok
    have hcomplete : Complete deps (disk.stored seed) c := by
      rcases hcondition c hchange with hcomplete | hgrows
      · exact hcomplete
      · by_contra hincomplete
        apply (accepted_iff hstored hincomplete).mp _ hgrows
        rw [happly]
        exact nofun
    rw [apply_change_eq] at happly
    split at happly
    · cases happly
      exact ⟨c, hchange, deps_of_complete hstored hcomplete, _, hfile,
        (incorporated_iff_complete hstored).mpr hcomplete⟩
    · cases happly

/-- A complete change on the scarred file, and one that the count refuses. -/
theorem allOrNothing_iff_scarred :
    (∀ faults, AllOrNothing onLost [] ({ file := some scarred } : Disk Nat) (some 4)
        (FileStore.apply_change onLost [] faults { file := some scarred } (some 4))) ∧
      ∀ faults, AllOrNothing onLost [] ({} : Disk Nat) (some 3)
        (FileStore.apply_change onLost [] faults {} (some 3)) := by
  have hempty : (({} : Disk Nat).stored []).Consistent onLost :=
    ⟨trivial, fun c hc => nomatch hc⟩
  constructor
  · apply (allOrNothing_iff scarred_consistent (some 4)).mpr
    rintro c hc
    cases hc
    exact Or.inl (Or.inr (by decide))
  · apply (allOrNothing_iff hempty (some 3)).mpr
    rintro c hc
    cases hc
    exact Or.inr (by decide)

/-- The change that waits for a hash already missing is written to the file
without being applied. -/
theorem not_allOrNothing_scarred :
    ¬∀ (deps : Nat → List Nat) (disk : Disk Nat) (change : Option Nat),
      (disk.stored []).Consistent deps →
        AllOrNothing deps [] disk change (FileStore.apply_change deps [] {} disk change) := by
  intro hall
  obtain ⟨hok, -⟩ := hall onLost { file := some scarred } (some 3) scarred_consistent
  obtain ⟨c, hc, hdeps, -⟩ := hok (by decide)
  cases hc
  revert hdeps
  decide

end Law

end DawProject.Server
