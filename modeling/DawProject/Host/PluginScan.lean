import DawProject.Lib.Delimited
import DawProject.Lib.Joined
import Mathlib.Algebra.Group.Int.Defs
import Mathlib.Algebra.Group.Nat.Defs
import Mathlib.Data.List.Induction
import Mathlib.Data.List.TakeWhile
import Std.Data.ExtTreeMap

/-!
The scan of a VST3 directory with its cache,
`engine/src/host/plugin_scan.cpp`. The child process that enumerates a module
is a function of the module and its signature.
-/

namespace DawProject.Host

open Delimited

/-- A text of the source, by its characters. -/
abbrev Text := List Char

structure ScannedPlugin where
  uid : Text
  name : Text
  vendor : Text
  sub_categories : Text
  module_path : Text
deriving DecidableEq, Repr

structure Sig where
  size : UInt64 := 0
  mtime : Int64 := 0
deriving DecidableEq, Repr

structure CacheRow where
  sig : Sig := {}
  failed : Bool := false
  entries : List ScannedPlugin := []
deriving DecidableEq, Repr

abbrev Cache := Std.ExtTreeMap Text CacheRow

section Numbers

def isspace (c : Char) : Bool := c ∈ [' ', '\t', '\n', '\x0b', '\x0c', '\r']

/-- The sign and the digits that a number starts with. -/
def leading (s : Text) : Bool × Text :=
  match s.dropWhile isspace with
  | '-' :: rest => (true, rest.takeWhile Char.isDigit)
  | '+' :: rest => (false, rest.takeWhile Char.isDigit)
  | rest => (false, rest.takeWhile Char.isDigit)

/-- None where the source throws. -/
def stoull (s : Text) : Option UInt64 :=
  let (negative, digits) := leading s
  let n := Nat.ofDigitChars 10 digits 0
  if digits = [] ∨ 2 ^ 64 ≤ n then none
  else some (if negative then -UInt64.ofNat n else UInt64.ofNat n)

def stoll (s : Text) : Option Int64 :=
  let (negative, digits) := leading s
  let magnitude : Int := Nat.ofDigitChars 10 digits 0
  let n := if negative then -magnitude else magnitude
  if digits = [] ∨ n < -2 ^ 63 ∨ 2 ^ 63 ≤ n then none else some (Int64.ofInt n)

end Numbers

section Files

/-- What a line does to the row of its path. The numbers are written one after
the other, and a row whose numbers do not parse stays as it is then. -/
def loadRow (path size_s mtime_s status : Text) (fields : List Text) (row : CacheRow) : CacheRow :=
  match stoull size_s with
  | none => row
  | some size =>
      match stoll mtime_s with
      | none => { row with sig := { row.sig with size := size } }
      | some mtime =>
          let row := { row with sig := ⟨size, mtime⟩ }
          if status = "fail".toList then { row with failed := true }
          else if fields.getD 0 [] ≠ [] then
            { row with
              entries := row.entries ++ [⟨fields.getD 0 [], fields.getD 1 [], fields.getD 2 [],
                fields.getD 3 [], path⟩] }
          else row

def loadLine (out : Cache) (line : Text) : Cache :=
  match pieces '\t' line with
  | path :: size_s :: mtime_s :: status :: fields =>
      out.insert path (loadRow path size_s mtime_s status fields (out.getD path {}))
  | _ => out

def loadCache (file : Text) : Cache := (pieces '\n' file).foldl loadLine ∅

/-- Fields with tabs between them. -/
def tabbed (path : Text) (fields : List Text) : Text := Joined.joined '\t' path fields

def rowLines (path : Text) (row : CacheRow) : List Text :=
  let size := Nat.toDigits 10 row.sig.size.toNat
  let mtime := Joined.decimal row.sig.mtime.toInt
  if row.failed then [tabbed path [size, mtime, "fail".toList]]
  else
    row.entries.map fun e =>
      tabbed path [size, mtime, "ok".toList, e.uid, e.name, e.vendor, e.sub_categories]

def saveCache (cache : Cache) : Text :=
  terminated '\n' (cache.toList.flatMap fun (path, row) => rowLines path row)

end Files

section Scan

/-- A class as the child reports it. -/
structure EnumeratedClass where
  category : Text
  class_id : Text
  name : Text
  vendor : Text
  sub_categories : Text
deriving DecidableEq, Repr

/-- A module in the directory. -/
structure DirectoryEntry where
  path : Text
  filename : Text
  sig : Sig
deriving DecidableEq, Repr

/-- From the last dot of a file name, unless it starts the name. -/
def extension (filename : Text) : Text :=
  let after := (filename.reverse.takeWhile (· ≠ '.')).reverse
  if '.' ∉ filename ∨ filename = ".".toList ∨ filename = "..".toList ∨
      filename = '.' :: after then []
  else '.' :: after

/-- What the child answers for a module with a signature; none where it fails. -/
abbrev Enumeration := Text → Sig → Option (List EnumeratedClass)

def enumerateWithChild (child : Enumeration) (module : Text) (sig : Sig) :
    Option (List ScannedPlugin) :=
  (child module sig).map fun classes =>
    (classes.filter fun c => c.category = "Audio Module Class".toList).map fun c =>
      ⟨c.class_id, c.name, c.vendor, c.sub_categories, module⟩

structure Scan where
  result : List ScannedPlugin := []
  cache : Cache
  fresh : Nat := 0
  cached : Nat := 0
  failed : Nat := 0
  log : List Text := []

def scanFresh (child : Enumeration) (s : Scan) (entry : DirectoryEntry) : Scan :=
  match enumerateWithChild child entry.path entry.sig with
  | some found =>
      { s with
        result := s.result ++ found
        cache := s.cache.insert entry.path ⟨entry.sig, false, found⟩
        fresh := s.fresh + 1 }
  | none =>
      { s with
        cache := s.cache.insert entry.path ⟨entry.sig, true, []⟩
        failed := s.failed + 1
        log := s.log ++ ["scan: echec (memorise): ".toList ++ entry.path] }

def scanEntry (child : Enumeration) (s : Scan) (entry : DirectoryEntry) : Scan :=
  if extension entry.filename ≠ ".vst3".toList then s
  else
    match s.cache[entry.path]? with
    | some row =>
        if row.sig = entry.sig then
          if row.failed then { s with failed := s.failed + 1 }
          else
            { s with
              result := s.result ++ row.entries.map fun e => { e with module_path := entry.path }
              cached := s.cached + 1 }
        else scanFresh child s entry
    | none => scanFresh child s entry

def scanSummary (dir : Text) (s : Scan) : Text :=
  "scan: ".toList ++ dir ++ " -> ".toList ++ Nat.toDigits 10 s.result.length ++
    " classe(s) (".toList ++ Nat.toDigits 10 s.cached ++ " en cache, ".toList ++
    Nat.toDigits 10 s.fresh ++ " enumere(s), ".toList ++ Nat.toDigits 10 s.failed ++
    " en echec)".toList

/-- The classes found, the cache file then, and the log. -/
structure ScanResult where
  result : List ScannedPlugin
  file : Text
  log : List Text
deriving DecidableEq, Repr

/-- The directory is none where there is none. -/
def scanVst3Dir (child : Enumeration) (dir : Text) (directory : Option (List DirectoryEntry))
    (file : Text) : ScanResult :=
  match directory with
  | none => ⟨[], file, ["scan: dossier absent: ".toList ++ dir]⟩
  | some entries =>
      let s := entries.foldl (scanEntry child) { cache := loadCache file }
      ⟨s.result, saveCache s.cache, s.log ++ [scanSummary dir s]⟩

end Scan

section Reading

theorem isDigit_cases {c : Char} (hc : c.isDigit = true) :
    isspace c = false ∧ c ≠ '-' ∧ c ≠ '+' := by
  refine ⟨?_, ?_, ?_⟩
  · apply Bool.eq_false_iff.mpr
    intro hspace
    simp only [isspace, List.mem_cons, List.not_mem_nil, or_false, decide_eq_true_eq] at hspace
    rcases hspace with rfl | rfl | rfl | rfl | rfl | rfl <;> cases hc
  · rintro rfl
    cases hc
  · rintro rfl
    cases hc

theorem leading_digits {s : Text} (hs : ∀ c ∈ s, c.isDigit = true) : leading s = (false, s) := by
  cases s with
  | nil => rfl
  | cons c s =>
      obtain ⟨hspace, hminus, hplus⟩ := isDigit_cases (hs c List.mem_cons_self)
      rw [leading, List.dropWhile_cons_of_neg (by rw [hspace]; nofun)]
      split
      · rename_i heq
        exact absurd (List.cons.inj heq).1 hminus
      · rename_i heq
        exact absurd (List.cons.inj heq).1 hplus
      · rw [List.takeWhile_eq_self_iff.mpr hs]

theorem leading_minus {s : Text} (hs : ∀ c ∈ s, c.isDigit = true) :
    leading ('-' :: s) = (true, s) := by
  rw [leading, List.dropWhile_cons_of_neg (by decide)]
  show (true, s.takeWhile Char.isDigit) = (true, s)
  rw [List.takeWhile_eq_self_iff.mpr hs]

theorem isDigit_toDigits (n : Nat) : ∀ c ∈ Nat.toDigits 10 n, c.isDigit = true :=
  fun _ hc => Nat.isDigit_of_mem_toDigits (by decide) (by decide) hc

/-- What is written is read again. -/
@[simp] theorem stoull_toDigits (n : UInt64) : stoull (Nat.toDigits 10 n.toNat) = some n := by
  have hlt : n.toNat < 2 ^ 64 := n.toNat_lt
  rw [stoull, leading_digits (isDigit_toDigits _)]
  simp only [Nat.ofDigitChars_ten_toDigits, Nat.toDigits_ne_nil, false_or, Bool.false_eq_true,
    if_false, UInt64.ofNat_toNat]
  rw [if_neg (by omega)]

@[simp] theorem stoll_decimal (n : Int64) : stoll (Joined.decimal n.toInt) = some n := by
  have hlt : n.toInt < 2 ^ 63 := n.toInt_lt
  have hge : -2 ^ 63 ≤ n.toInt := n.le_toInt
  rw [Joined.decimal_eq]
  split
  · rename_i hpos
    rw [stoll, leading_digits (isDigit_toDigits _)]
    simp only [Nat.ofDigitChars_ten_toDigits, Nat.toDigits_ne_nil, false_or, Bool.false_eq_true,
      if_false, Int.toNat_of_nonneg hpos]
    rw [if_neg (by omega), Int64.ofInt_toInt]
  · rename_i hneg
    rw [stoll, leading_minus (isDigit_toDigits _)]
    simp only [Nat.ofDigitChars_ten_toDigits, Nat.toDigits_ne_nil, false_or, if_true,
      Int.toNat_of_nonneg (show 0 ≤ -n.toInt by omega), Int.neg_neg]
    rw [if_neg (by omega), Int64.ofInt_toInt]

end Reading

section RoundTrip

/-- A text that neither a tab nor a newline cuts. -/
def Plain (t : Text) : Prop := '\t' ∉ t ∧ '\n' ∉ t

/-- An entry that its line gives back. -/
structure PlainEntry (path : Text) (e : ScannedPlugin) : Prop where
  uid_ne : e.uid ≠ []
  uid : Plain e.uid
  name : Plain e.name
  vendor : Plain e.vendor
  sub_categories : Plain e.sub_categories
  module_path : e.module_path = path

structure Loadable (path : Text) (row : CacheRow) : Prop where
  plain_path : Plain path
  plain_entries : ∀ e ∈ row.entries, PlainEntry path e

/-- A row that its lines give back. A module without a class has no line. -/
structure Savable (path : Text) (row : CacheRow) : Prop extends Loadable path row where
  failed : row.failed = true ↔ row.entries = []

/-- What the lines of a row give back. -/
def reloaded (row : CacheRow) : Option CacheRow :=
  if row.failed then some { row with entries := [] }
  else if row.entries = [] then none
  else some row

def AllRows (P : Text → CacheRow → Prop) (cache : Cache) : Prop :=
  ∀ path row, cache[path]? = some row → P path row

variable {P : Text → CacheRow → Prop} {cache out : Cache} {path path' : Text} {row : CacheRow}

theorem allRows_empty : AllRows P ∅ := by
  intro path row hrow
  rw [Std.ExtTreeMap.getElem?_empty] at hrow
  cases hrow

theorem getElem?_insert_of_ne (hne : path ≠ path') :
    (cache.insert path row)[path']? = cache[path']? := by
  have hcompare : compare path path' ≠ .eq := fun heq =>
    hne (Std.LawfulEqCmp.compare_eq_iff_eq.mp heq)
  rw [Std.ExtTreeMap.getElem?_insert, if_neg hcompare]

theorem AllRows.insert (hcache : AllRows P cache) (hrow : P path row) :
    AllRows P (cache.insert path row) := by
  intro path' row' hrow'
  by_cases heq : path = path'
  · subst heq
    rw [Std.ExtTreeMap.getElem?_insert_self] at hrow'
    rw [← Option.some.inj hrow']
    exact hrow
  · rw [getElem?_insert_of_ne heq] at hrow'
    exact hcache path' row' hrow'

theorem plain_of_mem_pieces {line t : Text} (hline : '\n' ∉ line) (ht : t ∈ pieces '\t' line) :
    Plain t :=
  ⟨not_mem_of_mem_pieces ht, fun hmem => hline (mem_of_mem_pieces ht hmem).1⟩

theorem plain_getD {line : Text} {fields : List Text} (hline : '\n' ∉ line)
    (hfields : ∀ field ∈ fields, field ∈ pieces '\t' line) (i : Nat) :
    Plain (fields.getD i []) := by
  rw [List.getD_eq_getElem?_getD]
  cases hget : fields[i]? with
  | none => exact ⟨List.not_mem_nil, List.not_mem_nil⟩
  | some field => exact plain_of_mem_pieces hline (hfields field (List.mem_of_getElem? hget))

/-- What is read from a line comes back when it is written. -/
theorem loadable_loadLine {line : Text} (hline : '\n' ∉ line) (hout : AllRows Loadable out) :
    AllRows Loadable (loadLine out line) := by
  unfold loadLine
  split
  · rename_i path size_s mtime_s status fields hpieces
    have hmem : ∀ t ∈ path :: size_s :: mtime_s :: status :: fields, t ∈ pieces '\t' line := by
      intro t ht
      rw [hpieces]
      exact ht
    have hpath : Plain path := plain_of_mem_pieces hline (hmem path List.mem_cons_self)
    have hfields : ∀ field ∈ fields, field ∈ pieces '\t' line := fun field hfield =>
      hmem field (by simp [hfield])
    have hrow : Loadable path (out.getD path {}) := by
      rw [Std.ExtTreeMap.getD_eq_getD_getElem?]
      cases hget : out[path]? with
      | none => exact ⟨hpath, nofun⟩
      | some row => exact hout path row hget
    refine hout.insert ⟨hpath, ?_⟩
    unfold loadRow
    split
    · exact hrow.plain_entries
    · split
      · exact hrow.plain_entries
      · dsimp only
        split
        · exact hrow.plain_entries
        · split
          · rename_i huid
            intro e he
            rcases List.mem_append.mp he with hold | hnew
            · exact hrow.plain_entries e hold
            · rw [List.mem_singleton.mp hnew]
              exact ⟨huid, plain_getD hline hfields 0, plain_getD hline hfields 1,
                plain_getD hline hfields 2, plain_getD hline hfields 3, rfl⟩
          · exact hrow.plain_entries
  · exact hout

theorem loadable_loadCache (file : Text) : AllRows Loadable (loadCache file) := by
  have hlines : ∀ line ∈ pieces '\n' file, '\n' ∉ line := fun _ => not_mem_of_mem_pieces
  rw [loadCache]
  generalize pieces '\n' file = lines at hlines
  have hall : ∀ out : Cache, AllRows Loadable out →
      AllRows Loadable (lines.foldl loadLine out) := by
    induction lines with
    | nil => exact fun out hout => hout
    | cons line lines ih =>
        intro out hout
        exact ih (fun l hl => hlines l (List.mem_cons_of_mem line hl)) _
          (loadable_loadLine (hlines line List.mem_cons_self) hout)
  exact hall ∅ allRows_empty

/-- The numbers of a signature have no delimiter. -/
theorem plain_size (n : UInt64) : Plain (Nat.toDigits 10 n.toNat) :=
  ⟨Joined.not_mem_toDigits rfl _, Joined.not_mem_toDigits rfl _⟩

theorem plain_mtime (n : Int64) : Plain (Joined.decimal n.toInt) :=
  ⟨Joined.not_mem_decimal rfl (by decide) _, Joined.not_mem_decimal rfl (by decide) _⟩

theorem loadLine_fail (hpath : Plain path) (sig : Sig) :
    loadLine out (tabbed path
        [Nat.toDigits 10 sig.size.toNat, Joined.decimal sig.mtime.toInt, "fail".toList]) =
      out.insert path { out.getD path {} with sig := sig, failed := true } := by
  have hsize := (plain_size sig.size).1
  have hmtime := (plain_mtime sig.mtime).1
  have hpieces : pieces '\t' (tabbed path
      [Nat.toDigits 10 sig.size.toNat, Joined.decimal sig.mtime.toInt, "fail".toList]) =
      [path, Nat.toDigits 10 sig.size.toNat, Joined.decimal sig.mtime.toInt, "fail".toList] := by
    simp only [tabbed, Joined.joined, List.flatMap_cons, List.flatMap_nil, List.append_nil,
      List.cons_append, pieces_append_cons hpath.1, pieces_append_cons hsize,
      pieces_append_cons hmtime]
    rfl
  rw [loadLine, hpieces]
  simp [loadRow]

theorem loadLine_ok (hpath : Plain path) (sig : Sig) {e : ScannedPlugin} (he : PlainEntry path e) :
    loadLine out (tabbed path
        [Nat.toDigits 10 sig.size.toNat, Joined.decimal sig.mtime.toInt, "ok".toList, e.uid, e.name,
          e.vendor, e.sub_categories]) =
      out.insert path
        { out.getD path {} with sig := sig, entries := (out.getD path {}).entries ++ [e] } := by
  have hsize := (plain_size sig.size).1
  have hmtime := (plain_mtime sig.mtime).1
  have hok : '\t' ∉ "ok".toList := by decide
  have hpieces : pieces '\t' (tabbed path
      [Nat.toDigits 10 sig.size.toNat, Joined.decimal sig.mtime.toInt, "ok".toList, e.uid, e.name,
        e.vendor, e.sub_categories]) =
      path :: Nat.toDigits 10 sig.size.toNat :: Joined.decimal sig.mtime.toInt :: "ok".toList ::
        e.uid :: e.name :: e.vendor ::
          if e.sub_categories = [] then [] else [e.sub_categories] := by
    simp only [tabbed, Joined.joined, List.flatMap_cons, List.flatMap_nil, List.append_nil,
      List.cons_append, pieces_append_cons hpath.1, pieces_append_cons hsize,
      pieces_append_cons hmtime, pieces_append_cons hok, pieces_append_cons he.uid.1,
      pieces_append_cons he.name.1, pieces_append_cons he.vendor.1,
      pieces_of_not_mem he.sub_categories.1]
  have hsub : (if e.sub_categories = [] then ([] : List Text) else [e.sub_categories]).getD 0 [] =
      e.sub_categories := by
    split
    · rename_i hempty
      rw [hempty]
      rfl
    · rfl
  rw [loadLine, hpieces]
  dsimp only
  rw [loadRow, stoull_toDigits, stoll_decimal]
  dsimp only
  rw [if_neg (by decide), List.getD_cons_zero, if_pos he.uid_ne]
  simp only [List.getD_cons_succ, List.getD_cons_zero, hsub]
  rw [← he.module_path]

/-- The lines of the classes of one module, over a row of its path. -/
theorem getElem?_foldl_ok (hpath : Plain path) (sig : Sig) {entries : List ScannedPlugin}
    (hentries : ∀ e ∈ entries, PlainEntry path e) (k : Text) :
    ((entries.map fun e => tabbed path
        [Nat.toDigits 10 sig.size.toNat, Joined.decimal sig.mtime.toInt, "ok".toList, e.uid, e.name,
          e.vendor, e.sub_categories]).foldl loadLine out)[k]? =
      if path = k ∧ entries ≠ [] then
        some { out.getD path {} with
          sig := sig, entries := (out.getD path {}).entries ++ entries }
      else out[k]? := by
  induction entries generalizing out with
  | nil => simp
  | cons e entries ih =>
      obtain ⟨he, hrest⟩ := List.forall_mem_cons.mp hentries
      rw [List.map_cons, List.foldl_cons, loadLine_ok hpath sig he, ih hrest]
      by_cases hk : path = k
      · subst hk
        by_cases hempty : entries = []
        · subst hempty
          simp
        · simp [hempty]
      · simp [hk, getElem?_insert_of_ne hk]

/-- The lines of a row whose path has none yet. -/
theorem getElem?_foldl_rowLines (hrow : Loadable path row) (hnone : out[path]? = none) (k : Text) :
    ((rowLines path row).foldl loadLine out)[k]? =
      if path = k then reloaded row else out[k]? := by
  have hdefault : out.getD path {} = {} := by
    rw [Std.ExtTreeMap.getD_eq_getD_getElem?, hnone]
    rfl
  unfold rowLines reloaded
  dsimp only
  split
  · rename_i hfailed
    rw [List.foldl_cons, List.foldl_nil, loadLine_fail hrow.plain_path, hdefault]
    by_cases hk : path = k
    · subst hk
      simp [hfailed]
    · simp [hk, getElem?_insert_of_ne hk]
  · rename_i hfailed
    rw [getElem?_foldl_ok hrow.plain_path row.sig hrow.plain_entries, hdefault]
    by_cases hk : path = k
    · subst hk
      by_cases hempty : row.entries = []
      · simp [hempty, hnone]
      · have hrow_eq : row = ⟨row.sig, false, row.entries⟩ := by
          rw [← Bool.eq_false_iff.mpr hfailed]
        simp [hempty, ← hrow_eq]
    · simp [hk]

/-- The rows of a list of distinct paths. -/
theorem getElem?_foldl_rows {rows : List (Text × CacheRow)}
    (hrows : ∀ pair ∈ rows, Loadable pair.1 pair.2)
    (hdistinct : rows.Pairwise fun a b => a.1 ≠ b.1)
    (hnone : ∀ pair ∈ rows, out[pair.1]? = none) (k : Text) :
    ((rows.flatMap fun pair => rowLines pair.1 pair.2).foldl loadLine out)[k]? =
      match rows.find? fun pair => pair.1 = k with
      | some pair => reloaded pair.2
      | none => out[k]? := by
  induction rows generalizing out with
  | nil => rfl
  | cons pair rows ih =>
      obtain ⟨hpair, hrest⟩ := List.forall_mem_cons.mp hrows
      obtain ⟨hout, hfree⟩ := List.forall_mem_cons.mp hnone
      obtain ⟨hne, hpairwise⟩ := List.pairwise_cons.mp hdistinct
      have hlines := getElem?_foldl_rowLines hpair hout
      rw [List.flatMap_cons, List.foldl_append, ih hrest hpairwise]
      · rw [hlines, List.find?_cons]
        by_cases hk : pair.1 = k
        · have hlast : (rows.find? fun pair => pair.1 = k) = none := by
            rw [List.find?_eq_none]
            intro other hother
            simp [← hk, Ne.symm (hne other hother)]
          simp [hk, hlast]
        · simp [hk]
      · intro other hother
        rw [hlines, if_neg (hne other hother)]
        exact hfree other hother

theorem not_mem_rowLines (hrow : Loadable path row) : ∀ line ∈ rowLines path row, '\n' ∉ line := by
  intro line hline
  unfold rowLines at hline
  dsimp only at hline
  have hsize := (plain_size row.sig.size).2
  have hmtime := (plain_mtime row.sig.mtime).2
  split at hline
  · rw [List.mem_singleton.mp hline]
    refine Joined.not_mem_joined (by decide) hrow.plain_path.2 ?_
    simp [hsize, hmtime]
  · obtain ⟨e, he, rfl⟩ := List.mem_map.mp hline
    have hentry := hrow.plain_entries e he
    refine Joined.not_mem_joined (by decide) hrow.plain_path.2 ?_
    simp [hsize, hmtime, hentry.uid.2, hentry.name.2, hentry.vendor.2, hentry.sub_categories.2]

/-- What the file of a cache gives back. -/
theorem getElem?_loadCache_saveCache (hcache : AllRows Loadable cache) (k : Text) :
    (loadCache (saveCache cache))[k]? = cache[k]?.bind reloaded := by
  have hrows : ∀ pair ∈ cache.toList, Loadable pair.1 pair.2 := fun pair hpair =>
    hcache pair.1 pair.2 (Std.ExtTreeMap.mem_toList_iff_getElem?_eq_some.mp hpair)
  have hdistinct : cache.toList.Pairwise fun a b => a.1 ≠ b.1 := by
    refine Std.ExtTreeMap.distinct_keys_toList.imp ?_
    intro a b hne heq
    exact hne (Std.LawfulEqCmp.compare_eq_iff_eq.mpr heq)
  have hlines : ∀ line ∈ cache.toList.flatMap fun pair => rowLines pair.1 pair.2, '\n' ∉ line := by
    intro line hline
    obtain ⟨pair, hpair, hmem⟩ := List.mem_flatMap.mp hline
    exact not_mem_rowLines (hrows pair hpair) line hmem
  have hload : (loadCache (saveCache cache))[k]? =
      ((cache.toList.flatMap fun pair => rowLines pair.1 pair.2).foldl loadLine ∅)[k]? := by
    rw [loadCache, saveCache, pieces_terminated hlines]
  rw [hload, getElem?_foldl_rows hrows hdistinct fun _ _ => Std.ExtTreeMap.getElem?_empty]
  cases hfind : cache.toList.find? fun pair => pair.1 = k with
  | none =>
      have hnone : cache[k]? = none := by
        apply Option.eq_none_iff_forall_not_mem.mpr
        intro row hrow
        have hmem := Std.ExtTreeMap.mem_toList_iff_getElem?_eq_some.mpr hrow
        have hneg := List.find?_eq_none.mp hfind (k, row) hmem
        simp at hneg
      rw [hnone]
      exact Std.ExtTreeMap.getElem?_empty
  | some pair =>
      have hk : pair.1 = k := by simpa using List.find?_some hfind
      have hsome := Std.ExtTreeMap.mem_toList_iff_getElem?_eq_some.mp
        (List.mem_of_find?_eq_some hfind)
      rw [← hk, hsome]
      rfl

theorem reloaded_eq_self_iff :
    reloaded row = some row ↔ (row.failed = true ↔ row.entries = []) := by
  obtain ⟨sig, failed, entries⟩ := row
  cases failed with
  | true => simp [reloaded, eq_comm]
  | false =>
      by_cases hempty : entries = []
      · simp [reloaded, hempty]
      · simp [reloaded, hempty]

/-- The cache that is written is the cache that is read, exactly when its rows
have no tab, no newline, no empty class id and no module without a class. -/
theorem loadCache_saveCache_iff : loadCache (saveCache cache) = cache ↔ AllRows Savable cache := by
  constructor
  · intro heq path row hrow
    have hloadable : AllRows Loadable cache := by
      rw [← heq]
      exact loadable_loadCache _
    have hreloaded := getElem?_loadCache_saveCache hloadable path
    rw [heq, hrow] at hreloaded
    exact ⟨hloadable path row hrow, reloaded_eq_self_iff.mp hreloaded.symm⟩
  · intro hsavable
    apply Std.ExtTreeMap.ext_getElem?
    intro k
    rw [getElem?_loadCache_saveCache fun path row hrow => (hsavable path row hrow).toLoadable]
    cases hrow : cache[k]? with
    | none => rfl
    | some row => exact reloaded_eq_self_iff.mpr (hsavable k row hrow).failed

end RoundTrip

section Transparent

variable {child : Enumeration} {cache : Cache} {s : Scan} {entry : DirectoryEntry}

/-- A class whose line gives it back. -/
structure PlainClass (c : EnumeratedClass) : Prop where
  class_id_ne : c.class_id ≠ []
  class_id : Plain c.class_id
  name : Plain c.name
  vendor : Plain c.vendor
  sub_categories : Plain c.sub_categories

/-- A module whose path and whose audio classes give themselves back. -/
structure PlainModule (child : Enumeration) (entry : DirectoryEntry) : Prop where
  path : Plain entry.path
  classes : ∀ classes, child entry.path entry.sig = some classes →
    ∀ c ∈ classes, c.category = "Audio Module Class".toList → PlainClass c

/-- A row that says what the child answers. -/
def Told (child : Enumeration) (path : Text) (row : CacheRow) : Prop :=
  enumerateWithChild child path row.sig = if row.failed then none else some row.entries

/-- The classes of a module, without a cache. -/
def found (child : Enumeration) (entry : DirectoryEntry) : List ScannedPlugin :=
  if extension entry.filename ≠ ".vst3".toList then []
  else (enumerateWithChild child entry.path entry.sig).getD []

theorem module_path_of_enumerate {module : Text} {sig : Sig} {entries : List ScannedPlugin}
    (hfound : enumerateWithChild child module sig = some entries) :
    ∀ e ∈ entries, e.module_path = module := by
  obtain ⟨classes, -, rfl⟩ := Option.map_eq_some_iff.mp hfound
  intro e he
  obtain ⟨c, -, rfl⟩ := List.mem_map.mp he
  rfl

theorem plainEntry_of_enumerate (hmodule : PlainModule child entry)
    {entries : List ScannedPlugin}
    (hfound : enumerateWithChild child entry.path entry.sig = some entries) :
    ∀ e ∈ entries, PlainEntry entry.path e := by
  obtain ⟨classes, hclasses, rfl⟩ := Option.map_eq_some_iff.mp hfound
  intro e he
  obtain ⟨c, hc, rfl⟩ := List.mem_map.mp he
  obtain ⟨hmem, hcategory⟩ := List.mem_filter.mp hc
  have hplain := hmodule.classes classes hclasses c hmem (of_decide_eq_true hcategory)
  exact ⟨hplain.class_id_ne, hplain.class_id, hplain.name, hplain.vendor, hplain.sub_categories,
    rfl⟩

theorem scanFresh_result :
    (scanFresh child s entry).result =
      s.result ++ (enumerateWithChild child entry.path entry.sig).getD [] := by
  unfold scanFresh
  cases enumerateWithChild child entry.path entry.sig <;> simp

/-- The row that an enumeration writes. -/
theorem scanFresh_cache (child : Enumeration) (s : Scan) (entry : DirectoryEntry) :
    ∃ row, (scanFresh child s entry).cache = s.cache.insert entry.path row ∧
      row.sig = entry.sig ∧ (row.failed = true → row.entries = []) ∧
      Told child entry.path row := by
  unfold scanFresh
  cases hfound : enumerateWithChild child entry.path entry.sig with
  | none => exact ⟨_, rfl, rfl, fun _ => rfl, hfound⟩
  | some entries => exact ⟨_, rfl, rfl, nofun, hfound⟩

/-- A module is reported as if there were no cache. -/
theorem scanEntry_result (htold : AllRows (Told child) s.cache) :
    (scanEntry child s entry).result = s.result ++ found child entry := by
  unfold scanEntry found
  split
  · exact (List.append_nil _).symm
  · split
    · rename_i row hrow
      split
      · rename_i hsig
        have hrow_told := htold entry.path row hrow
        rw [Told, hsig] at hrow_told
        rw [hrow_told]
        split
        · exact (List.append_nil _).symm
        · rename_i hfailed
          rw [if_neg hfailed] at hrow_told
          have hsame : row.entries.map (fun e => { e with module_path := entry.path }) =
              row.entries := by
            have hpath : ∀ e ∈ row.entries, { e with module_path := entry.path } = e := by
              intro e he
              rw [← module_path_of_enumerate hrow_told e he]
            exact (List.map_congr_left hpath).trans (List.map_id' _)
          rw [hsame]
          rfl
      · exact scanFresh_result
    · exact scanFresh_result

/-- A module leaves the cache as it is, or writes its row. -/
theorem scanEntry_cache (child : Enumeration) (s : Scan) (entry : DirectoryEntry) :
    (scanEntry child s entry).cache = s.cache ∨
      extension entry.filename = ".vst3".toList ∧
        (scanEntry child s entry).cache = (scanFresh child s entry).cache := by
  unfold scanEntry
  split
  · exact Or.inl rfl
  · rename_i hextension
    have hextension := not_not.mp hextension
    split
    · split
      · split <;> exact Or.inl rfl
      · exact Or.inr ⟨hextension, rfl⟩
    · exact Or.inr ⟨hextension, rfl⟩

/-- A row that says what the child answers, and that its lines give back. -/
structure Known (child : Enumeration) (path : Text) (row : CacheRow) : Prop extends
    Loadable path row where
  told : Told child path row

theorem known_scanFresh (hmodule : PlainModule child entry)
    (hcache : AllRows (Known child) s.cache) :
    AllRows (Known child) (scanFresh child s entry).cache := by
  obtain ⟨row, hinsert, hsig, hfailed, htold⟩ :=
    scanFresh_cache child s entry
  rw [hinsert]
  refine hcache.insert ⟨⟨hmodule.path, ?_⟩, htold⟩
  rw [Told, hsig] at htold
  split at htold
  · rename_i htrue
    rw [hfailed htrue]
    exact nofun
  · exact plainEntry_of_enumerate hmodule htold

theorem known_scanEntry
    (hmodule : extension entry.filename = ".vst3".toList → PlainModule child entry)
    (hcache : AllRows (Known child) s.cache) :
    AllRows (Known child) (scanEntry child s entry).cache := by
  rcases scanEntry_cache child s entry with
    hsame | ⟨hextension, hfresh⟩
  · rw [hsame]
    exact hcache
  · rw [hfresh]
    exact known_scanFresh (hmodule hextension) hcache

theorem AllRows.told (hcache : AllRows (Known child) cache) : AllRows (Told child) cache :=
  fun path row hrow => (hcache path row hrow).told

/-- What is saved of rows that the child has told is still what it tells. -/
theorem known_reloaded (hcache : AllRows (Known child) cache) :
    AllRows (Known child) (loadCache (saveCache cache)) := by
  intro path row' hrow'
  refine ⟨loadable_loadCache _ path row' hrow', ?_⟩
  rw [getElem?_loadCache_saveCache fun path row hrow => (hcache path row hrow).toLoadable] at hrow'
  obtain ⟨row, hrow, hreloaded⟩ := Option.bind_eq_some_iff.mp hrow'
  have htold := (hcache path row hrow).told
  unfold reloaded at hreloaded
  split at hreloaded
  · rename_i hfailed
    rw [← Option.some.inj hreloaded, Told, hfailed]
    rw [Told, hfailed] at htold
    exact htold
  · split at hreloaded
    · cases hreloaded
    · rw [← Option.some.inj hreloaded]
      exact htold

/-- The modules of a directory. -/
def PlainDirectory (child : Enumeration) (directory : Option (List DirectoryEntry)) : Prop :=
  ∀ entries ∈ directory, ∀ entry ∈ entries,
    extension entry.filename = ".vst3".toList → PlainModule child entry

theorem known_foldl {entries : List DirectoryEntry}
    (hentries : ∀ entry ∈ entries,
      extension entry.filename = ".vst3".toList → PlainModule child entry)
    (hcache : AllRows (Known child) s.cache) :
    AllRows (Known child) (entries.foldl (scanEntry child) s).cache := by
  induction entries generalizing s with
  | nil => exact hcache
  | cons entry entries ih =>
      obtain ⟨hentry, hrest⟩ := List.forall_mem_cons.mp hentries
      exact ih hrest (known_scanEntry hentry hcache)

theorem told_scanEntry (htold : AllRows (Told child) s.cache) :
    AllRows (Told child) (scanEntry child s entry).cache := by
  rcases scanEntry_cache child s entry with hsame | ⟨-, hfresh⟩
  · rw [hsame]
    exact htold
  · obtain ⟨row, hinsert, -, -, hrow⟩ := scanFresh_cache child s entry
    rw [hfresh, hinsert]
    exact htold.insert hrow

theorem result_foldl {entries : List DirectoryEntry} (htold : AllRows (Told child) s.cache) :
    (entries.foldl (scanEntry child) s).result = s.result ++ entries.flatMap (found child) := by
  induction entries generalizing s with
  | nil => exact (List.append_nil _).symm
  | cons entry entries ih =>
      rw [List.foldl_cons, ih (told_scanEntry htold), scanEntry_result htold, List.flatMap_cons,
        List.append_assoc]

/-- The cache file after scans one after the other, from none. -/
def cacheFile (child : Enumeration) (scans : List (Text × Option (List DirectoryEntry))) : Text :=
  scans.foldl (fun file scan => (scanVst3Dir child scan.1 scan.2 file).file) []

theorem known_scanVst3Dir {dir file : Text} {directory : Option (List DirectoryEntry)}
    (hdirectory : PlainDirectory child directory) (hfile : AllRows (Known child) (loadCache file)) :
    AllRows (Known child) (loadCache (scanVst3Dir child dir directory file).file) := by
  cases directory with
  | none => exact hfile
  | some entries => exact known_reloaded (known_foldl (hdirectory entries rfl) hfile)

theorem known_cacheFile {scans : List (Text × Option (List DirectoryEntry))}
    (hscans : ∀ scan ∈ scans, PlainDirectory child scan.2) :
    AllRows (Known child) (loadCache (cacheFile child scans)) := by
  induction scans using List.reverseRecOn with
  | nil => exact allRows_empty
  | append_singleton scans scan ih =>
      rw [cacheFile, List.foldl_append, List.foldl_cons, List.foldl_nil]
      exact known_scanVst3Dir (hscans scan (by simp))
        (ih fun earlier hearlier => hscans earlier (by simp [hearlier]))

theorem result_scanVst3Dir {dir file : Text} {directory : Option (List DirectoryEntry)}
    (hfile : AllRows (Told child) (loadCache file)) :
    (scanVst3Dir child dir directory file).result = (directory.getD []).flatMap (found child) := by
  cases directory with
  | none => rfl
  | some entries => exact result_foldl hfile

/-- The cache comes back exactly when its rows can be written line by line. A scan
with the file of any scans before it, where the modules were such, reports what a
scan without a cache does. -/
theorem scanVst3Dir_cache_iff (cache : Cache) (child : Enumeration)
    (scans : List (Text × Option (List DirectoryEntry))) (dir : Text)
    (directory : Option (List DirectoryEntry)) :
    (loadCache (saveCache cache) = cache ↔ AllRows Savable cache) ∧
      ((∀ scan ∈ scans, PlainDirectory child scan.2) →
        (scanVst3Dir child dir directory (cacheFile child scans)).result =
          (scanVst3Dir child dir directory []).result) := by
  refine ⟨loadCache_saveCache_iff, ?_⟩
  intro hscans
  rw [result_scanVst3Dir (known_cacheFile hscans).told, result_scanVst3Dir allRows_empty]

end Transparent

section Example

def lead : DirectoryEntry := ⟨"VST3/lead.vst3".toList, "lead.vst3".toList, ⟨7, 9⟩⟩

/-- One audio class of a given name. -/
def named (name : String) : Enumeration := fun _ _ =>
  some [⟨"Audio Module Class".toList, "5F".toList, name.toList, "Acme".toList, "Instrument".toList⟩]

theorem plainDirectory_lead : PlainDirectory (named "Lead") (some [lead]) := by
  intro entries hentries entry hentry _
  obtain rfl := Option.some.inj hentries
  obtain rfl := List.mem_singleton.mp hentry
  refine ⟨by constructor <;> decide, ?_⟩
  intro classes hclasses c hc _
  obtain rfl := Option.some.inj hclasses
  obtain rfl := List.mem_singleton.mp hc
  constructor
  · decide
  all_goals constructor <;> decide

theorem scanVst3Dir_cache_lead :
    (scanVst3Dir (named "Lead") [] (some [lead])
        (cacheFile (named "Lead") [([], some [lead])])).result =
      (scanVst3Dir (named "Lead") [] (some [lead]) []).result :=
  (scanVst3Dir_cache_iff ∅ (named "Lead") [([], some [lead])] [] (some [lead])).2
    (by simp [plainDirectory_lead])

/-- A tab in the name of a class moves the fields behind it. -/
theorem not_scanVst3Dir_cache_tabbed :
    (scanVst3Dir (named "Lead\tSynth") [] (some [lead])
        (cacheFile (named "Lead\tSynth") [([], some [lead])])).result ≠
      (scanVst3Dir (named "Lead\tSynth") [] (some [lead]) []).result := by
  decide +kernel

end Example

end DawProject.Host
