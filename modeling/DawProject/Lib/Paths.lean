import Mathlib.Data.List.Basic

/-!
Paths by their text, as `std::filesystem` takes them apart on POSIX and on
Windows. Links, streams and devices of the file system are outside of this.
-/

namespace Paths

inductive Platform where
  | posix
  | windows
deriving DecidableEq, Repr

structure Path where
  root_name : List Char := []
  root_directory : Bool := false
  filenames : List (List Char) := []
deriving DecidableEq, Repr

def isSeparator : Platform → Char → Bool
  | .posix, c => c == '/'
  | .windows, c => c == '/' || c == '\\'

/-- A drive letter with its colon, or the name of a server. -/
def rootName : Platform → List Char → List Char
  | .posix, _ => []
  | .windows, a :: b :: rest =>
      if a.isAlpha && b == ':' then [a, b]
      else if isSeparator .windows a && isSeparator .windows b &&
          rest.head?.any (fun c => !isSeparator .windows c) then
        a :: b :: rest.takeWhile fun c => !isSeparator .windows c
      else []
  | .windows, _ => []

/-- The names between the separators. -/
def split (platform : Platform) (text : List Char) : List (List Char) :=
  (text.splitOnP (isSeparator platform)).filter fun name => !name.isEmpty

def Path.ofChars (platform : Platform) (text : List Char) : Path :=
  let rest := text.drop (rootName platform text).length
  { root_name := rootName platform text
    root_directory := rest.head?.any (isSeparator platform)
    filenames := split platform rest }

def Path.isAbsolute (platform : Platform) (p : Path) : Bool :=
  match platform with
  | .posix => p.root_directory
  | .windows => !p.root_name.isEmpty && p.root_directory

/-- The operator `/` of paths. -/
def Path.join (platform : Platform) (dir p : Path) : Path :=
  if p.isAbsolute platform || (!p.root_name.isEmpty && p.root_name != dir.root_name) then p
  else if p.root_directory then
    { dir with root_directory := true, filenames := p.filenames }
  else { dir with filenames := dir.filenames ++ p.filenames }

/-- One more name, where `.` stays and `..` goes up. -/
def enter (rooted : Bool) (names : List (List Char)) (name : List Char) : List (List Char) :=
  if name = ['.'] then names
  else if name = ['.', '.'] then
    match names.getLast? with
    | none => if rooted then [] else [name]
    | some last => if last = ['.', '.'] then names ++ [name] else names.dropLast
  else names ++ [name]

/-- The path without the names that go nowhere. -/
def Path.location (p : Path) : Path :=
  { p with filenames := p.filenames.foldl (enter p.root_directory) [] }

/-- The path denotes an entry of the directory. -/
def Path.IsChildOf (p dir : Path) : Prop :=
  ∃ name, name ≠ ['.', '.'] ∧
    p.location = { dir.location with filenames := dir.location.filenames ++ [name] }

section Names

variable {platform : Platform} {name rest : List Char} {dir : Path}

theorem split_of_name (hname : ∀ c ∈ name, isSeparator platform c = false) :
    split platform name = if name = [] then [] else [name] := by
  rw [split, List.splitOnP_eq_singleton hname]
  cases name <;> rfl

theorem location_of_filenames (names : List (List Char)) :
    ({ dir with filenames := dir.filenames ++ names } : Path).location =
      { dir.location with
        filenames := names.foldl (enter dir.root_directory) dir.location.filenames } := by
  simp only [Path.location, List.foldl_append]

/-- A name without separators after a directory: the root name that it begins
with, if any, and the rest of it. -/
theorem join_ofChars (hname : ∀ c ∈ name, isSeparator platform c = false)
    (hrest : name.drop (rootName platform name).length = rest) :
    dir.join platform (.ofChars platform name) =
      if rootName platform name ≠ [] ∧ rootName platform name ≠ dir.root_name then
        .ofChars platform name
      else { dir with filenames := dir.filenames ++ if rest = [] then [] else [rest] } := by
  have hrest_name : ∀ c ∈ rest, isSeparator platform c = false := by
    intro c hc
    rw [← hrest] at hc
    exact hname c (List.mem_of_mem_drop hc)
  have hrelative : rest.head?.any (isSeparator platform) = false := by
    cases rest with
    | nil => rfl
    | cons c rest => exact hrest_name c List.mem_cons_self
  have hpath : Path.ofChars platform name =
      { root_name := rootName platform name
        root_directory := false
        filenames := if rest = [] then [] else [rest] } := by
    rw [Path.ofChars, hrest, hrelative, split_of_name hrest_name]
  have habsolute : (Path.ofChars platform name).isAbsolute platform = false := by
    rw [hpath]
    cases platform <;> simp [Path.isAbsolute]
  rw [Path.join, habsolute, hpath]
  simp

/-- A name without separators denotes an entry of the directory when it has no
root name of its own and is more than a dot. -/
theorem isChildOf_join_iff (hname : ∀ c ∈ name, isSeparator platform c = false)
    (hrest : name.drop (rootName platform name).length = rest) (hdots : rest ≠ ['.', '.']) :
    (dir.join platform (.ofChars platform name)).IsChildOf dir ↔
      (rootName platform name = [] ∨ rootName platform name = dir.root_name) ∧
        rest ≠ [] ∧ rest ≠ ['.'] := by
  rw [join_ofChars hname hrest]
  split
  · rename_i hroot
    constructor
    · rintro ⟨child, -, hchild⟩
      exact absurd (congrArg Path.root_name hchild) hroot.2
    · rintro ⟨hsame | hsame, -⟩
      · exact absurd hsame hroot.1
      · exact absurd hsame hroot.2
  · rename_i hroot
    have hroot : rootName platform name = [] ∨ rootName platform name = dir.root_name := by
      by_contra hforeign
      exact hroot (not_or.mp hforeign)
    rw [Path.IsChildOf, location_of_filenames]
    have hstays : ∀ child : List Char,
        dir.location.filenames ≠ dir.location.filenames ++ [child] := by
      intro child hsame
      simpa using congrArg List.length hsame
    constructor
    · rintro ⟨child, -, hchild⟩
      have hnames := congrArg Path.filenames hchild
      dsimp only at hnames
      refine ⟨hroot, ?_, ?_⟩
      · rintro rfl
        exact hstays child hnames
      · rintro rfl
        exact hstays child hnames
    · rintro ⟨-, hne, hdot⟩
      refine ⟨rest, hdots, ?_⟩
      rw [if_neg hne, List.foldl_cons, List.foldl_nil, enter, if_neg hdot, if_neg hdots]

end Names

end Paths
