import DawProject.Lib.Run
import Mathlib.Data.List.Infix
import Mathlib.Logic.Function.Basic

/-!
Files that are replaced by a rename. A writer opens a temporary name, writes its
data there and renames it to the target; it may fail anywhere, and all writers
may be lost at once. While no two writers share a temporary name, a file under
any other name is one that was there at first or the whole of what one writer
was to write, and a file that has been opened does not change.
-/

namespace Replaced

variable {N W B : Type}

/-- Names of files, and what the files hold. -/
structure Files (N B : Type) where
  inode : N → Option ℕ := fun _ => none
  content : ℕ → List B := fun _ => []
  fresh : ℕ := 0

def Files.read (files : Files N B) (name : N) : Option (List B) :=
  (files.inode name).map files.content

structure Job (N B : Type) where
  target : N
  tmp : N
  data : List B

structure Writer (N B : Type) where
  job : Job N B
  inode : ℕ
  written : List B := []

/-- A file that is being read, with what it held when it was opened. -/
structure Reader (N B : Type) where
  name : N
  inode : ℕ
  held : List B

/-- The files and who is at them. -/
structure System (N W B : Type) where
  files : Files N B
  writers : W → Option (Writer N B) := fun _ => none
  readers : List (Reader N B) := []
  finished : List (Job N B) := []

variable [DecidableEq N] [DecidableEq W]

namespace Files

variable (files : Files N B)

/-- Open for writing: what the file held is lost. -/
def truncate (name : N) : Files N B :=
  match files.inode name with
  | some i => { files with content := Function.update files.content i [] }
  | none =>
      { inode := Function.update files.inode name (some files.fresh)
        content := Function.update files.content files.fresh []
        fresh := files.fresh + 1 }

/-- The file that `truncate` opens. -/
def opened (name : N) : ℕ := (files.inode name).getD files.fresh

def append (i : ℕ) (chunk : List B) : Files N B :=
  { files with content := Function.update files.content i (files.content i ++ chunk) }

def rename (a b : N) : Files N B :=
  { files with inode := Function.update (Function.update files.inode b (files.inode a)) a none }

def remove (name : N) : Files N B :=
  { files with inode := Function.update files.inode name none }

end Files

variable (allowed : Job N B → Prop)

inductive Step : System N W B → System N W B → Prop where
  | start {s : System N W B} (w : W) (job : Job N B) (hfree : s.writers w = none)
      (hallowed : allowed job) :
      Step s
        { s with
          files := s.files.truncate job.tmp
          writers := Function.update s.writers w (some ⟨job, s.files.opened job.tmp, []⟩) }
  | write {s : System N W B} {w : W} {u : Writer N B} (chunk : List B)
      (hwriter : s.writers w = some u) (hchunk : u.written ++ chunk <+: u.job.data) :
      Step s
        { s with
          files := s.files.append u.inode chunk
          writers := Function.update s.writers w (some { u with written := u.written ++ chunk }) }
  | rename {s : System N W B} {w : W} {u : Writer N B} (hwriter : s.writers w = some u)
      (hwhole : u.written = u.job.data) (hthere : s.files.inode u.job.tmp ≠ none) :
      Step s
        { s with
          files := s.files.rename u.job.tmp u.job.target
          writers := Function.update s.writers w none
          finished := s.finished ++ [u.job] }
  /-- A writer gives up, and perhaps clears the temporary name. -/
  | fail {s : System N W B} {w : W} {u : Writer N B} (hwriter : s.writers w = some u) :
      Step s { s with writers := Function.update s.writers w none }
  | clear {s : System N W B} {w : W} {u : Writer N B} (hwriter : s.writers w = some u) :
      Step s
        { s with
          files := s.files.remove u.job.tmp
          writers := Function.update s.writers w none }
  | open_ {s : System N W B} {name : N} {i : ℕ} (hname : s.files.inode name = some i) :
      Step s { s with readers := s.readers ++ [⟨name, i, s.files.content i⟩] }
  | crash {s : System N W B} : Step s { s with writers := fun _ => none, readers := [] }

/-- A step that starts no writer on a temporary name that is in use, and opens no
temporary name. -/
structure SoloStep (isTmp : N → Prop) (s next : System N W B) : Prop where
  step : Step allowed s next
  solo : ∀ w v u u', next.writers w = some u → next.writers v = some u' →
    u.job.tmp = u'.job.tmp → w = v
  readers : ∀ r ∈ next.readers, ¬ isTmp r.name

/-- Every name has a file of its own. -/
structure Files.Linked (files : Files N B) : Prop where
  lt_fresh : ∀ n i, files.inode n = some i → i < files.fresh
  unique : ∀ m n i, files.inode m = some i → files.inode n = some i → m = n

/-- Something that was there at first, or the whole data of a writer that finished. -/
def Whole (first : Files N B) (finished : List (Job N B)) (name : N) (held : List B) : Prop :=
  first.read name = some held ∨ ∃ job ∈ finished, job.target = name ∧ job.data = held

/-- What a name that is not temporary holds is whole, and stays as it is for whoever
has opened it. -/
structure Kept (isTmp : N → Prop) (first : Files N B) (s : System N W B) : Prop where
  lawful : ∀ job ∈ s.finished, allowed job
  whole : ∀ n held, ¬ isTmp n → s.files.read n = some held → Whole first s.finished n held
  stays : ∀ n, ¬ isTmp n → (first.inode n ≠ none ∨ ∃ job ∈ s.finished, job.target = n) →
    s.files.inode n ≠ none
  others : ∀ n, ¬ isTmp n → (∀ job, allowed job → job.target ≠ n) →
    s.files.inode n = first.inode n
  readers : ∀ r ∈ s.readers, s.files.content r.inode = r.held ∧
    Whole first s.finished r.name r.held

section Invariant

variable (isTmp : N → Prop) (first : Files N B)

structure Inv (s : System N W B) : Prop where
  linked : s.files.Linked
  solo : ∀ w v u u', s.writers w = some u → s.writers v = some u' → u.job.tmp = u'.job.tmp → w = v
  writers : ∀ w u, s.writers w = some u → allowed u.job ∧
    s.files.inode u.job.tmp = some u.inode ∧ s.files.content u.inode = u.written
  apart : ∀ r ∈ s.readers, r.inode < s.files.fresh ∧
    ∀ n, s.files.inode n = some r.inode → ¬ isTmp n
  kept : Kept allowed isTmp first s

end Invariant

section Files

variable {files : Files N B} {name : N}

theorem truncate_inode : (files.truncate name).inode =
    Function.update files.inode name (some (files.opened name)) := by
  unfold Files.truncate Files.opened
  cases hname : files.inode name with
  | none => rfl
  | some i => exact (Function.update_eq_self_iff.mpr hname.symm).symm

theorem truncate_content : (files.truncate name).content =
    Function.update files.content (files.opened name) [] := by
  unfold Files.truncate Files.opened
  cases files.inode name <;> rfl

theorem fresh_le_truncate : files.fresh ≤ (files.truncate name).fresh := by
  unfold Files.truncate
  cases files.inode name with
  | none => exact Nat.le_succ _
  | some i => exact Nat.le_refl _

theorem opened_lt (hlinked : files.Linked) : files.opened name < (files.truncate name).fresh := by
  unfold Files.truncate Files.opened
  cases hname : files.inode name with
  | none => exact Nat.lt_succ_self _
  | some i => exact hlinked.lt_fresh name i hname

omit [DecidableEq N] in
/-- Only `name` has the file that is opened for it. -/
theorem eq_of_opened (hlinked : files.Linked) {m : N}
    (hm : files.inode m = some (files.opened name)) : m = name := by
  cases hname : files.inode name with
  | none =>
      have hlt := hlinked.lt_fresh m _ hm
      unfold Files.opened at hlt
      rw [hname] at hlt
      exact absurd hlt (Nat.lt_irrefl _)
  | some i =>
      unfold Files.opened at hm
      rw [hname] at hm
      exact hlinked.unique m name i hm hname

theorem Files.Linked.truncate (hlinked : files.Linked) : (files.truncate name).Linked where
  lt_fresh := by
    intro n i hn
    rw [truncate_inode] at hn
    by_cases hname : n = name
    · rw [hname, Function.update_self] at hn
      rw [← Option.some.inj hn]
      exact opened_lt hlinked
    · rw [Function.update_of_ne hname] at hn
      exact (hlinked.lt_fresh n i hn).trans_le fresh_le_truncate
  unique := by
    intro m n i hm hn
    rw [truncate_inode] at hm hn
    by_cases hmname : m = name
    · by_cases hnname : n = name
      · rw [hmname, hnname]
      · rw [hmname, Function.update_self] at hm
        rw [Function.update_of_ne hnname, ← hm] at hn
        exact absurd (eq_of_opened hlinked hn) hnname
    · rw [Function.update_of_ne hmname] at hm
      by_cases hnname : n = name
      · rw [hnname, Function.update_self] at hn
        rw [← hn] at hm
        exact absurd (eq_of_opened hlinked hm) hmname
      · rw [Function.update_of_ne hnname] at hn
        exact hlinked.unique m n i hm hn

theorem remove_inode {n : N} {i : ℕ} (hn : (files.remove name).inode n = some i) :
    n ≠ name ∧ files.inode n = some i := by
  unfold Files.remove at hn
  dsimp only at hn
  by_cases hname : n = name
  · rw [hname, Function.update_self] at hn
    cases hn
  · rw [Function.update_of_ne hname] at hn
    exact ⟨hname, hn⟩

theorem Files.Linked.remove (hlinked : files.Linked) : (files.remove name).Linked where
  lt_fresh := fun n i hn => hlinked.lt_fresh n i (remove_inode hn).2
  unique := fun m n i hm hn => hlinked.unique m n i (remove_inode hm).2 (remove_inode hn).2

/-- A name after a rename has the file it had, or the one that was renamed. -/
theorem rename_inode {a b n : N} {i : ℕ} (hn : (files.rename a b).inode n = some i) :
    n ≠ a ∧ (files.inode n = some i ∧ n ≠ b ∨ files.inode a = some i ∧ n = b) := by
  unfold Files.rename at hn
  dsimp only at hn
  by_cases ha : n = a
  · rw [ha, Function.update_self] at hn
    cases hn
  · rw [Function.update_of_ne ha] at hn
    refine ⟨ha, ?_⟩
    by_cases hb : n = b
    · rw [hb, Function.update_self] at hn
      exact .inr ⟨hn, hb⟩
    · rw [Function.update_of_ne hb] at hn
      exact .inl ⟨hn, hb⟩

theorem Files.Linked.rename (hlinked : files.Linked) {a b : N} : (files.rename a b).Linked where
  lt_fresh := by
    intro n i hn
    rcases (rename_inode hn).2 with ⟨hold, -⟩ | ⟨hold, -⟩
    · exact hlinked.lt_fresh n i hold
    · exact hlinked.lt_fresh a i hold
  unique := by
    intro m n i hm hn
    obtain ⟨hma, hm⟩ := rename_inode hm
    obtain ⟨hna, hn⟩ := rename_inode hn
    rcases hm with ⟨hm, -⟩ | ⟨hm, hmb⟩
    · rcases hn with ⟨hn, -⟩ | ⟨hn, -⟩
      · exact hlinked.unique m n i hm hn
      · exact absurd (hlinked.unique m a i hm hn) hma
    · rcases hn with ⟨hn, -⟩ | ⟨-, hnb⟩
      · exact absurd (hlinked.unique n a i hn hm) hna
      · rw [hmb, hnb]

end Files

section Preserved

variable {allowed} {isTmp : N → Prop} {first : Files N B} {s : System N W B} {w : W}
  {u : Writer N B}

omit [DecidableEq N] [DecidableEq W] in
theorem Whole.grow {finished more : List (Job N B)} {name : N} {held : List B}
    (h : Whole first finished name held) : Whole first (finished ++ more) name held := by
  refine h.imp_right ?_
  rintro ⟨job, hjob, heq⟩
  exact ⟨job, List.mem_append_left _ hjob, heq⟩

omit [DecidableEq N] in
theorem update_writer {v : W} {x : Option (Writer N B)} {u : Writer N B}
    {writers : W → Option (Writer N B)} (h : Function.update writers w x v = some u) :
    v = w ∧ x = some u ∨ v ≠ w ∧ writers v = some u := by
  by_cases hv : v = w
  · rw [hv, Function.update_self] at h
    exact .inl ⟨hv, h⟩
  · rw [Function.update_of_ne hv] at h
    exact .inr ⟨hv, h⟩

theorem Inv.start (h : Inv allowed isTmp first s) {job : Job N B} (hallowed : allowed job)
    (htmp : isTmp job.tmp)
    (hsolo : ∀ v u, v ≠ w → s.writers v = some u → u.job.tmp ≠ job.tmp) :
    Inv allowed isTmp first
      { s with
        files := s.files.truncate job.tmp
        writers := Function.update s.writers w (some ⟨job, s.files.opened job.tmp, []⟩) } := by
  have hfile : ∀ n i, ¬ isTmp n → (s.files.truncate job.tmp).inode n = some i →
      s.files.inode n = some i ∧ i ≠ s.files.opened job.tmp := by
    intro n i hn hi
    have hne : n ≠ job.tmp := by
      rintro rfl
      exact hn htmp
    rw [truncate_inode, Function.update_of_ne hne] at hi
    refine ⟨hi, ?_⟩
    rintro rfl
    exact hne (eq_of_opened h.linked hi)
  have hsame : ∀ n, ¬ isTmp n → (s.files.truncate job.tmp).inode n = s.files.inode n := by
    intro n hn
    rw [truncate_inode, Function.update_of_ne]
    rintro rfl
    exact hn htmp
  refine ⟨h.linked.truncate, ?_, ?_, ?_, h.kept.lawful, ?_, fun n hn hthere => ?_,
    fun n hn hother => (hsame n hn).trans (h.kept.others n hn hother), ?_⟩
  · intro v v' x x' hx hx' hsame
    rcases update_writer hx with ⟨rfl, hnew⟩ | ⟨hne, hold⟩
    · rcases update_writer hx' with ⟨rfl, -⟩ | ⟨hne', hold'⟩
      · rfl
      · obtain rfl := Option.some.inj hnew
        exact absurd hsame.symm (hsolo v' x' hne' hold')
    · rcases update_writer hx' with ⟨rfl, hnew'⟩ | ⟨-, hold'⟩
      · obtain rfl := Option.some.inj hnew'
        exact absurd hsame (hsolo v x hne hold)
      · exact h.solo v v' x x' hold hold' hsame
  · intro v x hx
    dsimp only
    rw [truncate_inode, truncate_content]
    rcases update_writer hx with ⟨rfl, hnew⟩ | ⟨hne, hold⟩
    · obtain rfl := Option.some.inj hnew
      exact ⟨hallowed, Function.update_self _ _ _, Function.update_self _ _ _⟩
    · obtain ⟨hjob, hinode, hcontent⟩ := h.writers v x hold
      have htmps := hsolo v x hne hold
      refine ⟨hjob, (Function.update_of_ne htmps _ _).trans hinode, ?_⟩
      rw [Function.update_of_ne, hcontent]
      intro hsame
      rw [hsame] at hinode
      exact htmps (eq_of_opened h.linked hinode)
  · intro r hr
    obtain ⟨hlt, hapart⟩ := h.apart r hr
    refine ⟨hlt.trans_le fresh_le_truncate, ?_⟩
    intro n hn
    dsimp only at hn
    rw [truncate_inode] at hn
    by_cases hne : n = job.tmp
    · rw [hne, Function.update_self] at hn
      have hopened := Option.some.inj hn
      unfold Files.opened at hopened
      cases hinode : s.files.inode job.tmp with
      | none =>
          rw [hinode] at hopened
          exact absurd hopened.symm hlt.ne
      | some i =>
          rw [hinode] at hopened
          rw [← hopened] at hapart
          exact absurd htmp (hapart job.tmp hinode)
    · rw [Function.update_of_ne hne] at hn
      exact hapart n hn
  · intro n held hn hread
    obtain ⟨i, hi, hheld⟩ := Option.map_eq_some_iff.mp hread
    obtain ⟨hold, hne⟩ := hfile n i hn hi
    rw [truncate_content, Function.update_of_ne hne] at hheld
    refine h.kept.whole n held hn ?_
    rw [Files.read, hold, Option.map_some, hheld]
  · rw [hsame n hn]
    exact h.kept.stays n hn hthere
  · intro r hr
    obtain ⟨hheld, hwhole⟩ := h.kept.readers r hr
    obtain ⟨hlt, hapart⟩ := h.apart r hr
    refine ⟨?_, hwhole⟩
    show (s.files.truncate job.tmp).content r.inode = r.held
    rw [truncate_content, Function.update_of_ne, hheld]
    intro hsame
    cases hinode : s.files.inode job.tmp with
    | none =>
        unfold Files.opened at hsame
        rw [hinode] at hsame
        exact absurd hsame hlt.ne
    | some i =>
        unfold Files.opened at hsame
        rw [hinode] at hsame
        rw [show r.inode = i from hsame] at hapart
        exact absurd htmp (hapart job.tmp hinode)

omit [DecidableEq N] [DecidableEq W] in
/-- The files are only read, or names are taken from them. -/
theorem Inv.shrink (h : Inv allowed isTmp first s) {inode : N → Option ℕ}
    {writers : W → Option (Writer N B)}
    (hinode : ∀ n i, inode n = some i → s.files.inode n = some i)
    (hsame : ∀ n, ¬ isTmp n → inode n = s.files.inode n)
    (hwriters : ∀ v x, writers v = some x → s.writers v = some x ∧
      inode x.job.tmp = s.files.inode x.job.tmp) :
    Inv allowed isTmp first
      { s with files := { s.files with inode := inode }, writers := writers } where
  linked := ⟨fun n i hn => h.linked.lt_fresh n i (hinode n i hn),
    fun m n i hm hn => h.linked.unique m n i (hinode m i hm) (hinode n i hn)⟩
  solo := fun v v' x x' hx hx' =>
    h.solo v v' x x' (hwriters v x hx).1 (hwriters v' x' hx').1
  writers := by
    intro v x hx
    obtain ⟨hold, hsame⟩ := hwriters v x hx
    obtain ⟨hjob, htmp, hcontent⟩ := h.writers v x hold
    exact ⟨hjob, hsame.trans htmp, hcontent⟩
  apart := fun r hr => ⟨(h.apart r hr).1, fun n hn => (h.apart r hr).2 n (hinode n _ hn)⟩
  kept := by
    refine ⟨h.kept.lawful, ?_, fun n hn hthere => ?_,
      fun n hn hother => (hsame n hn).trans (h.kept.others n hn hother), h.kept.readers⟩
    · intro n held hn hread
      obtain ⟨i, hi, hheld⟩ := Option.map_eq_some_iff.mp hread
      refine h.kept.whole n held hn ?_
      rw [Files.read, hinode n i hi, Option.map_some, hheld]
    · show inode n ≠ none
      rw [hsame n hn]
      exact h.kept.stays n hn hthere

omit [DecidableEq N] in
theorem Inv.write (h : Inv allowed isTmp first s) (htmp : ∀ job, allowed job → isTmp job.tmp)
    (hwriter : s.writers w = some u) (chunk : List B) :
    Inv allowed isTmp first
      { s with
        files := s.files.append u.inode chunk
        writers := Function.update s.writers w
          (some { u with written := u.written ++ chunk }) } := by
  obtain ⟨hjob, hinode, hcontent⟩ := h.writers w u hwriter
  have hother : ∀ n i, n ≠ u.job.tmp → s.files.inode n = some i → i ≠ u.inode := by
    rintro n i hne hi rfl
    exact hne (h.linked.unique n _ _ hi hinode)
  refine ⟨⟨h.linked.lt_fresh, h.linked.unique⟩, ?_, ?_, h.apart, h.kept.lawful, ?_,
    h.kept.stays, h.kept.others, ?_⟩
  · intro v v' x x' hx hx' hsame
    rcases update_writer hx with ⟨rfl, hnew⟩ | ⟨hne, hold⟩
    · obtain rfl := Option.some.inj hnew
      rcases update_writer hx' with ⟨rfl, -⟩ | ⟨-, hold'⟩
      · rfl
      · exact h.solo _ _ u x' hwriter hold' hsame
    · rcases update_writer hx' with ⟨rfl, hnew'⟩ | ⟨-, hold'⟩
      · obtain rfl := Option.some.inj hnew'
        exact h.solo _ _ x u hold hwriter hsame
      · exact h.solo v v' x x' hold hold' hsame
  · intro v x hx
    rcases update_writer hx with ⟨rfl, hnew⟩ | ⟨hne, hold⟩
    · obtain rfl := Option.some.inj hnew
      refine ⟨hjob, hinode, ?_⟩
      show Function.update s.files.content u.inode _ u.inode = _
      rw [Function.update_self, hcontent]
    · obtain ⟨hjob', hinode', hcontent'⟩ := h.writers v x hold
      refine ⟨hjob', hinode', ?_⟩
      have hapart : x.job.tmp ≠ u.job.tmp := fun hsame => hne (h.solo v w x u hold hwriter hsame)
      exact (Function.update_of_ne (hother _ _ hapart hinode') _ _).trans hcontent'
  · intro n held hn hread
    obtain ⟨i, hi, hheld⟩ := Option.map_eq_some_iff.mp hread
    have hne : n ≠ u.job.tmp := by
      rintro rfl
      exact hn (htmp _ hjob)
    have hsame := (Function.update_of_ne (hother n i hne hi) _ _).symm.trans hheld
    refine h.kept.whole n held hn ?_
    rw [Files.read, show s.files.inode n = some i from hi, Option.map_some, hsame]
  · intro r hr
    obtain ⟨hheld, hwhole⟩ := h.kept.readers r hr
    refine ⟨?_, hwhole⟩
    have hne : r.inode ≠ u.inode := by
      intro hsame
      refine (h.apart r hr).2 u.job.tmp ?_ (htmp _ hjob)
      rw [hsame]
      exact hinode
    exact (Function.update_of_ne hne _ _).trans hheld

/-- The temporary name takes the place of the target. -/
theorem Inv.rename (h : Inv allowed isTmp first s)
    (hnames : ∀ job, allowed job → isTmp job.tmp ∧ ¬ isTmp job.target)
    (hwriter : s.writers w = some u) (hwhole : u.written = u.job.data) :
    Inv allowed isTmp first
      { s with
        files := s.files.rename u.job.tmp u.job.target
        writers := Function.update s.writers w none
        finished := s.finished ++ [u.job] } := by
  obtain ⟨hjob, hinode, hcontent⟩ := h.writers w u hwriter
  obtain ⟨htmp, htarget⟩ := hnames u.job hjob
  have hleft : ∀ v x, Function.update s.writers w none v = some x →
      v ≠ w ∧ s.writers v = some x := by
    intro v x hx
    rcases update_writer hx with ⟨-, hnone⟩ | hold
    · cases hnone
    · exact hold
  refine ⟨h.linked.rename, ?_, ?_, ?_, ?_, ?_, ?_, ?_, ?_⟩
  · intro v v' x x' hx hx'
    exact h.solo v v' x x' (hleft v x hx).2 (hleft v' x' hx').2
  · intro v x hx
    obtain ⟨hne, hold⟩ := hleft v x hx
    obtain ⟨hjob', hinode', hcontent'⟩ := h.writers v x hold
    have hapart : x.job.tmp ≠ u.job.tmp := fun hsame => hne (h.solo v w x u hold hwriter hsame)
    have hplace : x.job.tmp ≠ u.job.target := by
      intro hsame
      rw [← hsame] at htarget
      exact htarget (hnames _ hjob').1
    refine ⟨hjob', ?_, hcontent'⟩
    exact (Function.update_of_ne hapart _ _).trans
      ((Function.update_of_ne hplace _ _).trans hinode')
  · intro r hr
    obtain ⟨hlt, hapart⟩ := h.apart r hr
    refine ⟨hlt, ?_⟩
    intro n hn
    rcases (rename_inode hn).2 with ⟨hold, -⟩ | ⟨-, rfl⟩
    · exact hapart n hold
    · exact htarget
  · intro job hmem
    rcases List.mem_append.mp hmem with hold | hnew
    · exact h.kept.lawful job hold
    · rw [List.mem_singleton.mp hnew]
      exact hjob
  · intro n held hn hread
    obtain ⟨i, hi, hheld⟩ := Option.map_eq_some_iff.mp hread
    rcases (rename_inode hi).2 with ⟨hold, -⟩ | ⟨hmoved, rfl⟩
    · refine (h.kept.whole n held hn ?_).grow
      rw [Files.read, hold, Option.map_some]
      exact congrArg some hheld
    · obtain rfl := Option.some.inj (hinode.symm.trans hmoved)
      refine .inr ⟨u.job, List.mem_append_right _ List.mem_cons_self, rfl, ?_⟩
      rw [← hheld, ← hwhole]
      exact hcontent.symm
  · intro n hn hthere
    have hne : n ≠ u.job.tmp := by
      rintro rfl
      exact hn htmp
    by_cases hplace : n = u.job.target
    · rw [hplace, show (s.files.rename u.job.tmp u.job.target).inode u.job.target =
        s.files.inode u.job.tmp from (Function.update_of_ne (hplace ▸ hne) _ _).trans
          (Function.update_self _ _ _), hinode]
      exact Option.some_ne_none _
    · rw [show (s.files.rename u.job.tmp u.job.target).inode n = s.files.inode n from
        (Function.update_of_ne hne _ _).trans (Function.update_of_ne hplace _ _)]
      refine h.kept.stays n hn (hthere.imp_right ?_)
      rintro ⟨job, hmem, rfl⟩
      rcases List.mem_append.mp hmem with hold | hnew
      · exact ⟨job, hold, rfl⟩
      · rw [List.mem_singleton.mp hnew] at hplace
        exact absurd rfl hplace
  · intro n hn hother
    have hne : n ≠ u.job.tmp := by
      rintro rfl
      exact hn htmp
    exact (Function.update_of_ne hne _ _).trans
      ((Function.update_of_ne (hother u.job hjob).symm _ _).trans (h.kept.others n hn hother))
  · intro r hr
    exact ⟨(h.kept.readers r hr).1, (h.kept.readers r hr).2.grow⟩

omit [DecidableEq N] [DecidableEq W] in
theorem Inv.open_ (h : Inv allowed isTmp first s) {name : N} {i : ℕ} (hname : ¬ isTmp name)
    (hi : s.files.inode name = some i) :
    Inv allowed isTmp first
      { s with readers := s.readers ++ [⟨name, i, s.files.content i⟩] } where
  linked := h.linked
  solo := h.solo
  writers := h.writers
  apart := by
    intro r hr
    rcases List.mem_append.mp hr with hold | hnew
    · exact h.apart r hold
    · rw [List.mem_singleton.mp hnew]
      refine ⟨h.linked.lt_fresh name i hi, ?_⟩
      intro n hn
      rw [h.linked.unique n name i hn hi]
      exact hname
  kept := by
    refine ⟨h.kept.lawful, h.kept.whole, h.kept.stays, h.kept.others, ?_⟩
    intro r hr
    rcases List.mem_append.mp hr with hold | hnew
    · exact h.kept.readers r hold
    · rw [List.mem_singleton.mp hnew]
      refine ⟨rfl, h.kept.whole name _ hname ?_⟩
      rw [Files.read, hi, Option.map_some]

theorem Inv.step {next : System N W B} (h : Inv allowed isTmp first s)
    (hnames : ∀ job, allowed job → isTmp job.tmp ∧ ¬ isTmp job.target)
    (hstep : SoloStep allowed isTmp s next) : Inv allowed isTmp first next := by
  obtain ⟨hstep, hsolo, hreaders⟩ := hstep
  have hdone : ∀ {w : W} {v : W} {x : Writer N B},
      Function.update s.writers w none v = some x → s.writers v = some x := by
    intro w v x hx
    rcases update_writer hx with ⟨-, hnone⟩ | ⟨-, hold⟩
    · cases hnone
    · exact hold
  cases hstep with
  | start w job hfree hallowed =>
      refine h.start hallowed (hnames job hallowed).1 ?_
      intro v u hne hu hsame
      refine hne (hsolo v w u _ ?_ (Function.update_self _ _ _) hsame)
      exact (Function.update_of_ne hne _ _).trans hu
  | write chunk hwriter hchunk => exact h.write (fun job hjob => (hnames job hjob).1) hwriter chunk
  | rename hwriter hwhole hthere => exact h.rename hnames hwriter hwhole
  | fail hwriter =>
      exact h.shrink (fun _ _ hn => hn) (fun _ _ => rfl) fun v x hx => ⟨hdone hx, rfl⟩
  | @clear w u hwriter =>
      refine h.shrink (fun n i hn => (remove_inode hn).2) (fun n hn => ?_) ?_
      · refine Function.update_of_ne ?_ _ _
        rintro rfl
        exact hn (hnames _ (h.writers w u hwriter).1).1
      intro v x hx
      rcases update_writer hx with ⟨-, hnone⟩ | ⟨hne, hold⟩
      · cases hnone
      · refine ⟨hold, Function.update_of_ne ?_ _ _⟩
        exact fun hsame => hne (h.solo v w x u hold hwriter hsame)
  | @open_ name i hname =>
      exact h.open_ (hreaders ⟨name, i, _⟩ (List.mem_append_right _ List.mem_cons_self)) hname
  | crash =>
      exact ⟨h.linked, fun _ _ _ _ hx => absurd hx.symm (Option.some_ne_none _),
        fun _ _ hx => absurd hx.symm (Option.some_ne_none _),
        fun _ hr => absurd hr List.not_mem_nil, h.kept.lawful, h.kept.whole, h.kept.stays,
        h.kept.others, fun _ hr => absurd hr List.not_mem_nil⟩

end Preserved

/-- In every run in which no two writers share a temporary name. -/
theorem files_of_run {isTmp : N → Prop} {first : Files N B} {s : System N W B}
    (hnames : ∀ job, allowed job → isTmp job.tmp ∧ ¬ isTmp job.target) (hlinked : first.Linked)
    (hrun : Run.Reaches (SoloStep allowed isTmp) { files := first } s) :
    Kept allowed isTmp first s := by
  have hinv : Inv allowed isTmp first s := hrun.invariant ?_ fun _ _ hstep h => h.step hnames hstep
  · exact hinv.kept
  · refine ⟨hlinked, fun _ _ _ _ hx => absurd hx.symm (Option.some_ne_none _),
      fun _ _ hx => absurd hx.symm (Option.some_ne_none _),
      fun _ hr => absurd hr List.not_mem_nil, fun _ hj => absurd hj List.not_mem_nil,
      fun _ _ _ hread => .inl hread, ?_, fun _ _ _ => rfl,
      fun _ hr => absurd hr List.not_mem_nil⟩
    rintro n - (hfirst | ⟨job, hjob, -⟩)
    · exact hfirst
    · exact absurd hjob List.not_mem_nil

/-- Two writers with one temporary name: the second empties the file that the first
then publishes. -/
theorem empty_of_overlap (files : Files N B) {job : Job N B} (hallowed : allowed job)
    (hne : job.target ≠ job.tmp) {v w : W} (hvw : v ≠ w) :
    ∃ s : System N W B, Run.Reaches (Step allowed) { files := files } s ∧
      s.files.read job.target = some [] := by
  have hfirst : Run.Reaches (Step allowed) ({ files := files } : System N W B) _ :=
    Relation.ReflTransGen.single (.start v job rfl hallowed)
  have hwritten := hfirst.tail
    (.write job.data (Function.update_self v _ _) (List.prefix_refl _))
  have hsecond := hwritten.tail
    (.start w job ((Function.update_of_ne hvw.symm _ _).trans
      (Function.update_of_ne hvw.symm _ _)) hallowed)
  have hrenamed := hsecond.tail
    (.rename ((Function.update_of_ne hvw _ _).trans (Function.update_self v _ _)) rfl (by
      dsimp only
      rw [truncate_inode, Function.update_self]
      exact Option.some_ne_none _))
  refine ⟨_, hrenamed, ?_⟩
  dsimp only [Files.read, Files.rename]
  rw [Function.update_of_ne hne, Function.update_self, truncate_inode, Function.update_self,
    Option.map_some, truncate_content, Function.update_self]

end Replaced
