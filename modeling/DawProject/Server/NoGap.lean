import DawProject.Server.Session

/-!
No gap between the initial document of a session and its channel. Every change
on the disk is in the document a session received, on its channel, or still
with a task that will broadcast it, in every run where no receive task is
aborted after it has started to write; and a change is on the disk before it is
on the channel in every run.
-/

namespace DawProject.Server

open Document.Exchange (Doc apply_change)

section Store

variable {H : Type} [DecidableEq H] {deps : H → List H}

theorem mem_known_receive (doc : Doc H) (change x : H) :
    x ∈ known (doc.receive deps change) ↔ x ∈ known doc ∨ x = change := by
  unfold Document.Exchange.Doc.receive
  split
  · rename_i hin
    constructor
    · exact Or.inl
    · rintro (hx | rfl)
      · exact hx
      · exact List.mem_append_left _ hin
  · split <;> simp only [known, List.mem_append, List.mem_singleton] <;> tauto

theorem mem_known_drain (fuel : Nat) (doc : Doc H) (x : H) :
    x ∈ known (doc.drain deps fuel) ↔ x ∈ known doc := by
  induction fuel generalizing doc with
  | zero => rfl
  | succ fuel ih =>
      rw [Document.Exchange.Doc.drain]
      split
      · rfl
      · rename_i change hfound
        have hqueue : change ∈ doc.queue := List.mem_of_find?_eq_some hfound
        have hsplit : x ∈ doc.queue ↔ x = change ∨ x ∈ doc.queue.erase change := by
          constructor
          · intro hx
            by_cases hsame : x = change
            · exact Or.inl hsame
            · exact Or.inr ((List.mem_erase_of_ne hsame).mpr hx)
          · rintro (rfl | hx)
            · exact hqueue
            · exact List.mem_of_mem_erase hx
        dsimp only
        split
        · rename_i hin
          rw [ih]
          simp only [known, List.mem_append, hsplit]
          constructor
          · rintro (hx | hx)
            · exact Or.inl hx
            · exact Or.inr (Or.inr hx)
          · rintro (hx | rfl | hx)
            · exact Or.inl hx
            · exact Or.inl hin
            · exact Or.inr hx
        · rw [ih]
          simp only [known, List.mem_append, List.mem_singleton, hsplit, or_assoc]

theorem mem_known_applyChanges (doc : Doc H) (changes : List H) (x : H) :
    x ∈ known (doc.applyChanges deps changes) ↔ x ∈ known doc ∨ x ∈ changes := by
  unfold Document.Exchange.Doc.applyChanges
  dsimp only
  rw [mem_known_drain]
  induction changes generalizing doc with
  | nil => simp
  | cons change rest ih =>
      rw [List.foldl_cons, ih, mem_known_receive, List.mem_cons, or_assoc]

/-- An accepted change is added to what the file knows. -/
theorem mem_known_of_apply_change {seed : List H} {file : Option (Doc H)} {change : H}
    {doc : Doc H} (happly : apply_change deps seed file change = some doc) (x : H) :
    x ∈ known doc ↔ x ∈ known (file.getD { history := seed }) ∨ x = change := by
  unfold apply_change at happly
  dsimp only at happly
  split at happly
  · cases happly
  · cases happly
    rw [mem_known_applyChanges, List.mem_singleton]

end Store

section States

variable {H : Type} {s : AppState H} {i j : Nat} {phase : Phase H}

theorem sessions_enter (s : AppState H) (i j : Nat) (phase : Phase H) :
    (s.enter i phase).sessions j =
      { s.sessions j with phase := if j = i then phase else (s.sessions j).phase } := by
  unfold AppState.enter
  by_cases hj : j = i
  · subst hj
    simp only [if_true]
  · simp only [if_neg hj]

theorem phase_send (s : AppState H) (msg : Msg H) (j : Nat) :
    ((s.send msg).sessions j).phase = (s.sessions j).phase := by
  unfold AppState.send Session.push
  split
  · rfl
  · dsimp only
    split_ifs <;> rfl

/-- The session has the change: in its document, from its channel, or it was
told that its channel skipped messages. -/
def Session.Holds (session : Session H) (data : Doc H) (change : H) : Prop :=
  change ∈ known data ∨ Msg.change change ∈ session.received ∨
    Msg.change change ∈ session.inbox ∨ session.lagged = true

/-- Nothing is lost by a message, but for a session that is told. -/
theorem Session.Holds.push {session : Session H} {data : Doc H} {change : H}
    (hholds : session.Holds data change) (msg : Msg H) : (session.push msg).Holds data change := by
  unfold Session.push
  split
  · exact hholds
  · split
    · exact Or.inr (Or.inr (Or.inr rfl))
    · rcases hholds with hdata | hreceived | hinbox | hlagged
      · exact Or.inl hdata
      · exact Or.inr (Or.inl hreceived)
      · exact Or.inr (Or.inr (Or.inl (List.mem_append_left _ hinbox)))
      · exact Or.inr (Or.inr (Or.inr hlagged))

theorem Session.holds_push {session : Session H} {data : Doc H} {change : H}
    (hsubscribes : session.phase.subscribes = true) :
    (session.push (Msg.change change)).Holds data change := by
  unfold Session.push
  rw [if_neg (by simp [hsubscribes])]
  split
  · exact Or.inr (Or.inr (Or.inr rfl))
  · exact Or.inr (Or.inr (Or.inl (List.mem_append_right _ (List.mem_singleton_self _))))

theorem subscribes_of_data {data : Doc H} (hdata : phase.data = some data) :
    phase.subscribes = true := by
  cases phase <;> first | rfl | cases hdata

end States

section Invariant

variable {H : Type}

/-- What a document on its way to the disk knows. -/
def Grows (seed : List H) (file : Option (Doc H)) (change : H) (doc : Doc H) : Prop :=
  ∀ x, x ∈ known doc ↔ x ∈ known (file.getD { history := seed }) ∨ x = change

-- `R` relates the file to a document that is to replace it.
variable (seed : List H) (R : Option (Doc H) → H → Doc H → Prop)

/-- What the point a session is at says of the files. -/
def FileOk (s : AppState H) : Phase H → Prop
  | .seedWriting => s.file = none
  | .seedRenaming => s.file = none ∧ s.tmp = some { history := seed }
  | .live _ (.writing change doc) => R s.file change doc
  | .live _ (.moving change) => ∃ doc, s.tmp = some doc ∧ R s.file change doc
  | .live _ (.renamed change) | .live _ (.broadcasting change) => change ∈ s.persisted
  | _ => True

/-- The session id is in the list of the project. -/
def Phase.registered : Phase H → Bool
  | .absent => false
  | _ => true

theorem registered_of_holdsLock {p : Phase H} (hp : p.holdsLock = true) : p.registered = true := by
  cases p <;> first | rfl | cases hp

/-- Some task has the change on the disk and will broadcast it. -/
def AppState.Pending (s : AppState H) (change : H) : Prop :=
  ∃ k, (s.sessions k).phase.pending = some change

/-- The session `j` has every change on the disk, or will get it. -/
def Served (s : AppState H) (j : Nat) : Prop :=
  ∀ data, (s.sessions j).phase.data = some data →
    s.file ≠ none ∧ ∀ change ∈ s.persisted, (s.sessions j).Holds data change ∨ s.Pending change

structure Guarded (s : AppState H) : Prop where
  detached : s.detached = []
  members : ∀ j, (s.sessions j).phase.registered = true → j ∈ s.members
  lock : ∀ j, (s.sessions j).phase.holdsLock = true → s.store_lock = some j
  persisted : ∀ change, change ∈ s.persisted ↔ ∃ doc, s.file = some doc ∧ change ∈ known doc
  file : ∀ j, FileOk seed R s (s.sessions j).phase
  served : ∀ j, Served s j

variable {seed R} {s t : AppState H} {i : Nat} {phase : Phase H}

/-- A task without the lock says nothing of the temporary file. -/
theorem fileOk_of_unlocked {p : Phase H} (hp : p.holdsLock = false) (hok : FileOk seed R s p)
    (hpersisted : ∀ change ∈ s.persisted, change ∈ t.persisted) : FileOk seed R t p := by
  cases p with
  | live data recv =>
      cases recv with
      | broadcasting change => exact hpersisted change hok
      | idle => exact trivial
      | waiting change => exact trivial
      | reading change => cases hp
      | writing change doc => cases hp
      | moving change => cases hp
      | renamed change => cases hp
  | seedWriting => cases hp
  | seedRenaming => cases hp
  | absent => exact trivial
  | subscribed => exact trivial
  | loading => cases hp
  | loaded data => cases hp
  | sending data => exact trivial
  | ended => exact trivial
  | gone => exact trivial

/-- One session at most holds the lock. -/
theorem Guarded.unlocked_of_ne (hs : Guarded seed R s) {j : Nat}
    (hi : (s.sessions i).phase.holdsLock = true) (hji : j ≠ i) :
    (s.sessions j).phase.holdsLock = false := by
  cases hj : (s.sessions j).phase.holdsLock with
  | false => rfl
  | true =>
      have hboth := hs.lock j hj
      rw [hs.lock i hi] at hboth
      exact absurd (Option.some.inj hboth).symm hji

/-- One session moves from one point to another; it may write the temporary
file if it holds the lock, and drops no change it still has to broadcast. -/
theorem Guarded.move (hs : Guarded seed R s) (hsessions : t.sessions = (s.enter i phase).sessions)
    (hfile : t.file = s.file) (hpersisted : t.persisted = s.persisted)
    (hdetached : t.detached = s.detached)
    (hmembers : ∀ j, j ∈ s.members ∨ j = i → j ∈ t.members)
    (htmp : t.tmp = s.tmp ∨ (s.sessions i).phase.holdsLock = true)
    (hlock : phase.holdsLock = true → t.store_lock = some i)
    (hothers : t.store_lock = s.store_lock ∨ (s.sessions i).phase.holdsLock = true ∨
      s.store_lock = none)
    (hpending : ∀ change, (s.sessions i).phase.pending = some change →
      phase.pending = some change ∨
        ∀ j data, (s.sessions j).phase.data = some data → (s.sessions j).Holds data change)
    (hok : FileOk seed R t phase)
    (hserved : ∀ data, phase.data = some data → (s.sessions i).phase.data = some data ∨
      s.file = some data) :
    Guarded seed R t := by
  have hphase : ∀ j, (t.sessions j).phase = if j = i then phase else (s.sessions j).phase := by
    intro j
    rw [hsessions, sessions_enter]
  have hholds : ∀ j data change,
      (t.sessions j).Holds data change ↔ (s.sessions j).Holds data change := by
    intro j data change
    rw [hsessions, sessions_enter]
    rfl
  have hkept : ∀ j data change, (s.sessions j).phase.data = some data →
      (s.sessions j).Holds data change ∨ s.Pending change →
      (t.sessions j).Holds data change ∨ t.Pending change := by
    intro j data change hdata hold
    rw [hholds]
    rcases hold with hheld | ⟨k, hk⟩
    · exact Or.inl hheld
    by_cases hki : k = i
    · rw [hki] at hk
      rcases hpending change hk with hstill | hall
      · refine Or.inr ⟨i, ?_⟩
        rw [hphase, if_pos rfl]
        exact hstill
      · exact Or.inl (hall j data hdata)
    · refine Or.inr ⟨k, ?_⟩
      rw [hphase, if_neg hki]
      exact hk
  -- Another session that holds the lock rules out that this one does.
  have halone : ∀ j, j ≠ i → (s.sessions j).phase.holdsLock = true →
      (s.sessions i).phase.holdsLock = false :=
    fun j hji hj => hs.unlocked_of_ne hj (Ne.symm hji)
  refine ⟨?_, ?_, ?_, ?_, ?_, ?_⟩
  · rw [hdetached]
    exact hs.detached
  · intro j hj
    rw [hphase] at hj
    by_cases hji : j = i
    · exact hmembers j (Or.inr hji)
    · rw [if_neg hji] at hj
      exact hmembers j (Or.inl (hs.members j hj))
  · intro j hj
    rw [hphase] at hj
    by_cases hji : j = i
    · rw [if_pos hji] at hj
      rw [hji]
      exact hlock hj
    · rw [if_neg hji] at hj
      have hheld := hs.lock j hj
      rcases hothers with hsame | hmine | hfree
      · rw [hsame]
        exact hheld
      · rw [halone j hji hj] at hmine
        cases hmine
      · rw [hfree] at hheld
        cases hheld
  · intro change
    rw [hpersisted, hfile]
    exact hs.persisted change
  · intro j
    rw [hphase]
    by_cases hji : j = i
    · rw [if_pos hji]
      exact hok
    · rw [if_neg hji]
      cases hj : (s.sessions j).phase.holdsLock with
      | false =>
          apply fileOk_of_unlocked hj (hs.file j)
          intro change hchange
          rwa [hpersisted]
      | true =>
          have hsame : t.tmp = s.tmp := by
            rcases htmp with hsame | hmine
            · exact hsame
            · rw [halone j hji hj] at hmine
              cases hmine
          have hold := hs.file j
          unfold FileOk at hold ⊢
          rw [hfile, hsame, hpersisted]
          exact hold
  · intro j data hdata
    rw [hphase] at hdata
    by_cases hji : j = i
    · rw [if_pos hji] at hdata
      rcases hserved data hdata with hbefore | hread
      · obtain ⟨hexists, hall⟩ := hs.served i data hbefore
        rw [hfile, hpersisted, hji]
        refine ⟨hexists, ?_⟩
        intro change hchange
        exact hkept i data change hbefore (hall change hchange)
      · rw [hfile, hpersisted, hread]
        refine ⟨Option.some_ne_none data, ?_⟩
        intro change hchange
        obtain ⟨doc, hdoc, hknown⟩ := (hs.persisted change).mp hchange
        rw [hread] at hdoc
        cases hdoc
        exact Or.inl (Or.inl hknown)
    · rw [if_neg hji] at hdata
      obtain ⟨hexists, hall⟩ := hs.served j data hdata
      rw [hfile, hpersisted]
      refine ⟨hexists, ?_⟩
      intro change hchange
      exact hkept j data change hdata (hall change hchange)

/-- The lock holder turns its temporary file into the project file. -/
theorem Guarded.rename (hs : Guarded seed R s) {doc : Doc H}
    (hholds : (s.sessions i).phase.holdsLock = true)
    (hnone : (s.sessions i).phase.pending = none)
    (hkeeps : ∀ change ∈ s.persisted, change ∈ known doc)
    (hnew : ∀ change ∈ known doc, change ∈ s.persisted ∨ phase.pending = some change ∨
      s.file = none)
    (hok : FileOk seed R ((s.enter i phase).rename doc) phase)
    (hdata : ∀ data, phase.data = some data → (s.sessions i).phase.data = some data ∨ data = doc) :
    Guarded seed R ((s.enter i phase).rename doc) := by
  have hsessions : ∀ j, ((s.enter i phase).rename doc).sessions j =
      { s.sessions j with phase := if j = i then phase else (s.sessions j).phase } := by
    intro j
    exact sessions_enter s i j phase
  have hkept : ∀ change, s.Pending change → ((s.enter i phase).rename doc).Pending change := by
    rintro change ⟨k, hk⟩
    have hki : k ≠ i := by
      rintro rfl
      rw [hnone] at hk
      cases hk
    refine ⟨k, ?_⟩
    rw [hsessions]
    dsimp only
    rwa [if_neg hki]
  have hstored : ∀ change, change ∈ s.persisted ++ known doc ↔ change ∈ known doc := by
    intro change
    rw [List.mem_append]
    constructor
    · rintro (hold | hin)
      · exact hkeeps change hold
      · exact hin
    · exact Or.inr
  refine ⟨hs.detached, ?_, ?_, ?_, ?_, ?_⟩
  · intro j hj
    rw [hsessions] at hj
    by_cases hji : j = i
    · apply hs.members j
      rw [hji]
      exact registered_of_holdsLock hholds
    · dsimp only at hj
      rw [if_neg hji] at hj
      exact hs.members j hj
  · intro j hj
    rw [hsessions] at hj
    dsimp only at hj
    by_cases hji : j = i
    · rw [hji]
      exact hs.lock i hholds
    · rw [if_neg hji] at hj
      exact hs.lock j hj
  · intro change
    change change ∈ s.persisted ++ known doc ↔ ∃ doc', some doc = some doc' ∧ change ∈ known doc'
    rw [hstored]
    constructor
    · intro hin
      exact ⟨doc, rfl, hin⟩
    · rintro ⟨_, ⟨⟩, hin⟩
      exact hin
  · intro j
    rw [hsessions]
    dsimp only
    split
    · exact hok
    · rename_i hji
      apply fileOk_of_unlocked (hs.unlocked_of_ne hholds hji) (hs.file j)
      intro change hin
      exact List.mem_append_left _ hin
  · intro j data hj
    refine ⟨Option.some_ne_none doc, ?_⟩
    intro change hin
    have hin := (hstored change).mp hin
    have hholds_eq : (((s.enter i phase).rename doc).sessions j).Holds data change ↔
        (s.sessions j).Holds data change := by
      rw [hsessions]
      rfl
    rw [hholds_eq]
    rw [hsessions] at hj
    dsimp only at hj
    -- A session that had its document before is served as before.
    have hbefore : (s.sessions j).phase.data = some data →
        (s.sessions j).Holds data change ∨ ((s.enter i phase).rename doc).Pending change := by
      intro hj
      obtain ⟨hexists, hall⟩ := hs.served j data hj
      rcases hnew change hin with hold | hmine | hfresh
      · rcases hall change hold with hheld | hlater
        · exact Or.inl hheld
        · exact Or.inr (hkept change hlater)
      · refine Or.inr ⟨i, ?_⟩
        rw [hsessions]
        dsimp only
        rw [if_pos rfl]
        exact hmine
      · exact absurd hfresh hexists
    by_cases hji : j = i
    · rw [if_pos hji] at hj
      rcases hdata data hj with hsame | hread
      · rw [← hji] at hsame
        exact hbefore hsame
      · rw [hread]
        exact Or.inl (Or.inl hin)
    · rw [if_neg hji] at hj
      exact hbefore hj

/-- Messages move along the channel; no session changes what it does. -/
theorem Guarded.deliver (hs : Guarded seed R s)
    (hphase : ∀ j, (t.sessions j).phase = (s.sessions j).phase) (hfile : t.file = s.file)
    (htmp : t.tmp = s.tmp) (hpersisted : t.persisted = s.persisted)
    (hdetached : t.detached = s.detached) (hmembers : t.members = s.members)
    (hlock : t.store_lock = s.store_lock)
    (hholds : ∀ j data change, (s.sessions j).Holds data change →
      (t.sessions j).Holds data change) : Guarded seed R t := by
  refine ⟨?_, ?_, ?_, ?_, ?_, ?_⟩
  · rw [hdetached]
    exact hs.detached
  · intro j
    rw [hphase, hmembers]
    exact hs.members j
  · intro j
    rw [hphase, hlock]
    exact hs.lock j
  · intro change
    rw [hpersisted, hfile]
    exact hs.persisted change
  · intro j
    have hold := hs.file j
    rw [hphase]
    unfold FileOk at hold ⊢
    rw [hfile, htmp, hpersisted]
    exact hold
  · intro j data hdata
    rw [hphase] at hdata
    obtain ⟨hexists, hall⟩ := hs.served j data hdata
    rw [hfile, hpersisted]
    refine ⟨hexists, ?_⟩
    intro change hchange
    rcases hall change hchange with hheld | ⟨k, hk⟩
    · exact Or.inl (hholds j data change hheld)
    · refine Or.inr ⟨k, ?_⟩
      rw [hphase]
      exact hk

theorem Guarded.send (hs : Guarded seed R s) (msg : Msg H) : Guarded seed R (s.send msg) := by
  have hfields : (s.send msg).file = s.file ∧ (s.send msg).tmp = s.tmp ∧
      (s.send msg).persisted = s.persisted ∧ (s.send msg).detached = s.detached ∧
      (s.send msg).members = s.members ∧ (s.send msg).store_lock = s.store_lock := by
    unfold AppState.send
    split <;> exact ⟨rfl, rfl, rfl, rfl, rfl, rfl⟩
  obtain ⟨hfile, htmp, hpersisted, hdetached, hmembers, hlock⟩ := hfields
  apply hs.deliver (phase_send s msg) hfile htmp hpersisted hdetached hmembers hlock
  intro j data change hheld
  unfold AppState.send
  split
  · exact hheld
  · exact hheld.push msg

/-- A change on the channel reaches every session that has its document. -/
theorem holds_send {change : H} {j : Nat} {data : Doc H} (hmember : s.members ≠ [])
    (hdata : (s.sessions j).phase.data = some data) :
    ((s.send (.change change)).sessions j).Holds data change := by
  rw [AppState.send, if_neg hmember]
  exact Session.holds_push (subscribes_of_data hdata)

end Invariant

section Run

variable {H : Type} {seed : List H} {R : Option (Doc H) → H → Doc H → Prop} {s t : AppState H}

theorem Guarded.members_of_phase (hs : Guarded seed R s) {i : Nat} {phase : Phase H}
    (hphase : (s.sessions i).phase = phase) (hpresent : phase.registered = true) :
    ∀ j, j ∈ s.members ∨ j = i → j ∈ s.members := by
  rintro j (hj | rfl)
  · exact hj
  · apply hs.members j
    rwa [hphase]

theorem pending_of_phase {i : Nat} {phase : Phase H} {P : H → Prop}
    (hphase : (s.sessions i).phase = phase) (hnone : phase.pending = none) :
    ∀ change, (s.sessions i).phase.pending = some change → P change := by
  intro change hchange
  rw [hphase, hnone] at hchange
  cases hchange

/-- A step between two points of one session that touches nothing else. -/
theorem Guarded.walk (hs : Guarded seed R s) {i : Nat} {before after : Phase H}
    (hphase : (s.sessions i).phase = before) (hpresent : before.registered = true)
    (hlock : after.holdsLock = true → before.holdsLock = true)
    (hpending : before.pending = none) (hok : FileOk seed R s after)
    (hdata : ∀ data, after.data = some data → before.data = some data ∨ s.file = some data) :
    Guarded seed R (s.enter i after) := by
  refine hs.move rfl rfl rfl rfl (hs.members_of_phase hphase hpresent) (Or.inl rfl) ?_
    (Or.inl rfl) (pending_of_phase hphase hpending) ?_ ?_
  · intro hafter
    apply hs.lock i
    rw [hphase]
    exact hlock hafter
  · exact hok
  · intro data hafter
    rw [hphase]
    exact hdata data hafter

/-- The lock holder releases the lock. -/
theorem Guarded.release (hs : Guarded seed R s) {i : Nat} {before after : Phase H}
    (hphase : (s.sessions i).phase = before) (hholds : before.holdsLock = true)
    (hafter : after.holdsLock = false)
    (hpending : ∀ change, before.pending = some change → after.pending = some change)
    (hok : FileOk seed R s after)
    (hdata : ∀ data, after.data = some data → before.data = some data) :
    Guarded seed R { s.enter i after with store_lock := none } := by
  have hpresent := registered_of_holdsLock hholds
  refine hs.move rfl rfl rfl rfl (hs.members_of_phase hphase hpresent) (Or.inl rfl) ?_
    (Or.inr (Or.inl ?_)) ?_ ?_ ?_
  · intro hheld
    rw [hafter] at hheld
    cases hheld
  · rwa [hphase]
  · intro change hchange
    rw [hphase] at hchange
    exact Or.inl (hpending change hchange)
  · exact hok
  · intro data hdata'
    rw [hphase]
    exact Or.inl (hdata data hdata')

/-- A session takes the free lock. -/
theorem Guarded.acquire (hs : Guarded seed R s) {i : Nat} {before after : Phase H}
    (hphase : (s.sessions i).phase = before) (hpresent : before.registered = true)
    (hlock : s.store_lock = none) (hpending : before.pending = none) (hok : FileOk seed R s after)
    (hdata : ∀ data, after.data = some data → before.data = some data) :
    Guarded seed R { s.enter i after with store_lock := some i } := by
  refine hs.move rfl rfl rfl rfl (hs.members_of_phase hphase hpresent) (Or.inl rfl) ?_
    (Or.inr (Or.inr hlock)) (pending_of_phase hphase hpending) ?_ ?_
  · intro _
    rfl
  · exact hok
  · intro data hdata'
    rw [hphase]
    exact Or.inl (hdata data hdata')

/-- The lock holder writes the temporary file. -/
theorem Guarded.write (hs : Guarded seed R s) {i : Nat} {before after : Phase H} {doc : Doc H}
    (hphase : (s.sessions i).phase = before) (hholds : before.holdsLock = true)
    (hpending : before.pending = none)
    (hok : FileOk seed R { s.enter i after with tmp := some doc } after)
    (hdata : ∀ data, after.data = some data → before.data = some data) :
    Guarded seed R { s.enter i after with tmp := some doc } := by
  have hpresent := registered_of_holdsLock hholds
  refine hs.move rfl rfl rfl rfl (hs.members_of_phase hphase hpresent) (Or.inr ?_) ?_
    (Or.inl rfl) (pending_of_phase hphase hpending) ?_ ?_
  · rwa [hphase]
  · intro _
    apply hs.lock i
    rwa [hphase]
  · exact hok
  · intro data hdata'
    rw [hphase]
    exact Or.inl (hdata data hdata')

/-- A session that has ended leaves nothing behind. -/
theorem Guarded.cleanup (hs : Guarded seed R s) {i : Nat}
    (hphase : (s.sessions i).phase = .ended) :
    Guarded seed R
      { s with
        sessions := fun j => if j = i then {} else s.sessions j
        members := s.members.erase i } := by
  have hnone : ∀ change, s.Pending change → AppState.Pending
      { s with
        sessions := fun j => if j = i then {} else s.sessions j
        members := s.members.erase i } change := by
    rintro change ⟨k, hk⟩
    have hki : k ≠ i := by
      rintro rfl
      rw [hphase] at hk
      cases hk
    refine ⟨k, ?_⟩
    dsimp only
    rwa [if_neg hki]
  refine ⟨hs.detached, ?_, ?_, hs.persisted, ?_, ?_⟩
  · intro j hj
    by_cases hji : j = i
    · simp only [if_pos hji] at hj
      cases hj
    · simp only [if_neg hji] at hj
      exact (List.mem_erase_of_ne hji).mpr (hs.members j hj)
  · intro j hj
    by_cases hji : j = i
    · simp only [if_pos hji] at hj
      cases hj
    · simp only [if_neg hji] at hj
      exact hs.lock j hj
  · intro j
    by_cases hji : j = i
    · simp only [if_pos hji]
      exact trivial
    · simp only [if_neg hji]
      exact hs.file j
  · intro j data hdata
    by_cases hji : j = i
    · simp only [if_pos hji] at hdata
      cases hdata
    · simp only [if_neg hji] at hdata ⊢
      obtain ⟨hexists, hall⟩ := hs.served j data hdata
      refine ⟨hexists, ?_⟩
      intro change hchange
      rcases hall change hchange with hheld | hlater
      · exact Or.inl hheld
      · exact Or.inr (hnone change hlater)

/-- A session receives a message of its channel. -/
theorem Guarded.forward (hs : Guarded seed R s) {i : Nat} {msg : Msg H} {rest : List (Msg H)}
    (hinbox : (s.sessions i).inbox = msg :: rest) :
    Guarded seed R
      { s with
        sessions := fun j =>
          if j = i then
            { s.sessions i with inbox := rest, received := (s.sessions i).received ++ [msg] }
          else s.sessions j } := by
  refine hs.deliver ?_ rfl rfl rfl rfl rfl rfl ?_
  · intro j
    dsimp only
    split
    · rename_i hji
      rw [hji]
    · rfl
  · intro j data' change hheld
    dsimp only
    split
    · rename_i hji
      subst hji
      rcases hheld with hdata | hreceived | hin | hlagged
      · exact Or.inl hdata
      · exact Or.inr (Or.inl (List.mem_append_left _ hreceived))
      · rw [hinbox] at hin
        rcases List.mem_cons.mp hin with hfirst | hlater
        · subst hfirst
          exact Or.inr (Or.inl (List.mem_append_right _ (List.mem_singleton_self _)))
        · exact Or.inr (Or.inr (Or.inl hlater))
      · exact Or.inr (Or.inr (Or.inr hlagged))
    · exact hheld

/-- The file of a new project appears. -/
theorem Guarded.seedRename (hs : Guarded seed R s) {i : Nat} {doc : Doc H}
    (hphase : (s.sessions i).phase = .seedRenaming) (htmp : s.tmp = some doc) :
    Guarded seed R ((s.enter i (.loaded { history := seed })).rename doc) := by
  have hok := hs.file i
  rw [hphase] at hok
  obtain ⟨hfile, hseed⟩ := hok
  have hdoc : doc = { history := seed } := by
    rw [htmp] at hseed
    exact Option.some.inj hseed
  refine hs.rename ?_ ?_ ?_ ?_ trivial ?_
  · rw [hphase]
    rfl
  · rw [hphase]
    rfl
  · intro change hchange
    obtain ⟨_, hsome, _⟩ := (hs.persisted change).mp hchange
    rw [hfile] at hsome
    cases hsome
  · intro _ _
    exact Or.inr (Or.inr hfile)
  · intro data hdata
    cases hdata
    exact Or.inr hdoc.symm

/-- The file that a session has written appears. -/
theorem Guarded.store (hs : Guarded seed R s)
    (hR : ∀ file change doc, R file change doc → Grows seed file change doc) {i : Nat}
    {data doc : Doc H} {change : H} (hphase : (s.sessions i).phase = .live data (.moving change))
    (htmp : s.tmp = some doc) :
    Guarded seed R ((s.enter i (.live data (.renamed change))).rename doc) := by
  have hok := hs.file i
  rw [hphase] at hok
  obtain ⟨doc', htmp', hrelated⟩ := hok
  rw [htmp] at htmp'
  cases htmp'
  have hgrows := hR _ _ _ hrelated
  have hexists : ∃ old, s.file = some old := by
    have hserved := hs.served i data
    rw [hphase] at hserved
    exact Option.ne_none_iff_exists'.mp (hserved rfl).1
  obtain ⟨old, hold⟩ := hexists
  refine hs.rename ?_ ?_ ?_ ?_ ?_ ?_
  · rw [hphase]
    rfl
  · rw [hphase]
    rfl
  · intro c hc
    obtain ⟨file, hfile, hknown⟩ := (hs.persisted c).mp hc
    rw [hgrows, hfile]
    exact Or.inl hknown
  · intro c hc
    rcases (hgrows c).mp hc with hbefore | rfl
    · rw [hold] at hbefore
      exact Or.inl ((hs.persisted c).mpr ⟨old, hold, hbefore⟩)
    · exact Or.inr (Or.inl rfl)
  · exact List.mem_append_right _ ((hgrows change).mpr (Or.inr rfl))
  · intro data' hdata
    rw [hphase]
    exact Or.inl hdata

/-- A session sends its change to all, itself included. -/
theorem Guarded.broadcast (hs : Guarded seed R s) {i : Nat} {data : Doc H} {change : H}
    (hphase : (s.sessions i).phase = .live data (.broadcasting change)) :
    Guarded seed R
      { (s.send (.change change)).enter i (.live data .idle) with
        broadcasted := s.broadcasted ++ [change] } := by
  have hmember : s.members ≠ [] := by
    apply List.ne_nil_of_mem (a := i)
    apply hs.members i
    rw [hphase]
    rfl
  have hsent := hs.send (.change change)
  have hphase' : ((s.send (.change change)).sessions i).phase =
      .live data (.broadcasting change) := by
    rw [phase_send, hphase]
  refine hsent.move rfl rfl rfl rfl (hsent.members_of_phase hphase' rfl) (Or.inl rfl) ?_
    (Or.inl rfl) ?_ trivial ?_
  · intro hlock
    cases hlock
  · intro c hc
    rw [hphase'] at hc
    cases hc
    refine Or.inr ?_
    intro j data' hdata
    rw [phase_send] at hdata
    exact holds_send hmember hdata
  · intro data' hdata
    rw [hphase']
    exact Or.inl hdata

/-- A session ends before its receive task has written anything. -/
theorem Guarded.close (hs : Guarded seed R s) {i : Nat} {data : Doc H} {recv : Recv H}
    (hphase : (s.sessions i).phase = .live data recv) (hpending : recv.pending = none) :
    Guarded seed R
      { s.enter i .ended with store_lock := if recv.holdsLock then none else s.store_lock } := by
  refine hs.move rfl rfl rfl rfl (hs.members_of_phase hphase rfl) (Or.inl rfl) ?_ ?_
    (pending_of_phase hphase hpending) trivial ?_
  · intro hlock
    cases hlock
  · dsimp only
    split
    · rename_i hholds
      refine Or.inr (Or.inl ?_)
      rw [hphase]
      exact hholds
    · exact Or.inl rfl
  · intro data' hdata
    cases hdata

variable [DecidableEq H] {deps : H → List H}

/-- Every step keeps the invariant, when what the store accepts is in `R`. -/
theorem guarded_of_step (hR : ∀ file change doc, R file change doc → Grows seed file change doc)
    (haccept : ∀ i data change doc, (s.sessions i).phase = .live data (.reading change) →
      apply_change deps seed s.file change = some doc → R s.file change doc)
    (hs : Guarded seed R s) (hstep : Step deps seed s t) : Guarded seed R t := by
  cases hstep with
  | @join i hphase =>
      refine hs.move rfl rfl rfl rfl ?_ (Or.inl rfl) ?_ (Or.inl rfl)
        (pending_of_phase hphase rfl) ?_ ?_
      · rintro j (hj | rfl)
        · exact List.mem_append_left _ hj
        · exact List.mem_append_right _ (List.mem_singleton_self j)
      · intro hlock
        cases hlock
      · exact trivial
      · intro data hdata
        cases hdata
  | lockJoin hphase hlock =>
      refine hs.acquire hphase rfl hlock rfl trivial ?_
      intro data hdata
      cases hdata
  | load hphase hfile =>
      refine hs.walk hphase rfl (fun _ => rfl) rfl trivial ?_
      intro data hdata
      cases hdata
      exact Or.inr hfile
  | loadNone hphase hfile =>
      refine hs.walk hphase rfl (fun _ => rfl) rfl hfile ?_
      intro data hdata
      cases hdata
  | @seedWrite i hphase =>
      have hfile : s.file = none := by
        have hok := hs.file i
        rwa [hphase] at hok
      refine hs.write hphase rfl rfl ⟨hfile, rfl⟩ ?_
      intro data hdata
      cases hdata
  | seedRename hphase htmp => exact hs.seedRename hphase htmp
  | unlockJoin hphase => exact hs.release hphase rfl rfl (fun _ h => h) trivial (fun _ h => h)
  | opened hphase =>
      exact hs.walk hphase rfl (fun h => h) rfl trivial (fun _ h => Or.inl h)
  | @failStore i hphase =>
      have hholds : (s.sessions i).phase.holdsLock = true ∧
          (s.sessions i).phase.pending = none := by
        rcases hphase with h | h | h <;> rw [h] <;> exact ⟨rfl, rfl⟩
      refine hs.release rfl hholds.1 rfl ?_ trivial ?_
      · rw [hholds.2]
        exact fun _ h => by cases h
      · intro data hdata
        cases hdata
  | failSend hphase =>
      refine hs.walk hphase rfl (fun h => h) rfl trivial ?_
      intro data hdata
      cases hdata
  | forward hphase hinbox => exact hs.forward hinbox
  | signal hphase => exact hs.send .signal
  | submit change hphase =>
      exact hs.walk hphase rfl (fun h => h) rfl trivial (fun _ h => Or.inl h)
  | lockStore hphase hlock =>
      exact hs.acquire hphase rfl hlock rfl trivial (fun _ h => h)
  | accept hphase happly =>
      refine hs.walk hphase rfl (fun _ => rfl) rfl ?_ (fun _ h => Or.inl h)
      exact haccept _ _ _ _ hphase happly
  | refuse hphase happly =>
      refine hs.release hphase rfl rfl ?_ trivial (fun _ h => h)
      intro change hchange
      cases hchange
  | @write i data doc change hphase =>
      have hok := hs.file i
      rw [hphase] at hok
      exact hs.write hphase rfl rfl ⟨doc, rfl, hok⟩ (fun _ h => h)
  | rename hphase htmp => exact hs.store hR hphase htmp
  | failApply hphase hholds hpending =>
      refine hs.release hphase hholds rfl ?_ trivial (fun _ h => h)
      intro change hchange
      rw [Phase.pending, hpending] at hchange
      cases hchange
  | @unlockStore i data change hphase =>
      have hok := hs.file i
      rw [hphase] at hok
      exact hs.release hphase rfl rfl (fun _ h => h) hok (fun _ h => h)
  | broadcast hphase => exact hs.broadcast hphase
  | close hphase hinFlight hpending => exact hs.close hphase hpending
  | cleanup hphase => exact hs.cleanup hphase
  | lateWrite hdetached =>
      rw [hs.detached] at hdetached
      exact absurd hdetached.symm (by simp)
  | lateRename hdetached htmp =>
      rw [hs.detached] at hdetached
      exact absurd hdetached.symm (by simp)

/-- What is broadcast is on the disk. -/
theorem broadcasted_of_step (hs : Guarded seed R s)
    (hdurable : ∀ change ∈ s.broadcasted, change ∈ s.persisted) (hstep : Step deps seed s t) :
    ∀ change ∈ t.broadcasted, change ∈ t.persisted := by
  have hsend : ∀ msg, (s.send msg).broadcasted = s.broadcasted ∧
      (s.send msg).persisted = s.persisted := by
    intro msg
    unfold AppState.send
    split <;> exact ⟨rfl, rfl⟩
  cases hstep with
  | signal hphase =>
      rw [(hsend .signal).1, (hsend .signal).2]
      exact hdurable
  | @broadcast i data change hphase =>
      intro c hc
      change c ∈ (s.send (.change change)).persisted
      rw [(hsend _).2]
      rcases List.mem_append.mp hc with hold | hlast
      · exact hdurable c hold
      · have hok := hs.file i
        rw [hphase] at hok
        rw [List.mem_singleton.mp hlast]
        exact hok
  | seedRename hphase htmp => exact fun c hc => List.mem_append_left _ (hdurable c hc)
  | rename hphase htmp => exact fun c hc => List.mem_append_left _ (hdurable c hc)
  | lateRename hdetached htmp => exact fun c hc => List.mem_append_left _ (hdurable c hc)
  | _ => exact hdurable

end Run

section Claim

variable {H : Type}

/-- Every change on the disk is with every open session, in its document or on
its channel, unless the channel told it that messages were skipped or a task is
still to broadcast the change; and every change broadcast is on the disk. -/
def NoGap (s : AppState H) : Prop :=
  (∀ j data recv, (s.sessions j).phase = .live data recv →
    ∀ change ∈ s.persisted, (s.sessions j).Holds data change ∨ s.Pending change) ∧
  ∀ change ∈ s.broadcasted, change ∈ s.persisted

theorem guarded_started (seed : List H) (R : Option (Doc H) → H → Doc H → Prop)
    (file : Option (Doc H)) : Guarded seed R (started file) := by
  refine ⟨rfl, ?_, ?_, ?_, ?_, ?_⟩
  · intro j hj
    cases hj
  · intro j hj
    cases hj
  · intro change
    cases file with
    | none => simp [started]
    | some doc => simp [started]
  · intro j
    exact trivial
  · intro j data hdata
    cases hdata

variable [DecidableEq H]

/-- In every run whose receive tasks are never aborted after they have started
to write a change, there is no gap in any state reached. -/
theorem noGap_of_run (deps : H → List H) (seed : List H) (file : Option (Doc H))
    {s : AppState H} (hrun : Run.Reaches (Step deps seed) (started file) s) : NoGap s := by
  have hboth : Guarded seed (Grows seed) s ∧ ∀ change ∈ s.broadcasted, change ∈ s.persisted := by
    apply hrun.invariant (P := fun s => Guarded seed (Grows seed) s ∧
      ∀ change ∈ s.broadcasted, change ∈ s.persisted)
    · refine ⟨guarded_started seed (Grows seed) file, ?_⟩
      intro change hchange
      cases hchange
    · intro a b hstep hab
      refine ⟨guarded_of_step (fun _ _ _ h => h) ?_ hab.1 hstep, ?_⟩
      · intro i data change doc _ happly
        exact mem_known_of_apply_change happly
      · exact broadcasted_of_step hab.1 hab.2 hstep
  refine ⟨?_, hboth.2⟩
  intro j data recv hphase
  apply (hboth.1.served j data _).2
  rw [hphase]
  rfl

end Claim

section Examples

/-- A file with the seed alone. -/
def seedFile : AppState Nat := started (some { history := [0] })

/-- Two sessions open on a project file; a change of the first is persisted and
broadcast. -/
theorem noGap_of_run_oneChange :
    ∃ s : AppState Nat, Run.Reaches (Step (fun _ => []) [0]) seedFile s ∧
      s.broadcasted = [7] ∧ (s.sessions 2).inbox = [.change 7] ∧ NoGap s := by
  have hrun := Relation.ReflTransGen.refl (a := seedFile) (r := Step (fun _ => []) [0])
    |>.tail (Step.join (i := 1) rfl) |>.tail (Step.lockJoin (i := 1) rfl rfl)
    |>.tail (Step.load (i := 1) rfl rfl) |>.tail (Step.unlockJoin (i := 1) rfl)
    |>.tail (Step.opened (i := 1) rfl)
    |>.tail (Step.join (i := 2) rfl) |>.tail (Step.lockJoin (i := 2) rfl rfl)
    |>.tail (Step.load (i := 2) rfl rfl) |>.tail (Step.unlockJoin (i := 2) rfl)
    |>.tail (Step.opened (i := 2) rfl)
    |>.tail (Step.submit (i := 1) 7 rfl) |>.tail (Step.lockStore (i := 1) rfl rfl)
    |>.tail (Step.accept (i := 1) rfl rfl) |>.tail (Step.write (i := 1) rfl)
    |>.tail (Step.rename (i := 1) rfl rfl) |>.tail (Step.unlockStore (i := 1) rfl)
    |>.tail (Step.broadcast (i := 1) rfl)
  exact ⟨_, hrun, rfl, rfl, noGap_of_run (fun _ => []) [0] (some { history := [0] }) hrun⟩

/-- A receive task aborted between its rename and its broadcast leaves a change
on the disk that no open session will ever hear of. -/
theorem not_noGap_aborted :
    ¬ ∀ (deps : Nat → List Nat) (seed : List Nat) (file : Option (Doc Nat)) (s : AppState Nat),
      Run.Reaches (AnyStep deps seed) (started file) s → NoGap s := by
  intro hall
  have hrun := Relation.ReflTransGen.refl (a := seedFile) (r := AnyStep (fun _ => []) [0])
    |>.tail (Or.inl (Step.join (i := 1) rfl)) |>.tail (Or.inl (Step.lockJoin (i := 1) rfl rfl))
    |>.tail (Or.inl (Step.load (i := 1) rfl rfl)) |>.tail (Or.inl (Step.unlockJoin (i := 1) rfl))
    |>.tail (Or.inl (Step.opened (i := 1) rfl))
    |>.tail (Or.inl (Step.join (i := 2) rfl)) |>.tail (Or.inl (Step.lockJoin (i := 2) rfl rfl))
    |>.tail (Or.inl (Step.load (i := 2) rfl rfl)) |>.tail (Or.inl (Step.unlockJoin (i := 2) rfl))
    |>.tail (Or.inl (Step.opened (i := 2) rfl))
    |>.tail (Or.inl (Step.submit (i := 1) 7 rfl)) |>.tail (Or.inl (Step.lockStore (i := 1) rfl rfl))
    |>.tail (Or.inl (Step.accept (i := 1) rfl rfl)) |>.tail (Or.inl (Step.write (i := 1) rfl))
    |>.tail (Or.inl (Step.rename (i := 1) rfl rfl))
    |>.tail (Or.inl (Step.unlockStore (i := 1) rfl))
    |>.tail (Or.inr (Abort.abort (i := 1) rfl (Or.inr (by decide))))
  have hgap := (hall (fun _ => []) [0] (some { history := [0] }) _ hrun).1 2 { history := [0] }
    .idle rfl 7 (by decide)
  rcases hgap with hheld | ⟨k, hk⟩
  · rcases hheld with hdata | hreceived | hinbox | hlagged
    · exact absurd hdata (by decide)
    · exact absurd hreceived (by decide)
    · exact absurd hinbox (by decide)
    · exact absurd hlagged (by decide)
  · by_cases hone : k = 1
    · subst hone
      exact absurd hk (by decide)
    · by_cases htwo : k = 2
      · subst htwo
        exact absurd hk (by decide)
      · simp [AppState.enter, AppState.rename, seedFile, started, hone, htwo, Phase.pending] at hk

end Examples

end DawProject.Server
