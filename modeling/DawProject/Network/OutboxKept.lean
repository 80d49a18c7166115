import DawProject.Network.Outbox

/-!
What the outbox keeps. A change that is stored nowhere is in the outbox of a
live tab whose last write failed; so it can be lost only with that tab. Every
list of queued changes, in memory or stored, continues what was handed over in
the order of each tab.
-/

namespace DawProject.Network.Outbox

section Invariant

variable {T P : Type} (projectId : T → P) (s : Profile T)

def StoredAt (key : T) (c : Change T) : Prop :=
  ∃ changes, s.storage key = some (.queue changes) ∧ c ∈ changes

/-- The change is handed, dropped or stored for its project, or in the outbox
of a live tab whose last write failed. -/
def Safe (c : Change T) : Prop :=
  c ∈ s.handed ∨ c ∈ s.dropped ∨ (∃ key, projectId key = projectId c.tab ∧ StoredAt s key c) ∨
    ∃ u, (s.tabs u).crashed = false ∧ (s.tabs u).saved = false ∧ c ∈ (s.tabs u).outbox

/-- The outbox of the tab has all that is stored under these keys of its
project. -/
def Adopted (t : T) (keys : List T) : Prop :=
  ∀ key ∈ keys, key ≠ t ∧ projectId key = projectId t ∧
    ∀ c, StoredAt s key c → c ∈ (s.tabs t).outbox

def TaskOk (t : T) : Task T → Prop
  | .onDocument | .flushing => True
  | .persisting keys => Adopted projectId s t keys
  | .removing keys =>
      Adopted projectId s t keys ∧
        ((s.tabs t).saved = true → ∀ c ∈ (s.tabs t).outbox, StoredAt s t c)

structure OutboxInv : Prop where
  kept : ∀ t n, n < (s.tabs t).queued → Safe projectId s ⟨t, n⟩
  own : ∀ t, (s.tabs t).crashed = false → ∀ c, StoredAt s t c →
    c ∈ (s.tabs t).outbox ∨ c ∈ s.handed
  numbered : ∀ t, (s.tabs t).crashed = false → ∀ n < (s.tabs t).queued,
    ⟨t, n⟩ ∈ (s.tabs t).outbox ∨ ⟨t, n⟩ ∈ s.handed
  handed : Causal.Ready before [] s.handed
  outboxes : ∀ t, Causal.Ready before s.handed (s.tabs t).outbox
  queues : ∀ key changes, s.storage key = some (.queue changes) →
    Causal.Ready before s.handed changes
  project : ∀ t, ∀ c ∈ (s.tabs t).outbox, projectId c.tab = projectId t
  stored : ∀ key c, StoredAt s key c → projectId c.tab = projectId key
  task : ∀ t task, s.running = some (t, task) →
    (s.tabs t).crashed = false ∧ TaskOk projectId s t task

end Invariant

section Preserved

variable {T P : Type} [DecidableEq T] {projectId : T → P} {s : Profile T} {t : T}

@[simp] theorem put_tabs_self (tab : Tab T) : (s.put t tab).tabs t = tab := by
  simp [Profile.put]

theorem put_tabs_of_ne {u : T} (tab : Tab T) (hne : u ≠ t) : (s.put t tab).tabs u = s.tabs u := by
  simp [Profile.put, hne]

@[simp] theorem put_put (tab tab' : Tab T) : (s.put t tab).put t tab' = s.put t tab' := by
  simp [Profile.put]

/-- No task is under way, or one of the tab that does not remove keys. -/
def Calling (s : Profile T) (t : T) : Prop :=
  ∀ u task, s.running = some (u, task) → u = t ∧ ∀ keys, task ≠ .removing keys

omit [DecidableEq T] in
theorem calling_of_mayCall (hcall : s.MayCall t) : Calling s t := by
  intro u task hrunning
  rcases hcall with hidle | hcallback
  · rw [hidle] at hrunning
    cases hrunning
  · rw [hcallback] at hrunning
    obtain ⟨rfl, rfl⟩ := Prod.mk.inj (Option.some.inj hrunning)
    exact ⟨rfl, nofun⟩

omit [DecidableEq T] in
theorem TaskOk.of_eq {s' : Profile T} {task : Task T} (hok : TaskOk projectId s t task)
    (hstorage : s'.storage = s.storage) (houtbox : (s'.tabs t).outbox = (s.tabs t).outbox)
    (hsaved : (s'.tabs t).saved = (s.tabs t).saved) : TaskOk projectId s' t task := by
  cases task with
  | onDocument => trivial
  | flushing => trivial
  | persisting keys =>
      simp only [TaskOk, Adopted, StoredAt, hstorage, houtbox] at hok ⊢
      exact hok
  | removing keys =>
      simp only [TaskOk, Adopted, StoredAt, hstorage, houtbox, hsaved] at hok ⊢
      exact hok

/-- The flags of the socket matter to nothing that is queued. -/
theorem OutboxInv.socket (hinv : OutboxInv projectId s) (isOpen awaitingInitialDoc : Bool) :
    OutboxInv projectId (s.put t { s.tabs t with
      isOpen := isOpen, awaitingInitialDoc := awaitingInitialDoc }) := by
  have hsame : s.put t { s.tabs t with
      isOpen := isOpen, awaitingInitialDoc := awaitingInitialDoc } =
      { s with
        tabs := fun u => { s.tabs u with
          isOpen := if u = t then isOpen else (s.tabs u).isOpen
          awaitingInitialDoc :=
            if u = t then awaitingInitialDoc else (s.tabs u).awaitingInitialDoc } } := by
    unfold Profile.put
    congr 1
    funext u
    rcases eq_or_ne u t with rfl | hne
    · simp
    · simp [hne]
  rw [hsame]
  exact { hinv with
    task := fun u task hrunning =>
      ⟨(hinv.task u task hrunning).1, (hinv.task u task hrunning).2.of_eq rfl rfl rfl⟩ }

omit [DecidableEq T] in
/-- The task moves on. -/
theorem OutboxInv.running (hinv : OutboxInv projectId s) {running : Option (T × Task T)}
    (htask : ∀ u task, running = some (u, task) →
      (s.tabs u).crashed = false ∧ TaskOk projectId s u task) :
    OutboxInv projectId { s with running := running } := by
  exact { hinv with
    task := fun u task hrunning =>
      ⟨(htask u task hrunning).1, (htask u task hrunning).2.of_eq rfl rfl rfl⟩ }

/-- A live tab gets another outbox, which loses nothing that is not handed over. -/
theorem OutboxInv.setTab (hinv : OutboxInv projectId s) (hlive : (s.tabs t).crashed = false)
    {tab : Tab T} {running : Option (T × Task T)} (hcrashed : tab.crashed = false)
    (hkeeps : ∀ c ∈ (s.tabs t).outbox, c ∈ tab.outbox ∨ c ∈ s.handed)
    (hsaved : (s.tabs t).saved = false → tab.saved = false)
    (hqueued : ∀ n < tab.queued, n < (s.tabs t).queued ∨
      tab.saved = false ∧ ⟨t, n⟩ ∈ tab.outbox)
    (hready : Causal.Ready before s.handed tab.outbox)
    (hproject : ∀ c ∈ tab.outbox, projectId c.tab = projectId t)
    (htask : ∀ u task, running = some (u, task) → u = t ∧ TaskOk projectId (s.put t tab) t task) :
    OutboxInv projectId { s.put t tab with running := running } := by
  have hself : (s.put t tab).tabs t = tab := put_tabs_self tab
  have hother : ∀ u, u ≠ t → (s.put t tab).tabs u = s.tabs u := fun u => put_tabs_of_ne tab
  constructor
  · intro u n hn
    have hsafe : n < (s.tabs u).queued → Safe projectId { s.put t tab with running := running }
        ⟨u, n⟩ := by
      intro hold
      rcases hinv.kept u n hold with hhanded | hdropped | hstored | ⟨v, hv, hunsaved, hc⟩
      · exact Or.inl hhanded
      · exact Or.inr (Or.inl hdropped)
      · exact Or.inr (Or.inr (Or.inl hstored))
      · rcases eq_or_ne v t with rfl | hne
        · rcases hkeeps _ hc with hin | hhanded
          · refine Or.inr (Or.inr (Or.inr ⟨v, ?_⟩))
            dsimp only
            rw [hself]
            exact ⟨hcrashed, hsaved hunsaved, hin⟩
          · exact Or.inl hhanded
        · refine Or.inr (Or.inr (Or.inr ⟨v, ?_⟩))
          dsimp only
          rw [hother v hne]
          exact ⟨hv, hunsaved, hc⟩
    dsimp only at hn
    rcases eq_or_ne u t with rfl | hne
    · rw [hself] at hn
      rcases hqueued n hn with hold | ⟨hunsaved, hc⟩
      · exact hsafe hold
      · refine Or.inr (Or.inr (Or.inr ⟨u, ?_⟩))
        dsimp only
        rw [hself]
        exact ⟨hcrashed, hunsaved, hc⟩
    · rw [hother u hne] at hn
      exact hsafe hn
  · intro u hu c hc
    dsimp only at hu ⊢
    rcases eq_or_ne u t with rfl | hne
    · rw [hself]
      rcases hinv.own u hlive c hc with hin | hhanded
      · exact hkeeps c hin
      · exact Or.inr hhanded
    · rw [hother u hne] at hu ⊢
      exact hinv.own u hu c hc
  · intro u hu n hn
    dsimp only at hu hn ⊢
    rcases eq_or_ne u t with rfl | hne
    · rw [hself] at hn ⊢
      rcases hqueued n hn with hold | ⟨-, hc⟩
      · rcases hinv.numbered u hlive n hold with hin | hhanded
        · exact hkeeps _ hin
        · exact Or.inr hhanded
      · exact Or.inl hc
    · rw [hother u hne] at hu hn ⊢
      exact hinv.numbered u hu n hn
  · exact hinv.handed
  · intro u
    dsimp only
    rcases eq_or_ne u t with rfl | hne
    · rw [hself]
      exact hready
    · rw [hother u hne]
      exact hinv.outboxes u
  · exact hinv.queues
  · intro u c hc
    dsimp only at hc
    rcases eq_or_ne u t with rfl | hne
    · rw [hself] at hc
      exact hproject c hc
    · rw [hother u hne] at hc
      exact hinv.project u c hc
  · exact hinv.stored
  · intro u task hrunning
    obtain ⟨rfl, hok⟩ := htask u task hrunning
    dsimp only
    rw [hself]
    exact ⟨hcrashed, hok.of_eq rfl rfl rfl⟩

/-- A change is queued and not stored yet. -/
theorem OutboxInv.queue (hinv : OutboxInv projectId s) (hlive : (s.tabs t).crashed = false)
    (hcall : s.MayCall t) :
    OutboxInv projectId (s.put t { s.tabs t with
      outbox := (s.tabs t).outbox ++ [⟨t, (s.tabs t).queued⟩]
      queued := (s.tabs t).queued + 1
      saved := false }) := by
  apply @OutboxInv.setTab _ _ _ _ _ _ hinv hlive _ s.running
  · exact hlive
  · exact fun c hc => Or.inl (List.mem_append_left _ hc)
  · exact fun _ => rfl
  · intro n hn
    rcases Nat.lt_succ_iff_lt_or_eq.mp hn with hold | rfl
    · exact Or.inl hold
    · exact Or.inr ⟨rfl, List.mem_append_right _ (List.mem_singleton_self _)⟩
  · apply (hinv.outboxes t).append
    refine ⟨?_, trivial⟩
    intro d hd
    obtain ⟨n, hn, rfl⟩ := List.mem_map.mp hd
    rcases hinv.numbered t hlive n (List.mem_range.mp hn) with hin | hhanded
    · exact List.mem_append_right _ hin
    · exact List.mem_append_left _ hhanded
  · intro c hc
    rcases List.mem_append.mp hc with hold | hlast
    · exact hinv.project t c hold
    · rw [List.mem_singleton.mp hlast]
  · intro u task hrunning
    rcases hcall with hidle | hcallback
    · exact nomatch hidle.symm.trans hrunning
    · obtain ⟨rfl, rfl⟩ := Prod.mk.inj (Option.some.inj (hcallback.symm.trans hrunning))
      exact ⟨rfl, trivial⟩

/-- A written queue holds the outbox. -/
theorem storedAt_persist {c : Change T} (hc : c ∈ (s.tabs t).outbox) :
    StoredAt (s.persistOutbox t true) t c := by
  have hsome : (s.tabs t).outbox.isEmpty = false := by
    rw [List.isEmpty_eq_false_iff]
    exact List.ne_nil_of_mem hc
  refine ⟨(s.tabs t).outbox, ?_, hc⟩
  simp [Profile.persistOutbox, hsome]

theorem storage_persist_of_ne {key : T} (written : Bool) (hne : key ≠ t) :
    (s.persistOutbox t written).storage key = s.storage key := by
  cases written with
  | false => rfl
  | true => exact Function.update_of_ne hne _ _

theorem outbox_of_storage_persist {changes : List (Change T)}
    (hstored : (s.persistOutbox t true).storage t = some (.queue changes)) :
    changes = (s.tabs t).outbox := by
  simp only [Profile.persistOutbox, if_pos, Function.update_self] at hstored
  split at hstored
  · cases hstored
  · exact (Stored.queue.inj (Option.some.inj hstored)).symm

theorem tabs_persist (written : Bool) :
    (s.persistOutbox t written).tabs = (s.put t { s.tabs t with saved := written }).tabs := by
  cases written <;> rfl

theorem outbox_persist (written : Bool) (u : T) :
    ((s.persistOutbox t written).tabs u).outbox = (s.tabs u).outbox ∧
      ((s.persistOutbox t written).tabs u).crashed = (s.tabs u).crashed ∧
      ((s.persistOutbox t written).tabs u).queued = (s.tabs u).queued := by
  rw [tabs_persist]
  rcases eq_or_ne u t with rfl | hne
  · rw [put_tabs_self]
    exact ⟨rfl, rfl, rfl⟩
  · rw [put_tabs_of_ne _ hne]
    exact ⟨rfl, rfl, rfl⟩

theorem rest_persist (written : Bool) : (s.persistOutbox t written).handed = s.handed ∧
    (s.persistOutbox t written).dropped = s.dropped ∧
    (s.persistOutbox t written).running = s.running := by
  cases written <;> exact ⟨rfl, rfl, rfl⟩

/-- What was stored is stored again, in the outbox of its tab or elsewhere. -/
theorem OutboxInv.safe_persist (hinv : OutboxInv projectId s) (hlive : (s.tabs t).crashed = false)
    (written : Bool) {c : Change T} (hsafe : Safe projectId s c) :
    Safe projectId (s.persistOutbox t written) c := by
  obtain ⟨hhanded, hdropped, -⟩ := @rest_persist T _ s t written
  rcases hsafe with hc | hc | ⟨key, hkey, changes, hstored, hc⟩ | ⟨u, hu, hunsaved, hc⟩
  · rw [← hhanded] at hc
    exact Or.inl hc
  · rw [← hdropped] at hc
    exact Or.inr (Or.inl hc)
  · rcases eq_or_ne key t with rfl | hne
    · cases written with
      | false => exact Or.inr (Or.inr (Or.inl ⟨key, hkey, changes, hstored, hc⟩))
      | true =>
          rcases hinv.own key hlive c ⟨changes, hstored, hc⟩ with hin | hdone
          · exact Or.inr (Or.inr (Or.inl ⟨key, hkey, storedAt_persist hin⟩))
          · rw [← hhanded] at hdone
            exact Or.inl hdone
    · refine Or.inr (Or.inr (Or.inl ⟨key, hkey, changes, ?_, hc⟩))
      rw [storage_persist_of_ne written hne]
      exact hstored
  · obtain ⟨houtbox, hcrashed, -⟩ := @outbox_persist T _ s t written u
    rcases eq_or_ne u t with rfl | hne
    · cases written with
      | true =>
          refine Or.inr (Or.inr (Or.inl ⟨u, (hinv.project u c hc).symm, storedAt_persist hc⟩))
      | false =>
          refine Or.inr (Or.inr (Or.inr ⟨u, hcrashed.trans hu, ?_, houtbox ▸ hc⟩))
          rw [tabs_persist, put_tabs_self]
    · refine Or.inr (Or.inr (Or.inr ⟨u, hcrashed.trans hu, ?_, houtbox ▸ hc⟩))
      rw [tabs_persist, put_tabs_of_ne _ hne]
      exact hunsaved

theorem OutboxInv.persist (hinv : OutboxInv projectId s) (hlive : (s.tabs t).crashed = false)
    (hcalling : Calling s t) (written : Bool) :
    OutboxInv projectId (s.persistOutbox t written) := by
  obtain ⟨hhanded, -, hrest⟩ := @rest_persist T _ s t written
  -- a queue in the storage is an old one, or the outbox of the tab
  have hqueue : ∀ key changes, (s.persistOutbox t written).storage key = some (.queue changes) →
      s.storage key = some (.queue changes) ∨ key = t ∧ changes = (s.tabs t).outbox := by
    intro key changes hstored
    rcases eq_or_ne key t with rfl | hne
    · cases written with
      | false => exact Or.inl hstored
      | true => exact Or.inr ⟨rfl, outbox_of_storage_persist hstored⟩
    · rw [storage_persist_of_ne written hne] at hstored
      exact Or.inl hstored
  constructor
  · intro u n hn
    rw [(outbox_persist written u).2.2] at hn
    exact hinv.safe_persist hlive written (hinv.kept u n hn)
  · rintro u hu c ⟨changes, hstored, hc⟩
    obtain ⟨houtbox, hcrashed, -⟩ := @outbox_persist T _ s t written u
    rw [houtbox, hhanded]
    rcases hqueue u changes hstored with hold | ⟨rfl, rfl⟩
    · exact hinv.own u (hcrashed.symm.trans hu) c ⟨changes, hold, hc⟩
    · exact Or.inl hc
  · intro u hu n hn
    obtain ⟨houtbox, hcrashed, hqueued⟩ := @outbox_persist T _ s t written u
    rw [houtbox, hhanded]
    exact hinv.numbered u (hcrashed.symm.trans hu) n (hqueued ▸ hn)
  · rw [hhanded]
    exact hinv.handed
  · intro u
    rw [(outbox_persist written u).1, hhanded]
    exact hinv.outboxes u
  · intro key changes hstored
    rw [hhanded]
    rcases hqueue key changes hstored with hold | ⟨rfl, rfl⟩
    · exact hinv.queues key changes hold
    · exact hinv.outboxes key
  · intro u c hc
    rw [(outbox_persist written u).1] at hc
    exact hinv.project u c hc
  · rintro key c ⟨changes, hstored, hc⟩
    rcases hqueue key changes hstored with hold | ⟨rfl, rfl⟩
    · exact hinv.stored key c ⟨changes, hold, hc⟩
    · exact hinv.project key c hc
  · intro u task hrunning
    rw [hrest] at hrunning
    obtain ⟨rfl, hother⟩ := hcalling u task hrunning
    refine ⟨(outbox_persist written u).2.1.trans hlive, ?_⟩
    have hok := (hinv.task u task hrunning).2
    cases task with
    | onDocument => trivial
    | flushing => trivial
    | removing keys => exact absurd rfl (hother keys)
    | persisting keys =>
        intro key hkey
        obtain ⟨hne, hproject, hall⟩ := hok key hkey
        refine ⟨hne, hproject, ?_⟩
        rintro c ⟨changes, hstored, hc⟩
        rw [storage_persist_of_ne written hne] at hstored
        rw [(outbox_persist written u).1]
        exact hall c ⟨changes, hstored, hc⟩

omit [DecidableEq T] in
theorem mem_readOrphans {keys : List T} {adopted : List (Change T)}
    (hread : s.readOrphans keys = some adopted) (c : Change T) :
    c ∈ adopted ↔ ∃ key ∈ keys, StoredAt s key c := by
  induction keys generalizing adopted with
  | nil =>
      obtain rfl := Option.some.inj hread
      simp
  | cons key rest ih =>
      rw [Profile.readOrphans] at hread
      simp only [List.mem_cons, exists_eq_or_imp]
      split at hread
      · rename_i hnone
        rw [ih hread]
        constructor
        · exact Or.inr
        · rintro (⟨changes, hstored, -⟩ | hlater)
          · exact nomatch hnone.symm.trans hstored
          · exact hlater
      · rename_i changes hstored
        obtain ⟨later, hlater, rfl⟩ := Option.map_eq_some_iff.mp hread
        rw [List.mem_append, ih hlater]
        apply or_congr_left
        constructor
        · exact fun hc => ⟨changes, hstored, hc⟩
        · rintro ⟨changes', hstored', hc⟩
          rw [hstored] at hstored'
          obtain rfl := Stored.queue.inj (Option.some.inj hstored')
          exact hc
      · cases hread

omit [DecidableEq T] in
theorem ready_readOrphans (hinv : OutboxInv projectId s) {keys : List T}
    {adopted : List (Change T)} (hread : s.readOrphans keys = some adopted) :
    Causal.Ready before s.handed adopted := by
  induction keys generalizing adopted with
  | nil =>
      obtain rfl := Option.some.inj hread
      trivial
  | cons key rest ih =>
      rw [Profile.readOrphans] at hread
      split at hread
      · exact ih hread
      · rename_i changes hstored
        obtain ⟨later, hlater, rfl⟩ := Option.map_eq_some_iff.mp hread
        apply (hinv.queues key changes hstored).append
        exact (ih hlater).mono fun x hx => List.mem_append_left _ hx
      · cases hread

theorem OutboxInv.adopt (hinv : OutboxInv projectId s) {keys : List T}
    (hrunning : s.running = some (t, .onDocument)) (hkeys : OrphanKeys projectId s t keys) :
    OutboxInv projectId (s.adoptOrphanOutboxes t keys) := by
  have hlive := (hinv.task t _ hrunning).1
  have hskip : OutboxInv projectId { s with running := some (t, .flushing) } := by
    apply hinv.running
    intro u task hrun
    obtain ⟨rfl, rfl⟩ := Prod.mk.inj (Option.some.inj hrun)
    exact ⟨hlive, trivial⟩
  unfold Profile.adoptOrphanOutboxes
  split
  · exact hskip
  · split
    · exact hskip
    · rename_i adopted hread
      have hmem := mem_readOrphans hread
      apply hinv.setTab hlive
      · exact hlive
      · exact fun c hc => Or.inl (List.mem_append_right _ hc)
      · exact id
      · exact fun n hn => Or.inl hn
      · apply (ready_readOrphans hinv hread).append
        exact (hinv.outboxes t).mono fun x hx => List.mem_append_left _ hx
      · intro c hc
        rcases List.mem_append.mp hc with hnew | hold
        · obtain ⟨key, hkey, hstored⟩ := (hmem c).mp hnew
          exact (hinv.stored key c hstored).trans ((hkeys key).mp hkey).2.1
        · exact hinv.project t c hold
      · intro u task hrun
        obtain ⟨rfl, rfl⟩ := Prod.mk.inj (Option.some.inj hrun)
        refine ⟨rfl, ?_⟩
        intro key hkey
        obtain ⟨hne, hproject, -⟩ := (hkeys key).mp hkey
        refine ⟨hne, hproject, ?_⟩
        intro c hc
        rw [put_tabs_self]
        exact List.mem_append_left _ ((hmem c).mpr ⟨key, hkey, hc⟩)

/-- A removed queue is in the outbox of the tab that adopted it, and in its
stored queue unless its last write failed. -/
theorem OutboxInv.remove (hinv : OutboxInv projectId s) {key : T} {rest : List T}
    (hrunning : s.running = some (t, .removing (key :: rest))) :
    OutboxInv projectId { s with
      storage := Function.update s.storage key none, running := some (t, .removing rest) } := by
  obtain ⟨hlive, hadopted, hsaved⟩ := hinv.task t _ hrunning
  obtain ⟨hne, hproject, hall⟩ := hadopted key List.mem_cons_self
  -- what is stored afterwards was stored before, under another key
  have hold : ∀ k changes, Function.update s.storage key none k = some (.queue changes) →
      k ≠ key ∧ s.storage k = some (.queue changes) := by
    intro k changes hstored
    rcases eq_or_ne k key with rfl | hk
    · rw [Function.update_self] at hstored
      cases hstored
    · rw [Function.update_of_ne hk] at hstored
      exact ⟨hk, hstored⟩
  have hstill : ∀ k, k ≠ key → ∀ c, StoredAt s k c →
      StoredAt { s with
        storage := Function.update s.storage key none
        running := some (t, .removing rest) } k c := by
    rintro k hk c ⟨changes, hstored, hc⟩
    exact ⟨changes, (Function.update_of_ne hk _ _).trans hstored, hc⟩
  constructor
  · intro u n hn
    rcases hinv.kept u n hn with hhanded | hdropped | ⟨k, hk, hc⟩ | hunsaved
    · exact Or.inl hhanded
    · exact Or.inr (Or.inl hdropped)
    · rcases eq_or_ne k key with rfl | hkey
      · have hout := hall _ hc
        cases hlast : (s.tabs t).saved with
        | true =>
            refine Or.inr (Or.inr (Or.inl ⟨t, hproject ▸ hk, ?_⟩))
            exact hstill t hne.symm _ (hsaved hlast _ hout)
        | false => exact Or.inr (Or.inr (Or.inr ⟨t, hlive, hlast, hout⟩))
      · exact Or.inr (Or.inr (Or.inl ⟨k, hk, hstill k hkey _ hc⟩))
    · exact Or.inr (Or.inr (Or.inr hunsaved))
  · rintro u hu c ⟨changes, hstored, hc⟩
    exact hinv.own u hu c ⟨changes, (hold u changes hstored).2, hc⟩
  · exact hinv.numbered
  · exact hinv.handed
  · exact hinv.outboxes
  · intro k changes hstored
    exact hinv.queues k changes (hold k changes hstored).2
  · exact hinv.project
  · rintro k c ⟨changes, hstored, hc⟩
    exact hinv.stored k c ⟨changes, (hold k changes hstored).2, hc⟩
  · intro u task hrun
    obtain ⟨rfl, rfl⟩ := Prod.mk.inj (Option.some.inj hrun)
    refine ⟨hlive, ?_, ?_⟩
    · intro k hk
      obtain ⟨hk, hkproject, hkall⟩ := hadopted k (List.mem_cons_of_mem key hk)
      refine ⟨hk, hkproject, ?_⟩
      rintro c ⟨changes, hstored, hc⟩
      exact hkall c ⟨changes, (hold k changes hstored).2, hc⟩
    · intro hyes c hc
      exact hstill t hne.symm c (hsaved hyes c hc)

omit [DecidableEq T] in
/-- The first changes of the outbox are handed over. -/
theorem OutboxInv.hand (hinv : OutboxInv projectId s) (sent : Nat) :
    OutboxInv projectId { s with handed := s.handed ++ (s.tabs t).outbox.take sent } := by
  have hmore : ∀ c ∈ s.handed, c ∈ s.handed ++ (s.tabs t).outbox.take sent :=
    fun c hc => List.mem_append_left _ hc
  exact { hinv with
    kept := fun u n hn => (hinv.kept u n hn).imp_left (hmore _)
    own := fun u hu c hc => (hinv.own u hu c hc).imp_right (hmore c)
    numbered := fun u hu n hn => (hinv.numbered u hu n hn).imp_right (hmore _)
    handed := by
      apply hinv.handed.append
      have hready := hinv.outboxes t
      rw [← List.take_append_drop sent (s.tabs t).outbox] at hready
      exact hready.left
    outboxes := fun u => (hinv.outboxes u).mono hmore
    queues := fun key changes hstored => (hinv.queues key changes hstored).mono hmore
    task := fun u task hrunning =>
      ⟨(hinv.task u task hrunning).1, (hinv.task u task hrunning).2.of_eq rfl rfl rfl⟩ }

/-- The outbox is cleared when all of it is handed over. -/
theorem OutboxInv.clear (hinv : OutboxInv projectId s) (hlive : (s.tabs t).crashed = false)
    (hidle : s.running = none) (hhanded : ∀ c ∈ (s.tabs t).outbox, c ∈ s.handed) :
    OutboxInv projectId (s.put t { s.tabs t with outbox := [] }) := by
  apply @OutboxInv.setTab _ _ _ _ _ _ hinv hlive _ s.running
  · exact hlive
  · exact fun c hc => Or.inr (hhanded c hc)
  · exact id
  · exact fun n hn => Or.inl hn
  · trivial
  · nofun
  · intro u task hrunning
    exact nomatch hidle.symm.trans hrunning

theorem OutboxInv.flush (hinv : OutboxInv projectId s) (hidle : s.running = none)
    (hlive : (s.tabs t).crashed = false) (sent : Nat) (written : Bool) :
    OutboxInv projectId (s.flushOutbox t sent written) := by
  have hhand := @OutboxInv.hand T P projectId s t hinv sent
  unfold Profile.flushOutbox
  dsimp only
  split
  · exact hinv
  · split
    · exact hhand
    · rename_i hall
      apply OutboxInv.persist
      · apply hhand.clear hlive hidle
        intro c hc
        apply List.mem_append_right
        rw [List.take_of_length_le (not_lt.mp hall)]
        exact hc
      · rw [put_tabs_self]
        exact hlive
      · intro u task hrunning
        exact nomatch hidle.symm.trans hrunning

/-- What only the outbox of a crashed tab had is dropped. -/
theorem OutboxInv.crash (hinv : OutboxInv projectId s) : OutboxInv projectId (s.crash t) := by
  have htabs : ∀ u, u ≠ t → (s.crash t).tabs u = s.tabs u := fun u hne => put_tabs_of_ne _ hne
  have hself : (s.crash t).tabs t = { s.tabs t with crashed := true } := put_tabs_self _
  have hlive : ∀ u, ((s.crash t).tabs u).crashed = false → u ≠ t := by
    rintro u hu rfl
    rw [hself] at hu
    cases hu
  have hdrop : ∀ c, c ∈ s.dropped ∨ (s.tabs t).saved = false ∧ c ∈ (s.tabs t).outbox →
      c ∈ (s.crash t).dropped := by
    intro c hc
    simp only [Profile.crash]
    rcases hc with hold | ⟨hunsaved, hc⟩
    · split
      · exact hold
      · exact List.mem_append_left _ hold
    · rw [hunsaved, if_neg Bool.false_ne_true]
      exact List.mem_append_right _ hc
  constructor
  · intro u n hn
    have hn : n < (s.tabs u).queued := by
      rcases eq_or_ne u t with rfl | hne
      · rwa [hself] at hn
      · rwa [htabs u hne] at hn
    rcases hinv.kept u n hn with hhanded | hdropped | hstored | ⟨v, hv, hunsaved, hc⟩
    · exact Or.inl hhanded
    · exact Or.inr (Or.inl (hdrop _ (Or.inl hdropped)))
    · exact Or.inr (Or.inr (Or.inl hstored))
    · rcases eq_or_ne v t with rfl | hne
      · exact Or.inr (Or.inl (hdrop _ (Or.inr ⟨hunsaved, hc⟩)))
      · refine Or.inr (Or.inr (Or.inr ⟨v, ?_⟩))
        rw [htabs v hne]
        exact ⟨hv, hunsaved, hc⟩
  · intro u hu c hc
    have hne := hlive u hu
    rw [htabs u hne] at hu ⊢
    exact hinv.own u hu c hc
  · intro u hu n hn
    have hne := hlive u hu
    rw [htabs u hne] at hu hn ⊢
    exact hinv.numbered u hu n hn
  · exact hinv.handed
  · intro u
    rcases eq_or_ne u t with rfl | hne
    · rw [hself]
      exact hinv.outboxes u
    · rw [htabs u hne]
      exact hinv.outboxes u
  · exact hinv.queues
  · intro u c hc
    rcases eq_or_ne u t with rfl | hne
    · rw [hself] at hc
      exact hinv.project u c hc
    · rw [htabs u hne] at hc
      exact hinv.project u c hc
  · exact hinv.stored
  · intro u task hrunning
    simp only [Profile.crash] at hrunning
    split at hrunning
    · cases hrunning
    · rename_i hother
      have hne : u ≠ t := by
        rintro rfl
        rw [hrunning] at hother
        exact hother rfl
      obtain ⟨hu, hok⟩ := hinv.task u task hrunning
      rw [htabs u hne]
      refine ⟨hu, hok.of_eq rfl ?_ ?_⟩
      · rw [htabs u hne]
      · rw [htabs u hne]

theorem OutboxInv.send (hinv : OutboxInv projectId s) (hcall : s.MayCall t)
    (hlive : (s.tabs t).crashed = false) (written : Bool) :
    OutboxInv projectId (s.sendChange t written) := by
  unfold Profile.sendChange
  dsimp only
  split
  · exact hinv
  · have hsame : (s.put t { s.tabs t with
        outbox := (s.tabs t).outbox ++ [⟨t, (s.tabs t).queued⟩]
        queued := (s.tabs t).queued + 1 }).persistOutbox t written =
        (s.put t { s.tabs t with
          outbox := (s.tabs t).outbox ++ [⟨t, (s.tabs t).queued⟩]
          queued := (s.tabs t).queued + 1
          saved := false }).persistOutbox t written := by
      cases written <;> simp [Profile.persistOutbox, Profile.put]
    rw [hsame]
    apply (hinv.queue hlive hcall).persist
    · rw [put_tabs_self]
      exact hlive
    · exact calling_of_mayCall hcall

theorem outboxInv_of_step {next : Profile T} (hinv : OutboxInv projectId s)
    (hstep : Step projectId s next) : OutboxInv projectId next := by
  cases hstep with
  | connect hidle hlive => exact hinv.socket false _
  | opened hidle hlive => exact hinv.socket true true
  | closed hcall hlive => exact hinv.socket false _
  | sendChange hcall hlive => exact hinv.send hcall hlive _
  | @document t hidle hlive hopen hawaiting =>
      apply (hinv.socket _ false).running
      intro u task hrun
      obtain ⟨rfl, rfl⟩ := Prod.mk.inj (Option.some.inj hrun)
      rw [put_tabs_self]
      exact ⟨hlive, trivial⟩
  | adopt hrunning hkeys => exact hinv.adopt hrunning hkeys
  | @persist t keys written hrunning =>
      obtain ⟨hlive, hadopted⟩ := hinv.task t _ hrunning
      have hcalling : Calling s t := by
        intro u task hrun
        obtain ⟨rfl, rfl⟩ := Prod.mk.inj (Option.some.inj (hrunning.symm.trans hrun))
        exact ⟨rfl, nofun⟩
      have hpersist := hinv.persist hlive hcalling written
      apply hpersist.running
      intro u task hrun
      obtain ⟨rfl, rfl⟩ := Prod.mk.inj (Option.some.inj hrun)
      refine ⟨(outbox_persist written t).2.1.trans hlive, ?_, ?_⟩
      · exact (hpersist.task t (.persisting keys)
          ((@rest_persist T _ s t written).2.2.trans hrunning)).2
      · intro hsaved c hc
        cases written with
        | true =>
            rw [(outbox_persist true t).1] at hc
            exact storedAt_persist hc
        | false =>
            rw [tabs_persist, put_tabs_self] at hsaved
            cases hsaved
  | remove hrunning => exact hinv.remove hrunning
  | @removed t keys hrunning =>
      apply hinv.running
      intro u task hrun
      obtain ⟨rfl, rfl⟩ := Prod.mk.inj (Option.some.inj hrun)
      exact ⟨(hinv.task t _ hrunning).1, trivial⟩
  | @flush t sent written hrunning =>
      have hidle : OutboxInv projectId { s with running := none } := hinv.running nofun
      have hsame : { s.flushOutbox t sent written with running := none } =
          ({ s with running := none } : Profile T).flushOutbox t sent written := by
        unfold Profile.flushOutbox
        dsimp only
        split
        · rfl
        · split
          · rfl
          · cases written <;> rfl
      rw [hsame]
      exact hidle.flush rfl (hinv.task t _ hrunning).1 sent written
  | crash hlive => exact hinv.crash

omit [DecidableEq T] in
theorem outboxInv_started (junk : T → Bool) : OutboxInv projectId (started junk) := by
  have hnone : ∀ key c, ¬StoredAt (started junk) key c := by
    rintro key c ⟨changes, hstored, -⟩
    simp only [started] at hstored
    split at hstored
    · cases hstored
    · cases hstored
  constructor
  · intro t n hn
    exact absurd hn (Nat.not_lt_zero n)
  · intro t _ c hc
    exact absurd hc (hnone t c)
  · intro t _ n hn
    exact absurd hn (Nat.not_lt_zero n)
  · trivial
  · intro t
    trivial
  · intro key changes hstored
    simp only [started] at hstored
    split at hstored
    · cases hstored
    · cases hstored
  · intro t c hc
    cases hc
  · intro key c hc
    exact absurd hc (hnone key c)
  · nofun

/-- Readable texts are read one after the other. -/
theorem recovers_of_readable (hreadable : Readable projectId s t) : Recovers projectId s t := by
  intro keys hrunning hkeys key hkey changes hstored c hc
  have hread : ∀ l : List T, (∀ k ∈ l, projectId k = projectId t) →
      ∃ adopted, s.readOrphans l = some adopted := by
    intro l hl
    induction l with
    | nil => exact ⟨[], rfl⟩
    | cons k rest ih =>
        obtain ⟨adopted, hadopted⟩ := ih fun k' hk' => hl k' (List.mem_cons_of_mem k hk')
        rw [Profile.readOrphans]
        split
        · exact ⟨adopted, hadopted⟩
        · rename_i stored _
          rw [hadopted]
          exact ⟨stored ++ adopted, rfl⟩
        · rename_i hjunk
          exact absurd hjunk (hreadable k (hl k List.mem_cons_self))
  obtain ⟨adopted, hadopted⟩ := hread keys fun k hk => ((hkeys k).mp hk).2.1
  have hsome : keys.isEmpty = false := by
    rw [List.isEmpty_eq_false_iff]
    exact List.ne_nil_of_mem hkey
  simp only [Profile.adoptOrphanOutboxes, hsome, Bool.false_eq_true, if_false, hadopted]
  rw [put_tabs_self]
  exact List.mem_append_left _ ((mem_readOrphans hadopted c).mpr ⟨key, hkey, changes, hstored, hc⟩)

/-- No queued change is lost but with a tab that crashes when its last write has
failed; the changes of a tab are sent in order; and an adoption recovers every
queue of the project when all can be read. -/
theorem outbox_of_run {junk : T → Bool}
    (hrun : Run.Reaches (Step projectId) (started junk) s) :
    Kept projectId s s.dropped ∧ InOrder s ∧
      ∀ t, Readable projectId s t → Recovers projectId s t := by
  have hinv : OutboxInv projectId s := by
    apply Run.Reaches.invariant hrun
    · exact outboxInv_started junk
    · exact fun a b hstep hinv => outboxInv_of_step hinv hstep
  refine ⟨?_, hinv.handed, fun t => recovers_of_readable⟩
  intro t n hn
  rcases hinv.kept t n hn with hhanded | hdropped | ⟨key, hkey, changes, hc⟩ | ⟨u, hu, -, hc⟩
  · exact Or.inr (Or.inr (Or.inl hhanded))
  · exact Or.inr (Or.inr (Or.inr hdropped))
  · exact Or.inl ⟨key, changes, hkey, hc⟩
  · exact Or.inr (Or.inl ⟨u, hu, hc⟩)

end Preserved

def oneProject (_ : Fin 2) : String := "default"

def newProfile : Profile (Fin 2) := started fun _ => false

/-- A tab queues a change and crashes; the other one adopts and sends it. -/
theorem outbox_adopted : ∃ s, Run.Reaches (Step oneProject) newProfile s ∧
    s.handed = [⟨0, 0⟩] ∧ Kept oneProject s s.dropped ∧ InOrder s ∧
      ∀ t, Readable oneProject s t → Recovers oneProject s t := by
  have hqueued := Relation.ReflTransGen.single (r := Step oneProject) (a := newProfile)
    (@Step.sendChange _ _ _ _ _ 0 true (Or.inl rfl) rfl)
  have hcrashed := hqueued.tail (@Step.crash _ _ _ _ _ 0 rfl)
  have hopened := hcrashed.tail (@Step.opened _ _ _ _ _ 1 rfl rfl)
  have hdocument := hopened.tail (@Step.document _ _ _ _ _ 1 rfl rfl rfl rfl)
  have hadopted := hdocument.tail (@Step.adopt _ _ _ _ _ 1 [0] rfl (by unfold OrphanKeys; decide))
  have hpersisted := hadopted.tail (@Step.persist _ _ _ _ _ 1 [0] true rfl)
  have hremoved := hpersisted.tail (@Step.remove _ _ _ _ _ 1 0 [] rfl)
  have hfinished := hremoved.tail (@Step.removed _ _ _ _ _ 1 [] rfl)
  have hflushed := hfinished.tail (@Step.flush _ _ _ _ _ 1 1 true rfl)
  exact ⟨_, hflushed, rfl, outbox_of_run hflushed⟩

/-- A change whose write fails is gone with its tab. -/
theorem not_outbox_failedWrite :
    ¬∀ s, Run.Reaches (Step oneProject) newProfile s →
      Kept oneProject s [] ∧ InOrder s ∧ ∀ t, Recovers oneProject s t := by
  intro hall
  have hqueued := Relation.ReflTransGen.single (r := Step oneProject) (a := newProfile)
    (@Step.sendChange _ _ _ _ _ 0 false (Or.inl rfl) rfl)
  have hcrashed := hqueued.tail (@Step.crash _ _ _ _ _ 0 rfl)
  rcases (hall _ hcrashed).1 0 0 (by decide) with ⟨key, changes, -, hstored, -⟩ |
    ⟨u, hlive, hc⟩ | hhanded | hexcused
  · cases hstored
  · match u, hlive, hc with
    | 0, hlive, _ => cases hlive
    | 1, _, hc => cases hc
  · cases hhanded
  · cases hexcused

end DawProject.Network.Outbox
