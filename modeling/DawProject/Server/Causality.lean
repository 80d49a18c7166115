import DawProject.Server.NoGap

/-!
The order of changes on the channel. Changes are persisted under a lock and
broadcast after it is released, so the channel may carry a change before one it
depends on. It does not when no session broadcasts ahead of a change its own
depends on, none submits a change the file already holds, and none is aborted
while it writes.
-/

namespace DawProject.Server

open Document.Exchange (Doc apply_change)

section Store

variable {H : Type} [DecidableEq H] {deps : H → List H} {seed : List H}

/-- A change with a missing dependency is buffered, and counted as missing. -/
theorem missing_of_unready {history : List H} {change : H}
    (hdeps : change ∉ deps change) (hready : ¬ ∀ d ∈ deps change, d ∈ history) :
    0 < (Doc.getMissingDeps deps { history := history, queue := [change] }).length := by
  push Not at hready
  obtain ⟨d, hd, hout⟩ := hready
  apply List.length_pos_of_mem (a := d)
  have hne : d ≠ change := by
    rintro rfl
    exact hdeps hd
  simp [Document.Exchange.Doc.getMissingDeps, hd, hout, hne]

/-- A document that buffers nothing takes a change with its dependencies or
refuses it. -/
theorem apply_change_cases (hdeps : ∀ change, change ∉ deps change) {file : Option (Doc H)}
    (hfile : (file.getD { history := seed }).Settled deps) (change : H) :
    (∃ doc, apply_change deps seed file change = some doc ∧ doc.Settled deps ∧
      ∀ h, h ∈ doc.history ↔ h ∈ (file.getD { history := seed }).history ∨ h = change) ∨
    apply_change deps seed file change = none ∧
      ¬∀ d ∈ deps change, d ∈ (file.getD { history := seed }).history := by
  unfold apply_change
  dsimp only
  rw [hfile.eq]
  have hordered := hfile.ordered
  generalize (file.getD { history := seed }).history = history at hordered
  by_cases hin : change ∈ history
  · have hsame :
        Doc.applyChanges deps { history := history } [change] = { history := history } := by
      simp [Document.Exchange.Doc.applyChanges, Document.Exchange.Doc.receive, hin,
        Document.Exchange.Doc.drain]
    left
    rw [hsame, if_neg (Nat.lt_irrefl _)]
    refine ⟨_, rfl, ⟨hordered, rfl⟩, ?_⟩
    intro h
    constructor
    · exact Or.inl
    · rintro (hh | rfl)
      · exact hh
      · exact hin
  · by_cases hready : ∀ d ∈ deps change, d ∈ history
    · have hext : Causal.Extends deps history [change] := ⟨hin, hready, trivial⟩
      left
      rw [Document.Exchange.applyChanges_of_extends hext,
        Document.Exchange.getMissingDeps_of_settled, Document.Exchange.getMissingDeps_of_settled,
        if_neg (Nat.lt_irrefl _)]
      refine ⟨_, rfl, ⟨hordered.append hext, rfl⟩, ?_⟩
      intro h
      rw [List.mem_append, List.mem_singleton]
    · have hbuffered : Doc.applyChanges deps { history := history } [change] =
          { history := history, queue := [change] } := by
        have hno : Document.Exchange.isCausallyReady deps history change = false := by
          rw [Bool.eq_false_iff]
          intro hyes
          rw [Document.Exchange.isCausallyReady, List.all_eq_true] at hyes
          exact hready fun d hd => of_decide_eq_true (hyes d hd)
        simp [Document.Exchange.Doc.applyChanges, Document.Exchange.Doc.receive, hin,
          Document.Exchange.Doc.drain, hno]
      have hmissing := missing_of_unready (hdeps change) hready
      right
      rw [hbuffered, Document.Exchange.getMissingDeps_of_settled, List.length_nil,
        if_pos hmissing]
      exact ⟨rfl, hready⟩

theorem settled_of_apply_change (hdeps : ∀ change, change ∉ deps change)
    {file : Option (Doc H)} {change : H} {doc : Doc H}
    (hfile : (file.getD { history := seed }).Settled deps)
    (happly : apply_change deps seed file change = some doc) : doc.Settled deps := by
  rcases apply_change_cases hdeps hfile change with ⟨next, hnext, hsettled, -⟩ | ⟨hnone, -⟩
  · rw [happly] at hnext
    rwa [Option.some.inj hnext]
  · rw [happly] at hnone
    cases hnone

end Store

section Order

variable {H : Type} (deps : H → List H)

/-- `a` depends on `b`, directly or not. -/
abbrev Needs : H → H → Prop := Relation.TransGen fun a b => b ∈ deps a

/-- No session broadcasts a change ahead of one it needs that another session
is still to broadcast. -/
def BroadcastsInOrder (s t : AppState H) : Prop :=
  ∀ change, t.broadcasted = s.broadcasted ++ [change] →
    ∀ k other, (s.sessions k).phase.pending = some other → ¬ Needs deps change other

/-- No task asks the store for a change that the file holds. -/
def AsksForNew (seed : List H) (s : AppState H) : Prop :=
  ∀ i data change, (s.sessions i).phase = .live data (.reading change) →
    change ∉ known (s.file.getD { history := seed })

/-- The changes a session got from the channel, in order. -/
def Session.heard (session : Session H) : List H :=
  (session.received ++ session.inbox).filterMap fun msg =>
    match msg with
    | .change change => some change
    | .signal => none

/-- What a document on its way to the disk is to the file it replaces. -/
def AddsNew (seed : List H) (file : Option (Doc H)) (change : H) (doc : Doc H) : Prop :=
  Grows seed file change doc ∧ doc.Settled deps ∧
    change ∉ known (file.getD { history := seed })

/-- The order of the log of the channel, and what is still to come. -/
structure InOrder (seed : List H) (s : AppState H) : Prop where
  guarded : Guarded seed (AddsNew deps seed) s
  durable : ∀ change ∈ s.broadcasted, change ∈ s.persisted
  settled : (s.file.getD { history := seed }).Settled deps
  log : s.broadcasted.Pairwise fun first later => ¬ Needs deps first later
  coming : ∀ k change, (s.sessions k).phase.pending = some change →
    ∀ first ∈ s.broadcasted, ¬ Needs deps first change
  heard : ∀ j, (s.sessions j).heard.Sublist s.broadcasted

end Order

section Heard

variable {H : Type} {session : Session H}

theorem heard_push_signal : (session.push .signal).heard.Sublist session.heard := by
  unfold Session.push
  split
  · exact List.Sublist.refl _
  · split
    · simp only [Session.heard, List.filterMap_append, List.filterMap_cons, List.filterMap_nil,
        List.append_nil]
      exact ((List.tail_sublist _).filterMap _).append_left _
    · simp only [Session.heard, List.filterMap_append, List.filterMap_cons, List.filterMap_nil,
        List.append_nil]
      exact List.Sublist.refl _

theorem heard_push_change (change : H) :
    (session.push (.change change)).heard.Sublist (session.heard ++ [change]) := by
  unfold Session.push
  split
  · exact List.sublist_append_left _ _
  · split
    · simp only [Session.heard, List.filterMap_append, List.filterMap_cons, List.filterMap_nil,
        List.append_assoc]
      exact (((List.tail_sublist _).filterMap _).append_right _).append_left _
    · simp only [Session.heard, List.filterMap_append, List.filterMap_cons, List.filterMap_nil,
        List.append_assoc]
      exact List.Sublist.refl _

end Heard

section Facts

variable {H : Type} {s t : AppState H}

theorem pending_enter {i k : Nat} {phase : Phase H} {change : H}
    (hk : ((s.enter i phase).sessions k).phase.pending = some change)
    (hphase : phase.pending = none ∨ phase.pending = (s.sessions i).phase.pending) :
    (s.sessions k).phase.pending = some change := by
  rw [sessions_enter] at hk
  dsimp only at hk
  split at hk
  · rename_i hki
    rw [hki]
    rcases hphase with hnone | hsame
    · rw [hnone] at hk
      cases hk
    · rwa [hsame] at hk
  · exact hk

variable [DecidableEq H] {deps : H → List H} {seed : List H}

/-- A change that waits for its broadcast waited for it before the step, or is
the one that the step brought to the disk. -/
theorem pending_of_step (hstep : Step deps seed s t) {k : Nat} {change : H}
    (hk : (t.sessions k).phase.pending = some change) :
    (s.sessions k).phase.pending = some change ∨
      ∃ data, (s.sessions k).phase = .live data (.moving change) := by
  cases hstep with
  | @rename i data doc c hphase htmp =>
      change ((s.enter i (.live data (.renamed c))).sessions k).phase.pending = some change at hk
      rw [sessions_enter] at hk
      dsimp only at hk
      split at hk
      · rename_i hki
        cases hk
        rw [hki]
        exact Or.inr ⟨data, hphase⟩
      · exact Or.inl hk
  | @unlockStore i data c hphase =>
      exact Or.inl (pending_enter hk (Or.inr (by rw [hphase]; rfl)))
  | @forward i data recv msg rest hphase hinbox =>
      left
      dsimp only at hk
      split at hk
      · rename_i hki
        rwa [hki]
      · exact hk
  | signal hphase => rw [phase_send] at hk; exact Or.inl hk
  | @broadcast i data c hphase =>
      have hsent := pending_enter hk (Or.inl rfl)
      rw [phase_send] at hsent
      exact Or.inl hsent
  | @cleanup i hphase =>
      left
      dsimp only at hk
      split at hk
      · cases hk
      · exact hk
  | lateWrite hdetached => exact Or.inl hk
  | lateRename hdetached htmp => exact Or.inl hk
  | _ => exact Or.inl (pending_enter hk (Or.inl rfl))

/-- The channel carries what it did, or one more change that no longer waits. -/
theorem heard_of_step (hstep : Step deps seed s t) :
    (t.broadcasted = s.broadcasted ∧ ∀ j, (t.sessions j).heard.Sublist (s.sessions j).heard) ∨
      ∃ i data change, (s.sessions i).phase = .live data (.broadcasting change) ∧
        t.broadcasted = s.broadcasted ++ [change] ∧
        ∀ j, (t.sessions j).heard.Sublist ((s.sessions j).heard ++ [change]) := by
  have henter : ∀ (i : Nat) (phase : Phase H) (j : Nat),
      ((s.enter i phase).sessions j).heard.Sublist (s.sessions j).heard := by
    intro i phase j
    rw [sessions_enter]
    exact List.Sublist.refl _
  cases hstep with
  | @forward i data recv msg rest hphase hinbox =>
      refine Or.inl ⟨rfl, ?_⟩
      intro j
      dsimp only
      split
      · rename_i hji
        rw [hji]
        simp only [Session.heard, hinbox, List.append_assoc, List.singleton_append]
        exact List.Sublist.refl _
      · exact List.Sublist.refl _
  | @signal i data hphase =>
      left
      unfold AppState.send
      split
      · exact ⟨rfl, fun j => List.Sublist.refl _⟩
      · exact ⟨rfl, fun j => heard_push_signal⟩
  | @broadcast i data change hphase =>
      refine Or.inr ⟨i, data, change, hphase, rfl, ?_⟩
      intro j
      change (((s.send _).enter i _).sessions j).heard.Sublist _
      rw [sessions_enter]
      unfold AppState.send
      split
      · exact List.sublist_append_left _ _
      · exact heard_push_change change
  | @cleanup i hphase =>
      refine Or.inl ⟨rfl, ?_⟩
      intro j
      dsimp only
      split
      · exact List.nil_sublist _
      · exact List.Sublist.refl _
  | seedRename hphase htmp => exact Or.inl ⟨rfl, fun j => henter _ _ j⟩
  | rename hphase htmp => exact Or.inl ⟨rfl, fun j => henter _ _ j⟩
  | lateWrite hdetached => exact Or.inl ⟨rfl, fun j => List.Sublist.refl _⟩
  | lateRename hdetached htmp => exact Or.inl ⟨rfl, fun j => List.Sublist.refl _⟩
  | _ => exact Or.inl ⟨rfl, fun j => henter _ _ j⟩

end Facts

section Causal

variable {H : Type} [DecidableEq H] {deps : H → List H} {seed : List H} {s t : AppState H}

omit [DecidableEq H] in
/-- What is on the disk does not need what is not. -/
theorem InOrder.not_needs (hs : InOrder deps seed s) {first change : H}
    (hfirst : first ∈ s.persisted)
    (hnew : change ∉ known (s.file.getD { history := seed })) : ¬ Needs deps first change := by
  intro hneeds
  obtain ⟨doc, hdoc, hknown⟩ := (hs.guarded.persisted first).mp hfirst
  have hsettled := hs.settled
  rw [hdoc, Option.getD_some] at hnew hsettled
  rw [known, hsettled.queue, List.append_nil] at hknown hnew
  exact hnew (hsettled.ordered.mem_of_dependsOn hknown hneeds.to_reflTransGen)

/-- The file buffers nothing. -/
theorem InOrder.settled_of_step (hs : InOrder deps seed s) (hseed : Causal.Extends deps [] seed)
    (hstep : Step deps seed s t) : (t.file.getD { history := seed }).Settled deps := by
  cases hstep with
  | @seedRename i doc hphase htmp =>
      have hok := hs.guarded.file i
      rw [hphase] at hok
      have hdoc : doc = { history := seed } := by
        have hseedDoc := hok.2
        rw [htmp] at hseedDoc
        exact Option.some.inj hseedDoc
      rw [hdoc]
      exact ⟨hseed, rfl⟩
  | @rename i data doc change hphase htmp =>
      have hok := hs.guarded.file i
      rw [hphase] at hok
      obtain ⟨doc', htmp', hadds⟩ := hok
      rw [htmp] at htmp'
      cases htmp'
      exact hadds.2.1
  | lateRename hdetached htmp =>
      rw [hs.guarded.detached] at hdetached
      exact absurd hdetached.symm (by simp)
  | signal hphase =>
      unfold AppState.send
      split <;> exact hs.settled
  | @broadcast i data change hphase =>
      have hfile : ((s.send (.change change)).file) = s.file := by
        unfold AppState.send
        split <;> rfl
      change ((s.send (.change change)).file.getD { history := seed }).Settled deps
      rw [hfile]
      exact hs.settled
  | _ => exact hs.settled

/-- No change on the channel needs one that is still to be sent. -/
theorem InOrder.coming_of_step (hs : InOrder deps seed s) (horder : BroadcastsInOrder deps s t)
    (hstep : Step deps seed s t) :
    ∀ k change, (t.sessions k).phase.pending = some change →
      ∀ first ∈ t.broadcasted, ¬ Needs deps first change := by
  intro k change hk first hfirst
  rcases pending_of_step hstep hk with hbefore | ⟨data, hmoving⟩
  · rcases heard_of_step hstep with ⟨hsame, _⟩ | ⟨i, data, sent, _, hgrown, _⟩
    · rw [hsame] at hfirst
      exact hs.coming k change hbefore first hfirst
    · rw [hgrown] at hfirst
      rcases List.mem_append.mp hfirst with hold | hlast
      · exact hs.coming k change hbefore first hold
      · rw [List.mem_singleton.mp hlast]
        exact horder sent hgrown k change hbefore
  · -- The change has just been persisted: it was not in the file before.
    have hok := hs.guarded.file k
    rw [hmoving] at hok
    obtain ⟨doc, _, hadds⟩ := hok
    apply hs.not_needs _ hadds.2.2
    rcases heard_of_step hstep with ⟨hsame, _⟩ | ⟨i, data, sent, hphase, hgrown, _⟩
    · rw [hsame] at hfirst
      exact hs.durable first hfirst
    · rw [hgrown] at hfirst
      rcases List.mem_append.mp hfirst with hold | hlast
      · exact hs.durable first hold
      · have hsent := hs.guarded.file i
        rw [hphase] at hsent
        rw [List.mem_singleton.mp hlast]
        exact hsent

theorem inOrder_of_step (hdeps : ∀ change, change ∉ deps change)
    (hseed : Causal.Extends deps [] seed) (hs : InOrder deps seed s) (hasks : AsksForNew seed s)
    (horder : BroadcastsInOrder deps s t) (hstep : Step deps seed s t) : InOrder deps seed t := by
  refine ⟨?_, ?_, hs.settled_of_step hseed hstep, ?_, hs.coming_of_step horder hstep, ?_⟩
  · apply guarded_of_step (fun _ _ _ h => h.1) _ hs.guarded hstep
    intro i data change doc hphase happly
    exact ⟨mem_known_of_apply_change happly, settled_of_apply_change hdeps hs.settled happly,
      hasks i data change hphase⟩
  · exact broadcasted_of_step hs.guarded hs.durable hstep
  · rcases heard_of_step hstep with ⟨hsame, _⟩ | ⟨i, data, change, hphase, hgrown, _⟩
    · rw [hsame]
      exact hs.log
    · rw [hgrown, List.pairwise_append]
      refine ⟨hs.log, List.pairwise_singleton _ _, ?_⟩
      intro first hfirst later hlater
      rw [List.mem_singleton.mp hlater]
      apply hs.coming i change _ first hfirst
      rw [hphase]
      rfl
  · intro j
    rcases heard_of_step hstep with ⟨hsame, hheard⟩ | ⟨i, data, change, _, hgrown, hheard⟩
    · rw [hsame]
      exact (hheard j).trans (hs.heard j)
    · rw [hgrown]
      exact (hheard j).trans ((hs.heard j).append_right _)

/-- The steps of sessions that submit new changes and broadcast them in order. -/
def OrderlyStep (deps : H → List H) (seed : List H) (s t : AppState H) : Prop :=
  Step deps seed s t ∧ AsksForNew seed s ∧ BroadcastsInOrder deps s t

theorem inOrder_of_run (hdeps : ∀ change, change ∉ deps change)
    (hseed : Causal.Extends deps [] seed) (file : Option (Doc H))
    (hfile : ∀ doc ∈ file, doc.Settled deps)
    (hrun : Run.Reaches (OrderlyStep deps seed) (started file) s) : InOrder deps seed s := by
  apply hrun.invariant (P := InOrder deps seed)
  · refine ⟨guarded_started seed _ file, ?_, ?_, List.Pairwise.nil, ?_, ?_⟩
    · intro change hchange
      cases hchange
    · cases file with
      | none => exact ⟨hseed, rfl⟩
      | some doc => exact hfile doc rfl
    · intro k change hk
      cases hk
    · intro j
      exact List.Sublist.refl _
  · intro a b hstep ha
    exact inOrder_of_step hdeps hseed ha hstep.2.1 hstep.2.2 hstep.1

end Causal

section Examples

/-- Changes that need nothing. -/
abbrev alone : Nat → List Nat := fun _ => []

theorem not_needs_alone (a b : Nat) : ¬ Needs alone a b := by
  intro hneeds
  cases hneeds with
  | single h => cases h
  | tail _ h => cases h

theorem not_mem_alone (change : Nat) : change ∉ alone change := List.not_mem_nil

theorem settled_seedDoc : ({ history := [0] } : Doc Nat).Settled alone :=
  ⟨⟨by decide, by simp, trivial⟩, rfl⟩

theorem settled_seedFile : ∀ doc ∈ some ({ history := [0] } : Doc Nat), doc.Settled alone := by
  rintro _ ⟨⟩
  exact settled_seedDoc

/-- One step of changes that need nothing, when the lock holder asks for a new
one. -/
theorem orderly_tail {s t : AppState Nat}
    (hrun : Run.Reaches (OrderlyStep alone [0]) seedFile s) (hstep : Step alone [0] s t)
    (hasks : ∀ i ∈ s.store_lock, ∀ data change,
      (s.sessions i).phase = .live data (.reading change) →
      change ∉ known (s.file.getD { history := [0] })) :
    Run.Reaches (OrderlyStep alone [0]) seedFile t := by
  apply hrun.tail
  refine ⟨hstep, ?_, fun _ _ _ _ _ => not_needs_alone _ _⟩
  intro i data change hphase
  have hinOrder := inOrder_of_run not_mem_alone settled_seedDoc.ordered _ settled_seedFile hrun
  refine hasks i ?_ data change hphase
  apply hinOrder.guarded.lock i
  rw [hphase]
  rfl

/-- The change 8 needs the change 7. -/
def onSeven (change : Nat) : List Nat := if change = 8 then [7] else []

theorem not_mem_onSeven (change : Nat) : change ∉ onSeven change := by
  unfold onSeven
  split
  · rename_i hchange
    rw [hchange]
    decide
  · exact List.not_mem_nil

end Examples

end DawProject.Server
