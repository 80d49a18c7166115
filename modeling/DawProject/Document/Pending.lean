import DawProject.Document.Calls
import DawProject.Document.Exchange
import DawProject.Lib.Run
import DawProject.Lib.Stutter
import Mathlib.Logic.Function.Iterate

/-!
The changes that wait to be sent: `pendingChanges` of
`web/src/document/project.ts` over the mutators, undo and redo, the remote
changes and `load`, and `sendLastChange` of `web/src/app/context.ts`. A mutator
enqueues the last change of the local actor, not the one it has just made.
-/

namespace DawProject.Document

open Exchange (Doc)
open Stutter (Stutters)

/-- What the code uses of Automerge: what a change depends on and who made it,
what a document says, and the change that brings a document to a content. There
is none where nothing is written. -/
structure Automerge (H A : Type) where
  deps : H → List H
  author : H → A
  content : Doc H → ProjectDef
  change : A → Doc H → ProjectDef → Option H

/-- A change is made by the local actor, is new, and depends on changes of the
document. -/
structure Automerge.Lawful {H A : Type} (am : Automerge H A) : Prop where
  author : ∀ actor doc target h, am.change actor doc target = some h → am.author h = actor
  notMem : ∀ actor doc target h, am.change actor doc target = some h → h ∉ doc.history
  deps : ∀ actor doc target h, am.change actor doc target = some h →
    ∀ d ∈ am.deps h, d ∈ doc.history

/-- A project with the changes it has to send. `drained` and `authored` are
history that no step reads: since the last load, the changes that were handed
out and those the project made. -/
structure LocalProject (H A : Type) where
  doc : Doc H
  actor : A
  journal : UndoJournal InverseOp := {}
  pendingChanges : List H := []
  drained : List H := []
  authored : List H := []

inductive LocalCall (H A : Type) where
  | beginUndoGroup
  | endUndoGroup
  | edit (e : Edit)
  /-- With the callback that sends what waits, or without. -/
  | undo (emit : Bool) (freshId : Nat → String)
  | redo (emit : Bool) (freshId : Nat → String)
  /-- None where the bytes cannot be read, here and below. -/
  | applyChange (change : Option H)
  | mergeRemote (data : Option (Doc H))
  /-- The loaded document has a new actor. -/
  | load (data : Option (Doc H)) (actor : A)
  | getLastChange
  | sendLastChange

namespace LocalProject

variable {H A : Type} [DecidableEq H] [DecidableEq A] (am : Automerge H A)

/-- The changes of the local actor, in the order they were applied. -/
def localChanges (p : LocalProject H A) : List H :=
  p.doc.history.filter fun h => decide (am.author h = p.actor)

def getLastLocalChange (p : LocalProject H A) : Option H := (p.localChanges am).getLast?

def capturePending (p : LocalProject H A) : LocalProject H A :=
  match p.getLastLocalChange am with
  | some c => { p with pendingChanges := p.pendingChanges ++ [c] }
  | none => p

/-- `Automerge.change`. -/
def change (p : LocalProject H A) (target : ProjectDef) : LocalProject H A :=
  match am.change p.actor p.doc target with
  | some h =>
      { p with
        doc := { p.doc with history := p.doc.history ++ [h] }
        authored := p.authored ++ [h] }
  | none => p

/-- What a mutator does that is not ignored. -/
def write (p : LocalProject H A) (inverse : InverseOp) (target : ProjectDef) : LocalProject H A :=
  ({ p with journal := p.journal.capture targetKey inverse }.change am target).capturePending am

def edit (p : LocalProject H A) (e : Edit) : LocalProject H A :=
  match e (am.content p.doc) with
  | .throws _ => p
  | .ignored => p
  | .writes inverse target => p.write am inverse target

omit [DecidableEq H] [DecidableEq A] in
/-- Drain one change. -/
def getLastChange (p : LocalProject H A) : Option H × LocalProject H A :=
  match p.pendingChanges with
  | [] => (none, p)
  | c :: rest => (some c, { p with pendingChanges := rest, drained := p.drained ++ [c] })

omit [DecidableEq H] [DecidableEq A] in
/-- Drain until nothing waits. -/
def sendLastChange (p : LocalProject H A) : LocalProject H A :=
  (fun q : LocalProject H A => q.getLastChange.2)^[p.pendingChanges.length] p

/-- `replay`: a mutator that throws ends it. -/
def replay (emit : Bool) (freshId : Nat → String) :
    List InverseOp → LocalProject H A → LocalProject H A
  | [], p => p
  | op :: ops, p =>
      let emitted (q : LocalProject H A) := if emit then q.sendLastChange else q
      match mutatorOf (freshId ops.length) op (am.content p.doc) with
      | .throws _ => p
      | .ignored => replay emit freshId ops (emitted p)
      | .writes inverse target => replay emit freshId ops (emitted (p.write am inverse target))

def routeReplay (p : LocalProject H A) (direction : Route) (emit : Bool) (freshId : Nat → String)
    (ops : List InverseOp) : LocalProject H A :=
  let q := replay am emit freshId ops { p with journal := p.journal.enterReplay direction }
  { q with journal := q.journal.leaveReplay }

def undo (p : LocalProject H A) (emit : Bool) (freshId : Nat → String) : LocalProject H A :=
  match p.journal.popUndo with
  | none => p
  | some (ops, journal) => { p with journal := journal }.routeReplay am .toRedo emit freshId ops

def redo (p : LocalProject H A) (emit : Bool) (freshId : Nat → String) : LocalProject H A :=
  match p.journal.popRedo with
  | none => p
  | some (ops, journal) => { p with journal := journal }.routeReplay am .toUndo emit freshId ops

def step (seed : Doc H) (p : LocalProject H A) : LocalCall H A → LocalProject H A
  | .beginUndoGroup => { p with journal := p.journal.beginGroup }
  | .endUndoGroup => { p with journal := p.journal.endGroup }
  | .edit e => p.edit am e
  | .undo emit freshId => p.undo am emit freshId
  | .redo emit freshId => p.redo am emit freshId
  | .applyChange none => p
  | .applyChange (some c) => { p with doc := p.doc.applyChanges am.deps [c] }
  | .mergeRemote none => p
  | .mergeRemote (some data) => { p with doc := p.doc.merge am.deps data }
  -- the changes that wait are those of a document that is gone
  | .load data actor => { doc := data.getD seed, actor := actor }
  | .getLastChange => p.getLastChange.2
  | .sendLastChange => p.sendLastChange

/-- No one else makes changes under the local actor: what comes in under it is
there already, and a new actor is that of no change. -/
def Foreign (seed : Doc H) (p : LocalProject H A) : LocalCall H A → Prop
  | .applyChange (some c) => am.author c = p.actor → c ∈ p.doc.history
  | .mergeRemote (some data) => ∀ c ∈ data.history, am.author c = p.actor → c ∈ p.doc.history
  | .load data actor =>
      (∀ c ∈ (data.getD seed).history ++ (data.getD seed).queue, am.author c ≠ actor) ∧
        Causal.Extends am.deps [] (data.getD seed).history
  | _ => True

def LocalStep (seed : Doc H) (p next : LocalProject H A) : Prop :=
  ∃ call, Foreign am seed p call ∧ p.step am seed call = next

omit [DecidableEq H] [DecidableEq A] in
/-- What was handed out, and what waits behind it. -/
def sent (p : LocalProject H A) : List H := p.drained ++ p.pendingChanges

end LocalProject

open LocalProject (LocalStep)

/-- What holds of a project after every call. -/
structure LocalInv {H A : Type} [DecidableEq H] [DecidableEq A] (am : Automerge H A)
    (p : LocalProject H A) : Prop where
  authored : p.localChanges am = p.authored
  queue : ∀ c ∈ p.doc.queue, am.author c ≠ p.actor
  ordered : Causal.Extends am.deps [] p.doc.history
  past : ∀ before c after, p.authored = before ++ c :: after →
    ∀ d ∈ p.authored, Causal.DependsOn am.deps c d → d ∈ before ++ [c]
  sent : Stutters p.sent p.authored

section Apply

variable {H : Type} [DecidableEq H] (deps : H → List H)

theorem mem_receive (doc : Doc H) (change c : H) :
    (c ∈ (doc.receive deps change).history → c ∈ doc.history ∨ c = change) ∧
      (c ∈ (doc.receive deps change).queue → c ∈ doc.queue ∨ c = change ∧ c ∉ doc.history) := by
  unfold Doc.receive
  split
  · exact ⟨Or.inl, Or.inl⟩
  · rename_i hnew
    split
    · refine ⟨?_, Or.inl⟩
      intro hc
      exact (List.mem_append.mp hc).imp id List.mem_singleton.mp
    · refine ⟨Or.inl, ?_⟩
      intro hc
      rcases List.mem_append.mp hc with hold | hlast
      · exact Or.inl hold
      · obtain rfl := List.mem_singleton.mp hlast
        exact Or.inr ⟨rfl, hnew⟩

theorem mem_drain (fuel : Nat) (doc : Doc H) (c : H) :
    (c ∈ (doc.drain deps fuel).history → c ∈ doc.history ∨ c ∈ doc.queue) ∧
      (c ∈ (doc.drain deps fuel).queue → c ∈ doc.queue) := by
  induction fuel generalizing doc with
  | zero => exact ⟨Or.inl, id⟩
  | succ fuel ih =>
      rw [Doc.drain]
      split
      · exact ⟨Or.inl, id⟩
      · rename_i change hfound
        have hqueued : change ∈ doc.queue := List.mem_of_find?_eq_some hfound
        dsimp only
        split
        · obtain ⟨hhistory, hqueue⟩ := ih ⟨doc.history, doc.queue.erase change⟩
          exact ⟨fun hc => (hhistory hc).imp id List.mem_of_mem_erase,
            fun hc => List.mem_of_mem_erase (hqueue hc)⟩
        · obtain ⟨hhistory, hqueue⟩ := ih ⟨doc.history ++ [change], doc.queue.erase change⟩
          refine ⟨fun hc => ?_, fun hc => List.mem_of_mem_erase (hqueue hc)⟩
          rcases hhistory hc with hin | hrest
          · rcases List.mem_append.mp hin with hold | hlast
            · exact Or.inl hold
            · rw [List.mem_singleton.mp hlast]
              exact Or.inr hqueued
          · exact Or.inr (List.mem_of_mem_erase hrest)

theorem mem_foldl_receive (changes : List H) (doc : Doc H) (c : H) :
    (c ∈ (changes.foldl (Doc.receive deps) doc).history → c ∈ doc.history ∨ c ∈ changes) ∧
      (c ∈ (changes.foldl (Doc.receive deps) doc).queue →
        c ∈ doc.queue ∨ c ∈ changes ∧ c ∉ doc.history) := by
  induction changes generalizing doc with
  | nil => exact ⟨Or.inl, Or.inl⟩
  | cons change changes ih =>
      obtain ⟨hhistory, hqueue⟩ := ih (doc.receive deps change)
      obtain ⟨hone, hqueued⟩ := mem_receive deps doc change c
      refine ⟨fun hc => ?_, fun hc => ?_⟩
      · rcases hhistory hc with hin | hrest
        · rcases hone hin with hold | rfl
          · exact Or.inl hold
          · exact Or.inr List.mem_cons_self
        · exact Or.inr (List.mem_cons_of_mem change hrest)
      · rcases hqueue hc with hin | ⟨hrest, hout⟩
        · rcases hqueued hin with hold | ⟨rfl, hout⟩
          · exact Or.inl hold
          · exact Or.inr ⟨List.mem_cons_self, hout⟩
        · refine Or.inr ⟨List.mem_cons_of_mem change hrest, fun hold => hout ?_⟩
          exact (Exchange.grown_receive doc change).mem c hold

/-- Where the changes of a document come from. -/
theorem mem_applyChanges (doc : Doc H) (changes : List H) (c : H) :
    (c ∈ (doc.applyChanges deps changes).history →
        c ∈ doc.history ∨ c ∈ doc.queue ∨ c ∈ changes) ∧
      (c ∈ (doc.applyChanges deps changes).queue →
        c ∈ doc.queue ∨ c ∈ changes ∧ c ∉ doc.history) := by
  unfold Doc.applyChanges
  dsimp only
  obtain ⟨hhistory, hqueue⟩ := mem_foldl_receive deps changes doc c
  obtain ⟨hdrained, hleft⟩ := mem_drain deps
    (changes.foldl (Doc.receive deps) doc).queue.length (changes.foldl (Doc.receive deps) doc) c
  refine ⟨fun hc => ?_, fun hc => hqueue (hleft hc)⟩
  rcases hdrained hc with hin | hin
  · exact (hhistory hin).imp id Or.inr
  · exact Or.inr ((hqueue hin).imp id And.left)

end Apply

section Invariant

variable {H A : Type} [DecidableEq H] [DecidableEq A] {am : Automerge H A} {p : LocalProject H A}
  {seed : Doc H}

theorem localInv_loaded {doc : Doc H} {actor : A}
    (hforeign : ∀ c ∈ doc.history ++ doc.queue, am.author c ≠ actor)
    (hordered : Causal.Extends am.deps [] doc.history) :
    LocalInv am ({ doc := doc, actor := actor } : LocalProject H A) := by
  refine ⟨?_, ?_, hordered, ?_, .nil⟩
  · apply List.filter_eq_nil_iff.mpr
    intro c hc hlocal
    exact hforeign c (List.mem_append_left _ hc) (of_decide_eq_true hlocal)
  · exact fun c hc => hforeign c (List.mem_append_right _ hc)
  · intro before c after hsplit d hd
    cases hd

theorem LocalInv.journal (hinv : LocalInv am p) (journal : UndoJournal InverseOp) :
    LocalInv am { p with journal := journal } :=
  ⟨hinv.authored, hinv.queue, hinv.ordered, hinv.past, hinv.sent⟩

omit [DecidableEq H] in
/-- What is enqueued is the last change the project made. -/
theorem capturePending_eq (hauthored : p.localChanges am = p.authored) :
    p.capturePending am =
      { p with pendingChanges := p.pendingChanges ++ p.authored.getLast?.toList } := by
  rw [LocalProject.capturePending, LocalProject.getLastLocalChange, hauthored]
  cases p.authored.getLast? <;> simp

omit [DecidableEq H] in
theorem mem_localChanges {c : H} :
    c ∈ p.localChanges am ↔ c ∈ p.doc.history ∧ am.author c = p.actor := by
  rw [LocalProject.localChanges, List.mem_filter, decide_eq_true_iff]

/-- A mutator that wrote something: its change is made and enqueued. -/
theorem localInv_change (hinv : LocalInv am p) {h : H} (hauthor : am.author h = p.actor)
    (hnew : h ∉ p.doc.history) (hdeps : ∀ d ∈ am.deps h, d ∈ p.doc.history) :
    LocalInv am { p with
      doc := { p.doc with history := p.doc.history ++ [h] }
      authored := p.authored ++ [h]
      pendingChanges := p.pendingChanges ++ [h] } := by
  refine ⟨?_, hinv.queue, hinv.ordered.append ⟨hnew, hdeps, trivial⟩, ?_, ?_⟩
  · have hold := hinv.authored
    simp only [LocalProject.localChanges] at hold ⊢
    rw [List.filter_append, hold, List.filter_cons_of_pos (by simpa using hauthor),
      List.filter_nil]
  · intro before c after hsplit d hd hpast
    rcases List.eq_nil_or_concat after with rfl | ⟨after, last, rfl⟩
    · rwa [← hsplit]
    · rw [List.concat_eq_append, ← List.cons_append, ← List.append_assoc] at hsplit
      obtain ⟨hold, -⟩ := List.append_inj' hsplit rfl
      have hlocal : c ∈ p.localChanges am := by
        rw [hinv.authored, hold]
        exact List.mem_append_right _ List.mem_cons_self
      have hc : c ∈ p.doc.history := (mem_localChanges.mp hlocal).1
      rcases List.mem_append.mp hd with hd | hlast
      · exact hinv.past before c after hold d hd hpast
      · rw [List.mem_singleton.mp hlast] at hpast
        exact absurd (hinv.ordered.mem_of_dependsOn hc hpast) hnew
  · rw [LocalProject.sent, ← List.append_assoc]
    exact hinv.sent.next h

theorem localInv_write (hlawful : am.Lawful) (hinv : LocalInv am p) (inverse : InverseOp)
    (target : ProjectDef) : LocalInv am (p.write am inverse target) := by
  have hjournal := hinv.journal (p.journal.capture targetKey inverse)
  rw [LocalProject.write]
  generalize { p with journal := p.journal.capture targetKey inverse } = q at hjournal
  rw [LocalProject.change]
  split
  · rename_i h hchange
    have hchanged := localInv_change hjournal (hlawful.author _ _ _ _ hchange)
      (hlawful.notMem _ _ _ _ hchange) (hlawful.deps _ _ _ _ hchange)
    have hauthored : ({ q with
        doc := { q.doc with history := q.doc.history ++ [h] }
        authored := q.authored ++ [h] } : LocalProject H A).localChanges am = q.authored ++ [h] :=
      hchanged.authored
    rw [capturePending_eq hauthored, List.getLast?_concat]
    exact hchanged
  · rw [capturePending_eq hjournal.authored]
    refine ⟨hjournal.authored, hjournal.queue, hjournal.ordered, hjournal.past, ?_⟩
    rw [LocalProject.sent, ← List.append_assoc]
    exact hjournal.sent.getLast

theorem localInv_getLastChange (hinv : LocalInv am p) : LocalInv am p.getLastChange.2 := by
  unfold LocalProject.getLastChange
  split
  · exact hinv
  · rename_i c rest hpending
    refine ⟨hinv.authored, hinv.queue, hinv.ordered, hinv.past, ?_⟩
    have hsent := hinv.sent
    rw [LocalProject.sent, hpending] at hsent
    rw [LocalProject.sent, List.append_assoc]
    exact hsent

theorem localInv_sendLastChange (hinv : LocalInv am p) : LocalInv am p.sendLastChange := by
  rw [LocalProject.sendLastChange]
  generalize p.pendingChanges.length = n
  induction n generalizing p with
  | zero => exact hinv
  | succ n ih =>
      rw [Function.iterate_succ_apply]
      exact ih (localInv_getLastChange hinv)

theorem localInv_emitted (hinv : LocalInv am p) (emit : Bool) :
    LocalInv am (if emit then p.sendLastChange else p) := by
  split
  · exact localInv_sendLastChange hinv
  · exact hinv

/-- What comes in is not of the local actor, but for what is there. -/
theorem localInv_applyChanges (hinv : LocalInv am p) {changes : List H}
    (hforeign : ∀ c ∈ changes, am.author c = p.actor → c ∈ p.doc.history) :
    LocalInv am { p with doc := p.doc.applyChanges am.deps changes } := by
  have hgrown : p.doc.Grown am.deps (p.doc.applyChanges am.deps changes) :=
    Exchange.grown_applyChanges p.doc changes
  obtain ⟨more, hmore, hext⟩ := hgrown
  have hnone : more.filter (fun h => decide (am.author h = p.actor)) = [] := by
    apply List.filter_eq_nil_iff.mpr
    intro c hc hlocal
    have hlocal := of_decide_eq_true hlocal
    have hout := hext.notMem c hc
    have hin : c ∈ (p.doc.applyChanges am.deps changes).history :=
      hmore ▸ List.mem_append_right _ hc
    rcases (mem_applyChanges am.deps p.doc changes c).1 hin with hold | hqueued | hcame
    · exact hout hold
    · exact hinv.queue c hqueued hlocal
    · exact hout (hforeign c hcame hlocal)
  refine ⟨?_, ?_, ?_, hinv.past, hinv.sent⟩
  · have hold := hinv.authored
    simp only [LocalProject.localChanges] at hold ⊢
    rw [hmore, List.filter_append, hold, hnone, List.append_nil]
  · intro c hc hlocal
    rcases (mem_applyChanges am.deps p.doc changes c).2 hc with hqueued | ⟨hcame, hout⟩
    · exact hinv.queue c hqueued hlocal
    · exact hout (hforeign c hcame hlocal)
  · show Causal.Extends am.deps [] (p.doc.applyChanges am.deps changes).history
    rw [hmore]
    exact hinv.ordered.append hext

theorem localInv_replay (hlawful : am.Lawful) (hinv : LocalInv am p) (emit : Bool)
    (freshId : Nat → String) (ops : List InverseOp) :
    LocalInv am (LocalProject.replay am emit freshId ops p) := by
  induction ops generalizing p with
  | nil => exact hinv
  | cons op ops ih =>
      rw [LocalProject.replay]
      dsimp only
      split
      · exact hinv
      · exact ih (localInv_emitted hinv emit)
      · exact ih (localInv_emitted (localInv_write hlawful hinv _ _) emit)

theorem localInv_routeReplay (hlawful : am.Lawful) (hinv : LocalInv am p) (direction : Route)
    (emit : Bool) (freshId : Nat → String) (ops : List InverseOp) :
    LocalInv am (p.routeReplay am direction emit freshId ops) :=
  (localInv_replay hlawful (hinv.journal _) emit freshId ops).journal _

theorem localInv_step (hlawful : am.Lawful) (hinv : LocalInv am p) {call : LocalCall H A}
    (hforeign : p.Foreign am seed call) : LocalInv am (p.step am seed call) := by
  cases call with
  | beginUndoGroup => exact hinv.journal _
  | endUndoGroup => exact hinv.journal _
  | edit e =>
      simp only [LocalProject.step, LocalProject.edit]
      split
      · exact hinv
      · exact hinv
      · exact localInv_write hlawful hinv _ _
  | undo emit freshId =>
      simp only [LocalProject.step, LocalProject.undo]
      split
      · exact hinv
      · exact localInv_routeReplay hlawful (hinv.journal _) _ _ _ _
  | redo emit freshId =>
      simp only [LocalProject.step, LocalProject.redo]
      split
      · exact hinv
      · exact localInv_routeReplay hlawful (hinv.journal _) _ _ _ _
  | applyChange change =>
      cases change with
      | none => exact hinv
      | some c =>
          apply localInv_applyChanges hinv
          intro c' hc'
          rw [List.mem_singleton.mp hc']
          exact hforeign
  | mergeRemote data =>
      cases data with
      | none => exact hinv
      | some data =>
          apply localInv_applyChanges hinv
          intro c hc
          exact hforeign c (List.mem_of_mem_filter hc)
  | load data actor => exact localInv_loaded hforeign.1 hforeign.2
  | getLastChange => exact localInv_getLastChange hinv
  | sendLastChange => exact localInv_sendLastChange hinv

/-- After any calls, what was handed out since the last load and what waits
behind it are the changes the project made, each at least once and after the
changes it depends on, and no other. -/
theorem pendingChanges_complete (am : Automerge H A) (hlawful : am.Lawful) (seed : Doc H)
    {start : LocalProject H A} {doc : Option (Doc H)} {actor : A}
    (hstart : start.Foreign am seed (.load doc actor))
    (hrun : Run.Reaches (LocalStep am seed) (start.step am seed (.load doc actor)) p) :
    (∀ c, c ∈ p.sent ↔ c ∈ p.authored) ∧ p.authored.Sublist p.sent ∧
      p.authored = p.localChanges am ∧
      ∀ before c after, p.sent = before ++ c :: after →
        ∀ d ∈ p.authored, Causal.DependsOn am.deps c d → d ∈ before ++ [c] := by
  have hinv : LocalInv am p :=
    hrun.invariant (localInv_loaded hstart.1 hstart.2) fun _ _ ⟨_, hforeign, hstep⟩ hinv =>
      hstep ▸ localInv_step hlawful hinv hforeign
  refine ⟨hinv.sent.mem_iff, hinv.sent.sublist, hinv.authored.symm, ?_⟩
  intro before c after hsplit d hd hpast
  obtain ⟨earlier, later, hauthored, hsaid⟩ := hinv.sent.before hsplit
  rcases List.mem_append.mp (hinv.past earlier c later hauthored d hd hpast) with hd | hlast
  · exact List.mem_append_left _ (hsaid d hd)
  · exact List.mem_append_right _ hlast

end Invariant

section Example

/-- Documents of one master gain. A change is named by its author, its gain and
the change before it. -/
def gainChanges : Automerge (List (Bool × ℚ)) Bool where
  deps h := if h.tail = [] then [] else [h.tail]
  author h := h.head?.any Prod.fst
  content doc := { masterGain := (doc.history.getLast?.bind List.head?).map Prod.snd }
  change actor doc target :=
    let top := doc.history.getLast?.getD []
    let h := (actor, target.masterGain.getD 1) :: top
    if target.masterGain = (top.head?).map Prod.snd ∨ h ∈ doc.history then none else some h

theorem gainChanges_lawful : gainChanges.Lawful := by
  have hcases : ∀ actor doc target h, gainChanges.change actor doc target = some h →
      h = (actor, target.masterGain.getD 1) :: doc.history.getLast?.getD [] ∧
        h ∉ doc.history := by
    intro actor doc target h hchange
    simp only [gainChanges] at hchange
    split at hchange
    · cases hchange
    · rename_i hwritten
      obtain rfl := Option.some.inj hchange
      exact ⟨rfl, fun hin => hwritten (Or.inr hin)⟩
  constructor
  · intro actor doc target h hchange
    rw [(hcases actor doc target h hchange).1]
    simp [gainChanges]
  · exact fun actor doc target h hchange => (hcases actor doc target h hchange).2
  · intro actor doc target h hchange d hd
    rw [(hcases actor doc target h hchange).1] at hd
    cases hlast : doc.history.getLast? with
    | none => simp [gainChanges, hlast] at hd
    | some top =>
        rw [hlast] at hd
        have hd : d ∈ if top = [] then [] else [top] := hd
        by_cases hempty : top = []
        · rw [if_pos hempty] at hd
          cases hd
        · rw [if_neg hempty] at hd
          rw [List.mem_singleton.mp hd]
          exact List.mem_of_getLast? hlast

/-- The second call writes nothing, and a remote change comes in. -/
def repeatedGain : List (LocalCall (List (Bool × ℚ)) Bool) :=
  [.edit (setMasterGain 2), .edit (setMasterGain 2),
    .applyChange (some [(false, 0), (true, 2), (false, 1)]), .getLastChange]

def emptyProject : LocalProject (List (Bool × ℚ)) Bool :=
  { doc := { history := [] }, actor := false }

theorem pendingChanges_complete_repeated :
    ∃ p, Run.Reaches (LocalStep gainChanges { history := [] })
        (emptyProject.step gainChanges { history := [] }
          (.load (some { history := [[(false, 1)]] }) true)) p ∧
      p.sent = [[(true, 2), (false, 1)], [(true, 2), (false, 1)]] ∧
      ∀ c, c ∈ p.sent ↔ c ∈ p.authored := by
  have hstart : emptyProject.Foreign gainChanges { history := [] }
      (.load (some { history := [[(false, 1)]] }) true) := by
    refine ⟨?_, by decide, nofun, trivial⟩
    intro c hc
    rw [List.mem_singleton.mp hc]
    decide
  have hrun : Run.Reaches (LocalStep gainChanges { history := [] })
      (emptyProject.step gainChanges { history := [] }
        (.load (some { history := [[(false, 1)]] }) true))
      (repeatedGain.foldl (LocalProject.step gainChanges { history := [] })
        (emptyProject.step gainChanges { history := [] }
          (.load (some { history := [[(false, 1)]] }) true))) := by
    exact (((Relation.ReflTransGen.single ⟨.edit (setMasterGain 2), trivial, rfl⟩).tail
      ⟨.edit (setMasterGain 2), trivial, rfl⟩).tail
      ⟨.applyChange (some [(false, 0), (true, 2), (false, 1)]), nofun, rfl⟩).tail
      ⟨.getLastChange, trivial, rfl⟩
  exact ⟨_, hrun, by decide +kernel,
    (pendingChanges_complete gainChanges gainChanges_lawful { history := [] } hstart hrun).1⟩

end Example

end DawProject.Document
