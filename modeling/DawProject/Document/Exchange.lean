import DawProject.Lib.Causal
import Mathlib.Data.List.Dedup

/-!
The exchange that follows every document the server sends: `onDocument` of
`web/src/app/wiring.ts` over `load`, `isPristineSeed`, `mergeRemote` and
`getMissingChanges` of `web/src/document/project.ts`, and `apply_change` of
`server/src/document/file_store.rs`. A document is the list of its changes in
the order they were applied, with the changes it buffers until what they depend
on arrives.
-/

namespace DawProject.Document.Exchange

variable {H : Type} [DecidableEq H]

structure Doc (H : Type) where
  history : List H
  queue : List H := []
deriving DecidableEq, Repr

section Automerge

variable (deps : H → List H)

def isCausallyReady (history : List H) (change : H) : Bool :=
  (deps change).all fun d => decide (d ∈ history)

/-- A change joins the history, waits in the queue, or is there already. -/
def Doc.receive (doc : Doc H) (change : H) : Doc H :=
  if change ∈ doc.history then doc
  else if isCausallyReady deps doc.history change then
    { doc with history := doc.history ++ [change] }
  else { doc with queue := doc.queue ++ [change] }

/-- Apply the buffered changes that have become ready. -/
def Doc.drain : Nat → Doc H → Doc H
  | 0, doc => doc
  | fuel + 1, doc =>
      match doc.queue.find? (isCausallyReady deps doc.history) with
      | none => doc
      | some change =>
          let queue := doc.queue.erase change
          if change ∈ doc.history then Doc.drain fuel { doc with queue := queue }
          else Doc.drain fuel { history := doc.history ++ [change], queue := queue }

def Doc.applyChanges (doc : Doc H) (changes : List H) : Doc H :=
  let doc := changes.foldl (Doc.receive deps) doc
  doc.drain deps doc.queue.length

/-- What the buffered changes wait for. -/
def Doc.getMissingDeps (doc : Doc H) : List H :=
  ((doc.queue.flatMap deps).filter fun d =>
    decide (d ∉ doc.history) && decide (d ∉ doc.queue)).dedup

def Doc.getHeads (doc : Doc H) : List H :=
  doc.history.filter fun h => doc.history.all fun c => decide (h ∉ deps c)

def Doc.merge (doc remote : Doc H) : Doc H :=
  doc.applyChanges deps (remote.history.filter fun h => decide (h ∉ doc.history))

/-- The changes of `doc` that `remote` lacks, in the order of `doc`. -/
def getChanges (remote doc : Doc H) : List H :=
  doc.history.filter fun h => decide (h ∉ remote.history)

end Automerge

section Code

variable (deps : H → List H) (seed : List H)

/-- `apply_change` on the file of a project: the new file, or the refusal of a
change that adds missing dependencies. -/
def apply_change (file : Option (Doc H)) (change : H) : Option (Doc H) :=
  let doc := file.getD { history := seed }
  let missing_before := (doc.getMissingDeps deps).length
  let doc := doc.applyChanges deps [change]
  if (doc.getMissingDeps deps).length > missing_before then none else some doc

/-- The server applies the pushed changes in the order they arrive. -/
def applyAll : Doc H → List H → Option (Doc H)
  | doc, [] => some doc
  | doc, change :: rest => do
      let next ← apply_change deps seed (some doc) change
      applyAll next rest

structure Client (H : Type) where
  doc : Doc H
  hasLoadedInitialDoc : Bool := false
  /-- Changes still in the outbox of the connection. -/
  pendingCount : Nat := 0
  resyncCycles : Nat := 0
deriving DecidableEq, Repr

/-- The single head of the document is that of the seed. -/
def isPristineSeed (doc : Doc H) : Bool :=
  let heads := doc.getHeads deps
  let seedHeads := Doc.getHeads deps { history := seed }
  heads.length == 1 && heads.head? == seedHeads.head?

/-- The client adopts the document instead of merging it. -/
def Client.adopts (client : Client H) : Bool :=
  !client.hasLoadedInitialDoc && client.pendingCount == 0 && isPristineSeed deps seed client.doc

/-- What the client does with a document of the server, and what it pushes. -/
def onDocument (client : Client H) (data : Doc H) : Client H × List H :=
  if client.adopts deps seed then
    ({ client with doc := data, hasLoadedInitialDoc := true }, [])
  else
    let firstContact := !client.hasLoadedInitialDoc
    let hadPending := decide (client.pendingCount > 0)
    let doc := client.doc.merge deps data
    let isNew := decide (client.doc.getHeads deps ≠ doc.getHeads deps)
    let missing := getChanges data doc
    let resyncCycles :=
      if (isNew && !firstContact) || hadPending || decide (missing.length > 0) then 2
      else client.resyncCycles - 1
    ({ client with doc := doc, hasLoadedInitialDoc := true, resyncCycles := resyncCycles },
      missing)

end Code

/-- The history has grown by changes whose dependencies were there. -/
def Doc.Grown (deps : H → List H) (doc next : Doc H) : Prop :=
  ∃ more, next.history = doc.history ++ more ∧ Causal.Extends deps doc.history more

/-- A document that buffers nothing. -/
structure Doc.Settled (deps : H → List H) (doc : Doc H) : Prop where
  ordered : Causal.Extends deps [] doc.history
  queue : doc.queue = []

section Apply

variable {deps : H → List H} {history changes : List H}

theorem isCausallyReady_of_mem {change : H} (hdeps : ∀ d ∈ deps change, d ∈ history) :
    isCausallyReady deps history change = true := by
  rw [isCausallyReady, List.all_eq_true]
  intro d hd
  exact decide_eq_true (hdeps d hd)

/-- Changes that extend a history join it as they come. -/
theorem foldl_receive_of_extends {doc : Doc H} (hext : Causal.Extends deps doc.history changes) :
    changes.foldl (Doc.receive deps) doc = { doc with history := doc.history ++ changes } := by
  induction changes generalizing doc with
  | nil => rw [List.append_nil, List.foldl_nil]
  | cons change rest ih =>
      obtain ⟨hnew, hdeps, hrest⟩ := hext
      rw [List.foldl_cons, Doc.receive, if_neg hnew, if_pos (isCausallyReady_of_mem hdeps),
        ih hrest, List.append_assoc, List.singleton_append]

theorem applyChanges_of_extends (hext : Causal.Extends deps history changes) :
    Doc.applyChanges deps { history := history } changes = { history := history ++ changes } := by
  unfold Doc.applyChanges
  rw [foldl_receive_of_extends hext]
  rfl

omit [DecidableEq H] in
theorem Doc.Grown.refl (doc : Doc H) : doc.Grown deps doc :=
  ⟨[], (List.append_nil _).symm, trivial⟩

omit [DecidableEq H] in
theorem Doc.Grown.trans {doc next last : Doc H} (hfirst : doc.Grown deps next)
    (hsecond : next.Grown deps last) : doc.Grown deps last := by
  obtain ⟨more, hmore, hext⟩ := hfirst
  obtain ⟨rest, hrest, hext'⟩ := hsecond
  rw [hmore] at hrest hext'
  exact ⟨more ++ rest, by rw [hrest, List.append_assoc], hext.append hext'⟩

omit [DecidableEq H] in
theorem Doc.Grown.mem {doc next : Doc H} (hgrown : doc.Grown deps next) :
    ∀ h ∈ doc.history, h ∈ next.history := by
  obtain ⟨more, hmore, -⟩ := hgrown
  rw [hmore]
  exact fun h => List.mem_append_left more

omit [DecidableEq H] in
theorem Doc.Grown.ordered {doc next : Doc H} (hgrown : doc.Grown deps next)
    (hdoc : Causal.Extends deps [] doc.history) : Causal.Extends deps [] next.history := by
  obtain ⟨more, hmore, hext⟩ := hgrown
  rw [hmore]
  exact hdoc.append hext

theorem grown_concat {doc : Doc H} {change : H} {queue : List H}
    (hready : isCausallyReady deps doc.history change = true) (hnew : change ∉ doc.history) :
    doc.Grown deps { history := doc.history ++ [change], queue := queue } := by
  refine ⟨[change], rfl, hnew, ?_, trivial⟩
  intro d hd
  rw [isCausallyReady, List.all_eq_true] at hready
  exact of_decide_eq_true (hready d hd)

theorem grown_receive (doc : Doc H) (change : H) : doc.Grown deps (doc.receive deps change) := by
  unfold Doc.receive
  split
  · exact Doc.Grown.refl doc
  · rename_i hnew
    split
    · rename_i hready
      exact grown_concat hready hnew
    · exact ⟨[], (List.append_nil _).symm, trivial⟩

theorem grown_drain (fuel : Nat) (doc : Doc H) : doc.Grown deps (doc.drain deps fuel) := by
  induction fuel generalizing doc with
  | zero => exact Doc.Grown.refl doc
  | succ fuel ih =>
      rw [Doc.drain]
      split
      · exact Doc.Grown.refl doc
      · rename_i change hfound
        dsimp only
        split
        · exact ih { doc with queue := doc.queue.erase change }
        · rename_i hnew
          apply (grown_concat (List.find?_some hfound) hnew).trans
          apply ih

/-- Changes only add to the history of a document. -/
theorem grown_applyChanges (doc : Doc H) (changes : List H) :
    doc.Grown deps (doc.applyChanges deps changes) := by
  have hreceive : doc.Grown deps (changes.foldl (Doc.receive deps) doc) := by
    induction changes generalizing doc with
    | nil => exact Doc.Grown.refl doc
    | cons change rest ih => exact (grown_receive doc change).trans (ih _)
  exact hreceive.trans (grown_drain _ _)

theorem getMissingDeps_of_settled : Doc.getMissingDeps deps { history := history } = [] := rfl

/-- The guard accepts a change whose dependencies are there. -/
theorem apply_change_of_extends (seed : List H) {change : H}
    (hext : Causal.Extends deps history [change]) :
    apply_change deps seed (some { history := history }) change =
      some { history := history ++ [change] } := by
  unfold apply_change
  dsimp only [Option.getD_some]
  rw [applyChanges_of_extends hext, getMissingDeps_of_settled, getMissingDeps_of_settled,
    if_neg (Nat.lt_irrefl _)]

theorem applyAll_of_extends (seed : List H) (hext : Causal.Extends deps history changes) :
    applyAll deps seed { history := history } changes = some { history := history ++ changes } := by
  induction changes generalizing history with
  | nil => rw [applyAll, List.append_nil]
  | cons change rest ih =>
      have hone := apply_change_of_extends seed
        (show Causal.Extends deps history [change] from ⟨hext.1, hext.2.1, trivial⟩)
      rw [applyAll, hone, Option.bind_eq_bind, Option.bind_some, ih hext.2.2, List.append_assoc,
        List.singleton_append]

end Apply

section Outcome

variable {deps : H → List H} {seed : List H} {client : Client H} {server : Doc H}

omit [DecidableEq H] in
theorem Doc.Settled.eq {doc : Doc H} (hdoc : doc.Settled deps) :
    doc = { history := doc.history } := by
  rw [← hdoc.queue]

/-- What a document lacks of another one extends it. -/
theorem extends_of_settled {remote : Doc H} (doc : Doc H) (hremote : remote.Settled deps) :
    Causal.Extends deps doc.history
      (remote.history.filter fun h => decide (h ∉ doc.history)) := by
  apply hremote.ordered.filter
  · intro x hx
    cases hx
  · intro x hx
    exact hx
  · intro x _ hx
    exact hx

/-- Merging appends what the local history lacks. -/
theorem merge_of_settled {doc remote : Doc H} (hdoc : doc.Settled deps)
    (hremote : remote.Settled deps) :
    doc.merge deps remote =
        { history := doc.history ++ remote.history.filter fun h => decide (h ∉ doc.history) } ∧
      (doc.merge deps remote).Settled deps := by
  have hext := extends_of_settled doc hremote
  have hmerge : doc.merge deps remote =
      { history := doc.history ++ remote.history.filter fun h => decide (h ∉ doc.history) } := by
    unfold Doc.merge
    rw [hdoc.eq]
    exact applyChanges_of_extends hext
  refine ⟨hmerge, ?_⟩
  rw [hmerge]
  exact ⟨hdoc.ordered.append hext, rfl⟩

theorem mem_merge {doc remote : Doc H} (hdoc : doc.Settled deps) (hremote : remote.Settled deps)
    (h : H) : h ∈ (doc.merge deps remote).history ↔ h ∈ doc.history ∨ h ∈ remote.history := by
  rw [(merge_of_settled hdoc hremote).1]
  by_cases hin : h ∈ doc.history <;> simp [hin]

/-- What a merged document pushes can be applied in its order. -/
theorem getChanges_extends {doc : Doc H} (hdoc : doc.Settled deps) (remote : Doc H) :
    Causal.Extends deps remote.history (getChanges remote doc) :=
  extends_of_settled remote hdoc

/-- A pristine document is inside the seed. -/
theorem mem_seed_of_pristine (hclient : client.doc.Settled deps)
    (hseed : Causal.Extends deps [] seed) (hpristine : isPristineSeed deps seed client.doc = true) :
    ∀ h ∈ client.doc.history, h ∈ seed := by
  unfold isPristineSeed at hpristine
  simp only [Bool.and_eq_true, beq_iff_eq] at hpristine
  obtain ⟨hone, hhead⟩ := hpristine
  obtain ⟨s, hs⟩ := List.length_eq_one_iff.mp hone
  rw [hs, List.head?_cons] at hhead
  have hmem : s ∈ Doc.getHeads deps { history := seed } := List.mem_of_head? hhead.symm
  apply hclient.ordered.subset_of_head (s := s) _ hseed (List.mem_of_mem_filter hmem)
  intro t ht
  have hhead : t ∈ client.doc.getHeads deps := by
    simp only [Doc.getHeads, List.mem_filter, List.all_eq_true, decide_eq_true_eq]
    exact ht
  rw [hs] at hhead
  exact List.mem_singleton.mp hhead

/-- After one exchange every pushed change is accepted and both sides hold the
same changes: those of the server when the client adopts its document, all of
both otherwise. No change of the client but those of the seed is lost. -/
theorem exchange_agrees (hclient : client.doc.Settled deps) (hserver : server.Settled deps)
    (hseed : Causal.Extends deps [] seed) :
    ∃ after, applyAll deps seed server (onDocument deps seed client server).2 = some after ∧
      (∀ h, h ∈ (onDocument deps seed client server).1.doc.history ↔ h ∈ after.history) ∧
      (client.adopts deps seed = true → ∀ h, h ∈ after.history ↔ h ∈ server.history) ∧
      (client.adopts deps seed = false ∨ (∀ h ∈ seed, h ∈ server.history) →
        ∀ h, h ∈ after.history ↔ h ∈ client.doc.history ∨ h ∈ server.history) ∧
      ∀ h ∈ client.doc.history, h ∉ seed →
        h ∈ (onDocument deps seed client server).1.doc.history := by
  cases hadopts : client.adopts deps seed with
  | true =>
      have hpristine : isPristineSeed deps seed client.doc = true := by
        simp only [Client.adopts, Bool.and_eq_true] at hadopts
        exact hadopts.2
      have hinside := mem_seed_of_pristine hclient hseed hpristine
      refine ⟨server, ?_, ?_, ?_, ?_, ?_⟩
      · rw [onDocument, if_pos hadopts]
        rfl
      · intro h
        rw [onDocument, if_pos hadopts]
      · intro _ h
        exact Iff.rfl
      · intro hheld h
        rcases hheld with hmerge | hheld
        · cases hmerge
        · constructor
          · exact Or.inr
          · rintro (hc | hs)
            · exact hheld h (hinside h hc)
            · exact hs
      · intro h hc hlocal
        exact absurd (hinside h hc) hlocal
  | false =>
      have hoff : ¬ client.adopts deps seed = true := by
        rw [hadopts]
        exact Bool.false_ne_true
      have hdoc : (onDocument deps seed client server).1.doc = client.doc.merge deps server := by
        rw [onDocument, if_neg hoff]
      have hpush : (onDocument deps seed client server).2 =
          getChanges server (client.doc.merge deps server) := by
        rw [onDocument, if_neg hoff]
      have hmerged := (merge_of_settled hclient hserver).2
      have happly := applyAll_of_extends seed (getChanges_extends hmerged server)
      have hunion : ∀ h, h ∈ server.history ++ getChanges server (client.doc.merge deps server) ↔
          h ∈ client.doc.history ∨ h ∈ server.history := by
        intro h
        have hmem := mem_merge hclient hserver h
        by_cases hin : h ∈ server.history
        · simp [hin]
        · simp only [hin, or_false] at hmem
          simp [getChanges, hin, hmem]
      rw [← hserver.eq] at happly
      refine ⟨{ history := server.history ++ getChanges server (client.doc.merge deps server) },
        ?_, ?_, ?_, ?_, ?_⟩
      · rw [hpush]
        exact happly
      · intro h
        rw [hdoc, mem_merge hclient hserver, hunion]
      · intro hyes
        cases hyes
      · intro _ h
        exact hunion h
      · intro h hc _
        rw [hdoc, mem_merge hclient hserver]
        exact Or.inl hc

end Outcome

/-- Every change but the first depends on the first. -/
def onFirst : Nat → List Nat
  | 0 => []
  | _ + 1 => [0]

/-- Two offline edits meet an edit of another session. -/
theorem exchange_agrees_offline :
    ∃ after, applyAll onFirst [0] { history := [0, 3] }
        (onDocument onFirst [0] { doc := { history := [0, 1, 2] } } { history := [0, 3] }).2 =
          some after ∧
      ∀ h, h ∈ after.history ↔ h ∈ [0, 1, 2] ∨ h ∈ [0, 3] := by
  have hclient : ({ doc := { history := [0, 1, 2] } } : Client Nat).doc.Settled onFirst :=
    ⟨by simp [Causal.Extends, onFirst], rfl⟩
  have hserver : ({ history := [0, 3] } : Doc Nat).Settled onFirst :=
    ⟨by simp [Causal.Extends, onFirst], rfl⟩
  have hseed : Causal.Extends onFirst [] [0] := by simp [Causal.Extends, onFirst]
  obtain ⟨after, happly, _, _, hunion, _⟩ := exchange_agrees hclient hserver hseed
  exact ⟨after, happly, hunion (Or.inl rfl)⟩

/-- A pristine client adopts a document that was not made from the seed, and
the seed is on neither side. -/
theorem not_exchange_union_foreignRoot :
    ¬ ∀ (deps : Nat → List Nat) (seed : List Nat) (client : Client Nat) (server : Doc Nat),
      client.doc.Settled deps → server.Settled deps → Causal.Extends deps [] seed →
      ∃ after, applyAll deps seed server (onDocument deps seed client server).2 = some after ∧
        ∀ h, h ∈ after.history ↔ h ∈ client.doc.history ∨ h ∈ server.history := by
  intro hall
  have hsettled : ∀ n : Nat, ({ history := [n] } : Doc Nat).Settled fun _ => [] := by
    intro n
    exact ⟨by simp [Causal.Extends], rfl⟩
  obtain ⟨after, happly, hunion⟩ := hall (fun _ => []) [0] { doc := { history := [0] } }
    { history := [1] } (hsettled 0) (hsettled 1) (hsettled 0).ordered
  have hsame : after = { history := [1] } := by
    symm
    exact Option.some.inj happly
  have hzero := (hunion 0).mpr (Or.inl List.mem_cons_self)
  rw [hsame] at hzero
  exact absurd hzero (by decide)

end DawProject.Document.Exchange
