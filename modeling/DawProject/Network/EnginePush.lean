import DawProject.Network.EngineLink

/-!
Whether the engine's changes reach the server. A change written while the
document callback pushes can overtake what it depends on: it is refused and
never sent again. Without such a change, what the server lacks is always the
end of one line of changes, the push and the control thread send it in order,
and every push is accepted.
-/

namespace DawProject.Network

open Document.Exchange (Doc apply_change)

variable {H : Type}

section Wire

variable (deps : H → List H)

/-- What a socket carries: first what the control thread sent before the
document, then `good`, which a server that holds `held` takes in its order, and
`next` after it. -/
def Sendable (held : List H) (wire : List (Packet H)) (next : List H)
    (good : List (Packet H)) : Prop :=
  ∃ early, wire = early ++ good ∧ (∀ p ∈ early, p.pushed = false) ∧
    Causal.Ready deps held (good.map (·.change) ++ next)

variable {deps} {held held' next : List H} {wire rest good : List (Packet H)} {p : Packet H}

theorem Sendable.mono (hwire : Sendable deps held wire next good)
    (hsub : ∀ h ∈ held, h ∈ held') : Sendable deps held' wire next good := by
  obtain ⟨early, hsplit, hearly, hready⟩ := hwire
  exact ⟨early, hsplit, hearly, hready.mono hsub⟩

theorem Sendable.left (hwire : Sendable deps held wire next good) :
    Sendable deps held wire [] good := by
  obtain ⟨early, hsplit, hearly, hready⟩ := hwire
  refine ⟨early, hsplit, hearly, ?_⟩
  rw [List.append_nil]
  exact hready.left

theorem sendable_of_direct (hdirect : ∀ p ∈ wire, p.pushed = false)
    (hnext : Causal.Ready deps held next) : Sendable deps held wire next [] :=
  ⟨wire, (List.append_nil wire).symm, hdirect, hnext⟩

/-- One more message, the next in line. -/
theorem Sendable.snoc {change : H} {pushed : Bool}
    (hwire : Sendable deps held wire (change :: next) good) :
    Sendable deps held (wire ++ [⟨change, pushed⟩]) next (good ++ [⟨change, pushed⟩]) := by
  obtain ⟨early, rfl, hearly, hready⟩ := hwire
  refine ⟨early, List.append_assoc _ _ _, hearly, ?_⟩
  rwa [List.map_append, List.map_singleton, List.append_assoc, List.singleton_append]

/-- The first message is one of the control thread, or has its dependencies. -/
theorem Sendable.head (hwire : Sendable deps held (p :: rest) next good) :
    p.pushed = false ∨ ∀ d ∈ deps p.change, d ∈ held := by
  obtain ⟨early, hsplit, hearly, hready⟩ := hwire
  cases early with
  | nil =>
      rw [List.nil_append] at hsplit
      rw [← hsplit] at hready
      exact Or.inr hready.1
  | cons first early =>
      obtain ⟨rfl, -⟩ := List.cons_eq_cons.mp hsplit
      exact Or.inl (hearly p List.mem_cons_self)

/-- What is left when the first message has been taken, or refused for a
missing dependency. -/
theorem Sendable.tail (hwire : Sendable deps held (p :: rest) next good)
    (htaken : (∀ d ∈ deps p.change, d ∈ held) → p.change ∈ held) :
    ∃ left, Sendable deps held rest next left ∧
      ∀ h ∈ good.map (·.change), h ∈ held ∨ h ∈ left.map (·.change) := by
  obtain ⟨early, hsplit, hearly, hready⟩ := hwire
  cases early with
  | nil =>
      rw [List.nil_append] at hsplit
      rw [← hsplit] at hready ⊢
      have hin := htaken hready.1
      refine ⟨rest, ⟨[], rfl, nofun, ?_⟩, ?_⟩
      · apply hready.2.mono
        intro x hx
        rcases List.mem_append.mp hx with hheld | hlast
        · exact hheld
        · rwa [List.mem_singleton.mp hlast]
      · intro h hh
        rcases List.mem_cons.mp hh with rfl | hrest
        · exact Or.inl hin
        · exact Or.inr hrest
  | cons first early =>
      obtain ⟨-, hrest⟩ := List.cons_eq_cons.mp hsplit
      refine ⟨good, ⟨early, hrest, ?_, hready⟩, fun h hh => Or.inr hh⟩
      exact fun q hq => hearly q (List.mem_cons_of_mem _ hq)

end Wire

section Invariant

variable (deps : H → List H) (s : EngineLink H)

/-- What the server holds, or held when it sent the document that the engine
has not handled yet. -/
def EngineLink.base : List H := (s.initial.map (·.history)).getD s.server.history

structure LinkInv : Prop where
  ordered : Causal.Extends deps [] s.history
  server : s.server.Settled deps
  initial : ∀ data ∈ s.initial, data.Settled deps ∧
    (∀ h ∈ data.history, h ∈ s.server.history) ∧ s.received_initial_ = false ∧ s.joined = true
  waiting : s.up = true → s.joined = false → s.received_initial_ = false
  authored : ∀ change ∈ s.authored, change ∈ s.history
  known : ∀ doc ∈ s.doc, ∀ h ∈ Server.known doc, h ∈ s.authored ∨ h ∈ s.base
  line : Causal.IsLine deps s.base s.authored
  received : s.received_initial_ = false → s.merged = false
  unmerged : s.merged = false → s.to_push = [] ∧ ∀ p ∈ s.wire, p.pushed = false
  alone : s.writing ≠ none → s.to_push = []
  written : ∀ change ∈ s.writing, change ∈ s.history
  connected : s.up = true → s.connected_ = true
  empty : s.up = false → s.wire = []
  carried : s.up = true → ∃ good, Sendable deps s.server.history s.wire s.to_push good ∧
    (s.merged = true → ∀ h ∈ s.history, h ∈ s.server.history ∨ h ∈ good.map (·.change) ∨
      h ∈ s.to_push ∨ s.writing = some h)
  late : ∀ wire ∈ s.late, ∃ good, Sendable deps s.server.history wire [] good
  refused : ∀ p ∈ s.refused, p.pushed = false

end Invariant

section Preserved

variable {deps : H → List H} {s : EngineLink H}

theorem LinkInv.base_subset (hinv : LinkInv deps s) : ∀ h ∈ s.base, h ∈ s.server.history := by
  intro h hh
  unfold EngineLink.base at hh
  cases hinitial : s.initial with
  | none =>
      rw [hinitial] at hh
      exact hh
  | some data =>
      rw [hinitial] at hh
      exact (hinv.initial data hinitial).2.1 h hh

theorem LinkInv.base_settled (hinv : LinkInv deps s) : Causal.Extends deps [] s.base := by
  unfold EngineLink.base
  cases hinitial : s.initial with
  | none => exact hinv.server.ordered
  | some data => exact (hinv.initial data hinitial).1.ordered

theorem history_of_doc {doc : Doc H} (hdoc : s.doc = some doc) : s.history = doc.history := by
  unfold EngineLink.history
  rw [hdoc]
  rfl

theorem LinkInv.authored_or_base (hinv : LinkInv deps s) {h : H} (hh : h ∈ s.history) :
    h ∈ s.authored ∨ h ∈ s.base := by
  cases hdoc : s.doc with
  | none =>
      unfold EngineLink.history at hh
      rw [hdoc] at hh
      cases hh
  | some doc =>
      rw [history_of_doc hdoc] at hh
      exact hinv.known doc hdoc h (List.mem_append_left _ hh)

/-- The server takes a change: everything else stays. -/
theorem LinkInv.grow (hinv : LinkInv deps s) {server : Doc H} (hserver : server.Settled deps)
    (hsub : ∀ h ∈ s.server.history, h ∈ server.history) :
    LinkInv deps { s with server := server } := by
  have hbase : ∀ h ∈ s.base, h ∈ ({ s with server := server } : EngineLink H).base := by
    intro h hh
    unfold EngineLink.base at hh ⊢
    cases hinitial : s.initial with
    | none =>
        rw [hinitial] at hh
        exact hsub h hh
    | some data =>
        rw [hinitial] at hh
        exact hh
  exact { hinv with
    server := hserver
    initial := fun data hdata =>
      ⟨(hinv.initial data hdata).1, fun h hh => hsub h ((hinv.initial data hdata).2.1 h hh),
        (hinv.initial data hdata).2.2⟩
    known := fun doc hdoc h hh => (hinv.known doc hdoc h hh).imp_right (hbase h)
    line := hinv.line.mono hbase
    carried := by
      intro hup
      obtain ⟨good, hgood, hcover⟩ := hinv.carried hup
      refine ⟨good, hgood.mono hsub, ?_⟩
      intro hmerged h hh
      exact (hcover hmerged h hh).imp_left (hsub h)
    late := by
      intro wire hwire
      obtain ⟨good, hgood⟩ := hinv.late wire hwire
      exact ⟨good, hgood.mono hsub⟩ }

theorem inv_opened (hinv : LinkInv deps s) (hup : s.up = false) (hpush : s.to_push = []) :
    LinkInv deps { s with
      connected_ := true, received_initial_ := false, up := true
      joined := false, initial := none, merged := false } := by
  have hwire := hinv.empty hup
  exact { hinv with
    initial := nofun
    waiting := fun _ _ => rfl
    known := fun doc hdoc h hh => (hinv.known doc hdoc h hh).imp_right (hinv.base_subset h)
    line := hinv.line.mono hinv.base_subset
    received := fun _ => rfl
    unmerged := by
      intro _
      refine ⟨hpush, ?_⟩
      dsimp only
      rw [hwire]
      nofun
    connected := fun _ => rfl
    empty := nofun
    carried := by
      intro _
      refine ⟨[], ?_, nofun⟩
      dsimp only
      rw [hwire, hpush]
      exact sendable_of_direct nofun trivial }

theorem inv_join (hinv : LinkInv deps s) (hreceived : s.received_initial_ = false) :
    LinkInv deps { s with joined := true, initial := some s.server } := by
  exact { hinv with
    initial := by
      rintro data hdata
      obtain rfl := Option.some.inj hdata
      exact ⟨hinv.server, fun h hh => hh, hreceived, rfl⟩
    waiting := nofun
    known := fun doc hdoc h hh => (hinv.known doc hdoc h hh).imp_right (hinv.base_subset h)
    line := hinv.line.mono hinv.base_subset }

theorem inv_closed (hinv : LinkInv deps s) (hup : s.up = false) :
    LinkInv deps { s with connected_ := false } := by
  exact { hinv with
    connected := fun hyes => nomatch hup.symm.trans hyes }

theorem inv_fail (hinv : LinkInv deps s) (hup : s.up = true) :
    LinkInv deps { s with up := false, wire := [], late := s.wire :: s.late } := by
  exact { hinv with
    unmerged := fun hmerged => ⟨(hinv.unmerged hmerged).1, nofun⟩
    waiting := nofun
    connected := nofun
    empty := fun _ => rfl
    carried := nofun
    late := by
      intro wire hmem
      rcases List.mem_cons.mp hmem with rfl | hold
      · obtain ⟨good, hgood, -⟩ := hinv.carried hup
        exact ⟨good, hgood.left⟩
      · exact hinv.late wire hold }

theorem sendChange_of_up (hconnected : s.connected_ = true) (hup : s.up = true) (change : H)
    (pushed : Bool) :
    s.sendChange change pushed = { s with wire := s.wire ++ [⟨change, pushed⟩] } := by
  unfold EngineLink.sendChange
  rw [hconnected, hup]
  rfl

theorem sendChange_of_down (hup : s.up = false) (change : H) (pushed : Bool) :
    s.sendChange change pushed = s := by
  unfold EngineLink.sendChange
  rw [hup, Bool.and_false, if_neg Bool.false_ne_true]

/-- The push loop sends its next change. -/
theorem inv_push (hinv : LinkInv deps s) {change : H} {rest : List H}
    (hpush : s.to_push = change :: rest) :
    LinkInv deps (({ s with to_push := rest } : EngineLink H).sendChange change true) := by
  have hmerged : s.merged = true := by
    by_contra hno
    rw [(hinv.unmerged (by simpa using hno)).1] at hpush
    cases hpush
  have halone : s.writing = none := by
    by_contra hsome
    rw [hinv.alone hsome] at hpush
    cases hpush
  rcases Bool.eq_false_or_eq_true s.up with hup | hup
  · rw [sendChange_of_up (s := { s with to_push := rest }) (hinv.connected hup) hup]
    obtain ⟨good, hgood, hcover⟩ := hinv.carried hup
    rw [hpush] at hgood
    exact { hinv with
      unmerged := fun hno => nomatch hmerged.symm.trans hno
      alone := fun hsome => absurd halone hsome
      empty := fun hno => nomatch hup.symm.trans hno
      carried := by
        intro _
        refine ⟨_, hgood.snoc, ?_⟩
        intro _ h hh
        have hcase := hcover hmerged h hh
        rw [hpush] at hcase
        simp only [List.mem_cons, List.map_append, List.mem_append, List.map_cons, List.map_nil,
          List.not_mem_nil, or_false] at hcase ⊢
        tauto }
  · rw [sendChange_of_down (s := { s with to_push := rest }) hup]
    exact { hinv with
      unmerged := fun hno => nomatch hmerged.symm.trans hno
      alone := fun hsome => absurd halone hsome
      connected := fun hyes => nomatch hup.symm.trans hyes
      carried := fun hyes => nomatch hup.symm.trans hyes }

/-- The control thread sends what it has written. -/
theorem inv_sendChange (hdeps : ∀ change, change ∉ deps change) (hinv : LinkInv deps s)
    {change : H} (hwriting : s.writing = some change) :
    LinkInv deps (({ s with writing := none } : EngineLink H).sendChange change false) := by
  have hpush : s.to_push = [] := by
    apply hinv.alone
    rw [hwriting]
    exact Option.some_ne_none change
  have hhistory := hinv.written change hwriting
  rcases Bool.eq_false_or_eq_true s.up with hup | hup
  · rw [sendChange_of_up (s := { s with writing := none }) (hinv.connected hup) hup]
    exact { hinv with
      unmerged := by
        intro hno
        refine ⟨hpush, ?_⟩
        intro p hp
        rcases List.mem_append.mp hp with hold | hlast
        · exact (hinv.unmerged hno).2 p hold
        · rw [List.mem_singleton.mp hlast]
      alone := fun hsome => absurd rfl hsome
      written := nofun
      empty := fun hno => nomatch hup.symm.trans hno
      carried := by
        intro _
        cases hmerged : s.merged with
        | false =>
            refine ⟨[], sendable_of_direct ?_ ?_, nofun⟩
            · intro p hp
              rcases List.mem_append.mp hp with hold | hlast
              · exact (hinv.unmerged hmerged).2 p hold
              · rw [List.mem_singleton.mp hlast]
            · dsimp only
              rw [hpush]
              trivial
        | true =>
            obtain ⟨good, hgood, hcover⟩ := hinv.carried hup
            have hnext : Sendable deps s.server.history s.wire (change :: s.to_push) good := by
              obtain ⟨early, hsplit, hearly, hready⟩ := hgood
              refine ⟨early, hsplit, hearly, ?_⟩
              rw [hpush, List.append_nil] at hready
              rw [hpush]
              apply hready.append
              refine ⟨?_, trivial⟩
              intro d hd
              have hne : d ≠ change := fun heq => hdeps change (heq ▸ hd)
              have hin := hinv.ordered.deps_mem change hhistory d hd
              rcases hcover hmerged d hin with hserver | hsent | hlater | hmine
              · exact List.mem_append_left _ hserver
              · exact List.mem_append_right _ hsent
              · rw [hpush] at hlater
                cases hlater
              · rw [hwriting] at hmine
                exact absurd (Option.some.inj hmine).symm hne
            refine ⟨_, hnext.snoc, ?_⟩
            intro _ h hh
            have hcase := hcover hmerged h hh
            rw [hwriting, Option.some.injEq] at hcase
            simp only [List.map_append, List.mem_append, List.map_cons, List.map_nil,
              List.mem_cons, List.not_mem_nil, or_false, reduceCtorEq] at hcase ⊢
            tauto }
  · rw [sendChange_of_down (s := { s with writing := none }) hup]
    exact { hinv with
      alone := fun hsome => absurd rfl hsome
      written := nofun
      connected := fun hyes => nomatch hup.symm.trans hyes
      carried := fun hyes => nomatch hup.symm.trans hyes }

/-- The engine's document grows by what the server holds. -/
theorem LinkInv.withDoc (hinv : LinkInv deps s) {doc : Doc H}
    (hordered : Causal.Extends deps [] doc.history) (hkept : ∀ h ∈ s.history, h ∈ doc.history)
    (hknown : ∀ h ∈ Server.known doc, h ∈ s.authored ∨ h ∈ s.base) :
    LinkInv deps { s with doc := some doc } := by
  exact { hinv with
    ordered := hordered
    authored := fun change hchange => hkept change (hinv.authored change hchange)
    known := by
      rintro next hnext
      obtain rfl := Option.some.inj hnext
      exact hknown
    written := fun change hchange => hkept change (hinv.written change hchange)
    carried := by
      intro hup
      obtain ⟨good, hgood, hcover⟩ := hinv.carried hup
      refine ⟨good, hgood, ?_⟩
      intro hmerged h hh
      rcases hknown h (List.mem_append_left _ hh) with hauthored | hbase
      · exact hcover hmerged h (hinv.authored h hauthored)
      · exact Or.inl (hinv.base_subset h hbase) }

/-- The document of the server has been handled. -/
theorem LinkInv.handled (hinv : LinkInv deps s) (hjoined : s.joined = true) :
    LinkInv deps { s with received_initial_ := true, initial := none } := by
  exact { hinv with
    initial := nofun
    waiting := fun _ hno => nomatch hjoined.symm.trans hno
    known := fun doc hdoc h hh => (hinv.known doc hdoc h hh).imp_right (hinv.base_subset h)
    line := hinv.line.mono hinv.base_subset
    received := nofun }

/-- The push is computed: it lists what the server lacks of the document. -/
theorem LinkInv.pushing (hinv : LinkInv deps s) (hmerged : s.merged = false)
    (hwriting : s.writing = none) (hreceived : s.received_initial_ = true) {push : List H}
    (hready : Causal.Ready deps s.server.history push)
    (hcover : ∀ h ∈ s.history, h ∈ s.server.history ∨ h ∈ push) :
    LinkInv deps { s with to_push := push, merged := true } := by
  exact { hinv with
    received := fun hno => nomatch hreceived.symm.trans hno
    unmerged := nofun
    alone := fun hsome => absurd hwriting hsome
    carried := by
      intro _
      refine ⟨[], sendable_of_direct (hinv.unmerged hmerged).2 hready, ?_⟩
      intro _ h hh
      exact (hcover h hh).imp_right fun hpush => Or.inr (Or.inl hpush) }

variable [DecidableEq H] {seed : List H} {readDocument : Doc H → Bool}
  {getChangesAdded : Doc H → Doc H → List H}

/-- A change that the control thread writes depends on the last one it wrote,
and on no other that the server lacks. -/
theorem top_iff_last (hinv : LinkInv deps s) {doc : Doc H} (hdoc : s.doc = some doc) {a : H}
    (ha : a ∈ s.authored) (hout : a ∉ s.base) :
    a ∈ doc.getHeads deps ↔ s.authored.getLast? = some a := by
  have hhistory := history_of_doc hdoc
  obtain ⟨first, later, hsplit⟩ := List.append_of_mem ha
  constructor
  · intro hhead
    cases later with
    | nil =>
        rw [hsplit]
        exact List.getLast?_concat
    | cons next later =>
        have hnext : s.authored = (first ++ [a]) ++ next :: later := by
          rw [hsplit, List.append_assoc, List.singleton_append]
        have hdep : a ∈ deps next := by
          apply (hinv.line.follows _ next later hnext a ha hout).mpr
          exact List.getLast?_concat
        have hin : next ∈ doc.history := by
          rw [← hhistory]
          apply hinv.authored
          rw [hnext]
          exact List.mem_append_right _ List.mem_cons_self
        have hfree := List.all_eq_true.mp (List.mem_filter.mp hhead).2 next hin
        exact absurd hdep (of_decide_eq_true hfree)
  · intro hlast
    apply List.mem_filter.mpr
    refine ⟨hhistory ▸ hinv.authored a ha, List.all_eq_true.mpr ?_⟩
    intro c hc
    apply decide_eq_true
    intro hdep
    rw [← hhistory] at hc
    rcases hinv.authored_or_base hc with hmine | hbase
    · obtain ⟨before, after, hc⟩ := List.append_of_mem hmine
      have hprev := (hinv.line.follows before c after hc a ha hout).mp hdep
      have hrest : a ∈ c :: after := by
        rw [hc, List.getLast?_append_of_ne_nil _ (List.cons_ne_nil c after)] at hlast
        exact List.mem_of_getLast? hlast
      have hnodup := hinv.line.nodup
      rw [hc] at hnodup
      exact (List.nodup_append.mp hnodup).2.2 a (List.mem_of_getLast? hprev) a hrest rfl
    · exact hout (hinv.base_settled.deps_mem c hbase a hdep)

theorem inv_setProcessor (hdeps : ∀ change, change ∉ deps change) (hinv : LinkInv deps s)
    {doc : Doc H} {change : H} (hdoc : s.doc = some doc) (hwriting : s.writing = none)
    (hpush : s.to_push = []) (hnew : change ∉ doc.history)
    (hheads : ∀ d, d ∈ deps change ↔ d ∈ doc.getHeads deps) :
    LinkInv deps { s with
      doc := some { doc with history := doc.history ++ [change] }
      writing := some change
      authored := s.authored ++ [change] } := by
  have hhistory := history_of_doc hdoc
  have hnew : change ∉ s.history := by rwa [hhistory]
  have hready : ∀ d ∈ deps change, d ∈ s.history := by
    intro d hd
    rw [hhistory]
    exact List.mem_of_mem_filter ((hheads d).mp hd)
  have hknown := hinv.known doc hdoc
  exact { hinv with
    ordered := by
      have hext := hinv.ordered.append (s := [change]) ⟨hnew, hready, trivial⟩
      rwa [hhistory] at hext
    authored := by
      intro x hx
      rcases List.mem_append.mp hx with hold | hlast
      · exact List.mem_append_left _ (hhistory ▸ hinv.authored x hold)
      · exact List.mem_append_right _ hlast
    known := by
      rintro next hnext h hh
      obtain rfl := Option.some.inj hnext
      simp only [Server.known, List.mem_append, List.mem_singleton] at hh hknown ⊢
      rcases hh with (hold | rfl) | hqueue
      · exact (hknown h (Or.inl hold)).imp_left Or.inl
      · exact Or.inl (Or.inr rfl)
      · exact (hknown h (Or.inr hqueue)).imp_left Or.inl
    line := by
      apply hinv.line.snoc (fun hin => hnew (hinv.authored change hin)) (hdeps change)
      · intro x hx hd
        exact hnew (hinv.ordered.deps_mem x (hinv.authored x hx) change hd)
      · intro a ha hout
        rw [hheads a, top_iff_last hinv hdoc ha hout]
    alone := fun _ => hpush
    written := by
      rintro x hx
      obtain rfl := Option.some.inj hx
      exact List.mem_append_right _ (List.mem_singleton_self change)
    carried := by
      intro hup
      obtain ⟨good, hgood, hcover⟩ := hinv.carried hup
      refine ⟨good, hgood, ?_⟩
      intro hmerged h hh
      rcases List.mem_append.mp hh with hold | hlast
      · have hcase := hcover hmerged h (hhistory ▸ hold)
        rw [hwriting] at hcase
        rcases hcase with hserver | hsent | hlater | hnone
        · exact Or.inl hserver
        · exact Or.inr (Or.inl hsent)
        · exact Or.inr (Or.inr (Or.inl hlater))
        · cases hnone
      · rw [List.mem_singleton.mp hlast]
        exact Or.inr (Or.inr (Or.inr rfl)) }

theorem inv_change (hinv : LinkInv deps s) {doc : Doc H} {change : H} (hdoc : s.doc = some doc)
    (hreceived : s.received_initial_ = true) (hserver : change ∈ s.server.history) :
    LinkInv deps { s with doc := some (doc.applyChanges deps [change]) } := by
  have hhistory := history_of_doc hdoc
  have hgrown : doc.Grown deps (doc.applyChanges deps [change]) :=
    Document.Exchange.grown_applyChanges doc [change]
  have hbase : s.base = s.server.history := by
    unfold EngineLink.base
    cases hinitial : s.initial with
    | none => rfl
    | some data => exact nomatch hreceived.symm.trans (hinv.initial data hinitial).2.2.1
  apply hinv.withDoc
  · apply hgrown.ordered
    rw [← hhistory]
    exact hinv.ordered
  · rw [hhistory]
    exact hgrown.mem
  · intro h hh
    rcases (Server.mem_known_applyChanges doc [change] h).mp hh with hold | hlast
    · exact hinv.known doc hdoc h hold
    · rw [List.mem_singleton.mp hlast, hbase]
      exact Or.inr hserver

/-- The server refuses only what the control thread sent too early, and has
every change that it can take. -/
theorem LinkInv.serve (hdeps : ∀ change, change ∉ deps change) (hinv : LinkInv deps s)
    {p : Packet H} (hp : p.pushed = false ∨ ∀ d ∈ deps p.change, d ∈ s.server.history) :
    LinkInv deps (s.serve deps seed p) ∧
      ((∀ d ∈ deps p.change, d ∈ (s.serve deps seed p).server.history) →
        p.change ∈ (s.serve deps seed p).server.history) := by
  unfold EngineLink.serve
  rcases @Server.apply_change_cases H _ deps seed hdeps (some s.server) hinv.server p.change with
    ⟨doc, happly, hsettled, hmem⟩ | ⟨hnone, hmissing⟩
  · rw [happly]
    refine ⟨hinv.grow hsettled fun h hh => (hmem h).mpr (Or.inl hh), ?_⟩
    exact fun _ => (hmem p.change).mpr (Or.inr rfl)
  · rw [hnone]
    refine ⟨{ hinv with refused := ?_ }, fun hready => absurd hready hmissing⟩
    intro q hq
    rcases List.mem_cons.mp hq with rfl | hold
    · exact hp.resolve_right hmissing
    · exact hinv.refused q hold

theorem inv_deliver (hdeps : ∀ change, change ∉ deps change) (hinv : LinkInv deps s)
    {p : Packet H} {rest : List (Packet H)} (hwire : s.wire = p :: rest) :
    LinkInv deps (({ s with wire := rest } : EngineLink H).serve deps seed p) := by
  have hup : s.up = true := by
    by_contra hdown
    rw [hinv.empty (by simpa using hdown)] at hwire
    cases hwire
  obtain ⟨good, hgood, -⟩ := hinv.carried hup
  rw [hwire] at hgood
  obtain ⟨hserved, htaken⟩ := @LinkInv.serve _ _ _ _ seed hdeps hinv p hgood.head
  have hsame : ({ s with wire := rest } : EngineLink H).serve deps seed p =
      { s.serve deps seed p with wire := rest } := by
    unfold EngineLink.serve
    cases apply_change deps seed (some s.server) p.change <;> rfl
  have hkept : (s.serve deps seed p).wire = p :: rest ∧ (s.serve deps seed p).up = true := by
    unfold EngineLink.serve
    cases apply_change deps seed (some s.server) p.change <;> exact ⟨hwire, hup⟩
  rw [hsame]
  generalize s.serve deps seed p = t at hserved htaken hkept
  exact { hserved with
    unmerged := by
      intro hmerged
      refine ⟨(hserved.unmerged hmerged).1, ?_⟩
      intro q hq
      apply (hserved.unmerged hmerged).2
      rw [hkept.1]
      exact List.mem_cons_of_mem p hq
    empty := fun hdown => nomatch hkept.2.symm.trans hdown
    carried := by
      intro _
      obtain ⟨good, hgood, hcover⟩ := hserved.carried hkept.2
      rw [hkept.1] at hgood
      obtain ⟨left, hleft, hmoved⟩ := hgood.tail htaken
      refine ⟨left, hleft, ?_⟩
      intro hmerged h hh
      rcases hcover hmerged h hh with hin | hsent | hlater
      · exact Or.inl hin
      · exact (hmoved h hsent).imp_right Or.inl
      · exact Or.inr (Or.inr hlater) }

theorem inv_deliverLate (hdeps : ∀ change, change ∉ deps change) (hinv : LinkInv deps s) {i : Nat}
    {p : Packet H} {rest : List (Packet H)} (hwire : s.late[i]? = some (p :: rest)) :
    LinkInv deps (({ s with late := s.late.set i rest } : EngineLink H).serve deps seed p) := by
  obtain ⟨good, hgood⟩ := hinv.late _ (List.mem_of_getElem? hwire)
  obtain ⟨hserved, htaken⟩ := @LinkInv.serve _ _ _ _ seed hdeps hinv p hgood.head
  have hsame : ({ s with late := s.late.set i rest } : EngineLink H).serve deps seed p =
      { s.serve deps seed p with late := (s.serve deps seed p).late.set i rest } := by
    unfold EngineLink.serve
    cases apply_change deps seed (some s.server) p.change <;> rfl
  have hkept : (s.serve deps seed p).late[i]? = some (p :: rest) := by
    unfold EngineLink.serve
    cases apply_change deps seed (some s.server) p.change <;> exact hwire
  rw [hsame]
  generalize s.serve deps seed p = t at hserved htaken hkept
  exact { hserved with
    late := by
      intro wire hmem
      rcases List.mem_or_eq_of_mem_set hmem with hold | rfl
      · exact hserved.late wire hold
      · obtain ⟨good, hgood⟩ := hserved.late _ (List.mem_of_getElem? hkept)
        obtain ⟨left, hleft, -⟩ := hgood.tail htaken
        exact ⟨left, hleft⟩ }

/-- The document callback. -/
theorem inv_document (hadded : ListsLines deps getChangesAdded) (hinv : LinkInv deps s)
    {data : Doc H} (hinitial : s.initial = some data) (hwriting : s.writing = none) :
    LinkInv deps (s.onDocument deps readDocument getChangesAdded data) := by
  obtain ⟨hdata, hserver, hreceived, hjoined⟩ := hinv.initial data hinitial
  have hmerged := hinv.received hreceived
  have hpush := (hinv.unmerged hmerged).1
  have hbase : s.base = data.history := by
    unfold EngineLink.base
    rw [hinitial]
    rfl
  have hhandled := hinv.handled hjoined
  unfold EngineLink.onDocument
  dsimp only
  cases hdoc : s.doc with
  | none =>
      have hnothing : s.history = [] := by
        unfold EngineLink.history
        rw [hdoc]
        rfl
      have hadopted : LinkInv deps { s with
          received_initial_ := true, initial := none, doc := some data } := by
        apply hhandled.withDoc hdata.ordered
        · intro h hh
          exact absurd (hnothing ▸ hh) List.not_mem_nil
        · intro h hh
          rw [Server.known, hdata.queue, List.append_nil] at hh
          exact Or.inr (hserver h hh)
      dsimp only
      split
      · apply @LinkInv.pushing _ _ _ hadopted hmerged hwriting rfl s.to_push
        · rw [hpush]
          trivial
        · exact fun h hh => Or.inl (hserver h hh)
      · rw [hdoc] at hhandled
        exact hhandled
  | some doc =>
      have hhistory := history_of_doc hdoc
      have hgrown : doc.Grown deps (doc.merge deps data) :=
        Document.Exchange.grown_applyChanges doc _
      have hordered := hgrown.ordered (hhistory ▸ hinv.ordered)
      have hknown : ∀ h ∈ Server.known (doc.merge deps data),
          h ∈ s.authored ∨ h ∈ data.history := by
        intro h hh
        rcases (Server.mem_known_applyChanges doc _ h).mp hh with hold | hnew
        · rw [← hbase]
          exact hinv.known doc hdoc h hold
        · exact Or.inr (List.mem_of_mem_filter hnew)
      have hmerge : LinkInv deps { s with
          received_initial_ := true, initial := none, doc := some (doc.merge deps data) } := by
        apply hhandled.withDoc hordered
        · intro h hh
          exact hgrown.mem h (hhistory ▸ hh)
        · exact fun h hh => (hknown h hh).imp_right (hserver h)
      dsimp only
      split
      · -- what the server lacks is the end of the line of changes written here
        have hline := (hbase ▸ hinv.line).filter (hdata.ordered.deps_mem)
        have hmem : ∀ h, h ∈ (s.authored.filter fun h => decide (h ∉ data.history)) ↔
            h ∈ (doc.merge deps data).history ∧ h ∉ data.history := by
          intro h
          rw [List.mem_filter, decide_eq_true_eq]
          apply and_congr_left
          intro hout
          constructor
          · intro hmine
            exact hgrown.mem h (hhistory ▸ hinv.authored h hmine)
          · intro hh
            exact (hknown h (List.mem_append_left _ hh)).resolve_right hout
        rw [hadded data _ _ hdata hordered hline hmem]
        apply hmerge.pushing hmerged hwriting rfl
        · have hready : Causal.Ready deps data.history
              (s.authored.filter fun h => decide (h ∉ data.history)) := by
            apply hline.ready
            intro c hc d hd
            have hd := hordered.deps_mem c ((hmem c).mp hc).1 d hd
            by_cases hin : d ∈ data.history
            · exact Or.inl hin
            · exact Or.inr ((hmem d).mpr ⟨hd, hin⟩)
          exact hready.mono hserver
        · intro h hh
          by_cases hin : h ∈ data.history
          · exact Or.inl (hserver h hin)
          · exact Or.inr ((hmem h).mpr ⟨hh, hin⟩)
      · exact hmerge

theorem linkInv_of_step (hdeps : ∀ change, change ∉ deps change)
    (hadded : ListsLines deps getChangesAdded) {next : EngineLink H} (hinv : LinkInv deps s)
    (hstep : CleanLinked deps seed readDocument getChangesAdded s next) : LinkInv deps next := by
  obtain ⟨l, hclean, hstep⟩ := hstep
  cases l with
  | opened =>
      simp only [EngineLink.step] at hstep
      split at hstep
      · rename_i hguard
        simp only [Bool.and_eq_true, Bool.not_eq_true', List.isEmpty_iff] at hguard
        obtain rfl := Option.some.inj hstep
        exact inv_opened hinv hguard.1.2 hguard.2
      · cases hstep
  | document =>
      simp only [EngineLink.step] at hstep
      split at hstep
      · cases hstep
      · rename_i data hinitial
        split at hstep
        · rename_i hguard
          simp only [Bool.and_eq_true, Option.isNone_iff_eq_none] at hguard
          obtain rfl := Option.some.inj hstep
          exact inv_document hadded hinv hinitial hguard.2
        · cases hstep
  | change change =>
      simp only [EngineLink.step] at hstep
      split at hstep
      · cases hstep
      · rename_i doc hdoc
        split at hstep
        · rename_i hguard
          simp only [Bool.and_eq_true, decide_eq_true_eq] at hguard
          obtain rfl := Option.some.inj hstep
          exact inv_change hinv hdoc hguard.1.1.1.2 hguard.2
        · cases hstep
  | closed =>
      simp only [EngineLink.step] at hstep
      split at hstep
      · rename_i hguard
        simp only [Bool.and_eq_true, Bool.not_eq_true'] at hguard
        obtain rfl := Option.some.inj hstep
        exact inv_closed hinv hguard.1.2
      · cases hstep
  | push =>
      simp only [EngineLink.step] at hstep
      split at hstep
      · cases hstep
      · rename_i change rest hpush
        obtain rfl := Option.some.inj hstep
        exact inv_push hinv hpush
  | setProcessor change =>
      simp only [EngineLink.step] at hstep
      split at hstep
      · cases hstep
      · rename_i doc hdoc
        split at hstep
        · rename_i hguard
          simp only [Bool.and_eq_true, Option.isNone_iff_eq_none, decide_eq_true_eq,
            List.all_eq_true] at hguard
          obtain ⟨⟨⟨hwriting, hnew⟩, hheads⟩, hall⟩ := hguard
          obtain rfl := Option.some.inj hstep
          exact inv_setProcessor hdeps hinv hdoc hwriting hclean hnew
            fun d => ⟨hheads d, hall d⟩
        · cases hstep
  | sendChange =>
      simp only [EngineLink.step] at hstep
      split at hstep
      · cases hstep
      · rename_i change hwriting
        obtain rfl := Option.some.inj hstep
        exact inv_sendChange hdeps hinv hwriting
  | join =>
      simp only [EngineLink.step] at hstep
      split at hstep
      · rename_i hguard
        simp only [Bool.and_eq_true, Bool.not_eq_true'] at hguard
        obtain rfl := Option.some.inj hstep
        exact inv_join hinv (hinv.waiting hguard.1 hguard.2)
      · cases hstep
  | deliver =>
      simp only [EngineLink.step] at hstep
      split at hstep
      · rename_i p rest _ hwire
        obtain rfl := Option.some.inj hstep
        exact inv_deliver hdeps hinv hwire
      · cases hstep
  | deliverLate i =>
      simp only [EngineLink.step] at hstep
      split at hstep
      · rename_i p rest hwire
        obtain rfl := Option.some.inj hstep
        exact inv_deliverLate hdeps hinv hwire
      · cases hstep
  | peer change =>
      simp only [EngineLink.step] at hstep
      obtain ⟨server, happly, rfl⟩ := Option.map_eq_some_iff.mp hstep
      rcases @Server.apply_change_cases H _ deps seed hdeps (some s.server) hinv.server change with
        ⟨doc, hsome, hsettled, hmem⟩ | ⟨hnone, -⟩
      · rw [happly] at hsome
        obtain rfl := Option.some.inj hsome
        exact hinv.grow hsettled fun h hh => (hmem h).mpr (Or.inl hh)
      · rw [happly] at hnone
        cases hnone
  | fail =>
      simp only [EngineLink.step] at hstep
      split at hstep
      · rename_i hup
        obtain rfl := Option.some.inj hstep
        exact inv_fail hinv hup
      · cases hstep

/-- With nothing written during a push, the server gets every change of the
engine and refuses none that is pushed. -/
theorem delivers_of_clean_run (hdeps : ∀ change, change ∉ deps change)
    (hadded : ListsLines deps getChangesAdded) {server : Doc H} (hserver : server.Settled deps)
    (hrun : Run.Reaches (CleanLinked deps seed readDocument getChangesAdded)
      { server := server } s) : s.Delivers := by
  have hinv : LinkInv deps s := by
    apply Run.Reaches.invariant hrun
    · exact {
        ordered := trivial
        server := hserver
        initial := nofun
        waiting := nofun
        authored := nofun
        known := nofun
        line := ⟨List.nodup_nil, nofun⟩
        received := fun _ => rfl
        unmerged := fun _ => ⟨rfl, nofun⟩
        alone := fun _ => rfl
        written := nofun
        connected := nofun
        empty := fun _ => rfl
        carried := nofun
        late := nofun
        refused := nofun }
    · exact fun a b hstep hinv => linkInv_of_step hdeps hadded hinv hstep
  refine ⟨?_, hinv.refused⟩
  intro hup hmerged hpush hwriting hwire change hchange
  obtain ⟨good, ⟨early, hsplit, -, -⟩, hcover⟩ := hinv.carried hup
  rw [hwire] at hsplit
  obtain ⟨-, rfl⟩ := List.append_eq_nil_iff.mp hsplit.symm
  rcases hcover hmerged change (hinv.authored change hchange) with hin | hsent | hlater | hnone
  · exact hin
  · cases hsent
  · rw [hpush] at hlater
    cases hlater
  · rw [hwriting] at hnone
    cases hnone

end Preserved

section Lists

variable [DecidableEq H] (deps : H → List H)

/-- Listing the missing changes in the order of the document is one way. -/
theorem getChanges_listsLines : ListsLines deps Document.Exchange.getChanges := by
  intro remote doc line _ hordered hline hmem
  apply hline.eq_filter hordered
  intro h
  rw [hmem h, decide_eq_true_eq]

end Lists

/-- Every change but the first depends on the one before. -/
def onPrevious : Nat → List Nat
  | 0 => []
  | n + 1 => [n]

/-- The engine has adopted a document with one change, lost its socket, and
written one change. -/
def offline : List (LinkStep Nat) :=
  [.opened, .join, .document, .fail, .closed, .setProcessor 1, .sendChange]

/-- On the next socket it writes another one when its push is complete. -/
def afterPush : List (LinkStep Nat) :=
  offline ++ [.opened, .join, .document, .push, .setProcessor 2, .sendChange, .deliver, .deliver]

/-- On the next socket it writes another one while it pushes. -/
def overtaken : List (LinkStep Nat) :=
  offline ++ [.opened, .join, .document, .setProcessor 2, .sendChange, .push, .deliver, .deliver]

def firstServer : EngineLink Nat := { server := { history := [0] } }

def taking (s : EngineLink Nat) (l : LinkStep Nat) : Option (EngineLink Nat) :=
  s.step onPrevious [0] (fun _ => true) Document.Exchange.getChanges l

/-- The next change is written after the push, and both arrive. -/
theorem delivers_afterPush : ∃ s, Run.Reaches
    (CleanLinked onPrevious [0] (fun _ => true) Document.Exchange.getChanges) firstServer s ∧
      s.authored = [1, 2] ∧ s.server.history = [0, 1, 2] ∧ s.Delivers := by
  have hdeps : ∀ change, change ∉ onPrevious change := by
    intro change hmem
    cases change with
    | zero => cases hmem
    | succ n => exact absurd (List.mem_singleton.mp hmem) (Nat.succ_ne_self n)
  have hserver : ({ history := [0] } : Doc Nat).Settled onPrevious :=
    ⟨⟨List.not_mem_nil, nofun, trivial⟩, rfl⟩
  have hact : ∀ s l t, (if l.Clean s then taking s l else none) = some t →
      CleanLinked onPrevious [0] (fun _ => true) Document.Exchange.getChanges s t := by
    intro s l t htake
    split at htake
    · rename_i hclean
      exact ⟨l, hclean, htake⟩
    · cases htake
  obtain ⟨s, htake, hauthored, hheld⟩ : ∃ s,
      afterPush.foldlM (fun s l => if l.Clean s then taking s l else none) firstServer = some s ∧
      s.authored = [1, 2] ∧ s.server.history = [0, 1, 2] := ⟨_, rfl, rfl, rfl⟩
  have hrun := Run.Reaches.of_foldlM hact htake
  exact ⟨s, hrun, hauthored, hheld,
    delivers_of_clean_run hdeps (getChanges_listsLines onPrevious) hserver hrun⟩

/-- The next change is written during the push and overtakes it: the server
refuses it, and it is never sent again. -/
theorem not_delivers_overtaken : ¬∀ s, Run.Reaches
    (Linked onPrevious [0] (fun _ => true) Document.Exchange.getChanges) firstServer s →
      s.Delivers := by
  intro hall
  obtain ⟨s, htake, hup, hmerged, hpush, hwriting, hwire, hauthored, hheld⟩ :
      ∃ s, overtaken.foldlM taking firstServer = some s ∧ s.up = true ∧ s.merged = true ∧
        s.to_push = [] ∧ s.writing = none ∧ s.wire = [] ∧ s.authored = [1, 2] ∧
        s.server.history = [0, 1] :=
    ⟨_, rfl, rfl, rfl, rfl, rfl, rfl, rfl, rfl⟩
  have hact : ∀ s l t, taking s l = some t →
      Linked onPrevious [0] (fun _ => true) Document.Exchange.getChanges s t := by
    intro s l t htake
    exact ⟨l, htake⟩
  have hrun := Run.Reaches.of_foldlM hact htake
  have hmem := (hall s hrun).1 hup hmerged hpush hwriting hwire 2
  rw [hauthored, hheld] at hmem
  exact absurd (hmem (by decide)) (by decide)

end DawProject.Network
