import DawProject.Audio.Launch
import DawProject.Audio.Rebuild

/-!
The counter of engaged tracks, one atomic access at a time. A request of the
control thread decides from two loads what it adds or subtracts, while the
promotion of the audio thread moves the queued slot of the track to the
launched one. Accesses to the counter and to the grid are not split: the
control thread alone writes them.
-/

namespace DawProject.Audio

structure Request where
  track_id : String
  scene_id : String
  stop : Bool
  quantize : Bool
deriving DecidableEq, Repr

/-- Where the control thread stands in `launchSlot`, with its locals: the next
access is the one the name announces. -/
inductive Control where
  | idle
  | loadQueued (r : Request) (i : Nat) (prev : Int)
  | stopQueued (r : Request) (i : Nat) (prev prev_q : Int)
  | stopLaunched (r : Request) (i : Nat) (prev prev_q : Int)
  | subtract (r : Request) (i : Nat) (prev prev_q : Int)
  | readGrid (i idx : Nat) (quantize was_engaged : Bool)
  | storeStart (i idx : Nat) (start : Int) (was_engaged : Bool)
  | storeQueued (i idx : Nat) (was_engaged : Bool)
  | clearQueued (i idx : Nat) (now : Int) (was_engaged : Bool)
  | storeClock (i idx : Nat) (now : Int) (was_engaged : Bool)
  | storeLaunched (i idx : Nat) (was_engaged : Bool)
  | add (i : Nat) (was_engaged : Bool)
deriving DecidableEq, Repr

/-- Where the audio thread stands in the promotion of a track. -/
inductive Promotion where
  | idle
  | loadStart (i : Nat) (queued : Int) (frames : Nat)
  | storeClock (i : Nat) (queued qs : Int)
  | storeLaunched (i : Nat) (queued : Int)
  | clearQueued (i : Nat)
deriving DecidableEq, Repr

structure Threads where
  graph : AudioGraph
  control : Control := .idle
  audio : Promotion := .idle
deriving DecidableEq, Repr

/-- One atomic access of either thread, or the clock of a sub-block. -/
inductive Access where
  | request (r : Request)
  | control
  | turn (i : Nat) (frames : Nat)
  | audio
  | clock (session_clock : Int)
deriving DecidableEq, Repr

def AudioGraph.modifyTrack (g : AudioGraph) (i : Nat) (f : AudioTrack → AudioTrack) : AudioGraph :=
  { g with tracks := g.tracks.modify i f }

/-- What a stop drops and what it leaves. -/
def dropsSlot (r : Request) (t : AudioTrack) (slot : Int) : Bool :=
  decide (slot ≥ 0) && AudioGraph.inScene r.scene_id t slot

def keepsSlot (r : Request) (t : AudioTrack) (slot : Int) : Bool :=
  decide (slot ≥ 0) && !AudioGraph.inScene r.scene_id t slot

/-- The next access of the control thread on track `t`. -/
def Control.next (g : AudioGraph) (t : AudioTrack) : Control → AudioGraph × Control
  | .idle => (g, .idle)
  | .loadQueued r i prev =>
      let prev_q := t.queued_slot
      if r.stop then (g, .stopQueued r i prev prev_q)
      else
        match t.session_slots.findIdx? (fun slot => slot.scene_id = r.scene_id) with
        | none => (g, .idle)
        | some idx => (g, .readGrid i idx r.quantize (decide (prev ≥ 0 ∨ prev_q ≥ 0)))
  | .stopQueued r i prev prev_q =>
      (if dropsSlot r t prev_q then g.modifyTrack i fun t => { t with queued_slot := -1 } else g,
        .stopLaunched r i prev prev_q)
  | .stopLaunched r i prev prev_q =>
      (if dropsSlot r t prev then g.modifyTrack i fun t => { t with launched_slot := -1 } else g,
        .subtract r i prev prev_q)
  | .subtract r _ prev prev_q =>
      let was_engaged := decide (prev ≥ 0 ∨ prev_q ≥ 0)
      let engaged_after := keepsSlot r t prev_q || keepsSlot r t prev
      ({ g with
          launched_count :=
            if was_engaged && !engaged_after then g.launched_count - 1 else g.launched_count },
        .idle)
  | .readGrid i idx quantize was_engaged =>
      let now := g.session_clock
      let anchor := decide (g.launched_count = 0)
      let loop_len := (t.session_slots[idx]?.map SessionSlot.loop_len).getD 0
      let epoch := if anchor then now else g.session_epoch
      let quantum :=
        if anchor then (if g.musical_quantum > 0 then g.musical_quantum else loop_len)
        else g.session_quantum
      ({ g with session_epoch := epoch, session_quantum := quantum },
        if !anchor && quantize then
          .storeStart i idx (AudioGraph.nextQuantumStart now epoch quantum) was_engaged
        else .clearQueued i idx now was_engaged)
  | .storeStart i idx start was_engaged =>
      (g.modifyTrack i fun t => { t with queued_start := start }, .storeQueued i idx was_engaged)
  | .storeQueued i idx was_engaged =>
      (g.modifyTrack i fun t => { t with queued_slot := idx }, .add i was_engaged)
  | .clearQueued i idx now was_engaged =>
      (g.modifyTrack i fun t => { t with queued_slot := -1 }, .storeClock i idx now was_engaged)
  | .storeClock i idx now was_engaged =>
      (g.modifyTrack i fun t => { t with launch_clock := now }, .storeLaunched i idx was_engaged)
  | .storeLaunched i idx was_engaged =>
      (g.modifyTrack i fun t => { t with launched_slot := idx }, .add i was_engaged)
  | .add _ was_engaged =>
      ({ g with
          launched_count := if was_engaged then g.launched_count else g.launched_count + 1 },
        .idle)

/-- The next access of the audio thread on track `t`. -/
def Promotion.next (g : AudioGraph) (t : AudioTrack) : Promotion → AudioGraph × Promotion
  | .idle => (g, .idle)
  | .loadStart i queued frames =>
      (g, if t.queued_start < g.session_clock + frames then .storeClock i queued t.queued_start
        else .idle)
  | .storeClock i queued qs =>
      (g.modifyTrack i fun t => { t with launch_clock := qs }, .storeLaunched i queued)
  | .storeLaunched i queued =>
      (g.modifyTrack i fun t => { t with launched_slot := queued }, .clearQueued i)
  | .clearQueued i => (g.modifyTrack i fun t => { t with queued_slot := -1 }, .idle)

/-- The track of the request under way. -/
def Control.track : Control → Option Nat
  | .idle => none
  | .loadQueued _ i _ | .stopQueued _ i _ _ | .stopLaunched _ i _ _ | .subtract _ i _ _
  | .readGrid i _ _ _ | .storeStart i _ _ _ | .storeQueued i _ _ | .clearQueued i _ _ _
  | .storeClock i _ _ _ | .storeLaunched i _ _ | .add i _ => some i

/-- The track whose slot is being promoted. -/
def Promotion.track : Promotion → Option Nat
  | .idle => none
  | .loadStart i _ _ | .storeClock i _ _ | .storeLaunched i _ | .clearQueued i => some i

def Threads.step (s : Threads) : Access → Option Threads
  | .request r =>
      match s.control, s.graph.tracks.findIdx? (fun t => t.id = r.track_id) with
      | .idle, some i =>
          (s.graph.tracks[i]?).map fun t => { s with control := .loadQueued r i t.launched_slot }
      | _, _ => none
  | .control => do
      let t ← s.graph.tracks[← s.control.track]?
      let (graph, control) := s.control.next s.graph t
      return { s with graph := graph, control := control }
  | .turn i frames =>
      match s.audio, s.graph.tracks[i]? with
      | .idle, some t =>
          some { s with
            audio := if t.queued_slot ≥ 0 then .loadStart i t.queued_slot frames else .idle }
      | _, _ => none
  | .audio => do
      let t ← s.graph.tracks[← s.audio.track]?
      let (graph, audio) := s.audio.next s.graph t
      return { s with graph := graph, audio := audio }
  | .clock session_clock =>
      match s.audio with
      | .idle => some { s with graph := { s.graph with session_clock := session_clock } }
      | _ => none

/-- A slot plays on the track or waits in its queue. -/
def AudioTrack.isEngaged (t : AudioTrack) : Bool := decide (t.launched_slot ≥ 0 ∨ t.queued_slot ≥ 0)

def AudioGraph.engagedTracks (g : AudioGraph) : Int := g.tracks.countP AudioTrack.isEngaged

/-- A stop of track `i` is under way. -/
def Control.stops (c : Control) (i : Nat) : Bool :=
  match c with
  | .loadQueued r j _ => r.stop && decide (j = i)
  | .stopQueued _ j _ _ | .stopLaunched _ j _ _ | .subtract _ j _ _ => decide (j = i)
  | _ => false

/-- A launch of track `i` has read both slots and is under way. -/
def Control.launches (c : Control) (i : Nat) : Bool :=
  match c with
  | .readGrid j _ _ _ | .storeStart j _ _ _ | .storeQueued j _ _ | .clearQueued j _ _ _
  | .storeClock j _ _ _ | .storeLaunched j _ _ | .add j _ => decide (j = i)
  | _ => false

/-- A request of track `i` under way takes the track for engaged on account of
its queue alone: a launch that has read no launched slot and not yet the queue,
or a stop that keeps the queued slot it has read and drops the launched one. -/
def Control.countsQueue (c : Control) (i : Nat) (t : AudioTrack) : Bool :=
  match c with
  | .loadQueued r j prev => !r.stop && decide (j = i) && decide (prev < 0)
  | .stopQueued r j prev prev_q | .stopLaunched r j prev prev_q | .subtract r j prev prev_q =>
      decide (j = i) && keepsSlot r t prev_q && !keepsSlot r t prev
  | _ => false

/-- The promotion does not cross a request of its track: its slot is launched
while no stop is under way, on a track that is engaged or being launched; and
its queue is cleared while no request counts on it and the track does not
become idle. -/
def Clean (s : Threads) : Access → Prop
  | .audio =>
      match s.audio with
      | .storeLaunched i _ => s.control.stops i = false ∧
          (s.control.launches i = true ∨ ∃ t ∈ s.graph.tracks[i]?, t.isEngaged = true)
      | .clearQueued i => ∀ t ∈ s.graph.tracks[i]?, s.control.countsQueue i t = false ∧
          (t.launched_slot ≥ 0 ∨ t.queued_slot < 0)
      | _ => True
  | _ => True

/-- One access of a run. -/
def AccessStep (s next : Threads) : Prop := ∃ a, s.step a = some next

def CleanAccess (s next : Threads) : Prop := ∃ a, Clean s a ∧ s.step a = some next

/-- The counter as its comment states it, once both threads are quiescent, and
never below zero. -/
def CountHolds (s : Threads) : Prop :=
  (s.control = .idle → s.audio = .idle → s.graph.launched_count = s.graph.engagedTracks) ∧
    0 ≤ s.graph.launched_count

section Count

/-- One for an engaged track. -/
def AudioTrack.weight (t : AudioTrack) : Int := if t.isEngaged then 1 else 0

theorem countP_modify {tracks : List AudioTrack} {i : Nat} {t : AudioTrack}
    (ht : tracks[i]? = some t) (f : AudioTrack → AudioTrack) :
    ((tracks.modify i f).countP AudioTrack.isEngaged : Int) =
      tracks.countP AudioTrack.isEngaged - t.weight + (f t).weight := by
  induction tracks generalizing i with
  | nil => cases ht
  | cons first rest ih =>
      cases i with
      | zero =>
          obtain rfl := Option.some.inj ht
          simp only [List.modify_zero_cons, List.countP_cons, AudioTrack.weight]
          push_cast
          ring
      | succ i =>
          have hrest := ih ht
          simp only [List.modify_succ_cons, List.countP_cons] at hrest ⊢
          push_cast
          omega

theorem engagedTracks_modifyTrack {g : AudioGraph} {i : Nat} {t : AudioTrack}
    (ht : g.tracks[i]? = some t) (f : AudioTrack → AudioTrack) :
    (g.modifyTrack i f).engagedTracks = g.engagedTracks - t.weight + (f t).weight :=
  countP_modify ht f

theorem weight_le_engagedTracks {g : AudioGraph} {i : Nat} {t : AudioTrack}
    (ht : g.tracks[i]? = some t) : t.weight ≤ g.engagedTracks := by
  have hidle := engagedTracks_modifyTrack ht fun t =>
    { t with launched_slot := -1, queued_slot := -1 }
  have hzero : AudioTrack.weight { t with launched_slot := -1, queued_slot := -1 } = 0 := rfl
  have hcount : 0 ≤ (g.modifyTrack i fun t =>
    { t with launched_slot := -1, queued_slot := -1 }).engagedTracks := Int.natCast_nonneg _
  omega

theorem isEngaged_iff {t : AudioTrack} :
    t.isEngaged = true ↔ t.launched_slot ≥ 0 ∨ t.queued_slot ≥ 0 := decide_eq_true_iff

theorem weight_of_engaged {t : AudioTrack} (h : t.isEngaged = true) : t.weight = 1 := by
  rw [AudioTrack.weight, if_pos h]

theorem weight_of_not_engaged {t : AudioTrack} (h : ¬t.isEngaged = true) : t.weight = 0 := by
  rw [AudioTrack.weight, if_neg h]

end Count

section Invariant

/-- One when the request has taken its track for engaged. -/
def wasEngaged (was_engaged : Bool) : Int := if was_engaged then 1 else 0

/-- What a request under way knows of its track, whose part of the counter is
`own`. -/
def Control.Local (c : Control) (own : Int) (t : AudioTrack) : Prop :=
  match c with
  | .idle => True
  | .loadQueued r _ prev => own = t.weight ∧ (r.stop = true → t.launched_slot = prev) ∧
      (r.stop = false → (0 ≤ prev → t.isEngaged = true) ∧
        (prev < 0 → t.launched_slot < 0 ∨ 0 ≤ t.queued_slot))
  | .stopQueued r _ prev prev_q => own = wasEngaged (decide (prev ≥ 0 ∨ prev_q ≥ 0)) ∧
      t.launched_slot = prev ∧ (t.queued_slot = prev_q ∨
        t.queued_slot < 0 ∧ (keepsSlot r t prev_q = true → keepsSlot r t prev = true))
  | .stopLaunched r _ prev prev_q => own = wasEngaged (decide (prev ≥ 0 ∨ prev_q ≥ 0)) ∧
      t.launched_slot = prev ∧ (keepsSlot r t prev_q = true ∧ t.queued_slot = prev_q ∨
        t.queued_slot < 0 ∧ (keepsSlot r t prev_q = true → keepsSlot r t prev = true))
  | .subtract r _ prev prev_q => own = wasEngaged (decide (prev ≥ 0 ∨ prev_q ≥ 0)) ∧
      (t.isEngaged = true ↔ keepsSlot r t prev_q = true ∨ keepsSlot r t prev = true)
  | .readGrid _ _ _ was_engaged | .storeStart _ _ _ was_engaged | .storeQueued _ _ was_engaged
  | .clearQueued _ _ _ was_engaged | .storeClock _ _ _ was_engaged
  | .storeLaunched _ _ was_engaged => own = wasEngaged was_engaged
  | .add _ was_engaged => own = wasEngaged was_engaged ∧ t.isEngaged = true

/-- The slot a promotion carries is one. -/
def Promotion.Carries : Promotion → Prop
  | .loadStart _ queued _ | .storeClock _ queued _ | .storeLaunched _ queued => 0 ≤ queued
  | _ => True

/-- The counter is the number of engaged tracks, but for the track of the
request under way. -/
def CountKept (g : AudioGraph) (c : Control) : Prop :=
  match c.track with
  | none => g.launched_count = g.engagedTracks
  | some i => ∃ t, g.tracks[i]? = some t ∧
      c.Local (g.launched_count - (g.engagedTracks - t.weight)) t

structure CountInv (s : Threads) : Prop where
  carries : s.audio.Carries
  count : CountKept s.graph s.control

variable {g : AudioGraph} {c : Control} {i : Nat} {t : AudioTrack} {f : AudioTrack → AudioTrack}

theorem track_of_launches (h : c.launches i = true) : c.track = some i := by
  cases c <;> simp_all [Control.launches, Control.track]

theorem getElem?_modifyTrack_self (ht : g.tracks[i]? = some t) :
    (g.modifyTrack i f).tracks[i]? = some (f t) := by
  simp [AudioGraph.modifyTrack, ht]

theorem getElem?_modifyTrack_of_ne {j : Nat} (hne : i ≠ j) :
    (g.modifyTrack i f).tracks[j]? = g.tracks[j]? := by
  simp [AudioGraph.modifyTrack, hne]

/-- The audio thread keeps the count when it keeps the weight of a track that
no request is on, and what the request knows of its own. -/
theorem countKept_of_modify (ht : g.tracks[i]? = some t) (hkept : CountKept g c)
    (hlocal : c.track = some i → ∀ own, c.Local own t → c.Local own (f t))
    (hweight : c.track ≠ some i → (f t).weight = t.weight) : CountKept (g.modifyTrack i f) c := by
  have hcount : (g.modifyTrack i f).launched_count = g.launched_count := rfl
  have htracks := engagedTracks_modifyTrack ht f
  unfold CountKept at hkept ⊢
  cases htrack : c.track with
  | none =>
      rw [htrack] at hkept
      dsimp only at hkept ⊢
      rw [hcount, htracks, hweight (by rw [htrack]; exact nofun), hkept]
      omega
  | some j =>
      rw [htrack] at hkept
      obtain ⟨u, hu, hown⟩ := hkept
      by_cases hij : i = j
      · subst hij
        obtain rfl := Option.some.inj (ht.symm.trans hu)
        refine ⟨f t, getElem?_modifyTrack_self ht, ?_⟩
        have hsame : (g.modifyTrack i f).launched_count -
            ((g.modifyTrack i f).engagedTracks - (f t).weight) =
              g.launched_count - (g.engagedTracks - t.weight) := by
          rw [hcount, htracks]
          omega
        rw [hsame]
        exact hlocal htrack _ hown
      · refine ⟨u, (getElem?_modifyTrack_of_ne hij).trans hu, ?_⟩
        have hother : c.track ≠ some i := by
          rw [htrack]
          exact fun h => hij (Option.some.inj h).symm
        rw [hcount, htracks, hweight hother, Int.sub_add_cancel]
        exact hown

/-- Launching the promoted slot, outside a stop and not on an idle track. -/
theorem local_of_storeLaunched {queued own : Int} (hqueued : 0 ≤ queued)
    (htrack : c.track = some i) (hstop : c.stops i = false)
    (hengaged : c.launches i = true ∨ t.isEngaged = true) (hlocal : c.Local own t) :
    c.Local own { t with launched_slot := queued } := by
  have hafter : AudioTrack.isEngaged { t with launched_slot := queued } = true :=
    isEngaged_iff.mpr (Or.inl hqueued)
  cases c with
  | idle => cases htrack
  | loadQueued r j prev =>
      obtain rfl := Option.some.inj htrack
      obtain ⟨hown, hlaunched, hloaded⟩ := hlocal
      have hplain : r.stop = false := by simpa [Control.stops] using hstop
      have hold : t.isEngaged = true := by simpa [Control.launches] using hengaged
      refine ⟨?_, fun h => absurd (hplain.symm.trans h) Bool.false_ne_true,
        fun _ => ⟨fun _ => hafter, ?_⟩⟩
      · rw [hown, weight_of_engaged hold, weight_of_engaged hafter]
      · intro hprev
        right
        rcases (hloaded hplain).2 hprev with hidle | hqueue
        · rcases isEngaged_iff.mp hold with hplays | hwaits
          · exact absurd hplays (not_le.mpr hidle)
          · exact hwaits
        · exact hqueue
  | stopQueued r j prev prev_q =>
      obtain rfl := Option.some.inj htrack
      simp [Control.stops] at hstop
  | stopLaunched r j prev prev_q =>
      obtain rfl := Option.some.inj htrack
      simp [Control.stops] at hstop
  | subtract r j prev prev_q =>
      obtain rfl := Option.some.inj htrack
      simp [Control.stops] at hstop
  | add j was_engaged => exact ⟨hlocal.1, hafter⟩
  | _ => exact hlocal

theorem isEngaged_clearQueued (hkeeps : t.launched_slot ≥ 0 ∨ t.queued_slot < 0) :
    AudioTrack.isEngaged { t with queued_slot := -1 } = t.isEngaged := by
  rw [Bool.eq_iff_iff, isEngaged_iff, isEngaged_iff]
  dsimp only
  omega

/-- Clearing the queue of a promoted slot while nothing counts on it. -/
theorem local_of_clearQueued {own : Int} (htrack : c.track = some i)
    (hfree : c.countsQueue i t = false) (hkeeps : t.launched_slot ≥ 0 ∨ t.queued_slot < 0)
    (hlocal : c.Local own t) : c.Local own { t with queued_slot := -1 } := by
  have hengaged := isEngaged_clearQueued hkeeps
  have hweight : AudioTrack.weight { t with queued_slot := -1 } = t.weight := by
    rw [AudioTrack.weight, AudioTrack.weight, hengaged]
  cases c with
  | idle => cases htrack
  | loadQueued r j prev =>
      obtain rfl := Option.some.inj htrack
      obtain ⟨hown, hlaunched, hloaded⟩ := hlocal
      refine ⟨hown.trans hweight.symm, hlaunched, fun hplain => ⟨?_, ?_⟩⟩
      · intro hprev
        exact hengaged.trans ((hloaded hplain).1 hprev)
      · intro hprev
        simp [Control.countsQueue, hplain, hprev] at hfree
  | stopQueued r j prev prev_q | stopLaunched r j prev prev_q =>
      obtain rfl := Option.some.inj htrack
      obtain ⟨hown, hlaunched, -⟩ := hlocal
      refine ⟨hown, hlaunched, Or.inr ⟨neg_one_lt_zero, ?_⟩⟩
      intro hkept
      have hkept' : keepsSlot r t prev_q = true := hkept
      have hplays : keepsSlot r t prev = true := by
        simpa [Control.countsQueue, hkept'] using hfree
      exact hplays
  | subtract r j prev prev_q => exact ⟨hlocal.1, (Eq.congr_left hengaged).trans hlocal.2⟩
  | add j was_engaged => exact ⟨hlocal.1, hengaged.trans hlocal.2⟩
  | _ => exact hlocal

/-- The stores of a request, and what it decides when they are done. -/
theorem countInv_of_control {s : Threads} (hinv : CountInv s) (hi : s.control.track = some i)
    (ht : s.graph.tracks[i]? = some t) :
    CountKept (s.control.next s.graph t).1 (s.control.next s.graph t).2 := by
  obtain ⟨-, hcount⟩ := hinv
  unfold CountKept at hcount
  rw [hi] at hcount
  obtain ⟨u, hu, hlocal⟩ := hcount
  obtain rfl := Option.some.inj (ht.symm.trans hu)
  have hmodify : ∀ f : AudioTrack → AudioTrack, (s.graph.modifyTrack i f).launched_count -
      ((s.graph.modifyTrack i f).engagedTracks - (f t).weight) =
        s.graph.launched_count - (s.graph.engagedTracks - t.weight) := by
    intro f
    rw [engagedTracks_modifyTrack ht f]
    show s.graph.launched_count - _ = _
    omega
  cases hc : s.control with
  | idle =>
      rw [hc] at hi
      cases hi
  | loadQueued r j prev =>
      rw [hc] at hi hlocal
      obtain rfl := Option.some.inj hi
      obtain ⟨hown, hlaunched, hloaded⟩ := hlocal
      simp only [Control.next]
      split
      · rename_i hstop
        refine ⟨t, ht, ?_, hlaunched hstop, Or.inl rfl⟩
        rw [hown, ← hlaunched hstop]
        rfl
      · rename_i hplain
        obtain ⟨hplays, hidle⟩ := hloaded (Bool.eq_false_iff.mpr hplain)
        split
        · show s.graph.launched_count = s.graph.engagedTracks
          omega
        · refine ⟨t, ht, ?_⟩
          show _ = wasEngaged (decide (prev ≥ 0 ∨ t.queued_slot ≥ 0))
          have hread : t.isEngaged = decide (prev ≥ 0 ∨ t.queued_slot ≥ 0) := by
            rw [Bool.eq_iff_iff, decide_eq_true_eq]
            constructor
            · intro hengaged
              rcases lt_or_ge prev 0 with hneg | hpos
              · rcases isEngaged_iff.mp hengaged with hnow | hqueue
                · rcases hidle hneg with hnot | hqueue
                  · exact absurd hnow (not_le.mpr hnot)
                  · exact Or.inr hqueue
                · exact Or.inr hqueue
              · exact Or.inl hpos
            · rintro (hprev | hqueue)
              · exact hplays hprev
              · exact isEngaged_iff.mpr (Or.inr hqueue)
          rw [← hread]
          exact hown
  | stopQueued r j prev prev_q =>
      rw [hc] at hi hlocal
      obtain rfl := Option.some.inj hi
      obtain ⟨hown, hlaunched, hqueue⟩ := hlocal
      simp only [Control.next]
      split
      · rename_i hdrops
        refine ⟨_, getElem?_modifyTrack_self ht, ?_, hlaunched, Or.inr ⟨neg_one_lt_zero, ?_⟩⟩
        · rw [hmodify]
          exact hown
        · intro hkept
          have hkept' : keepsSlot r t prev_q = true := hkept
          simp only [dropsSlot, keepsSlot, Bool.and_eq_true, Bool.not_eq_true'] at hdrops hkept'
          exact absurd (hdrops.2.symm.trans hkept'.2) Bool.false_ne_true.symm
      · rename_i hkeeps
        refine ⟨t, ht, hown, hlaunched, ?_⟩
        rcases hqueue with hsame | hcleared
        · rcases lt_or_ge prev_q 0 with hneg | hpos
          · refine Or.inr ⟨hsame ▸ hneg, ?_⟩
            intro hkept
            simp only [keepsSlot, Bool.and_eq_true, decide_eq_true_eq] at hkept
            omega
          · refine Or.inl ⟨?_, hsame⟩
            simpa [dropsSlot, keepsSlot, hpos] using hkeeps
        · exact Or.inr hcleared
  | stopLaunched r j prev prev_q =>
      rw [hc] at hi hlocal
      obtain rfl := Option.some.inj hi
      obtain ⟨hown, hlaunched, hqueue⟩ := hlocal
      have hqueued : t.queued_slot ≥ 0 → keepsSlot r t prev_q = true := by
        intro hpos
        rcases hqueue with ⟨hkept, -⟩ | ⟨hneg, -⟩
        · exact hkept
        · omega
      simp only [Control.next]
      split
      · rename_i hdrops
        have hnot : ¬keepsSlot r t prev = true := by
          simp only [dropsSlot, Bool.and_eq_true] at hdrops
          simp [keepsSlot, hdrops.2]
        refine ⟨_, getElem?_modifyTrack_self ht, ?_, ?_⟩
        · rw [hmodify]
          exact hown
        · show AudioTrack.isEngaged { t with launched_slot := -1 } = true ↔
            keepsSlot r t prev_q = true ∨ keepsSlot r t prev = true
          rw [isEngaged_iff, or_iff_left hnot]
          dsimp only
          constructor
          · rintro (hneg | hpos)
            · omega
            · exact hqueued hpos
          · intro hkept
            right
            rcases hqueue with ⟨-, hsame⟩ | ⟨-, himplies⟩
            · simp only [keepsSlot, Bool.and_eq_true, decide_eq_true_eq] at hkept
              omega
            · exact absurd (himplies hkept) hnot
      · rename_i hkeeps
        have hprev : t.launched_slot ≥ 0 ↔ keepsSlot r t prev = true := by
          rw [hlaunched]
          constructor
          · intro hpos
            simpa [dropsSlot, keepsSlot, hpos] using hkeeps
          · intro hkept
            simp only [keepsSlot, Bool.and_eq_true, decide_eq_true_eq] at hkept
            exact hkept.1
        refine ⟨t, ht, hown, ?_⟩
        rw [isEngaged_iff]
        constructor
        · rintro (hplays | hpos)
          · exact Or.inr (hprev.mp hplays)
          · exact Or.inl (hqueued hpos)
        · rintro (hkept | hplays)
          · rcases hqueue with ⟨-, hsame⟩ | ⟨-, himplies⟩
            · simp only [keepsSlot, Bool.and_eq_true, decide_eq_true_eq] at hkept
              exact Or.inr (by omega)
            · exact Or.inl (hprev.mpr (himplies hkept))
          · exact Or.inl (hprev.mpr hplays)
  | subtract r j prev prev_q =>
      rw [hc] at hi hlocal
      obtain rfl := Option.some.inj hi
      obtain ⟨hown, hafter⟩ := hlocal
      have hgoal : (if decide (prev ≥ 0 ∨ prev_q ≥ 0) &&
          !(keepsSlot r t prev_q || keepsSlot r t prev) then s.graph.launched_count - 1
          else s.graph.launched_count) = s.graph.engagedTracks → CountKept
            ((Control.subtract r j prev prev_q).next s.graph t).1
            ((Control.subtract r j prev prev_q).next s.graph t).2 := id
      apply hgoal
      by_cases hengaged : t.isEngaged = true
      · have hkept : (keepsSlot r t prev_q || keepsSlot r t prev) = true := by
          rw [Bool.or_eq_true]
          exact hafter.mp hengaged
        have hwas : decide (prev ≥ 0 ∨ prev_q ≥ 0) = true := by
          rw [decide_eq_true_eq]
          simp only [keepsSlot, Bool.or_eq_true, Bool.and_eq_true, decide_eq_true_eq] at hkept
          rcases hkept with ⟨hq, -⟩ | ⟨hp, -⟩
          · exact Or.inr hq
          · exact Or.inl hp
        rw [weight_of_engaged hengaged, hwas] at hown
        rw [hkept, hwas, if_neg (by decide)]
        simp only [wasEngaged, if_true] at hown
        omega
      · have hkept : (keepsSlot r t prev_q || keepsSlot r t prev) = false := by
          rw [Bool.eq_false_iff, ne_eq, Bool.or_eq_true]
          exact fun h => hengaged (hafter.mpr h)
        rw [weight_of_not_engaged hengaged] at hown
        rw [hkept, Bool.not_false, Bool.and_true]
        unfold wasEngaged at hown
        split
        · rename_i hwas
          rw [if_pos hwas] at hown
          omega
        · rename_i hwas
          rw [if_neg hwas] at hown
          omega
  | readGrid j idx quantize was_engaged =>
      rw [hc] at hi hlocal
      obtain rfl := Option.some.inj hi
      unfold CountKept
      simp only [Control.next]
      split
      · rename_i hnone
        split at hnone <;> cases hnone
      · rename_i k hk
        split at hk
        · obtain rfl := Option.some.inj hk
          exact ⟨t, ht, by split <;> exact hlocal⟩
        · obtain rfl := Option.some.inj hk
          exact ⟨t, ht, by split <;> exact hlocal⟩
  | storeStart j idx start was_engaged =>
      rw [hc] at hi hlocal
      obtain rfl := Option.some.inj hi
      exact ⟨_, getElem?_modifyTrack_self ht, (hmodify _).trans hlocal⟩
  | storeQueued j idx was_engaged =>
      rw [hc] at hi hlocal
      obtain rfl := Option.some.inj hi
      refine ⟨_, getElem?_modifyTrack_self ht, (hmodify _).trans hlocal, ?_⟩
      exact isEngaged_iff.mpr (Or.inr (Int.natCast_nonneg idx))
  | clearQueued j idx now was_engaged =>
      rw [hc] at hi hlocal
      obtain rfl := Option.some.inj hi
      exact ⟨_, getElem?_modifyTrack_self ht, (hmodify _).trans hlocal⟩
  | storeClock j idx now was_engaged =>
      rw [hc] at hi hlocal
      obtain rfl := Option.some.inj hi
      exact ⟨_, getElem?_modifyTrack_self ht, (hmodify _).trans hlocal⟩
  | storeLaunched j idx was_engaged =>
      rw [hc] at hi hlocal
      obtain rfl := Option.some.inj hi
      refine ⟨_, getElem?_modifyTrack_self ht, (hmodify _).trans hlocal, ?_⟩
      exact isEngaged_iff.mpr (Or.inl (Int.natCast_nonneg idx))
  | add j was_engaged =>
      rw [hc] at hi hlocal
      obtain rfl := Option.some.inj hi
      obtain ⟨hown, hengaged⟩ := hlocal
      rw [weight_of_engaged hengaged] at hown
      have hgoal : (if was_engaged then s.graph.launched_count else s.graph.launched_count + 1) =
          s.graph.engagedTracks → CountKept ((Control.add j was_engaged).next s.graph t).1
            ((Control.add j was_engaged).next s.graph t).2 := id
      apply hgoal
      unfold wasEngaged at hown
      split
      · rename_i hwas
        rw [if_pos hwas] at hown
        omega
      · rename_i hwas
        rw [if_neg hwas] at hown
        omega

theorem countInv_of_audio {s : Threads} (hinv : CountInv s) (hclean : Clean s .audio)
    (hi : s.audio.track = some i) (ht : s.graph.tracks[i]? = some t) :
    (s.audio.next s.graph t).2.Carries ∧ CountKept (s.audio.next s.graph t).1 s.control := by
  obtain ⟨hcarries, hcount⟩ := hinv
  cases ha : s.audio with
  | idle =>
      rw [ha] at hi
      cases hi
  | loadStart j queued frames =>
      rw [ha] at hcarries
      refine ⟨?_, hcount⟩
      simp only [Promotion.next]
      split
      · exact hcarries
      · trivial
  | storeClock j queued qs =>
      rw [ha] at hi hcarries
      obtain rfl := Option.some.inj hi
      refine ⟨hcarries, countKept_of_modify ht hcount ?_ fun _ => rfl⟩
      intro _ own hlocal
      cases hc : s.control <;> rw [hc] at hlocal <;> exact hlocal
  | storeLaunched j queued =>
      rw [ha] at hi hcarries
      obtain rfl := Option.some.inj hi
      simp only [Clean, ha] at hclean
      obtain ⟨hstop, hengaged⟩ := hclean
      have hengaged' : s.control.launches j = true ∨ t.isEngaged = true := by
        rcases hengaged with hlaunch | ⟨u, hu, hplays⟩
        · exact Or.inl hlaunch
        · obtain rfl := Option.some.inj (ht.symm.trans hu)
          exact Or.inr hplays
      refine ⟨trivial, countKept_of_modify ht hcount ?_ ?_⟩
      · exact fun htrack own => local_of_storeLaunched hcarries htrack hstop hengaged'
      · intro hother
        rcases hengaged' with hlaunch | hplays
        · exact absurd (track_of_launches hlaunch) hother
        · rw [weight_of_engaged hplays]
          exact weight_of_engaged (isEngaged_iff.mpr (Or.inl hcarries))
  | clearQueued j =>
      rw [ha] at hi
      obtain rfl := Option.some.inj hi
      simp only [Clean, ha] at hclean
      obtain ⟨hfree, hkeeps⟩ := hclean t ht
      refine ⟨trivial, countKept_of_modify ht hcount ?_ ?_⟩
      · exact fun htrack own => local_of_clearQueued htrack hfree hkeeps
      · intro _
        rw [AudioTrack.weight, AudioTrack.weight, isEngaged_clearQueued hkeeps]

theorem countInv_of_step {s next : Threads} (hinv : CountInv s) (hstep : CleanAccess s next) :
    CountInv next := by
  obtain ⟨a, hclean, hstep⟩ := hstep
  cases a with
  | request r =>
      simp only [Threads.step] at hstep
      split at hstep
      · rename_i i hidle hfind
        obtain ⟨t, ht, rfl⟩ := Option.map_eq_some_iff.mp hstep
        have hcount := hinv.count
        rw [hidle] at hcount
        refine ⟨hinv.carries, t, ht, ?_, fun _ => rfl, fun _ => ⟨?_, Or.inl⟩⟩
        · show s.graph.launched_count - (s.graph.engagedTracks - t.weight) = t.weight
          rw [show s.graph.launched_count = s.graph.engagedTracks from hcount]
          omega
        · exact fun hpos => isEngaged_iff.mpr (Or.inl hpos)
      · cases hstep
  | control =>
      simp only [Threads.step, Option.bind_eq_bind, Option.bind_eq_some_iff] at hstep
      obtain ⟨i, hi, t, ht, hdone⟩ := hstep
      obtain rfl := Option.some.inj hdone
      exact ⟨hinv.carries, countInv_of_control hinv hi ht⟩
  | turn i frames =>
      simp only [Threads.step] at hstep
      split at hstep
      · obtain rfl := Option.some.inj hstep
        refine ⟨?_, hinv.count⟩
        dsimp only
        split
        · assumption
        · trivial
      · cases hstep
  | audio =>
      simp only [Threads.step, Option.bind_eq_bind, Option.bind_eq_some_iff] at hstep
      obtain ⟨i, hi, t, ht, hdone⟩ := hstep
      obtain rfl := Option.some.inj hdone
      obtain ⟨hcarries, hcount⟩ := countInv_of_audio hinv hclean hi ht
      exact ⟨hcarries, hcount⟩
  | clock session_clock =>
      simp only [Threads.step] at hstep
      split at hstep
      · obtain rfl := Option.some.inj hstep
        exact ⟨hinv.carries, hinv.count⟩
      · cases hstep

/-- The part of the counter that belongs to the track of a request is never
negative. -/
theorem own_nonneg {own : Int} (htrack : c.track = some i) (hlocal : c.Local own t) : 0 ≤ own := by
  have hwas : ∀ b, 0 ≤ wasEngaged b := by
    intro b
    unfold wasEngaged
    split <;> decide
  have hweight : 0 ≤ t.weight := by
    unfold AudioTrack.weight
    split <;> decide
  cases c with
  | idle => cases htrack
  | loadQueued r j prev => exact hlocal.1 ▸ hweight
  | stopQueued r j prev prev_q => exact hlocal.1 ▸ hwas _
  | stopLaunched r j prev prev_q => exact hlocal.1 ▸ hwas _
  | subtract r j prev prev_q => exact hlocal.1 ▸ hwas _
  | add j was_engaged => exact hlocal.1 ▸ hwas _
  | _ => exact le_of_le_of_eq (hwas _) hlocal.symm

theorem countHolds_of_inv {s : Threads} (hinv : CountInv s) : CountHolds s := by
  have hcount := hinv.count
  constructor
  · intro hidle _
    rw [hidle] at hcount
    exact hcount
  · unfold CountKept at hcount
    cases htrack : s.control.track with
    | none =>
        rw [htrack] at hcount
        exact hcount.symm ▸ Int.natCast_nonneg _
    | some i =>
        rw [htrack] at hcount
        obtain ⟨t, ht, hlocal⟩ := hcount
        have hown := own_nonneg htrack hlocal
        have hrest := weight_le_engagedTracks ht
        omega

end Invariant

/-- In a run whose promotions do not cross a request of their track, the
counter is the number of engaged tracks whenever both threads are quiescent. -/
theorem countHolds_of_clean_run {g : AudioGraph} (hbuilt : g.Built) {s : Threads}
    (hrun : Run.Reaches CleanAccess { graph := g } s) : CountHolds s := by
  apply countHolds_of_inv
  apply Run.Reaches.invariant hrun
  · refine ⟨trivial, ?_⟩
    have hnone : ∀ t ∈ g.tracks, ¬t.isEngaged = true := by
      intro t ht hengaged
      obtain ⟨hlaunched, hqueued, -⟩ := hbuilt.2.2.2 t ht
      rcases isEngaged_iff.mp hengaged with h | h <;> omega
    show g.launched_count = ((g.tracks.countP AudioTrack.isEngaged : Nat) : Int)
    rw [List.countP_eq_zero.mpr hnone, hbuilt.2.2.1]
    rfl
  · exact fun a b hstep hinv => countInv_of_step hinv hstep

/-- A run access by access. -/
def Threads.run (s : Threads) (accesses : List Access) : Option Threads :=
  accesses.foldlM Threads.step s

theorem reaches_of_run {accesses : List Access} {s next : Threads}
    (hrun : s.run accesses = some next) : Run.Reaches AccessStep s next := by
  induction accesses generalizing s with
  | nil =>
      obtain rfl := Option.some.inj hrun
      exact Relation.ReflTransGen.refl
  | cons a rest ih =>
      simp only [Threads.run, List.foldlM_cons, Option.bind_eq_bind,
        Option.bind_eq_some_iff] at hrun
      obtain ⟨middle, hstep, hrest⟩ := hrun
      exact Relation.ReflTransGen.head ⟨a, hstep⟩ (ih hrest)

/-- A track with two slots. -/
def twoSlots : AudioGraph where
  tracks :=
    [{ id := "track", chain := ["synth"],
       session_slots := [⟨"a", 1000, []⟩, ⟨"b", 1000, []⟩] }]

/-- A launch that no promotion crosses. -/
theorem countHolds_oneLaunch :
    ∃ s, Run.Reaches CleanAccess { graph := twoSlots } s ∧ s.graph.launched_count = 1 ∧
      CountHolds s := by
  have hrequest := Relation.ReflTransGen.single (r := CleanAccess) (a := { graph := twoSlots })
    ⟨.request ⟨"track", "a", false, false⟩, trivial, rfl⟩
  have hloaded := hrequest.tail ⟨.control, trivial, rfl⟩
  have hread := hloaded.tail ⟨.control, trivial, rfl⟩
  have hcleared := hread.tail ⟨.control, trivial, rfl⟩
  have hclock := hcleared.tail ⟨.control, trivial, rfl⟩
  have hlaunched := hclock.tail ⟨.control, trivial, rfl⟩
  have hadded := hlaunched.tail ⟨.control, trivial, rfl⟩
  exact ⟨_, hadded, rfl, countHolds_of_clean_run (by decide) hadded⟩

/-- Slot `a` is launched, `b` is queued, `a` is stopped; then `b` is stopped
while it is promoted. -/
def stopDuringPromotion : List Access :=
  .request ⟨"track", "a", false, false⟩ :: List.replicate 6 .control ++
    .request ⟨"track", "b", false, true⟩ :: List.replicate 5 .control ++
    .request ⟨"track", "a", true, false⟩ :: List.replicate 4 .control ++
    [.request ⟨"track", "b", true, false⟩, .control, .turn 0 256, .audio, .audio, .audio, .audio,
      .control, .control, .control]

/-- The stop has read an idle track with `b` in its queue: the promotion moves
`b` to the launched slot, the stop clears the queue only and subtracts. -/
theorem not_countHolds_stopDuringPromotion :
    ¬∀ (g : AudioGraph) (s : Threads), g.Built → Run.Reaches AccessStep { graph := g } s →
      CountHolds s := by
  intro hall
  have hrun : ∃ s, Threads.run { graph := twoSlots } stopDuringPromotion = some s ∧
      s.control = .idle ∧ s.audio = .idle ∧ s.graph.launched_count = 0 ∧
      s.graph.engagedTracks = 1 := ⟨_, rfl, rfl, rfl, rfl, rfl⟩
  obtain ⟨s, hrun, hcontrol, haudio, hcount, htracks⟩ := hrun
  obtain ⟨hquiet, -⟩ := hall twoSlots s (by decide) (reaches_of_run hrun)
  have hclaim := hquiet hcontrol haudio
  rw [hcount, htracks] at hclaim
  exact absurd hclaim (by decide)

end DawProject.Audio
