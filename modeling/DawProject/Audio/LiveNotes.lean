import DawProject.Audio.Rebuild

/-!
The notes of live MIDI, `engine/src/midi/midi_parse.h` and the routing of
`engine/src/graph/audio_graph.cpp`. A message keeps the channel it came on,
while losing the route releases channel 0 only; and a target that changes, on
the graph or with a new graph, releases nothing. After a pass every live note
that still sounds is routed exactly when those the pass found elsewhere were on
channel 0 of a route it lost, or were released by the tracks themselves.
-/

namespace DawProject.Audio.Live

/-- A short message on the wire: status, then two data bytes. A note-on of
velocity 0 is a note-off; aftertouch, program changes and system messages are
refused. -/
def parseMidiShort (packed : UInt32) : Option MidiEvent :=
  let status := packed.toNat % 256
  let data1 := packed.toNat / 256 % 128
  let data2 := packed.toNat / 65536 % 128
  if status ≥ 0xF0 then none
  else
    match status / 16 with
    | 0x8 => some ⟨.noteOff, status % 16, data1, data2, 0⟩
    | 0x9 => some ⟨if data2 = 0 then .noteOff else .noteOn, status % 16, data1, data2, 0⟩
    | 0xB => some ⟨.controlChange, status % 16, data1, data2, 0⟩
    | 0xE => some ⟨.pitchBend, status % 16, data1, data2, 0⟩
    | _ => none

/-- The ring stores a parsed message as it was parsed, with its channel. -/
theorem pushed_of_parse {packed : UInt32} {ev : MidiEvent} (hparse : parseMidiShort packed = some ev)
    (node : String) : (pushMidiEvent node .live { ev with sample_offset := 0 }).event = ev := by
  have hfits : ∀ kind, (pushMidiEvent node .live
      ⟨kind, packed.toNat % 256 % 16, packed.toNat / 256 % 128, packed.toNat / 65536 % 128, 0⟩).event =
      ⟨kind, packed.toNat % 256 % 16, packed.toNat / 256 % 128, packed.toNat / 65536 % 128, 0⟩ := by
    intro kind
    simp only [pushMidiEvent, Nat.mod_mod]
  dsimp only [parseMidiShort] at hparse
  split at hparse
  · cases hparse
  · split at hparse
    · cases hparse
      exact hfits _
    · cases hparse
      exact hfits _
    · cases hparse
      exact hfits _
    · cases hparse
      exact hfits _
    · cases hparse

/-- A note-on of the second channel. -/
example : parseMidiShort 0x643C91 = some ⟨.noteOn, 1, 60, 100, 0⟩ := by decide

/-- The controller of the all-notes-off message. -/
def kAllNotesOffController : Nat := 123

/-- The event ends the note of a note-on, on its channel and its instrument. -/
def Releases (q p : Push) : Prop :=
  q.node = p.node ∧ q.event.channel = p.event.channel ∧
    ((q.event.kind = .noteOff ∧ q.event.data1 = p.event.data1) ∨
      (q.event.kind = .controlChange ∧ q.event.data1 = kAllNotesOffController))

instance (q p : Push) : Decidable (Releases q p) := inferInstanceAs (Decidable (_ ∧ _ ∧ _))

def LiveOn (p : Push) : Prop := p.source = .live ∧ p.event.kind = .noteOn

/-- Live MIDI goes to the instrument. -/
def RoutesTo (g : AudioGraph) (node : String) : Prop :=
  g.liveRouted = true ∧ g.liveInst = some node

/-- Every live note-on sent to an instrument that live MIDI does not go to any
more has been followed by its release. -/
def Released (g : AudioGraph) (sent : List Push) : Prop :=
  ∀ before p after, sent = before ++ p :: after → LiveOn p → ¬RoutesTo g p.node →
    ∃ q ∈ after, Releases q p

/-- The engine with all it has sent to the rings of the plugins that are still
there. -/
structure Played where
  engine : EngineState
  sent : List Push := []

/-- The steps of the engine, and the target of live MIDI. -/
inductive Action where
  | engine (l : Label)
  | setLiveMidiTrack (index : Int)

/-- A rebuild takes the rings of the evicted plugins with them. -/
def act (s : Played) : Action → Option Played
  | .engine l => do
      let (engine, rendered) ← step s.engine l
      match l, rendered with
      | .rebuild _ _ vst3_nodes, _ =>
          return { engine := engine, sent := s.sent.filter fun p => vst3_nodes.contains p.node }
      | _, some r => return { engine := engine, sent := s.sent ++ r.pushes }
      | _, none => return { s with engine := engine }
  | .setLiveMidiTrack index =>
      some { s with
        engine := { s.engine with graph := { s.engine.graph with live_midi_track := index } } }

/-- The callback whose next sub-block the action renders. -/
def passOf (s : Played) : Action → Option Callback
  | .engine l => rendering s.engine l
  | .setLiveMidiTrack _ => none

/-- What the tracks send in the pass: their timeline, their slots. -/
def trackPushes (s : Played) (cb : Callback) : List Push :=
  let g := blockGraph s.engine cb
  (AudioGraph.processTracks g.hasSolo g.session_clock g.transport_playing cb.chunk cb.start 0
    g.tracks).2

def Sounding (sent : List Push) (p : Push) : Prop :=
  ∃ before after, sent = before ++ p :: after ∧ LiveOn p ∧ ∀ q ∈ after, ¬Releases q p

/-- Each live note that sounds is at the instrument the pass routes to, or on
channel 0 when the pass finds the route lost, or is released by the tracks. -/
def Clean (s : Played) (cb : Callback) : Prop :=
  ∀ p, Sounding s.sent p →
    RoutesTo s.engine.graph p.node ∨
      (s.engine.graph.live_midi_prev_routed = true ∧ s.engine.graph.liveRouted = false ∧
        p.event.channel = 0) ∨
      ∃ q ∈ trackPushes s cb, Releases q p

/-- What holds of each pass of a run: the state before, its callback and the
state after. -/
def EveryPass (P : Played → Callback → Played → Prop) : Played → List Action → Prop
  | _, [] => True
  | s, a :: actions =>
      ∀ s', act s a = some s' → (∀ cb, passOf s a = some cb → P s cb s') ∧ EveryPass P s' actions

/-- A swap brings a graph as it leaves the builder. -/
def Action.Builds : Action → Prop
  | .engine l => l.Builds
  | .setLiveMidiTrack _ => True

section Sounding

variable {p : Push} {first later sent : List Push} {g : AudioGraph}

theorem sounding_append :
    Sounding (first ++ later) p ↔
      (Sounding first p ∧ ∀ q ∈ later, ¬Releases q p) ∨ Sounding later p := by
  constructor
  · rintro ⟨before, after, hsplit, hon, hquiet⟩
    rcases List.append_eq_append_iff.mp hsplit with ⟨mid, hbefore, hlater⟩ | ⟨mid, hfirst, hrest⟩
    · exact Or.inr ⟨mid, after, hlater, hon, hquiet⟩
    · cases mid with
      | nil =>
          rw [List.nil_append] at hrest
          exact Or.inr ⟨[], after, hrest.symm, hon, hquiet⟩
      | cons head mid =>
          rw [List.cons_append] at hrest
          obtain ⟨rfl, rfl⟩ := List.cons.inj hrest
          left
          refine ⟨⟨before, mid, hfirst, hon, ?_⟩, ?_⟩
          · exact fun q hq => hquiet q (List.mem_append_left _ hq)
          · exact fun q hq => hquiet q (List.mem_append_right _ hq)
  · rintro (⟨⟨before, after, rfl, hon, hquiet⟩, hlater⟩ | ⟨before, after, rfl, hon, hquiet⟩)
    · refine ⟨before, after ++ later, by rw [List.append_assoc, List.cons_append], hon, ?_⟩
      intro q hq
      rcases List.mem_append.mp hq with hold | hnew
      · exact hquiet q hold
      · exact hlater q hnew
    · exact ⟨first ++ before, after, by rw [List.append_assoc], hon, hquiet⟩

theorem Sounding.mem (h : Sounding sent p) : p ∈ sent := by
  obtain ⟨before, after, rfl, -, -⟩ := h
  exact List.mem_append_right _ List.mem_cons_self

theorem Sounding.liveOn (h : Sounding sent p) : LiveOn p := by
  obtain ⟨before, after, rfl, hon, -⟩ := h
  exact hon

theorem released_iff : Released g sent ↔ ∀ p, Sounding sent p → RoutesTo g p.node := by
  constructor
  · rintro hreleased p ⟨before, after, hsplit, hon, hquiet⟩
    by_contra hlost
    obtain ⟨q, hq, hends⟩ := hreleased before p after hsplit hon hlost
    exact hquiet q hq hends
  · intro hroutes before p after hsplit hon hlost
    by_contra hheld
    apply hlost
    apply hroutes
    refine ⟨before, after, hsplit, hon, fun q hq hends => hheld ⟨q, hq, hends⟩⟩

end Sounding

section Pass

variable {g : AudioGraph} {live : List MidiEvent} {p q : Push} {frames : Nat} {position : Int}

theorem source_of_mem_processTrack {clock : Int} {playing : Bool} {i : Nat} {t : AudioTrack}
    (hp : p ∈ (AudioGraph.processTrack clock playing frames position i t).2) :
    p.source ≠ .live := by
  simp only [AudioGraph.processTrack, List.mem_append] at hp
  rcases hp with (hp | hp) | hp
  · split at hp
    · split at hp
      · rw [source_of_mem_allNotesOff hp]
        simp
      · cases hp
    · cases hp
  · rw [source_of_mem_sessionPushes hp]
    simp
  · split at hp
    · obtain ⟨nt, ev, rfl⟩ := mem_proxyProcess hp
      intro hlive
      cases hlive
    · cases hp

theorem source_of_mem_processTracks {hasSolo playing : Bool} {clock : Int}
    (tracks : List AudioTrack) (k : Nat)
    (hp : p ∈ (AudioGraph.processTracks hasSolo clock playing frames position k tracks).2) :
    p.source ≠ .live := by
  induction tracks generalizing k with
  | nil => cases hp
  | cons t rest ih =>
      simp only [AudioGraph.processTracks, List.mem_append] at hp
      rcases hp with hhere | hlater
      · split at hhere
        · exact source_of_mem_processTrack hhere
        · cases hhere
      · exact ih (k + 1) hlater

/-- What `routeLive` sends: the release of a lost route, on channel 0, or live
events to the instrument of the route. -/
theorem mem_routeLive (hp : p ∈ (g.routeLive live).2) :
    (g.live_midi_prev_routed = true ∧ g.liveRouted = false ∧ p.event.channel = 0 ∧
        p.source = .allNotesOff) ∨ RoutesTo g p.node := by
  simp only [AudioGraph.routeLive, List.mem_append] at hp
  rcases hp with hreleased | hforwarded
  · left
    split at hreleased
    · split at hreleased
      · rename_i hlost
        rw [Bool.and_eq_true, Bool.not_eq_true'] at hlost
        obtain ⟨pitch, -, rfl⟩ := List.mem_map.mp hreleased
        exact ⟨hlost.1, hlost.2, rfl, rfl⟩
      · cases hreleased
    · cases hreleased
  · right
    split at hforwarded
    · rename_i node hinst
      split at hforwarded
      · rename_i hrouted
        obtain ⟨ev, -, rfl⟩ := List.mem_map.mp hforwarded
        exact ⟨hrouted, hinst⟩
      · cases hforwarded
    · cases hforwarded

/-- A lost route releases the notes of channel 0. -/
theorem released_of_lost (live : List MidiEvent) (hwas : g.live_midi_prev_routed = true)
    (hinst : g.live_midi_prev_inst = some p.node) (hlost : g.liveRouted = false)
    (hchannel : p.event.channel = 0) (hpitch : p.event.data1 < 128) :
    ∃ q ∈ (g.routeLive live).2, Releases q p := by
  refine ⟨emitMidi p.node .allNotesOff false p.event.data1 0 0, ?_, rfl, ?_, Or.inl ⟨rfl, ?_⟩⟩
  · simp only [AudioGraph.routeLive, hinst, hwas, hlost, Bool.not_false, Bool.and_self, if_true,
      List.mem_append]
    exact Or.inl (mem_allNotesOff hpitch)
  · exact hchannel.symm
  · exact Nat.mod_eq_of_lt hpitch

/-- Solo, mute and instruments of the tracks, which the route is made of. -/
def routing (g : AudioGraph) : List (Bool × Bool × Option String) :=
  g.tracks.map fun t => (t.solo, t.mute, t.instrument_node)

theorem routing_process : routing (g.process frames position live).1 = routing g := by
  have hpromote : ∀ t : AudioTrack,
      ((AudioGraph.promote g.session_clock frames t).solo,
        (AudioGraph.promote g.session_clock frames t).mute,
        (AudioGraph.promote g.session_clock frames t).instrument_node) =
      (t.solo, t.mute, t.instrument_node) := by
    intro t
    unfold AudioGraph.promote
    split <;> rfl
  have htracks : ∀ (k : Nat) (tracks : List AudioTrack),
      (AudioGraph.processTracks g.hasSolo g.session_clock g.transport_playing frames position k
        tracks).1.map (fun t => (t.solo, t.mute, t.instrument_node)) =
      tracks.map fun t => (t.solo, t.mute, t.instrument_node) := by
    intro k tracks
    induction tracks generalizing k with
    | nil => rfl
    | cons t rest ih =>
        simp only [AudioGraph.processTracks, List.map_cons, ih]
        congr 1
        split
        · exact hpromote t
        · rfl
  unfold AudioGraph.process
  split
  · rfl
  · split
    · rfl
    · exact htracks 0 g.tracks

theorem liveTarget_of_routing {g' : AudioGraph} (htrack : g'.live_midi_track = g.live_midi_track)
    (hrouting : routing g' = routing g) :
    g'.liveTarget.map (fun t => (t.solo, t.mute, t.instrument_node)) =
      g.liveTarget.map fun t => (t.solo, t.mute, t.instrument_node) := by
  have hlength : g'.tracks.length = g.tracks.length := by
    have hmap := congrArg List.length hrouting
    simpa [routing] using hmap
  have hat := congrArg (fun rows => rows[g.live_midi_track.toNat]?) hrouting
  simp only [routing, List.getElem?_map] at hat
  unfold AudioGraph.liveTarget
  rw [htrack, hlength]
  split
  · exact hat
  · rfl

theorem hasSolo_of_routing {g' : AudioGraph} (hrouting : routing g' = routing g) :
    g'.hasSolo = g.hasSolo := by
  have hany := congrArg (fun rows => rows.any fun row => row.1) hrouting
  simpa [routing, List.any_map, Function.comp_def, AudioGraph.hasSolo] using hany

/-- The route is made of the target and of those of the tracks. -/
theorem routesTo_of_routing {g' : AudioGraph} (htrack : g'.live_midi_track = g.live_midi_track)
    (hrouting : routing g' = routing g) (node : String) : RoutesTo g' node ↔ RoutesTo g node := by
  have htarget := liveTarget_of_routing htrack hrouting
  have hsolo := hasSolo_of_routing hrouting
  unfold RoutesTo AudioGraph.liveRouted AudioGraph.liveInst
  rw [hsolo]
  cases hnew : g'.liveTarget with
  | none =>
      rw [hnew, Option.map_none, eq_comm, Option.map_eq_none_iff] at htarget
      rw [htarget]
  | some t' =>
      rw [hnew, Option.map_some, eq_comm, Option.map_eq_some_iff] at htarget
      obtain ⟨t, hold, heq⟩ := htarget
      obtain ⟨hsame, hrest⟩ := Prod.mk.inj heq
      obtain ⟨hmute, hinst⟩ := Prod.mk.inj hrest
      simp only [hold, AudioGraph.audible, Option.bind_some, hsame, hmute, hinst]

end Pass

section Steps

variable {s s' : Played} {a : Action} {cb : Callback}

theorem act_of_pass (hact : act s a = some s') (hpass : passOf s a = some cb) :
    ∃ live, s'.engine.graph = ((blockGraph s.engine cb).process cb.chunk cb.start live).1 ∧
      s'.sent = s.sent ++ ((blockGraph s.engine cb).process cb.chunk cb.start live).2 := by
  cases a with
  | setLiveMidiTrack index => cases hpass
  | engine l =>
      cases l with
      | block live =>
          obtain ⟨hinside, hrenders⟩ := Option.filter_eq_some_iff.mp hpass
          have hgoes : ¬(cb.atEnd ∧ cb.looping = false) := by
            rw [Bool.not_eq_true', decide_eq_false_iff_not] at hrenders
            exact hrenders
          simp only [act, step, hinside, Option.bind_eq_bind, Option.bind_eq_some_iff] at hact
          obtain ⟨⟨engine, rendered⟩, hstep, hdone⟩ := hact
          split at hstep
          · rw [renderBlock, if_neg hgoes] at hstep
            obtain ⟨rfl, rfl⟩ := Prod.mk.inj (Option.some.inj hstep)
            obtain rfl := Option.some.inj hdone
            exact ⟨live, rfl, rfl⟩
          · cases hstep
      | enter frame_count cmds => cases hpass
      | leave => cases hpass
      | setMonitor track_id solo mute => cases hpass
      | launch track_id scene_id stop quantize => cases hpass
      | rebuild graph content_end vst3_nodes => cases hpass

/-- What a graph remembers of its route it has from a pass over its tracks, and
what sounds was sent by that route. -/
structure Remembers (s : Played) : Prop where
  tracks : s.engine.graph.live_midi_prev_routed = true → s.engine.graph.tracks ≠ []
  route : s.engine.graph.live_midi_prev_routed = true →
    ∀ p, Sounding s.sent p → s.engine.graph.live_midi_prev_inst = some p.node
  pitch : ∀ p ∈ s.sent, p.event.data1 < 128

theorem Remembers.keep (hs : Remembers s)
    (hrouted : s'.engine.graph.live_midi_prev_routed = s.engine.graph.live_midi_prev_routed)
    (hinst : s'.engine.graph.live_midi_prev_inst = s.engine.graph.live_midi_prev_inst)
    (htracks : s'.engine.graph.score = s.engine.graph.score) (hsent : s'.sent = s.sent) :
    Remembers s' := by
  refine ⟨fun hwas hempty => ?_, fun hwas p hp => ?_, ?_⟩
  · apply hs.tracks (hrouted.symm.trans hwas)
    have hlength := congrArg List.length htracks
    simpa [AudioGraph.score, hempty] using hlength.symm
  · rw [hinst]
    rw [hsent] at hp
    exact hs.route (hrouted.symm.trans hwas) p hp
  · rw [hsent]
    exact hs.pitch

theorem Remembers.silent (hs : Remembers s) (hbuilds : a.Builds) (hact : act s a = some s')
    (hsilent : passOf s a = none) : Remembers s' := by
  cases a with
  | setLiveMidiTrack index =>
      obtain rfl := Option.some.inj hact
      exact hs.keep rfl rfl rfl rfl
  | engine l =>
      simp only [act, Option.bind_eq_bind, Option.bind_eq_some_iff] at hact
      obtain ⟨⟨engine, rendered⟩, hstep, hdone⟩ := hact
      obtain rfl := step_of_not_rendering hstep hsilent
      cases hkeeps : l.keepsGraph with
      | true =>
          obtain ⟨hscore, hlive⟩ := graph_of_step hstep hkeeps hsilent
          obtain ⟨-, hrest⟩ := Prod.mk.inj hlive
          obtain ⟨hrouted, hinst⟩ := Prod.mk.inj hrest
          have hs' : s' = { s with engine := engine } := by
            cases l with
            | rebuild graph content_end vst3_nodes => cases hkeeps
            | _ => exact (Option.some.inj hdone).symm
          rw [hs']
          exact hs.keep hrouted hinst hscore rfl
      | false =>
          cases l with
          | rebuild graph content_end vst3_nodes =>
              obtain rfl := Option.some.inj hdone
              obtain ⟨-, rfl, -⟩ := step_rebuild hstep
              have hlive := copyMonitorState_live s.engine.graph graph
              obtain ⟨-, hrest⟩ := Prod.mk.inj hlive
              have hforgets : (AudioGraph.copyMonitorState s.engine.graph
                  graph).live_midi_prev_routed = false :=
                (Prod.mk.inj hrest).1.trans hbuilds.1
              refine ⟨fun hwas => ?_, fun hwas => ?_, fun p hp => ?_⟩
              · rw [hforgets] at hwas
                cases hwas
              · rw [hforgets] at hwas
                cases hwas
              · exact hs.pitch p (List.mem_filter.mp hp).1
          | _ => cases hkeeps

theorem routesTo_of_pass (hact : act s a = some s') (hpass : passOf s a = some cb)
    (node : String) : RoutesTo s'.engine.graph node ↔ RoutesTo s.engine.graph node := by
  obtain ⟨live, hgraph, -⟩ := act_of_pass hact hpass
  have hlive := process_live (blockGraph s.engine cb) cb.start live cb.chunk_le
  have htrack : s'.engine.graph.live_midi_track = s.engine.graph.live_midi_track := by
    rw [hgraph]
    split at hlive
    · exact congrArg Prod.fst hlive
    · exact congrArg Prod.fst hlive
  refine routesTo_of_routing htrack ?_ node
  rw [hgraph]
  exact routing_process

/-- A pass sends what `routeLive` does, over tracks, and what the tracks do. -/
theorem sent_of_pass (hact : act s a = some s') (hpass : passOf s a = some cb) :
    ∃ live routed, s'.sent = s.sent ++ (routed ++ trackPushes s cb) ∧
      (∀ q ∈ routed, q ∈ ((blockGraph s.engine cb).routeLive live).2) ∧
      (s.engine.graph.tracks ≠ [] → routed = ((blockGraph s.engine cb).routeLive live).2) := by
  obtain ⟨live, -, hsent⟩ := act_of_pass hact hpass
  by_cases hempty : (blockGraph s.engine cb).tracks = []
  · refine ⟨live, [], ?_, List.forall_mem_nil _, absurd hempty⟩
    have hnothing : ((blockGraph s.engine cb).process cb.chunk cb.start live).2 = [] := by
      unfold AudioGraph.process
      rw [if_neg (not_lt.mpr cb.chunk_le), if_pos (by rw [hempty]; rfl)]
    have hsilent : trackPushes s cb = [] := by
      dsimp only [trackPushes]
      rw [hempty]
      rfl
    simp [hsent, hnothing, hsilent]
  · refine ⟨live, ((blockGraph s.engine cb).routeLive live).2, ?_, fun q hq => hq, fun _ => rfl⟩
    rw [hsent, process_pushes cb.chunk_le hempty]
    rfl

/-- Whether a pass leaves its live notes released is told by the state before it. -/
theorem released_of_pass (hs : Remembers s) (hact : act s a = some s')
    (hpass : passOf s a = some cb) : Released s'.engine.graph s'.sent ↔ Clean s cb := by
  obtain ⟨live, routed, hsent, hmem, hall⟩ := sent_of_pass hact hpass
  rw [released_iff, hsent]
  constructor
  · intro hreleased p hp
    by_cases hquiet : ∀ q ∈ routed ++ trackPushes s cb, ¬Releases q p
    · have hroutes := hreleased p (sounding_append.mpr (Or.inl ⟨hp, hquiet⟩))
      exact Or.inl ((routesTo_of_pass hact hpass p.node).mp hroutes)
    · simp only [not_forall, not_not] at hquiet
      obtain ⟨q, hq, hends⟩ := hquiet
      rcases List.mem_append.mp hq with hrouted | htracks
      · rcases mem_routeLive (hmem q hrouted) with ⟨hwas, hlost, hchannel, -⟩ | hroutes
        · exact Or.inr (Or.inl ⟨hwas, hlost, hends.2.1.symm.trans hchannel⟩)
        · rw [hends.1] at hroutes
          exact Or.inl hroutes
      · exact Or.inr (Or.inr ⟨q, htracks, hends⟩)
  · intro hclean p hp
    rw [routesTo_of_pass hact hpass]
    rcases sounding_append.mp hp with ⟨hold, hquiet⟩ | hnew
    · rcases hclean p hold with hroutes | ⟨hwas, hlost, hchannel⟩ | ⟨q, hq, hends⟩
      · exact hroutes
      · obtain ⟨q, hq, hends⟩ := released_of_lost (g := blockGraph s.engine cb) (p := p)
          live hwas (hs.route hwas p hold) hlost hchannel (hs.pitch p hold.mem)
        rw [← hall (hs.tracks hwas)] at hq
        exact absurd hends (hquiet q (List.mem_append_left _ hq))
      · exact absurd hends (hquiet q (List.mem_append_right _ hq))
    · rcases List.mem_append.mp hnew.mem with hrouted | htracks
      · rcases mem_routeLive (hmem p hrouted) with ⟨-, -, -, hsource⟩ | hroutes
        · rw [hnew.liveOn.1] at hsource
          cases hsource
        · exact hroutes
      · exact absurd hnew.liveOn.1 (source_of_mem_processTracks _ _ htracks)

theorem Remembers.pass (hs : Remembers s) (hact : act s a = some s')
    (hpass : passOf s a = some cb) (hreleased : Released s'.engine.graph s'.sent) :
    Remembers s' := by
  obtain ⟨live, hgraph, hsent⟩ := act_of_pass hact hpass
  have hscore := process_score (blockGraph s.engine cb) cb.chunk cb.start live
  have hlive := process_live (blockGraph s.engine cb) cb.start live cb.chunk_le
  rw [← hgraph] at hscore hlive
  have hpitch : ∀ p ∈ s'.sent, p.event.data1 < 128 := by
    intro p hp
    rw [hsent] at hp
    rcases List.mem_append.mp hp with hold | hnew
    · exact hs.pitch p hold
    · exact (sent_of_mem_process hnew).data1_lt
  by_cases hempty : (blockGraph s.engine cb).tracks = []
  · rw [if_pos hempty] at hlive
    obtain ⟨-, hrest⟩ := Prod.mk.inj hlive
    obtain ⟨hrouted, -⟩ := Prod.mk.inj hrest
    have hforgets : s'.engine.graph.live_midi_prev_routed ≠ true := by
      intro hwas
      exact hs.tracks (hrouted.symm.trans hwas) hempty
    exact ⟨fun hwas => absurd hwas hforgets, fun hwas => absurd hwas hforgets, hpitch⟩
  · rw [if_neg hempty] at hlive
    obtain ⟨-, hrest⟩ := Prod.mk.inj hlive
    obtain ⟨-, hinst⟩ := Prod.mk.inj hrest
    refine ⟨fun _ hnone => hempty ?_, fun _ p hp => ?_, hpitch⟩
    · have hlength := congrArg List.length hscore
      simpa [AudioGraph.score, hnone] using hlength.symm
    · have hroutes := released_iff.mp hreleased p hp
      rw [routesTo_of_pass hact hpass] at hroutes
      exact hinst.trans hroutes.2

theorem remembers_started {engine : EngineState}
    (hfresh : engine.graph.live_midi_prev_routed = false) : Remembers { engine := engine } := by
  refine ⟨fun hwas => ?_, fun hwas => ?_, fun p hp => ?_⟩
  · rw [hfresh] at hwas
    cases hwas
  · rw [hfresh] at hwas
    cases hwas
  · cases hp

theorem Remembers.everyPass_iff (hs : Remembers s) {actions : List Action}
    (hbuilds : ∀ a ∈ actions, a.Builds) :
    EveryPass (fun _ _ s' => Released s'.engine.graph s'.sent) s actions ↔
      EveryPass (fun s cb _ => Clean s cb) s actions := by
  induction actions generalizing s with
  | nil => exact Iff.rfl
  | cons a actions ih =>
      have hrest : ∀ a ∈ actions, a.Builds := fun a ha => hbuilds a (List.mem_cons_of_mem _ ha)
      apply forall_congr'
      intro s'
      apply forall_congr'
      intro hact
      cases hpass : passOf s a with
      | none =>
          have hs' := hs.silent (hbuilds a List.mem_cons_self) hact hpass
          rw [ih hs' hrest]
          simp
      | some cb =>
          constructor
          · rintro ⟨hfirst, hlater⟩
            have hreleased := hfirst cb rfl
            have hs' := hs.pass hact hpass hreleased
            refine ⟨fun cb' hcb' => ?_, (ih hs' hrest).mp hlater⟩
            cases hcb'
            exact (released_of_pass hs hact hpass).mp hreleased
          · rintro ⟨hfirst, hlater⟩
            have hreleased := (released_of_pass hs hact hpass).mpr (hfirst cb rfl)
            have hs' := hs.pass hact hpass hreleased
            refine ⟨fun cb' hcb' => ?_, (ih hs' hrest).mpr hlater⟩
            cases hcb'
            exact hreleased

/-- In every run, whatever is played, muted, soloed, launched, retargeted and
rebuilt, each pass leaves its live notes released exactly when each pass is
clean. -/
theorem released_iff_of_run (engine : EngineState)
    (hfresh : engine.graph.live_midi_prev_routed = false) (actions : List Action)
    (hbuilds : ∀ a ∈ actions, a.Builds) :
    EveryPass (fun _ _ s' => Released s'.engine.graph s'.sent) { engine := engine } actions ↔
      EveryPass (fun s cb _ => Clean s cb) { engine := engine } actions :=
  (remembers_started hfresh).everyPass_iff hbuilds

/-- Two instruments, the first of them the target of live MIDI. -/
def twoSynths : EngineState where
  graph :=
    { tracks := [{ id := "a", chain := ["synthA"] }, { id := "b", chain := ["synthB"] }]
      live_midi_track := 0 }

/-- A key held on the channel, and a mute of its track before the next pass. -/
def heldThenMuted (channel : Nat) : List Action :=
  [.engine (.enter 512 []), .engine (.block [⟨.noteOn, channel, 60, 100, 0⟩]),
    .engine (.setMonitor "a" false true), .engine (.block [])]

theorem released_iff_of_run_muted :
    (twoSynths.graph.live_midi_prev_routed = false ∧
        ∀ a ∈ heldThenMuted 0, a.Builds) ∧
      (EveryPass (fun _ _ s' => Released s'.engine.graph s'.sent) { engine := twoSynths }
          (heldThenMuted 0) ↔
        EveryPass (fun s cb _ => Clean s cb) { engine := twoSynths } (heldThenMuted 0)) := by
  have hbuilds : ∀ a ∈ heldThenMuted 0, a.Builds := by
    simp [heldThenMuted, Action.Builds, Label.Builds]
  exact ⟨⟨rfl, hbuilds⟩, released_iff_of_run twoSynths rfl _ hbuilds⟩

/-- A note held on the second channel stays when its track is muted. -/
theorem not_released_heldThenMuted :
    ¬∀ (engine : EngineState) (actions : List Action),
      engine.graph.live_midi_prev_routed = false → (∀ a ∈ actions, a.Builds) →
        EveryPass (fun _ _ s' => Released s'.engine.graph s'.sent) { engine := engine } actions := by
  intro hall
  have hbuilds : ∀ a ∈ heldThenMuted 1, a.Builds := by
    simp [heldThenMuted, Action.Builds, Label.Builds]
  obtain ⟨-, hentered⟩ := hall twoSynths (heldThenMuted 1) rfl hbuilds _ rfl
  obtain ⟨-, hheld⟩ := hentered _ rfl
  obtain ⟨-, hmuted⟩ := hheld _ rfl
  obtain ⟨hlast, -⟩ := hmuted _ rfl
  have hreleased := hlast _ rfl [] (pushMidiEvent "synthA" .live ⟨.noteOn, 1, 60, 100, 0⟩)
    (allNotesOff "synthA") (by decide) ⟨rfl, rfl⟩ (by rintro ⟨hrouted, -⟩; revert hrouted; decide)
  obtain ⟨q, hq, -, hchannel, -⟩ := hreleased
  obtain ⟨pitch, -, rfl⟩ := List.mem_map.mp hq
  exact absurd hchannel (show ¬0 % 16 = 1 % 16 by decide)

end Steps

end DawProject.Audio.Live
