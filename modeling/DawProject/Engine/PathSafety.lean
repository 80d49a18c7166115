import DawProject.Engine.StemKey
import DawProject.Lib.Paths
import DawProject.Lib.Traced
import Mathlib.Data.List.Infix

/-!
The strings of a document that the engine makes file names of: the check
`isPathComponentSafe` of `engine/src/util/path_safety.h` and the code that
builds a graph, renders or publishes stems, in `engine/src/main.cpp`,
`engine/src/graph/graph_common.cpp`, `engine/src/render/offline_render.cpp` and
`engine/src/render/stem_render.cpp`. What the disk, the server and the running
plugins answer is open. The strings pass the check first exactly when the
document has none that fails it in the places where the code does not ask.
-/

namespace DawProject.Engine

open Floats Paths Traced

def isPathComponentSafe (s : String) : Bool :=
  s != "" && !s.toList.any (fun c => c == '/' || c == '\\') &&
    !decide (['.', '.'] <:+: s.toList) && s.toList.all fun c => 0x20 ≤ c.toNat

structure Options where
  platform : Platform
  assets_dir : String
  /-- Empty without a server. -/
  server_url : String := ""
  vst3_modules : List (String × String) := []

/-- The uid has a module on this machine. -/
def Options.resolvable (opts : Options) (uid : String) : Bool :=
  opts.vst3_modules.any fun module => module.1 == uid

def Options.dir (opts : Options) : Path := .ofChars opts.platform opts.assets_dir.toList

/-- `fs::path(assets_dir) / name`. -/
def Options.joined (opts : Options) (name : String) : Path :=
  opts.dir.join opts.platform (.ofChars opts.platform name.toList)

/-- `assets_dir + "/" + name`. -/
def Options.beneath (opts : Options) (name : String) : Path :=
  .ofChars opts.platform (opts.assets_dir.toList ++ '/' :: name.toList)

inductive Access where
  | probe
  | read
  | write
  | rename
  | remove
deriving DecidableEq, Repr

/-- A file that the engine uses, with the string of the document in its name. -/
structure FileUse where
  component : String
  access : Access
  path : Path
deriving DecidableEq, Repr

/-- What the engine asks of its surroundings. -/
inductive Query where
  | loads (path : Path)
  | valid (path : Path)
  | exists_ (path : Path)
  /-- A hash that was missed may be asked for again. -/
  | due (hash : String)
  /-- The server has the hash, with a body that matches it. -/
  | served (hash : String)
  | written (path : Path)
  | renamed (path : Path)
  | running (node_id : String)
  | started (node_id : String)
  /-- The key of the stem is the published one. -/
  | fresh (track_id node_id : String)
  /-- No node is missing from the graph of the file. -/
  | complete (path : Path)
  | rendered (path : Path)
  | readable (path : Path)

/-- The answers, which may depend on the files used so far. -/
abbrev World := List FileUse → Query → Bool

section Files

variable (opts : Options) (world : World)

def ask (q : Query) : Program FileUse Bool := observe fun used => world used q

def onFile (component : String) (access : Access) (path : Path) : Program FileUse Unit :=
  emit { component := component, access := access, path := path }

/-- A file that the cache already holds counts as read. -/
def loadOrGet (component : String) (asset_path : Path) : Program FileUse Bool := do
  onFile component .read asset_path
  ask world (.loads asset_path)

/-- A body of the server, written aside and renamed. -/
def storeFetched (hash : String) : Program FileUse Bool := do
  let final_path := opts.joined (hash ++ ".wav")
  let tmp_path := opts.joined (hash ++ ".wav.tmp")
  onFile hash .write tmp_path
  let written ← ask world (.written tmp_path)
  if !written then do
    onFile hash .remove tmp_path
    pure false
  else do
    onFile hash .rename final_path
    let renamed ← ask world (.renamed final_path)
    if !renamed then do
      onFile hash .remove tmp_path
      pure false
    else pure true

def fetchAssetFromServer (hash : String) : Program FileUse Bool :=
  if opts.server_url = "" ∨ hash = "" then pure false
  else do
    let due ← ask world (.due hash)
    if !due then pure false
    else if !isPathComponentSafe hash then pure false
    else do
      let served ← ask world (.served hash)
      if !served then pure false else storeFetched opts world hash

/-- The file of a hash, from the server where the disk has none. The live
build asks so for stems and for clips. -/
def prefetch (hash : String) : Program FileUse Unit := do
  let loaded ← loadOrGet world hash (opts.beneath (hash ++ ".wav"))
  if loaded then pure ()
  else do
    let _ ← fetchAssetFromServer opts world hash
    pure ()

/-- The clip gets its asset. -/
def makeClipPlayer (clip : ClipDef) : Program FileUse Bool :=
  if clip.asset_hash = "" then pure false
  else if !isPathComponentSafe clip.asset_hash then pure false
  else loadOrGet world clip.asset_hash (opts.beneath (clip.asset_hash ++ ".wav"))

end Files

section Live

variable {F : Type} (opts : Options) (world : World)

/-- The last node that plays and has no module, with its index. -/
def governing (chain : List (ProcessorDef F)) : Option (ProcessorDef F × Nat) :=
  (chain.zipIdx.filter fun (p, _) =>
    p.type == "vst3" && !p.bypass && !opts.resolvable p.uid).getLast?

/-- Where the chain goes on after a stem, if one plays. -/
def resolveStemSubstitution (track : TrackDef F) : Program FileUse (Option Nat) :=
  match governing opts track.chain with
  | none => pure none
  | some (node, index) =>
      if node.stem_hash = "" then pure none
      else if !isPathComponentSafe node.stem_hash then pure none
      else do
        let stem_path := opts.beneath (node.stem_hash ++ ".wav")
        let loaded ← loadOrGet world node.stem_hash stem_path
        let valid ← ask world (.valid stem_path)
        pure (if loaded && valid then some (index + 1) else none)

/-- A blob that is not on the disk is fetched. -/
def fetchMissing (present : Bool) (hash : String) : Program FileUse Bool :=
  if !present && opts.server_url != "" then fetchAssetFromServer opts world hash
  else pure present

/-- The state blob of a processor, before its child starts. -/
def stageState (state_hash : String) : Program FileUse Unit :=
  if state_hash = "" then pure ()
  else do
    let blob_path := opts.joined (state_hash ++ ".wav")
    onFile state_hash .probe blob_path
    let present ← ask world (.exists_ blob_path)
    let available ← fetchMissing opts world present state_hash
    if available then onFile state_hash .read blob_path else pure ()

/-- The processor has a running child in the end. -/
def ensureVst3Child (proc : ProcessorDef F) : Program FileUse Bool := do
  let running ← ask world (.running proc.id)
  if running then pure true
  else if !opts.resolvable proc.uid then pure false
  else do
    stageState opts world proc.state_hash
    ask world (.started proc.id)

def isBuiltin (proc : ProcessorDef F) : Bool := "builtin.".toList.isPrefixOf proc.type.toList

/-- The stem of a node without a module is fetched before it is looked for. -/
def prefetchStem (proc : ProcessorDef F) : Program FileUse Unit :=
  if proc.type = "vst3" ∧ proc.stem_hash ≠ "" ∧ opts.resolvable proc.uid = false ∧
      opts.server_url ≠ "" then
    prefetch opts world proc.stem_hash
  else pure ()

/-- With a server, the asset of a clip is fetched before it is looked for. -/
def prefetchClip (clip : ClipDef) : Program FileUse Unit :=
  if opts.server_url ≠ "" then prefetch opts world clip.asset_hash else pure ()

/-- The clips of the timeline play unless a stem does. -/
def loadClips (track : TrackDef F) (resume_index : Option Nat) : Program FileUse Unit :=
  if resume_index.isSome then pure ()
  else forM (timelineClips track.clips) fun clip => do
    prefetchClip opts world clip
    let _ ← makeClipPlayer opts world clip
    pure ()

def createProcessor (proc : ProcessorDef F) : Program FileUse Unit :=
  if isBuiltin proc then pure ()
  else if proc.type = "vst3" then do
    let _ ← ensureVst3Child opts world proc
    pure ()
  else pure ()

def buildTrack (track : TrackDef F) : Program FileUse Unit := do
  forM track.chain (prefetchStem opts world)
  let resume_index ← resolveStemSubstitution opts world track
  loadClips opts world track resume_index
  forM (track.chain.drop (resume_index.getD 0)) (createProcessor opts world)

/-- `buildGraph` of the live engine. -/
def buildGraph (project : ProjectDef F) : Program FileUse Unit :=
  forM project.tracks (buildTrack opts world)

end Live

section Offline

variable {F : Type} (opts : Options) (world : World)

namespace OfflineRenderer

def createProcessor (proc : ProcessorDef F) : Program FileUse Unit :=
  if isBuiltin proc then pure ()
  else if proc.type = "vst3" then
    if proc.bypass then pure ()
    else if !opts.resolvable proc.uid then pure ()
    else if proc.state_hash = "" then pure ()
    else onFile proc.state_hash .read (opts.joined (proc.state_hash ++ ".wav"))
  else pure ()

def loadClips (track : TrackDef F) (resume_index : Option Nat) : Program FileUse Unit :=
  if resume_index.isSome then pure ()
  else forM (timelineClips track.clips) fun clip => do
    let _ ← makeClipPlayer opts world clip
    pure ()

def buildTrack (track : TrackDef F) : Program FileUse Unit := do
  let resume_index ← resolveStemSubstitution opts world track
  loadClips opts world track resume_index
  forM (track.chain.drop (resume_index.getD 0)) (createProcessor opts)

/-- `OfflineRenderer::buildGraph`. -/
def buildGraph (project : ProjectDef F) : Program FileUse Unit :=
  forM project.tracks (buildTrack opts world)

end OfflineRenderer

end Offline

section Stems

variable {F : Type} (D : Type) [Floats F D] [OfNat F 0] [OfNat F 1]
variable (opts : Options) (world : World)

/-- The file is written after the graph is built. -/
def OfflineRenderer.render (doc : AmValue D) (component : String) (output_path : Path) :
    Program FileUse Bool :=
  match (renderedProject doc : Option (ProjectDef F)) with
  | none => pure false
  | some resolved => do
      OfflineRenderer.buildGraph opts world resolved
      let complete ← ask world (.complete output_path)
      if !complete then pure false
      else do
        onFile component .write output_path
        ask world (.rendered output_path)

/-- A rendered stem goes under its own hash. -/
def keepStem (node_id : String) (tmp_wav : Path) : Program FileUse Bool := do
  onFile node_id .read tmp_wav
  let readable ← ask world (.readable tmp_wav)
  if !readable then do
    onFile node_id .remove tmp_wav
    pure false
  else do
    onFile node_id .rename tmp_wav
    let renamed ← ask world (.renamed tmp_wav)
    if !renamed then do
      onFile node_id .remove tmp_wav
      pure false
    else pure true

def renderTrackStem (project : ProjectDef F) (track_id node_id : String) :
    Program FileUse Bool :=
  match (reducedDocument project track_id node_id : Except String (AmValue D)) with
  | .error _ => pure false
  | .ok doc =>
      if !isPathComponentSafe node_id then pure false
      else do
        let tmp_wav := opts.joined ("stem-" ++ node_id ++ ".tmp.wav")
        let rendered ← OfflineRenderer.render (F := F) D opts world doc node_id tmp_wav
        if !rendered then do
          onFile node_id .remove tmp_wav
          pure false
        else keepStem world node_id tmp_wav

/-- A node that this machine renders a stem for. -/
def Publishes (track : TrackDef F) (proc : ProcessorDef F) : Prop :=
  proc.type = "vst3" ∧ proc.bypass = false ∧ opts.resolvable proc.uid = true ∧ track.clips ≠ []

instance (track : TrackDef F) (proc : ProcessorDef F) : Decidable (Publishes opts track proc) :=
  inferInstanceAs (Decidable (_ ∧ _ ∧ _ ∧ ¬ _))

def publishStem (project : ProjectDef F) (track : TrackDef F) (proc : ProcessorDef F) :
    Program FileUse Unit :=
  if Publishes opts track proc then do
    let fresh ← ask world (.fresh track.id proc.id)
    if fresh then pure ()
    else do
      let _ ← renderTrackStem D opts world project track.id proc.id
      pure ()
  else pure ()

/-- The stems of a project, in the control loop of the engine. -/
def publishStems (project : ProjectDef F) : Program FileUse Unit :=
  forM project.tracks fun track => forM track.chain (publishStem D opts world project track)

/-- What the engine does with a resolved document. -/
inductive Operation where
  | build
  | render
  | publish
deriving DecidableEq, Repr

def Operation.run (op : Operation) (project : ProjectDef F) : Program FileUse Unit :=
  match op with
  | .build => buildGraph opts world project
  | .render => OfflineRenderer.buildGraph opts world project
  | .publish => publishStems D opts world project

end Stems

section Confinement

variable {F : Type} (D : Type) [Floats F D] [OfNat F 0] [OfNat F 1] (opts : Options)

/-- The string of the document in the name of the file passes the check. -/
def Checked (used : FileUse) : Prop := isPathComponentSafe used.component = true

instance (used : FileUse) : Decidable (Checked used) := inferInstanceAs (Decidable (_ = true))

/-- The strings of a document that become file names pass the check, and what
passes it is an entry of the directory. -/
structure Confined (project : ProjectDef F) (s : String) : Prop where
  checked : ∀ (op : Operation) (world : World),
    ∀ used ∈ ((op.run D opts world project).run []).2, Checked used
  child : isPathComponentSafe s = true → (opts.joined s).IsChildOf opts.dir

/-- A hash that is absent is not used. -/
def SafeOrAbsent (s : String) : Prop := s ≠ "" → isPathComponentSafe s = true

/-- The state of a plugin that the renderer restores. -/
def RenderedState (proc : ProcessorDef F) : Prop :=
  proc.type = "vst3" → proc.bypass = false → opts.resolvable proc.uid = true →
    SafeOrAbsent proc.state_hash

/-- No string fails the check where the code does not ask. -/
structure SafeProject (project : ProjectDef F) : Prop where
  states : ∀ track ∈ project.tracks, ∀ proc ∈ track.chain, proc.type = "vst3" →
    opts.resolvable proc.uid = true → SafeOrAbsent proc.state_hash
  stems : opts.server_url ≠ "" → ∀ track ∈ project.tracks, ∀ proc ∈ track.chain,
    proc.type = "vst3" → opts.resolvable proc.uid = false → SafeOrAbsent proc.stem_hash
  clips : opts.server_url ≠ "" → ∀ track ∈ project.tracks, ∀ clip ∈ timelineClips track.clips,
    isPathComponentSafe clip.asset_hash = true
  /-- The states of a reduced document are those that it is read with. -/
  published : ∀ track ∈ project.tracks, ∀ proc ∈ track.chain, Publishes opts track proc →
    isPathComponentSafe proc.id = true →
    ∀ first ∈ project.tracks.find? (fun t => t.id == track.id),
    ∀ i ∈ first.chain.findIdx? (fun p => p.id == proc.id),
    ∀ p ∈ first.chain.take (i + 1), RenderedState opts (echoProcessor p)

/-- A name of its own below the directory, and no root name of another. -/
structure OwnName (s : String) : Prop where
  root : rootName opts.platform s.toList = [] ∨ rootName opts.platform s.toList = opts.dir.root_name
  rest : s.toList.drop (rootName opts.platform s.toList).length ∉ [[], ['.']]

end Confinement

section Asked

variable {F : Type} {opts : Options} {world : World} {component hash : String} {access : Access}
  {path : Path}

theorem within_ask (q : Query) : Within Checked (ask world q) := within_observe _

theorem within_onFile (hsafe : isPathComponentSafe component = true) :
    Within Checked (onFile component access path) :=
  within_emit hsafe

theorem within_loadOrGet (hsafe : isPathComponentSafe component = true) :
    Within Checked (loadOrGet world component path) := by
  apply within_bind (within_onFile hsafe)
  intro _
  exact within_ask _

theorem within_storeFetched (hsafe : isPathComponentSafe hash = true) :
    Within Checked (storeFetched opts world hash) := by
  apply within_bind (within_onFile hsafe)
  intro _
  apply within_bind (within_ask _)
  intro written
  split
  · exact within_bind (within_onFile hsafe) fun _ => within_pure _
  apply within_bind (within_onFile hsafe)
  intro _
  apply within_bind (within_ask _)
  intro renamed
  split
  · exact within_bind (within_onFile hsafe) fun _ => within_pure _
  · exact within_pure _

/-- The fetch checks the hash itself. -/
theorem within_fetchAssetFromServer (hash : String) :
    Within Checked (fetchAssetFromServer opts world hash) := by
  rw [fetchAssetFromServer]
  split
  · exact within_pure _
  apply within_bind (within_ask _)
  intro due
  split
  · exact within_pure _
  split
  · exact within_pure _
  rename_i hsafe
  apply within_bind (within_ask _)
  intro served
  split
  · exact within_pure _
  · exact within_storeFetched (by simpa using hsafe)

theorem within_prefetch (hsafe : isPathComponentSafe hash = true) :
    Within Checked (prefetch opts world hash) := by
  apply within_bind (within_loadOrGet hsafe)
  intro loaded
  split
  · exact within_pure _
  · exact within_bind (within_fetchAssetFromServer hash) fun _ => within_pure _

theorem within_makeClipPlayer (clip : ClipDef) :
    Within Checked (makeClipPlayer opts world clip) := by
  rw [makeClipPlayer]
  split
  · exact within_pure _
  split
  · exact within_pure _
  · rename_i hsafe
    exact within_loadOrGet (by simpa using hsafe)

theorem within_resolveStemSubstitution (track : TrackDef F) :
    Within Checked (resolveStemSubstitution opts world track) := by
  rw [resolveStemSubstitution]
  split
  · exact within_pure _
  split
  · exact within_pure _
  split
  · exact within_pure _
  rename_i hsafe
  apply within_bind (within_loadOrGet (by simpa using hsafe))
  intro loaded
  exact within_bind (within_ask _) fun _ => within_pure _

theorem within_fetchMissing (present : Bool) (hash : String) :
    Within Checked (fetchMissing opts world present hash) := by
  rw [fetchMissing]
  split
  · exact within_fetchAssetFromServer hash
  · exact within_pure _

theorem within_stageState (hsafe : SafeOrAbsent hash) :
    Within Checked (stageState opts world hash) := by
  rw [stageState]
  split
  · exact within_pure _
  rename_i hne
  apply within_bind (within_onFile (hsafe hne))
  intro _
  apply within_bind (within_ask _)
  intro present
  apply within_bind (within_fetchMissing present hash)
  intro available
  split
  · exact within_onFile (hsafe hne)
  · exact within_pure _

theorem within_ensureVst3Child {proc : ProcessorDef F}
    (hsafe : opts.resolvable proc.uid = true → SafeOrAbsent proc.state_hash) :
    Within Checked (ensureVst3Child opts world proc) := by
  apply within_bind (within_ask _)
  intro running
  split
  · exact within_pure _
  split
  · exact within_pure _
  rename_i hresolvable
  exact within_bind (within_stageState (hsafe (by simpa using hresolvable)))
    fun _ => within_ask _

theorem within_createProcessor {proc : ProcessorDef F}
    (hsafe : proc.type = "vst3" → opts.resolvable proc.uid = true →
      SafeOrAbsent proc.state_hash) :
    Within Checked (createProcessor opts world proc) := by
  rw [createProcessor]
  split
  · exact within_pure _
  split
  · rename_i htype
    exact within_bind (within_ensureVst3Child (hsafe htype)) fun _ => within_pure _
  · exact within_pure _

theorem within_loadClips {track : TrackDef F}
    (hsafe : opts.server_url ≠ "" → ∀ clip ∈ timelineClips track.clips,
      isPathComponentSafe clip.asset_hash = true)
    (resume_index : Option Nat) : Within Checked (loadClips opts world track resume_index) := by
  rw [loadClips]
  split
  · exact within_pure _
  apply within_forM
  intro clip hclip
  have hprefetch : Within Checked (prefetchClip opts world clip) := by
    rw [prefetchClip]
    split
    · rename_i hserver
      exact within_prefetch (hsafe hserver clip hclip)
    · exact within_pure _
  apply within_bind hprefetch
  intro _
  exact within_bind (within_makeClipPlayer clip) fun _ => within_pure _

theorem within_prefetchStem {proc : ProcessorDef F}
    (hsafe : opts.server_url ≠ "" → proc.type = "vst3" → opts.resolvable proc.uid = false →
      SafeOrAbsent proc.stem_hash) :
    Within Checked (prefetchStem opts world proc) := by
  rw [prefetchStem]
  split
  · rename_i hstem
    obtain ⟨htype, hne, hresolvable, hserver⟩ := hstem
    exact within_prefetch (hsafe hserver htype hresolvable hne)
  · exact within_pure _

theorem within_buildGraph {project : ProjectDef F} (hsafe : SafeProject opts project) :
    Within Checked (buildGraph opts world project) := by
  apply within_forM
  intro track htrack
  refine within_bind ?_ fun _ => ?_
  · apply within_forM
    intro proc hproc
    exact within_prefetchStem fun hserver => hsafe.stems hserver track htrack proc hproc
  apply within_bind (within_resolveStemSubstitution track)
  intro resume_index
  apply within_bind (within_loadClips (fun hserver => hsafe.clips hserver track htrack) _)
  intro _
  apply within_forM
  intro proc hproc
  exact within_createProcessor (hsafe.states track htrack proc (List.mem_of_mem_drop hproc))

theorem within_offline_createProcessor {proc : ProcessorDef F} (hsafe : RenderedState opts proc) :
    Within Checked (OfflineRenderer.createProcessor opts proc) := by
  rw [OfflineRenderer.createProcessor]
  split
  · exact within_pure _
  split
  · rename_i htype
    split
    · exact within_pure _
    rename_i hbypass
    split
    · exact within_pure _
    rename_i hresolvable
    split
    · exact within_pure _
    rename_i hne
    exact within_onFile (hsafe htype (by simpa using hbypass) (by simpa using hresolvable) hne)
  · exact within_pure _

theorem within_offline_loadClips (track : TrackDef F) (resume_index : Option Nat) :
    Within Checked (OfflineRenderer.loadClips opts world track resume_index) := by
  rw [OfflineRenderer.loadClips]
  split
  · exact within_pure _
  apply within_forM
  intro clip _
  exact within_bind (within_makeClipPlayer clip) fun _ => within_pure _

theorem within_offline_buildGraph {project : ProjectDef F}
    (hsafe : ∀ track ∈ project.tracks, ∀ proc ∈ track.chain, RenderedState opts proc) :
    Within Checked (OfflineRenderer.buildGraph opts world project) := by
  apply within_forM
  intro track htrack
  apply within_bind (within_resolveStemSubstitution track)
  intro resume_index
  apply within_bind (within_offline_loadClips track resume_index)
  intro _
  apply within_forM
  intro proc hproc
  exact within_offline_createProcessor
    (hsafe track htrack proc (List.mem_of_mem_drop hproc))

end Asked

section Stems

variable {F : Type} (D : Type) [Floats F D] [OfNat F 0] [OfNat F 1]
variable {opts : Options} {world : World} {project : ProjectDef F} {track first : TrackDef F}
  {proc : ProcessorDef F} {track_id node_id : String} {i : Nat}

theorem reducedDocument_eq_ok_iff {doc : AmValue D} :
    reducedDocument project track_id node_id = .ok doc ↔
      ∃ first i, project.tracks.find? (fun t => t.id == track_id) = some first ∧
        first.chain.findIdx? (fun p => p.id == node_id) = some i ∧
        doc = addTrack (create (F := F) project.sample_rate) (reduceTrack first i) := by
  constructor
  · intro hdoc
    rw [reducedDocument] at hdoc
    split at hdoc
    · cases hdoc
    rename_i first hfirst
    split at hdoc
    · cases hdoc
    rename_i i hnode
    exact ⟨first, i, hfirst, hnode, (Except.ok.inj hdoc).symm⟩
  · rintro ⟨first, i, hfirst, hnode, rfl⟩
    simp only [reducedDocument, hfirst, hnode]

/-- The reduced document is read back with the chain up to the node. -/
theorem chain_of_reduced (sample_rate : Nat) (track : TrackDef F) (i : Nat) :
    ∃ played, (getDocument (addTrack (create (F := F) sample_rate : AmValue D)
        (reduceTrack track i)) : ProjectDef F).tracks = [played] ∧
      played.chain = (track.chain.take (i + 1)).map echoProcessor := by
  refine ⟨_, congrArg ProjectDef.tracks (getDocument_addTrack_create _ _), ?_⟩
  rw [readTrack_writeTrack]
  rfl

theorem within_render {doc : AmValue D} {output_path : Path}
    (hsafe : isPathComponentSafe node_id = true)
    (hstates : ∀ resolved : ProjectDef F, renderedProject doc = some resolved →
      ∀ t ∈ resolved.tracks, ∀ p ∈ t.chain, RenderedState opts p) :
    Within Checked (OfflineRenderer.render (F := F) D opts world doc node_id output_path) := by
  rw [OfflineRenderer.render]
  split
  · exact within_pure _
  rename_i resolved hresolved
  apply within_bind (within_offline_buildGraph (hstates resolved hresolved))
  intro _
  apply within_bind (within_ask _)
  intro complete
  split
  · exact within_pure _
  apply within_bind (within_onFile hsafe)
  intro _
  exact within_ask _

theorem within_keepStem {tmp_wav : Path} (hsafe : isPathComponentSafe node_id = true) :
    Within Checked (keepStem world node_id tmp_wav) := by
  apply within_bind (within_onFile hsafe)
  intro _
  apply within_bind (within_ask _)
  intro readable
  split
  · exact within_bind (within_onFile hsafe) fun _ => within_pure _
  apply within_bind (within_onFile hsafe)
  intro _
  apply within_bind (within_ask _)
  intro renamed
  split
  · exact within_bind (within_onFile hsafe) fun _ => within_pure _
  · exact within_pure _

theorem within_renderTrackStem
    (hstates : isPathComponentSafe node_id = true →
      ∀ first ∈ project.tracks.find? (fun t => t.id == track_id),
      ∀ i ∈ first.chain.findIdx? (fun p => p.id == node_id),
      ∀ p ∈ first.chain.take (i + 1), RenderedState opts (echoProcessor p)) :
    Within Checked (renderTrackStem D opts world project track_id node_id) := by
  rw [renderTrackStem]
  split
  · exact within_pure _
  rename_i doc hdoc
  split
  · exact within_pure _
  rename_i hcheck
  have hsafe : isPathComponentSafe node_id = true := by simpa using hcheck
  obtain ⟨first, i, hfirst, hnode, rfl⟩ := (reducedDocument_eq_ok_iff D).mp hdoc
  have hread : ∀ resolved : ProjectDef F,
      renderedProject (addTrack (create (F := F) project.sample_rate : AmValue D)
        (reduceTrack first i)) = some resolved →
      ∀ t ∈ resolved.tracks, ∀ p ∈ t.chain, RenderedState opts p := by
    intro resolved hresolved t ht p hp
    obtain ⟨played, hplayed, hchain⟩ := chain_of_reduced D project.sample_rate first i
    rw [renderedProject_create] at hresolved
    rw [← Option.some.inj hresolved, hplayed] at ht
    rw [List.mem_singleton.mp ht, hchain] at hp
    obtain ⟨q, hq, rfl⟩ := List.mem_map.mp hp
    exact hstates hsafe first hfirst i hnode q hq
  apply within_bind (within_render D hsafe hread)
  intro rendered
  split
  · exact within_bind (within_onFile hsafe) fun _ => within_pure _
  · exact within_keepStem hsafe

theorem within_publishStems (hsafe : SafeProject opts project) :
    Within Checked (publishStems D opts world project) := by
  apply within_forM
  intro track htrack
  apply within_forM
  intro proc hproc
  rw [publishStem]
  split
  · rename_i hpublishes
    apply within_bind (within_ask _)
    intro fresh
    split
    · exact within_pure _
    refine within_bind (within_renderTrackStem D ?_) fun _ => within_pure _
    exact hsafe.published track htrack proc hproc hpublishes
  · exact within_pure _

theorem within_run (hsafe : SafeProject opts project) (op : Operation) :
    Within Checked (op.run D opts world project) := by
  cases op with
  | build => exact within_buildGraph hsafe
  | render =>
      apply within_offline_buildGraph
      intro track htrack proc hproc htype _ hresolvable
      exact hsafe.states track htrack proc hproc htype hresolvable
  | publish => exact within_publishStems D hsafe

end Stems

section Unasked

variable {F : Type} {opts : Options} {world : World} {component hash : String} {access : Access}
  {path : Path} {track : TrackDef F} {proc : ProcessorDef F}

def Unchecked (used : FileUse) : Prop := ¬ Checked used

/-- Nothing is there, and nothing runs. -/
def bare : World := fun _ _ => false

theorem returns_ask_bare (q : Query) : Returns (fun b => b = false) (ask bare q) :=
  returns_observe fun _ => rfl

theorem returns_loadOrGet_bare (component : String) (path : Path) :
    Returns (fun b => b = false) (loadOrGet bare component path) :=
  returns_bind (returns_any _) fun _ _ => returns_ask_bare _

theorem adds_onFile (hbad : ¬ isPathComponentSafe component = true) :
    Adds Unchecked (onFile component access path) :=
  adds_emit hbad

theorem adds_prefetch (hbad : ¬ isPathComponentSafe hash = true) :
    Adds Unchecked (prefetch opts world hash) := by
  apply adds_bind_left
  apply adds_bind_left
  exact adds_onFile hbad

/-- No stem plays. -/
theorem returns_resolveStemSubstitution_bare (track : TrackDef F) :
    Returns (fun resume_index => resume_index = none)
      (resolveStemSubstitution opts bare track) := by
  rw [resolveStemSubstitution]
  split
  · exact returns_pure rfl
  split
  · exact returns_pure rfl
  split
  · exact returns_pure rfl
  refine returns_bind (returns_loadOrGet_bare _ _) ?_
  rintro loaded rfl
  refine returns_bind (returns_any _) ?_
  intro valid _
  exact returns_pure rfl

theorem adds_stageState (hbad : ¬ SafeOrAbsent hash) :
    Adds Unchecked (stageState opts world hash) := by
  obtain ⟨hne, hbad⟩ := Classical.not_imp.mp hbad
  rw [stageState, if_neg hne]
  exact adds_bind_left (adds_onFile hbad)

theorem not_isBuiltin (htype : proc.type = "vst3") :
    ¬ isBuiltin proc = true := by
  rw [isBuiltin, htype]
  decide

theorem adds_createProcessor_bare (htype : proc.type = "vst3")
    (hresolvable : opts.resolvable proc.uid = true) (hbad : ¬ SafeOrAbsent proc.state_hash) :
    Adds Unchecked (createProcessor opts bare proc) := by
  rw [createProcessor, if_neg (not_isBuiltin htype), if_pos htype]
  apply adds_bind_left
  apply adds_bind_right (returns_ask_bare _)
  rintro running rfl
  rw [hresolvable]
  exact adds_bind_left (adds_stageState hbad)

theorem adds_offline_createProcessor (hbad : ¬ RenderedState opts proc) :
    Adds Unchecked (OfflineRenderer.createProcessor opts proc) := by
  obtain ⟨htype, hbad⟩ := Classical.not_imp.mp hbad
  obtain ⟨hbypass, hbad⟩ := Classical.not_imp.mp hbad
  obtain ⟨hresolvable, hbad⟩ := Classical.not_imp.mp hbad
  obtain ⟨hne, hbad⟩ := Classical.not_imp.mp hbad
  rw [OfflineRenderer.createProcessor, if_neg (not_isBuiltin htype), if_pos htype, hbypass,
    hresolvable]
  simp only [Bool.false_eq_true, Bool.not_true, if_false, if_neg hne]
  exact adds_onFile hbad

/-- Without a stem, every node of the chain is created. -/
theorem adds_chain_bare (hproc : proc ∈ track.chain)
    {load : Option Nat → Program FileUse Unit} {create : ProcessorDef F → Program FileUse Unit}
    (hcreate : Adds Unchecked (create proc)) :
    Adds Unchecked (do
      let resume_index ← resolveStemSubstitution opts bare track
      load resume_index
      forM (track.chain.drop (resume_index.getD 0)) create) := by
  apply adds_bind_right (returns_resolveStemSubstitution_bare track)
  rintro resume_index rfl
  apply adds_bind_right (returns_any _)
  intro _ _
  exact adds_forM hproc hcreate

theorem adds_buildTrack_of_state (hproc : proc ∈ track.chain) (htype : proc.type = "vst3")
    (hresolvable : opts.resolvable proc.uid = true) (hbad : ¬ SafeOrAbsent proc.state_hash) :
    Adds Unchecked (buildTrack opts bare track) := by
  refine adds_bind_right (returns_any _) fun _ _ => ?_
  exact adds_chain_bare hproc (adds_createProcessor_bare htype hresolvable hbad)

theorem adds_buildTrack_of_stem {world : World} (hserver : opts.server_url ≠ "")
    (hproc : proc ∈ track.chain) (htype : proc.type = "vst3")
    (hresolvable : opts.resolvable proc.uid = false) (hbad : ¬ SafeOrAbsent proc.stem_hash) :
    Adds Unchecked (buildTrack opts world track) := by
  obtain ⟨hne, hbad⟩ := Classical.not_imp.mp hbad
  apply adds_bind_left
  apply adds_forM hproc
  rw [prefetchStem, if_pos ⟨htype, hne, hresolvable, hserver⟩]
  exact adds_prefetch hbad

theorem adds_buildTrack_of_clip {clip : ClipDef} (hserver : opts.server_url ≠ "")
    (hclip : clip ∈ timelineClips track.clips)
    (hbad : ¬ isPathComponentSafe clip.asset_hash = true) :
    Adds Unchecked (buildTrack opts bare track) := by
  refine adds_bind_right (returns_any _) fun _ _ => ?_
  refine adds_bind_right (returns_resolveStemSubstitution_bare track) ?_
  rintro resume_index rfl
  apply adds_bind_left
  apply adds_forM hclip
  apply adds_bind_left
  rw [prefetchClip, if_pos hserver]
  exact adds_prefetch hbad

end Unasked

section Names

variable {opts : Options} {s : String}

theorem isPathComponentSafe_iff :
    isPathComponentSafe s = true ↔
      s ≠ "" ∧ (∀ c ∈ s.toList, c ≠ '/' ∧ c ≠ '\\') ∧ ¬ ['.', '.'] <:+: s.toList ∧
        ∀ c ∈ s.toList, 0x20 ≤ c.toNat := by
  simp [isPathComponentSafe, and_assoc]

/-- What passes the check is an entry of the directory when its name is its
own. -/
theorem isChildOf_joined_iff (hsafe : isPathComponentSafe s = true) :
    (opts.joined s).IsChildOf opts.dir ↔ OwnName opts s := by
  obtain ⟨-, hseparators, hdots, -⟩ := isPathComponentSafe_iff.mp hsafe
  have hname : ∀ c ∈ s.toList, isSeparator opts.platform c = false := by
    intro c hc
    obtain ⟨hslash, hbackslash⟩ := hseparators c hc
    cases opts.platform <;> simp [isSeparator, hslash, hbackslash]
  have hrest : s.toList.drop (rootName opts.platform s.toList).length ≠ ['.', '.'] := by
    intro hup
    apply hdots
    rw [← hup]
    exact (List.drop_suffix _ _).isInfix
  rw [Options.joined, isChildOf_join_iff hname rfl hrest]
  constructor
  · rintro ⟨hroot, hne, hdot⟩
    exact ⟨hroot, by simp [hne, hdot]⟩
  · rintro ⟨hroot, hown⟩
    simp only [List.mem_cons, List.not_mem_nil, or_false, not_or] at hown
    exact ⟨hroot, hown⟩

end Names

section Exact

variable {F : Type} (D : Type) [Floats F D] [OfNat F 0] [OfNat F 1]
variable {opts : Options} {project : ProjectDef F} {track : TrackDef F} {proc : ProcessorDef F}
  {s : String}

theorem adds_renderTrackStem_bare {track_id node_id : String} {first : TrackDef F} {i : Nat}
    {p : ProcessorDef F} (hsafe : isPathComponentSafe node_id = true)
    (hfirst : project.tracks.find? (fun t => t.id == track_id) = some first)
    (hnode : first.chain.findIdx? (fun p => p.id == node_id) = some i)
    (hp : p ∈ first.chain.take (i + 1)) (hbad : ¬ RenderedState opts (echoProcessor p)) :
    Adds Unchecked (renderTrackStem D opts bare project track_id node_id) := by
  obtain ⟨played, hplayed, hchain⟩ := chain_of_reduced D project.sample_rate first i
  have hbuild : Adds Unchecked (OfflineRenderer.buildGraph opts bare
      (getDocument (addTrack (create (F := F) project.sample_rate : AmValue D)
        (reduceTrack first i)) : ProjectDef F)) := by
    rw [OfflineRenderer.buildGraph, hplayed]
    apply adds_forM (List.mem_singleton_self played)
    refine adds_chain_bare ?_ (adds_offline_createProcessor hbad)
    rw [hchain]
    exact List.mem_map_of_mem hp
  rw [renderTrackStem, (reducedDocument_eq_ok_iff D).mpr ⟨first, i, hfirst, hnode, rfl⟩]
  simp only [hsafe, Bool.not_true, Bool.false_eq_true, if_false]
  apply adds_bind_left
  rw [OfflineRenderer.render, renderedProject_create]
  exact adds_bind_left hbuild

theorem adds_publishStems_bare {first : TrackDef F} {i : Nat} {p : ProcessorDef F}
    (htrack : track ∈ project.tracks) (hproc : proc ∈ track.chain)
    (hpublishes : Publishes opts track proc) (hsafe : isPathComponentSafe proc.id = true)
    (hfirst : project.tracks.find? (fun t => t.id == track.id) = some first)
    (hnode : first.chain.findIdx? (fun p => p.id == proc.id) = some i)
    (hp : p ∈ first.chain.take (i + 1)) (hbad : ¬ RenderedState opts (echoProcessor p)) :
    Adds Unchecked (publishStems D opts bare project) := by
  apply adds_forM htrack
  apply adds_forM hproc
  rw [publishStem, if_pos hpublishes]
  refine adds_bind_right (returns_ask_bare _) ?_
  rintro fresh rfl
  apply adds_bind_left
  exact adds_renderTrackStem_bare D hsafe hfirst hnode hp hbad

/-- A file of an unchecked string. -/
theorem not_confined_of_adds (op : Operation) (world : World)
    (hadds : Adds Unchecked (op.run D opts world project)) : ¬ Confined D opts project s := by
  intro hconfined
  obtain ⟨used, hused, hunchecked⟩ := hadds []
  exact hunchecked (hconfined.checked op world used hused)

theorem Confined.safeProject (hconfined : Confined D opts project s) :
    SafeProject opts project where
  states track htrack proc hproc htype hresolvable := by
    by_contra hbad
    refine not_confined_of_adds D .build bare ?_ hconfined
    exact adds_forM htrack (adds_buildTrack_of_state hproc htype hresolvable hbad)
  stems hserver track htrack proc hproc htype hresolvable := by
    by_contra hbad
    refine not_confined_of_adds D .build bare ?_ hconfined
    exact adds_forM htrack (adds_buildTrack_of_stem hserver hproc htype hresolvable hbad)
  clips hserver track htrack clip hclip := by
    by_contra hbad
    refine not_confined_of_adds D .build bare ?_ hconfined
    exact adds_forM htrack (adds_buildTrack_of_clip hserver hclip hbad)
  published track htrack proc hproc hpublishes hsafe first hfirst i hnode p hp := by
    by_contra hbad
    refine not_confined_of_adds D .publish bare ?_ hconfined
    exact adds_publishStems_bare D htrack hproc hpublishes hsafe hfirst hnode hp hbad

/-- The strings of a document are confined exactly when none fails the check in
the places where the code does not ask, and a string that passes has a name of
its own. -/
theorem confined_iff (opts : Options) (project : ProjectDef F) (s : String) :
    Confined D opts project s ↔
      SafeProject opts project ∧ (isPathComponentSafe s = true → OwnName opts s) := by
  constructor
  · intro hconfined
    refine ⟨hconfined.safeProject D, ?_⟩
    intro hsafe
    exact (isChildOf_joined_iff hsafe).mp (hconfined.child hsafe)
  · rintro ⟨hproject, hown⟩
    refine ⟨?_, ?_⟩
    · intro op world used hused
      exact within_run D hproject op [] used hused
    · intro hsafe
      exact (isChildOf_joined_iff hsafe).mpr (hown hsafe)

end Exact

section Example

/-- A project whose plugin has its state above the directory. -/
def escapingProject : ProjectDef ℚ where
  master_gain := 1
  tracks :=
    [{ id := "t", gain := 1, pan := 0
       chain := [{ id := "p", type := "vst3", uid := "u", state_hash := "../../secret" }] }]

def studioOptions (platform : Platform) : Options where
  platform := platform
  assets_dir := "studio"
  vst3_modules := [("u", "u.vst3")]

/-- The state is on the disk. -/
def presentWorld : World := fun _ q =>
  match q with
  | .exists_ _ => true
  | _ => false

/-- The engine reads the state above the directory without a check; a string
with a drive passes the check and leaves the directory, and a dot passes it and
is the directory. -/
theorem not_confined_escaping :
    { component := "../../secret", access := .read
      path := ⟨[], false, ["studio".toList, "..".toList, "..".toList, "secret.wav".toList]⟩ } ∈
        ((Operation.run ℚ (studioOptions .posix) presentWorld .build escapingProject).run []).2 ∧
      isPathComponentSafe "../../secret" = false ∧
      isPathComponentSafe "D:x" = true ∧
      (studioOptions .windows).joined "D:x" = ⟨"D:".toList, false, ["x".toList]⟩ ∧
      isPathComponentSafe "." = true ∧
      ((studioOptions .posix).joined ".").location = (studioOptions .posix).dir.location ∧
      ¬ ∀ (opts : Options) (project : ProjectDef ℚ) (s : String),
        Confined ℚ opts project s := by
  have hread : { component := "../../secret", access := .read
                 path := ⟨[], false,
                   ["studio".toList, "..".toList, "..".toList, "secret.wav".toList]⟩ } ∈
      ((Operation.run ℚ (studioOptions .posix) presentWorld .build escapingProject).run []).2 := by
    decide
  refine ⟨hread, by decide, by decide, by decide, by decide, by decide, ?_⟩
  intro hconfined
  have hchecked := (hconfined (studioOptions .posix) escapingProject "").checked .build
    presentWorld _ hread
  exact absurd hchecked (by decide)

end Example

end DawProject.Engine
