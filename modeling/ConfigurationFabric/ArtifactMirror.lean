import ConfigurationFabric.ArtifactStore
import ConfigurationFabric.DistributorControl
import ConfigurationFabric.StateStored

/-! The artifacts a distributor knows of and those its store holds, over plans, verifications, crashes and restarts. -/

namespace ConfigurationFabric

open LittleEndian

namespace ArtifactStore

/-- How reading a source into a staging file goes. -/
structure Source where
  path : String := ""
  temporary : String := ""
  size : Option ℕ := none
  opens : Bool := true
  stages : Bool := true
  content : Bytes := []
  readFails : Bool := false
  writeFails : Bool := false
  flushFails : Bool := false
  /-- what a flush that fails leaves in the staging file -/
  flushed : Bytes := []

def ingestFromFile (o : Options) (source : Source) (declared : ArtifactMetadata) : Result Publication :=
  match source.size with
  | none => .fail .notFound "cannot stat artifact source" source.path
  | some size =>
    if size > o.maxArtifactBytes then
      .fail .oversizePayload "artifact exceeds the configured maximum size" (toString size)
    else if size ≠ declared.sizeBytes then
      .fail .sizeMismatch "declared artifact size does not match the source file" s!"{size} != {declared.sizeBytes}"
    else if !source.opens then .fail .openFailed "cannot open artifact source" source.path
    else if !source.stages then .fail .openFailed "cannot create staging file" source.temporary
    else
      let total := source.content.length
      let result : Status :=
        if source.writeFails then .fail .ioFailure "write error while staging artifact" source.temporary
        else if total > o.maxArtifactBytes then
          .fail .oversizePayload "artifact exceeds the configured maximum" (toString o.maxArtifactBytes)
        else if source.readFails then .fail .ioFailure "read error while ingesting artifact" source.path
        else .ok ()
      match result with
      -- a flush that fails is only looked at here
      | .error e =>
        if source.flushFails then .error e else .fail .ioFailure "failed to flush staging file" source.temporary
      | .ok () =>
        let actual := Digest.ofContent source.content
        if total ≠ declared.sizeBytes then
          .fail .sizeMismatch "artifact byte count does not match the declaration" s!"{total} != {declared.sizeBytes}"
        else if actual ≠ declared.digest then
          .fail .digestMismatch "artifact content digest does not match the declaration"
            (textString actual.hex ++ " != " ++ textString declared.digest.hex)
        else .ok ⟨declared, if source.flushFails then source.flushed else source.content, actual, total⟩

/-- The metadata records that can be read and whose payload is there. -/
def loaded (unreadable : List Digest) (s : ArtifactStore) : List ArtifactMetadata :=
  s.metadataFiles.filterMap fun e =>
    if e.1 ∈ unreadable then none
    else
      match decodeArtifactMetadata e.2 with
      | .error _ => none
      | .ok metadata => if (s.payloads.find metadata.digest).isSome then some metadata else none

def loadIndex (unreadable : List Digest) (s : ArtifactStore) : ArtifactStore :=
  { s with
    index := (s.loaded unreadable).foldl (fun index metadata =>
      if (index.find metadata.digest).isSome then index else index.insert metadata.digest metadata) []
    usedBytes := ((s.loaded unreadable).map (·.sizeBytes)).sum % 2 ^ 64 }

end ArtifactStore

/-- What the plan parser lets through. -/
def DeploymentInstruction.Parsed (i : DeploymentInstruction) : Prop :=
  isValidIdentifier i.artifact = true ∧ i.revision < 2 ^ 64 ∧ isValidIdentifier i.schema = true ∧
    i.schemaVersion < 2 ^ 32 ∧ i.sizeBytes < 2 ^ 64

instance (i : DeploymentInstruction) : Decidable i.Parsed :=
  inferInstanceAs (Decidable (_ ∧ _ ∧ _ ∧ _ ∧ _))

namespace Mirror

open ArtifactStore

/-- Where the operation of the distributor stands. -/
inductive Task
  | stopped
  | idle
  | submitting (rest : List DeploymentInstruction)
  | publishing (p : Publication) (stage : Stage) (rest : List DeploymentInstruction)
  | recording (declared : ArtifactMetadata) (rest : List DeploymentInstruction)
  | verifying (digest : Digest) (stage : Verifying) (rest : List Digest)

/-- A distributor with its two stores and their files. -/
structure Node where
  store : ArtifactStore := {}
  controller : Controller := {}
  task : Task := .stopped

/-- What the outside decides at one step. -/
structure Choice where
  outcome : Outcome := {}
  source : Source := {}
  producedAtMillis : ℤ := 0
  storedAtMillis : ℤ := 0
  recorded : CommitOutcome := .done
  /-- the deliveries of the instruction before cannot be recorded -/
  abandoned : Bool := false

/-- The clocks are 64-bit readings. -/
def Choice.Timely (c : Choice) : Prop :=
  (-2 ^ 63 ≤ c.producedAtMillis ∧ c.producedAtMillis < 2 ^ 63) ∧ -2 ^ 63 ≤ c.storedAtMillis ∧ c.storedAtMillis < 2 ^ 63

instance (c : Choice) : Decidable c.Timely := inferInstanceAs (Decidable ((_ ∧ _) ∧ _ ∧ _))

def declaredOf (i : DeploymentInstruction) (choice : Choice) : ArtifactMetadata where
  id := i.artifact
  revision := i.revision
  schema := i.schema
  schemaVersion := i.schemaVersion
  digest := i.digest
  sizeBytes := i.sizeBytes
  mediaType := i.mediaType
  producer := i.producer
  producedAtMillis := choice.producedAtMillis
  storedAtMillis := choice.storedAtMillis

def verifyNext : List Digest → Task
  | [] => .idle
  | digest :: rest => .verifying digest .opening rest

/-- The next step of the operation that runs. -/
def proceed (o : Options) (choice : Choice) (x : Node) : Node :=
  match x.task with
  | .stopped | .idle => x
  | .submitting [] => { x with task := .idle }
  | .submitting (i :: rest) =>
    if choice.abandoned then { x with task := .idle }
    else if i.sourcePath ≠ [] ∧ x.store.contains i.digest = false then
      match ingestFromFile o choice.source (declaredOf i choice) with
      | .error _ => { x with task := .submitting rest }
      | .ok p => { x with task := .publishing p .reserving rest }
    else { x with task := .submitting rest }
  | .publishing p stage rest =>
    let after := publishStep o choice.outcome p stage x.store
    match after.1 with
    | .done (.ok ()) => { x with store := after.2, task := .recording p.metadata rest }
    | .done (.error _) => { x with store := after.2, task := .submitting rest }
    | stage => { x with store := after.2, task := .publishing p stage rest }
  | .recording declared rest =>
    match encodeArtifactMetadata declared, choice.recorded with
    | .error _, _ | .ok _, .refused _ => { x with task := .submitting rest }
    | .ok _, .failed _ durable =>
      { x with controller := x.controller.commit durable (.artifactUpsert declared), task := .submitting rest }
    | .ok _, .done =>
      { x with controller := x.controller.commit true (.artifactUpsert declared), task := .submitting rest }
  | .verifying digest stage rest =>
    let after := verifyStep o choice.outcome digest stage x.store
    match after.1 with
    | .verified _ => { x with store := after.2, task := verifyNext rest }
    | stage => { x with store := after.2, task := .verifying digest stage rest }

inductive Event
  | start (unreadable : List Digest)
  | crash
  | submit (plan : DeploymentPlan)
  | verify
  | proceed (choice : Choice)
  /-- whatever else is committed -/
  | other (c : Controller)
  | compact
  | damage (digest : Digest) (content : Bytes)

def next (o : Options) (policy : DistributorPolicy) (x : Node) : Event → Option Node
  | .start unreadable =>
    match x.task with
    | .stopped =>
      some ⟨x.store.loadIndex unreadable, ⟨x.controller.dur, x.controller.dur⟩, .idle⟩
    | _ => none
  | .crash => some ⟨{ x.store with index := [], usedBytes := 0 }, ⟨x.controller.dur, x.controller.dur⟩, .stopped⟩
  | .submit plan =>
    match x.task with
    | .idle =>
      if ∀ i ∈ plan.instructions, i.Parsed then
        if (Distributor.resolveDeploymentSet policy plan).any (·.accepted) then
          some { x with task := .submitting plan.instructions }
        else some x
      else none
    | _ => none
  | .verify =>
    match x.task with
    | .idle => some { x with task := verifyNext (x.store.index.map (·.1)) }
    | _ => none
  | .proceed choice =>
    if choice.Timely then some (proceed o choice x) else none
  | .other c =>
    match x.task with
    | .stopped => none
    | _ =>
      if c.mem.artifacts = x.controller.mem.artifacts ∧ c.dur.artifacts = x.controller.dur.artifacts then
        some { x with controller := c }
      else none
  | .compact =>
    match x.task with
    | .stopped => none
    | _ => some { x with controller := ⟨x.controller.mem, x.controller.mem⟩ }
  | .damage digest content =>
    match x.store.payloads.find digest with
    | none => none
    | some _ => some { x with store := { x.store with payloads := x.store.payloads.insert digest content } }

/-- What the policy takes as available is what the store holds. -/
def Mirrored (x : Node) : Prop :=
  x.task = .idle → ∀ digest, (x.controller.mem.artifacts.find digest).isSome = x.store.contains digest

/-- No artifact is half recorded at a crash, every record is written, every metadata file is read, and nothing is
quarantined. -/
def careful (x : Node) : Event → Bool
  | .start unreadable => unreadable.isEmpty
  | .crash =>
    (match x.task with
      | .publishing _ .indexing _ | .recording _ _ => false
      | _ => true) &&
    x.controller.mem.artifacts.all fun e => (x.controller.dur.artifacts.find e.1).isSome
  | .proceed choice =>
    match x.task, choice.recorded with
    | .recording _ _, .refused _ => false
    | .verifying _ (.quarantining _) _, _ => !choice.outcome.status.isOk
    | _, _ => true
  | _ => true

def Run (o : Options) (policy : DistributorPolicy) : Node → Node → Prop :=
  Relation.ReflTransGen fun x y => ∃ e, next o policy x e = some y

def CarefulRun (o : Options) (policy : DistributorPolicy) : Node → Node → Prop :=
  Relation.ReflTransGen fun x y => ∃ e, careful x e = true ∧ next o policy x e = some y

/-! What holds at each point of an operation. -/

structure Settled (x : Node) (digest : Digest) : Prop where
  known : (x.controller.mem.artifacts.find digest).isSome = x.store.contains digest
  described : (x.store.metadataFiles.find digest).isSome = x.store.contains digest
  payload : x.store.contains digest = true → (x.store.payloads.find digest).isSome = true

/-- An artifact that the store has, whatever the state says of it. -/
structure Stored (x : Node) (digest : Digest) : Prop where
  contained : x.store.contains digest = true
  described : (x.store.metadataFiles.find digest).isSome = true
  payload : (x.store.payloads.find digest).isSome = true

structure Ready (p : Publication) : Prop where
  digest : p.metadata.digest = p.actualDigest
  size : p.metadata.sizeBytes = p.actualSize
  readable : p.metadata.Readable

def Ongoing (x : Node) (p : Publication) : Stage → Prop
  | .reserving | .preparing false | .withdrawing _ =>
    (∀ digest, Settled x digest) ∧ x.store.contains p.actualDigest = false
  | .moving encoded =>
    ((∀ digest, Settled x digest) ∧ x.store.contains p.actualDigest = false) ∧
      encodeArtifactMetadata p.stored = .ok encoded
  | .describing encoded =>
    ((∀ digest, Settled x digest) ∧ x.store.contains p.actualDigest = false ∧
      (x.store.payloads.find p.actualDigest).isSome = true) ∧ encodeArtifactMetadata p.stored = .ok encoded
  | .indexing =>
    (∀ digest, digest ≠ p.actualDigest → Settled x digest) ∧
      ((x.store.metadataFiles.find p.actualDigest).isSome = true ∧
        (x.store.payloads.find p.actualDigest).isSome = true) ∧ ∃ encoded, encodeArtifactMetadata p.stored = .ok encoded
  | _ => False

def Placed (x : Node) : Task → Prop
  | .stopped => ∀ digest,
    (x.controller.dur.artifacts.find digest).isSome = (x.store.metadataFiles.find digest).isSome ∧
      ((x.store.metadataFiles.find digest).isSome = true → (x.store.payloads.find digest).isSome = true)
  | .idle => ∀ digest, Settled x digest
  | .submitting rest => (∀ digest, Settled x digest) ∧ ∀ i ∈ rest, i.Parsed
  | .publishing p stage rest => Ready p ∧ (∀ i ∈ rest, i.Parsed) ∧ Ongoing x p stage
  | .recording declared rest =>
    (∃ encoded, encodeArtifactMetadata declared = .ok encoded) ∧ (∀ i ∈ rest, i.Parsed) ∧
      (∀ digest, digest ≠ declared.digest → Settled x digest) ∧ Stored x declared.digest
  | .verifying _ stage _ => (∀ digest, Settled x digest) ∧ ∀ e, stage ≠ .dropping e

structure Kept (x : Node) : Prop where
  sorted : SortedMap.Sorted x.store.metadataFiles
  named : ∀ e ∈ x.store.metadataFiles, ∃ metadata, decodeArtifactMetadata e.2 = .ok metadata ∧ metadata.digest = e.1
  written : ∀ digest, (x.controller.dur.artifacts.find digest).isSome = true →
    (x.controller.mem.artifacts.find digest).isSome = true
  placed : Placed x x.task

variable {o : Options} {policy : DistributorPolicy} {choice : Choice} {x y : Node} {digest : Digest}

theorem Settled.congr (h : Settled x digest)
    (hknown : (y.controller.mem.artifacts.find digest).isSome = (x.controller.mem.artifacts.find digest).isSome)
    (hcontains : y.store.contains digest = x.store.contains digest)
    (hdescribed : (y.store.metadataFiles.find digest).isSome = (x.store.metadataFiles.find digest).isSome)
    (hpayload : x.store.contains digest = true → (x.store.payloads.find digest).isSome = true →
      (y.store.payloads.find digest).isSome = true) : Settled y digest where
  known := by rw [hknown, hcontains, h.known]
  described := by rw [hdescribed, hcontains, h.described]
  payload := by
    intro hcontained
    rw [hcontains] at hcontained
    exact hpayload hcontained (h.payload hcontained)

/-! Starting. -/

theorem isSome_foldl_index (l : List ArtifactMetadata) (index : SortedMap Digest ArtifactMetadata) :
    ((l.foldl (fun index metadata =>
      if (index.find metadata.digest).isSome then index else index.insert metadata.digest metadata) index).find
        digest).isSome = ((index.find digest).isSome || l.any (·.digest = digest)) := by
  induction l generalizing index with
  | nil => simp
  | cons metadata l ih =>
    rw [List.foldl_cons, ih, List.any_cons]
    split
    next hfound =>
      by_cases heq : metadata.digest = digest
      · rw [heq] at hfound
        simp [hfound]
      · simp [heq]
    · rw [SortedMap.find_insert]
      by_cases heq : metadata.digest = digest
      · simp [heq]
      · rw [if_neg (Ne.symm heq)]
        simp [heq]

theorem contains_loadIndex {s : ArtifactStore} (hsorted : SortedMap.Sorted s.metadataFiles)
    (hnamed : ∀ e ∈ s.metadataFiles, ∃ metadata, decodeArtifactMetadata e.2 = .ok metadata ∧ metadata.digest = e.1)
    (hpayload : ∀ digest, (s.metadataFiles.find digest).isSome = true → (s.payloads.find digest).isSome = true) :
    (s.loadIndex []).contains digest = (s.metadataFiles.find digest).isSome := by
  rw [ArtifactStore.contains, loadIndex, isSome_foldl_index, SortedMap.find_nil, Option.isSome_none, Bool.false_or,
    Bool.eq_iff_iff, List.any_eq_true]
  constructor
  · rintro ⟨metadata, hmem, heq⟩
    obtain ⟨e, he, hloaded⟩ := List.mem_filterMap.mp hmem
    obtain ⟨metadata', hdecode, hname⟩ := hnamed e he
    rw [if_neg List.not_mem_nil, hdecode] at hloaded
    obtain ⟨-, hsame⟩ := Option.ite_none_right_eq_some.mp hloaded
    obtain rfl := Option.some.inj hsame
    rw [← of_decide_eq_true heq, hname, SortedMap.find_of_mem hsorted he]
    rfl
  · intro hfound
    obtain ⟨encoded, hencoded⟩ := Option.isSome_iff_exists.mp hfound
    have hmem := SortedMap.find_mem hencoded
    obtain ⟨metadata, hdecode, hname⟩ := hnamed _ hmem
    refine ⟨metadata, List.mem_filterMap.mpr ⟨_, hmem, ?_⟩, decide_eq_true hname⟩
    dsimp only at hdecode hname ⊢
    rw [if_neg List.not_mem_nil, hdecode]
    dsimp only
    rw [hname]
    exact if_pos (hpayload digest hfound)

theorem Kept.start (h : Kept x) (hstopped : x.task = .stopped) :
    Kept ⟨x.store.loadIndex [], ⟨x.controller.dur, x.controller.dur⟩, .idle⟩ where
  sorted := h.sorted
  named := h.named
  written := fun _ h => h
  placed := by
    have hplaced := h.placed
    rw [hstopped] at hplaced
    intro digest
    have hcontains (digest : Digest) :
        (x.store.loadIndex []).contains digest = (x.store.metadataFiles.find digest).isSome :=
      contains_loadIndex h.sorted h.named fun digest => (hplaced digest).2
    constructor
    · change (x.controller.dur.artifacts.find digest).isSome = _
      rw [hcontains, (hplaced digest).1]
    · exact (hcontains digest).symm
    · intro hcontained
      rw [hcontains] at hcontained
      exact (hplaced digest).2 hcontained

/-! A crash. -/

theorem Placed.settled (h : Placed x x.task) (hstopped : x.task ≠ .stopped)
    (hwhole : (match x.task with
      | .publishing _ .indexing _ | .recording _ _ => false
      | _ => true) = true) : ∀ digest, Settled x digest := by
  cases htask : x.task with
  | stopped => exact absurd htask hstopped
  | idle =>
    rw [htask] at h
    exact h
  | submitting rest =>
    rw [htask] at h
    exact h.1
  | publishing p stage rest =>
    rw [htask] at h hwhole
    obtain ⟨-, -, hongoing⟩ := h
    cases stage with
    | preparing alreadyPresent =>
      cases alreadyPresent with
      | true => exact absurd hongoing not_false
      | false => exact hongoing.1
    | reserving | withdrawing => exact hongoing.1
    | moving => exact hongoing.1.1
    | describing => exact hongoing.1.1
    | indexing => exact absurd hwhole Bool.false_ne_true
    | _ => exact absurd hongoing not_false
  | recording declared rest =>
    rw [htask] at hwhole
    exact absurd hwhole Bool.false_ne_true
  | verifying digest stage rest =>
    rw [htask] at h
    exact h.1

theorem Kept.crash (h : Kept x) (hcareful : careful x .crash = true) :
    Kept ⟨{ x.store with index := [], usedBytes := 0 }, ⟨x.controller.dur, x.controller.dur⟩, .stopped⟩ where
  sorted := h.sorted
  named := h.named
  written := fun _ h => h
  placed := by
    by_cases hstopped : x.task = .stopped
    · have hplaced := h.placed
      rw [hstopped] at hplaced
      exact hplaced
    · obtain ⟨hwhole, hwritten⟩ := Bool.and_eq_true_iff.mp hcareful
      intro digest
      obtain ⟨hknown, hdescribed, hpayload⟩ := h.placed.settled hstopped hwhole digest
      have hsame : (x.controller.dur.artifacts.find digest).isSome =
          (x.controller.mem.artifacts.find digest).isSome := by
        rw [Bool.eq_iff_iff]
        refine ⟨h.written digest, fun hmem => ?_⟩
        obtain ⟨metadata, hfind⟩ := Option.isSome_iff_exists.mp hmem
        exact List.all_eq_true.mp hwritten _ (SortedMap.find_mem hfind)
      constructor
      · change (x.controller.dur.artifacts.find digest).isSome = (x.store.metadataFiles.find digest).isSome
        rw [hsame, hknown, hdescribed]
      · intro hfound
        change (x.store.metadataFiles.find digest).isSome = true at hfound
        rw [hdescribed] at hfound
        exact hpayload hfound

/-! One step of an operation. -/

theorem ingestFromFile_ok {source : Source} {declared : ArtifactMetadata} {p : Publication}
    (h : ingestFromFile o source declared = .ok p) :
    p.metadata = declared ∧ p.actualDigest = declared.digest ∧ p.actualSize = declared.sizeBytes := by
  rw [ingestFromFile] at h
  split at h
  · cases h
  split at h
  · cases h
  split at h
  · cases h
  split at h
  · cases h
  split at h
  · cases h
  dsimp only at h
  split at h
  · split at h <;> cases h
  split at h
  · cases h
  next hsize =>
    split at h
    · cases h
    next hdigest =>
      cases h
      exact ⟨rfl, not_not.mp hdigest, not_not.mp hsize⟩

theorem Ready.stored {p : Publication} (h : Ready p) : p.stored = p.metadata := by
  obtain ⟨hdigest, hsize, -⟩ := h
  rw [Publication.stored, ← hdigest, ← hsize]

theorem readable_declared {i : DeploymentInstruction} (h : i.Parsed) (htimely : choice.Timely) :
    (declaredOf i choice).Readable := by
  obtain ⟨hid, hrevision, hschema, hversion, hsize⟩ := h
  exact ⟨hid, hrevision, hschema, hversion, hsize, htimely.1, htimely.2⟩

/-- A step that leaves the files and the durable state as they are. -/
theorem Kept.move (h : Kept x) {task : Task} (hplaced : Placed { x with task } task) : Kept { x with task } where
  sorted := h.sorted
  named := h.named
  written := h.written
  placed := hplaced

theorem settled_task (h : Settled x digest) (task : Task) : Settled { x with task } digest := ⟨h.1, h.2, h.3⟩

theorem Kept.submitting (h : Kept x) {rest : List DeploymentInstruction} (htask : x.task = .submitting rest)
    (htimely : choice.Timely) : Kept (proceed o choice x) := by
  have hplaced := h.placed
  rw [htask] at hplaced
  obtain ⟨hsettled, hparsed⟩ := hplaced
  have hidle : Kept { x with task := .idle } := h.move fun digest => settled_task (hsettled digest) _
  rw [proceed, htask]
  cases rest with
  | nil => exact hidle
  | cons i rest =>
    obtain ⟨hi, hrest⟩ := List.forall_mem_cons.mp hparsed
    have hnext : Kept { x with task := .submitting rest } :=
      h.move ⟨fun digest => settled_task (hsettled digest) _, hrest⟩
    dsimp only
    split
    · exact hidle
    split
    next hfresh =>
      split
      · exact hnext
      next p hingest =>
        obtain ⟨hmetadata, hdigest, hsize⟩ := ingestFromFile_ok hingest
        refine h.move ⟨⟨?_, ?_, ?_⟩, hrest, fun digest => settled_task (hsettled digest) _, ?_⟩
        · rw [hmetadata, hdigest]
        · rw [hmetadata, hsize]
        · rw [hmetadata]
          exact readable_declared hi htimely
        · rw [hdigest]
          exact hfresh.2
    · exact hnext

theorem Kept.verifying (h : Kept x) {stage : Verifying} {rest : List Digest}
    (htask : x.task = .verifying digest stage rest) (hcareful : careful x (.proceed choice) = true) :
    Kept (proceed o choice x) := by
  have hplaced := h.placed
  rw [htask] at hplaced
  rw [careful, htask] at hcareful
  obtain ⟨hsettled, hdropping⟩ := hplaced
  have hend : Kept { x with task := verifyNext rest } := by
    apply h.move
    cases rest with
    | nil => exact fun digest => settled_task (hsettled digest) _
    | cons => exact ⟨fun digest => settled_task (hsettled digest) _, fun _ h => nomatch h⟩
  rw [proceed, htask]
  obtain ⟨hstore, -, hnext⟩ | ⟨e, rfl, -, hstatus, -⟩ | ⟨e, -, rfl, -⟩ :=
    verifyStep_cases o choice.outcome digest stage x.store
  · dsimp only
    rw [hstore]
    split
    · exact hend
    next stage' hstage => exact h.move ⟨fun digest => settled_task (hsettled digest) _, hnext⟩
  · rw [hstatus] at hcareful
    cases hcareful
  · exact absurd rfl (hdropping e)

theorem Kept.recording (h : Kept x) {declared : ArtifactMetadata} {rest : List DeploymentInstruction}
    (htask : x.task = .recording declared rest) (hcareful : careful x (.proceed choice) = true) :
    Kept (proceed o choice x) := by
  have hplaced := h.placed
  rw [htask] at hplaced
  rw [careful, htask] at hcareful
  obtain ⟨⟨encoded, hencoded⟩, hrest, hothers, hcontained, hdescribed, hpayload⟩ := hplaced
  have hcommit (durable : Bool) : Kept { x with
      controller := x.controller.commit durable (.artifactUpsert declared), task := .submitting rest } := by
    have hfind (digest : Digest) : ((x.controller.commit durable (.artifactUpsert declared)).mem.artifacts.find digest) =
        if digest = declared.digest then some declared else x.controller.mem.artifacts.find digest :=
      SortedMap.find_insert ..
    refine ⟨h.sorted, h.named, fun digest hdigest => ?_, fun digest => ?_, hrest⟩
    · rw [hfind]
      split
      · rfl
      next hne =>
        apply h.written
        cases durable with
        | false => exact hdigest
        | true =>
          change ((x.controller.dur.artifacts.insert declared.digest declared).find digest).isSome = true at hdigest
          rwa [SortedMap.find_insert, if_neg hne] at hdigest
    · by_cases heq : digest = declared.digest
      · subst heq
        refine ⟨?_, ?_, fun _ => hpayload⟩
        · rw [hfind, if_pos rfl]
          exact hcontained.symm
        · exact hdescribed.trans hcontained.symm
      · refine (hothers digest heq).congr ?_ rfl rfl fun _ h => h
        rw [hfind, if_neg heq]
  rw [proceed, htask]
  dsimp only
  rw [hencoded]
  cases hrecorded : choice.recorded with
  | refused e =>
    rw [hrecorded] at hcareful
    cases hcareful
  | failed e durable => exact hcommit durable
  | done => exact hcommit true

/-- A publish that ends without an entry. -/
theorem Kept.publish_failed (h : Kept x) {rest : List DeploymentInstruction} (hsettled : ∀ digest, Settled x digest)
    (hrest : ∀ i ∈ rest, i.Parsed) : Kept { x with task := .submitting rest } :=
  h.move ⟨fun digest => settled_task (hsettled digest) _, hrest⟩

/-- A metadata file that could not be replaced is gone. -/
theorem Kept.publish_unwritten (h : Kept x) {p : Publication} {rest : List DeploymentInstruction} {e : Error}
    (hready : Ready p) (hrest : ∀ i ∈ rest, i.Parsed) (hsettled : ∀ digest, Settled x digest)
    (hfresh : x.store.contains p.actualDigest = false) :
    Kept { x with
      store := { x.store with metadataFiles := x.store.metadataFiles.erase p.actualDigest }
      task := .publishing p (.withdrawing e) rest } := by
  refine ⟨SortedMap.sorted_erase h.sorted _, fun e he => h.named e (SortedMap.mem_erase he).1, h.written, hready, hrest,
    fun digest => ?_, hfresh⟩
  refine (hsettled digest).congr rfl rfl ?_ fun _ h => h
  change ((x.store.metadataFiles.erase p.actualDigest).find digest).isSome = _
  rw [SortedMap.find_erase]
  split
  next heq =>
    rw [heq, (hsettled p.actualDigest).described, hfresh]
    rfl
  · rfl

theorem Kept.publish_written (h : Kept x) {p : Publication} {rest : List DeploymentInstruction} {encoded : Bytes}
    (hready : Ready p) (hrest : ∀ i ∈ rest, i.Parsed)
    (hothers : ∀ digest, digest ≠ p.actualDigest → Settled x digest)
    (hpayload : (x.store.payloads.find p.actualDigest).isSome = true)
    (hencode : encodeArtifactMetadata p.stored = .ok encoded) :
    Kept { x with
      store := { x.store with metadataFiles := x.store.metadataFiles.insert p.actualDigest encoded }
      task := .publishing p .indexing rest } := by
  have hfind (digest : Digest) : (x.store.metadataFiles.insert p.actualDigest encoded).find digest =
      if digest = p.actualDigest then some encoded else x.store.metadataFiles.find digest := SortedMap.find_insert ..
  refine ⟨SortedMap.sorted_insert h.sorted _ _, fun e he => ?_, h.written, hready, hrest, fun digest hne => ?_,
    ⟨?_, hpayload⟩, encoded, hencode⟩
  · obtain rfl | he := SortedMap.mem_insert he
    · refine ⟨p.stored, (decodeArtifactMetadata_iff _ _).mpr ⟨?_, hencode⟩, rfl⟩
      rw [hready.stored]
      exact hready.readable
    · exact h.named e he
  · refine (hothers digest hne).congr rfl rfl ?_ fun _ h => h
    exact congrArg Option.isSome ((hfind digest).trans (if_neg hne))
  · exact congrArg Option.isSome ((hfind p.actualDigest).trans (if_pos rfl))

theorem Kept.publishing (h : Kept x) {p : Publication} {stage : Stage} {rest : List DeploymentInstruction}
    (htask : x.task = .publishing p stage rest) : Kept (proceed o choice x) := by
  have hplaced := h.placed
  rw [htask] at hplaced
  obtain ⟨hready, hrest, hongoing⟩ := hplaced
  have hstored := hready.stored
  rw [proceed, htask]
  dsimp only
  cases stage with
  | reserving =>
    obtain ⟨hsettled, hfresh⟩ := hongoing
    rw [publishStep, reserve, if_neg (Bool.eq_false_iff.mp hfresh)]
    split_ifs
    · exact h.publish_failed hsettled hrest
    · exact h.publish_failed hsettled hrest
    · exact h.move ⟨hready, hrest, fun digest => settled_task (hsettled digest) _, hfresh⟩
  | preparing alreadyPresent =>
    cases alreadyPresent with
    | true => exact absurd hongoing not_false
    | false =>
      obtain ⟨hsettled, hfresh⟩ := hongoing
      rw [publishStep]
      cases choice.outcome.status with
      | error e => exact h.publish_failed hsettled hrest
      | ok =>
        cases hencode : encodeArtifactMetadata p.stored with
        | error e => exact h.publish_failed hsettled hrest
        | ok encoded =>
          exact h.move ⟨hready, hrest, ⟨fun digest => settled_task (hsettled digest) _, hfresh⟩, hencode⟩
  | moving encoded =>
    obtain ⟨⟨hsettled, hfresh⟩, hencode⟩ := hongoing
    rw [publishStep]
    cases choice.outcome.status with
    | error e => exact h.publish_failed hsettled hrest
    | ok =>
      refine ⟨h.sorted, h.named, h.written, hready, hrest, ⟨fun digest => ?_, hfresh, ?_⟩, hencode⟩
      · refine (hsettled digest).congr rfl rfl rfl fun _ hpayload => ?_
        change ((x.store.payloads.insert p.actualDigest p.staged).find digest).isSome = true
        rw [SortedMap.find_insert]
        split
        · rfl
        · exact hpayload
      · change ((x.store.payloads.insert p.actualDigest p.staged).find p.actualDigest).isSome = true
        rw [SortedMap.find_insert, if_pos rfl]
        rfl
  | describing encoded =>
    obtain ⟨⟨hsettled, hfresh, hpayload⟩, hencode⟩ := hongoing
    rw [publishStep]
    cases hstatus : choice.outcome.status with
    | error e =>
      dsimp only
      rw [writeMetadata, hstatus]
      dsimp only
      split
      · exact h.publish_unwritten hready hrest hsettled hfresh
      · exact h.move ⟨hready, hrest, fun digest => settled_task (hsettled digest) _, hfresh⟩
    | ok =>
      dsimp only
      rw [writeMetadata, hstatus]
      exact h.publish_written hready hrest (fun digest _ => hsettled digest) hpayload hencode
  | withdrawing e =>
    obtain ⟨hsettled, hfresh⟩ := hongoing
    rw [publishStep]
    cases choice.outcome.status with
    | error e => exact h.publish_failed hsettled hrest
    | ok =>
      refine ⟨h.sorted, h.named, h.written, fun digest => ?_, hrest⟩
      refine (hsettled digest).congr rfl rfl rfl fun hcontained hpayload => ?_
      change ((x.store.payloads.erase p.actualDigest).find digest).isSome = true
      rw [SortedMap.find_erase, if_neg]
      · exact hpayload
      · rintro rfl
        rw [hfresh] at hcontained
        cases hcontained
  | indexing =>
    obtain ⟨hothers, ⟨hdescribed, hpayload⟩, hencode⟩ := hongoing
    rw [hstored] at hencode
    rw [publishStep]
    have hrecording {store : ArtifactStore} (hothers : ∀ digest, digest ≠ p.metadata.digest →
        Settled { x with store, task := .recording p.metadata rest } digest)
        (hcontained : store.contains p.metadata.digest = true)
        (hpayloads : store.payloads = x.store.payloads) (hfiles : store.metadataFiles = x.store.metadataFiles) :
        Kept { x with store, task := .recording p.metadata rest } := by
      refine ⟨?_, ?_, h.written, hencode, hrest, hothers, hcontained, ?_, ?_⟩
      · change SortedMap.Sorted store.metadataFiles
        rw [hfiles]
        exact h.sorted
      · intro e he
        change e ∈ store.metadataFiles at he
        rw [hfiles] at he
        exact h.named e he
      · change (store.metadataFiles.find _).isSome = true
        rw [hfiles, hready.digest]
        exact hdescribed
      · change (store.payloads.find _).isSome = true
        rw [hpayloads, hready.digest]
        exact hpayload
    by_cases hcontained : x.store.contains p.actualDigest = true
    · rw [if_pos hcontained]
      refine hrecording (fun digest hne => settled_task (hothers digest ?_) _) ?_ rfl rfl
      · rwa [← hready.digest]
      · rwa [hready.digest]
    · rw [if_neg hcontained]
      have hcontains (digest : Digest) :
          ((x.store.index.insert p.actualDigest p.stored).find digest).isSome =
            if digest = p.actualDigest then true else x.store.contains digest := by
        rw [SortedMap.find_insert]
        split <;> rfl
      refine hrecording (fun digest hne => ?_) ?_ rfl rfl
      · rw [hready.digest] at hne
        refine (hothers digest hne).congr rfl ?_ rfl fun _ h => h
        exact (hcontains digest).trans (if_neg hne)
      · rw [hready.digest]
        exact (hcontains p.actualDigest).trans (if_pos rfl)
  | _ => exact absurd hongoing not_false

theorem Kept.proceed (h : Kept x) (hcareful : careful x (.proceed choice) = true) (htimely : choice.Timely) :
    Kept (proceed o choice x) := by
  cases htask : x.task with
  | stopped | idle =>
    rw [Mirror.proceed, htask]
    exact h
  | submitting rest => exact h.submitting htask htimely
  | publishing p stage rest => exact h.publishing htask
  | recording declared rest => exact h.recording htask hcareful
  | verifying digest stage rest => exact h.verifying htask hcareful

/-! Runs. -/

/-- A change of files or of the state that moves no artifact. -/
theorem Placed.congr (hsettled : ∀ digest, Settled x digest → Settled y digest)
    (hcontains : ∀ digest, y.store.contains digest = x.store.contains digest)
    (hdescribed : ∀ digest, (y.store.metadataFiles.find digest).isSome = (x.store.metadataFiles.find digest).isSome)
    (hpayload : ∀ digest, (y.store.payloads.find digest).isSome = (x.store.payloads.find digest).isSome)
    {task : Task} (hdur : task = .stopped → y.controller.dur = x.controller.dur) (h : Placed x task) :
    Placed y task := by
  cases task with
  | stopped => simpa only [Placed, hdescribed, hpayload, hdur rfl] using h
  | idle => exact fun digest => hsettled digest (h digest)
  | submitting rest => exact ⟨fun digest => hsettled digest (h.1 digest), h.2⟩
  | publishing p stage rest =>
    obtain ⟨hready, hrest, hongoing⟩ := h
    refine ⟨hready, hrest, ?_⟩
    cases stage with
    | preparing alreadyPresent =>
      cases alreadyPresent with
      | true => exact hongoing
      | false => exact ⟨fun digest => hsettled digest (hongoing.1 digest), (hcontains _).trans hongoing.2⟩
    | reserving | withdrawing =>
      exact ⟨fun digest => hsettled digest (hongoing.1 digest), (hcontains _).trans hongoing.2⟩
    | moving encoded =>
      obtain ⟨⟨hall, hfresh⟩, hencode⟩ := hongoing
      exact ⟨⟨fun digest => hsettled digest (hall digest), (hcontains _).trans hfresh⟩, hencode⟩
    | describing encoded =>
      obtain ⟨⟨hall, hfresh, hheld⟩, hencode⟩ := hongoing
      exact ⟨⟨fun digest => hsettled digest (hall digest), (hcontains _).trans hfresh, (hpayload _).trans hheld⟩, hencode⟩
    | indexing =>
      obtain ⟨hothers, ⟨hwritten, hheld⟩, hencode⟩ := hongoing
      exact ⟨fun digest hne => hsettled digest (hothers digest hne),
        ⟨(hdescribed _).trans hwritten, (hpayload _).trans hheld⟩, hencode⟩
    | _ => exact hongoing
  | recording declared rest =>
    obtain ⟨hencode, hrest, hothers, hcontained, hwritten, hheld⟩ := h
    exact ⟨hencode, hrest, fun digest hne => hsettled digest (hothers digest hne), (hcontains _).trans hcontained,
      (hdescribed _).trans hwritten, (hpayload _).trans hheld⟩
  | verifying digest stage rest => exact ⟨fun digest => hsettled digest (h.1 digest), h.2⟩

theorem Kept.next {e : Event} (h : Kept x) (hcareful : careful x e = true) (hnext : next o policy x e = some y) :
    Kept y := by
  cases e with
  | start unreadable =>
    rw [Mirror.next] at hnext
    split at hnext
    next hstopped =>
      obtain rfl := Option.some.inj hnext
      rw [List.isEmpty_iff.mp hcareful]
      exact h.start hstopped
    · cases hnext
  | crash =>
    obtain rfl := Option.some.inj hnext
    exact h.crash hcareful
  | submit plan =>
    rw [Mirror.next] at hnext
    split at hnext
    next hidle =>
      obtain ⟨hparsed, hnext⟩ := Option.ite_none_right_eq_some.mp hnext
      have hplaced := h.placed
      rw [hidle] at hplaced
      split at hnext
      · obtain rfl := Option.some.inj hnext
        exact h.move ⟨fun digest => settled_task (hplaced digest) _, hparsed⟩
      · obtain rfl := Option.some.inj hnext
        exact h
    · cases hnext
  | verify =>
    rw [Mirror.next] at hnext
    split at hnext
    next hidle =>
      obtain rfl := Option.some.inj hnext
      have hplaced := h.placed
      rw [hidle] at hplaced
      apply h.move
      cases x.store.index.map (·.1) with
      | nil => exact fun digest => settled_task (hplaced digest) _
      | cons => exact ⟨fun digest => settled_task (hplaced digest) _, fun _ h => nomatch h⟩
    · cases hnext
  | proceed choice =>
    obtain ⟨htimely, hnext⟩ := Option.ite_none_right_eq_some.mp hnext
    obtain rfl := Option.some.inj hnext
    exact h.proceed hcareful htimely
  | other c =>
    rw [Mirror.next] at hnext
    split at hnext
    · cases hnext
    next hrunning =>
      obtain ⟨⟨hmem, hdur⟩, hnext⟩ := Option.ite_none_right_eq_some.mp hnext
      obtain rfl := Option.some.inj hnext
      have hsettled (digest : Digest) (hsettled : Settled x digest) : Settled { x with controller := c } digest :=
        hsettled.congr (by rw [hmem]) rfl rfl fun _ h => h
      refine ⟨h.sorted, h.named, ?_, ?_⟩
      · rw [hmem, hdur]
        exact h.written
      · exact h.placed.congr hsettled (fun _ => rfl) (fun _ => rfl) (fun _ => rfl) fun hstopped => absurd hstopped hrunning
  | compact =>
    rw [Mirror.next] at hnext
    split at hnext
    · cases hnext
    next hrunning =>
      obtain rfl := Option.some.inj hnext
      have hsettled (digest : Digest) (hsettled : Settled x digest) :
          Settled { x with controller := ⟨x.controller.mem, x.controller.mem⟩ } digest :=
        hsettled.congr rfl rfl rfl fun _ h => h
      refine ⟨h.sorted, h.named, fun _ h => h, ?_⟩
      exact h.placed.congr hsettled (fun _ => rfl) (fun _ => rfl) (fun _ => rfl) fun hstopped => absurd hstopped hrunning
  | damage digest content =>
    rw [Mirror.next] at hnext
    split at hnext
    · cases hnext
    next found hfound =>
      obtain rfl := Option.some.inj hnext
      have hpayload (d : Digest) :
          ((x.store.payloads.insert digest content).find d).isSome = (x.store.payloads.find d).isSome := by
        rw [SortedMap.find_insert]
        split
        next heq =>
          rw [heq, hfound]
          rfl
        · rfl
      have hsettled (d : Digest) (hsettled : Settled x d) :
          Settled { x with store := { x.store with payloads := x.store.payloads.insert digest content } } d :=
        hsettled.congr rfl rfl rfl fun _ hheld => (hpayload d).trans hheld
      exact ⟨h.sorted, h.named, h.written,
        h.placed.congr hsettled (fun _ => rfl) (fun _ => rfl) hpayload fun _ => rfl⟩

theorem kept_of_careful (hrun : CarefulRun o policy {} x) : Kept x := by
  induction hrun with
  | refl =>
    constructor
    · exact List.Pairwise.nil
    · exact fun e h => nomatch h
    · exact fun digest h => nomatch h
    · exact fun digest => ⟨rfl, fun h => nomatch h⟩
  | tail _ hstep ih =>
    obtain ⟨e, hcareful, hnext⟩ := hstep
    exact ih.next hcareful hnext

/-- A careful distributor never disagrees with its store on what it holds. -/
theorem mirrored_of_careful (hrun : CarefulRun o policy {} x) : Mirrored x := by
  intro hidle digest
  have hplaced := (kept_of_careful hrun).placed
  rw [hidle] at hplaced
  exact (hplaced digest).known

/-! Runs on fixed inputs. -/

def play (o : Options) (policy : DistributorPolicy) (events : List Event) (x : Node) : Option Node :=
  events.foldlM (fun x e => next o policy x e) x

def playCarefully (o : Options) (policy : DistributorPolicy) (events : List Event) (x : Node) : Option Node :=
  events.foldlM (fun x e => if careful x e = true then next o policy x e else none) x

theorem run_of_play {events : List Event} (h : play o policy events x = some y) : Run o policy x y := by
  induction events generalizing x with
  | nil =>
    obtain rfl := Option.some.inj h
    exact .refl
  | cons e events ih =>
    obtain ⟨z, hnext, hrest⟩ := Option.bind_eq_some_iff.mp h
    exact .head ⟨e, hnext⟩ (ih hrest)

theorem carefulRun_of_play {events : List Event} (h : playCarefully o policy events x = some y) :
    CarefulRun o policy x y := by
  induction events generalizing x with
  | nil =>
    obtain rfl := Option.some.inj h
    exact .refl
  | cons e events ih =>
    obtain ⟨z, hnext, hrest⟩ := Option.bind_eq_some_iff.mp h
    obtain ⟨hcareful, hnext⟩ := Option.ite_none_right_eq_some.mp hnext
    exact .head ⟨e, hcareful, hnext⟩ (ih hrest)

def instruction : DeploymentInstruction where
  target := text "t"
  configKey := text "k"
  artifact := text "a"
  revision := 1
  generation := 1
  schema := text "s"
  schemaVersion := 1
  digest := .ofContent [1]
  sizeBytes := 1
  sourcePath := text "payload"

def plan : DeploymentPlan := ⟨text "set", text "rollout", [instruction]⟩

def reading : Choice := { source := { path := "payload", size := some 1, content := [1] } }

/-- The instruction is read, reserved, prepared, moved, described and indexed, and only the record is left. -/
def ingesting : List Event :=
  [.start [], .submit plan, .proceed reading, .proceed {}, .proceed {}, .proceed {}, .proceed {}, .proceed {}]

def ingested : List Event := ingesting ++ [.proceed {}, .proceed {}]

/-- The payload turns out damaged, and is put aside. -/
def quarantined : List Event :=
  ingested ++ [.damage (.ofContent [1]) [2], .verify, .proceed {}, .proceed {}, .proceed {}, .proceed {}]

def Task.isIdle : Task → Bool
  | .idle => true
  | _ => false

theorem Task.eq_of_isIdle {t : Task} (h : t.isIdle) : t = .idle := by
  cases t with
  | idle => rfl
  | _ => cases h

/-- The artifact whose record is to be written. -/
def Task.records : Task → Option Digest
  | .recording declared _ => some declared.digest
  | _ => none

theorem Task.recording_of_records {t : Task} (h : t.records = some digest) :
    ∃ declared rest, t = .recording declared rest ∧ declared.digest = digest := by
  cases t with
  | recording declared rest => exact ⟨declared, rest, rfl, Option.some.inj h⟩
  | _ => cases h

theorem run_to (events : List Event) {check : Node → Prop} [DecidablePred check]
    (h : (play o policy events {}).any fun x => decide (check x)) : ∃ x, Run o policy {} x ∧ check x := by
  obtain ⟨x, hplay, hcheck⟩ := (Option.any_eq_true _ _).mp h
  exact ⟨x, run_of_play hplay, of_decide_eq_true hcheck⟩

/-- A process that dies before the record comes back with the artifact in its store alone. -/
theorem Kept.reappears {declared : ArtifactMetadata} {rest : List DeploymentInstruction} (h : Kept x)
    (htask : x.task = .recording declared rest) :
    (loadIndex [] { x.store with index := [], usedBytes := 0 }).contains declared.digest = true := by
  have hplaced := h.placed
  rw [htask] at hplaced
  obtain ⟨-, -, hothers, hstored⟩ := hplaced
  have hpayload (digest : Digest) (hdescribed : (x.store.metadataFiles.find digest).isSome = true) :
      (x.store.payloads.find digest).isSome = true := by
    by_cases heq : digest = declared.digest
    · rw [heq]
      exact hstored.payload
    · have hsettled := hothers digest heq
      rw [hsettled.described] at hdescribed
      exact hsettled.payload hdescribed
  exact (contains_loadIndex h.sorted h.named hpayload).trans hstored.described

/-- And the plan that is submitted again leaves it so. -/
theorem play_resubmit (hidle : x.task = .idle) (hcontains : x.store.contains (.ofContent [1]) = true) :
    play {} {} [.submit plan, .proceed {}, .proceed {}] x = some x := by
  have hparsed : ∀ i ∈ plan.instructions, i.Parsed := by decide
  have haccepted : (Distributor.resolveDeploymentSet {} plan).any (·.accepted) = true := by decide
  have htimely : Choice.Timely {} := by decide
  obtain ⟨store, controller, task⟩ := x
  obtain rfl : task = .idle := hidle
  have hsubmit : next {} {} ⟨store, controller, .idle⟩ (.submit plan) =
      some ⟨store, controller, .submitting [instruction]⟩ := by
    rw [Mirror.next, if_pos hparsed, if_pos haccepted]
    rfl
  have hskip : next {} {} ⟨store, controller, .submitting [instruction]⟩ (.proceed {}) =
      some ⟨store, controller, .submitting []⟩ := by
    have hpresent : ¬(instruction.sourcePath ≠ [] ∧ store.contains instruction.digest = false) :=
      fun h => Bool.false_ne_true (h.2.symm.trans hcontains)
    rw [Mirror.next, if_pos htimely, proceed]
    dsimp only
    rw [if_neg Bool.false_ne_true, if_neg hpresent]
  have hreturn : next {} {} ⟨store, controller, .submitting []⟩ (.proceed {}) = some ⟨store, controller, .idle⟩ := by
    rw [Mirror.next, if_pos htimely]
    rfl
  rw [play, List.foldlM_cons, hsubmit, Option.bind_eq_bind, Option.bind_some, List.foldlM_cons, hskip,
    Option.bind_eq_bind, Option.bind_some, List.foldlM_cons, hreturn]
  rfl

theorem not_mirrored :
    (∃ x, Run {} {} {} x ∧ x.task = .idle ∧
      (x.controller.mem.artifacts.find (.ofContent [1])).isSome = true ∧ x.store.contains (.ofContent [1]) = false) ∧
      ∃ x, Run {} {} {} x ∧ x.task = .idle ∧
        (x.controller.mem.artifacts.find (.ofContent [1])).isSome = false ∧
          x.store.contains (.ofContent [1]) = true ∧
            play {} {} [.submit plan, .proceed {}, .proceed {}] x = some x := by
  constructor
  · obtain ⟨x, hrun, hidle, hknown, hcontains⟩ : ∃ x, Run {} {} {} x ∧ x.task.isIdle ∧
        (x.controller.mem.artifacts.find (.ofContent [1])).isSome = true ∧ x.store.contains (.ofContent [1]) = false :=
      run_to quarantined (by decide +kernel)
    exact ⟨x, hrun, Task.eq_of_isIdle hidle, hknown, hcontains⟩
  · have hplay : (playCarefully {} {} ingesting {}).any fun x =>
        decide (x.task.records = some (.ofContent [1]) ∧
          (x.controller.dur.artifacts.find (.ofContent [1])).isSome = false) := by decide +kernel
    obtain ⟨x, hx, hcheck⟩ := (Option.any_eq_true _ _).mp hplay
    obtain ⟨hrecords, hknown⟩ := of_decide_eq_true hcheck
    obtain ⟨declared, rest, htask, hdigest⟩ := Task.recording_of_records hrecords
    have hcareful := carefulRun_of_play hx
    have hrun : Run {} {} {} x :=
      Relation.ReflTransGen.mono (fun _ _ ⟨e, _, hnext⟩ => ⟨e, hnext⟩) _ _ hcareful
    have hcontains := (kept_of_careful hcareful).reappears htask
    rw [hdigest] at hcontains
    have hrestarted := (hrun.tail ⟨.crash, rfl⟩).tail ⟨.start [], rfl⟩
    exact ⟨_, hrestarted, rfl, hknown, hcontains, play_resubmit rfl hcontains⟩

theorem ingested_mirrored : ∃ x, CarefulRun {} {} {} x ∧ x.task.isIdle ∧ x.store.contains (.ofContent [1]) = true ∧
    Mirrored x := by
  have hplay : (playCarefully {} {} ingested {}).any fun x =>
      decide (x.task.isIdle ∧ x.store.contains (.ofContent [1]) = true) := by decide +kernel
  obtain ⟨x, hx, hcheck⟩ := (Option.any_eq_true _ _).mp hplay
  obtain ⟨hidle, hcontains⟩ := of_decide_eq_true hcheck
  have hrun := carefulRun_of_play hx
  exact ⟨x, hrun, hidle, hcontains, mirrored_of_careful hrun⟩

end Mirror

end ConfigurationFabric
