import ConfigurationFabric.StateRecords

/-! The artifact store: publishing and verification, one critical section or file operation at a time. -/

namespace ConfigurationFabric

open LittleEndian

def isIntegrityCode : ErrorCode → Bool
  | .digestMismatch | .integrityFailure | .sizeMismatch => true
  | _ => false

/-- The index in memory, and the files below the root by the digest they are named after. -/
structure ArtifactStore where
  index : SortedMap Digest ArtifactMetadata := []
  usedBytes : ℕ := 0
  payloads : SortedMap Digest Bytes := []
  metadataFiles : SortedMap Digest Bytes := []

namespace ArtifactStore

structure Options where
  root : String := "artifacts"
  maxArtifactBytes : ℕ := 64 * 1024 * 1024
  maxTotalBytes : ℕ := 4 * 1024 * 1024 * 1024
  maxArtifacts : ℕ := 4096
  readChunkBytes : ℕ := 64 * 1024

/-- How one file operation goes. -/
structure Outcome where
  status : Status := .ok ()
  /-- a replacement that fails may have removed what it was to replace -/
  removed : Bool := false
  seeks : Bool := true
  short : Bool := false

def shardDirectory (o : Options) (digest : Digest) : String :=
  o.root ++ "/payload/" ++ textString (digest.hex.take 2)

def payloadPath (o : Options) (digest : Digest) : String :=
  shardDirectory o digest ++ "/" ++ textString digest.hex ++ ".bin"

def contains (s : ArtifactStore) (digest : Digest) : Bool := (s.index.find digest).isSome

def metadata (s : ArtifactStore) (digest : Digest) : Result ArtifactMetadata :=
  if !digest.isSet then .fail .invalidArgument "the all-zero digest is not a valid artifact identity"
  else
    match s.index.find digest with
    | none => .fail .notFound "artifact is not present in the store" (textString (shortDigest digest))
    | some metadata => .ok metadata

/-! Verification. -/

/-- What reading an open payload to its end gives. -/
def readPayload (outcome : Outcome) (digest : Digest) (size : ℕ) (content : Bytes) : Status :=
  -- nothing is read of an empty artifact, so nothing is verified
  if size = 0 then
    .fail .digestMismatch "artifact content no longer matches its recorded digest" (textString (shortDigest digest))
  else if !outcome.seeks then .fail .ioFailure "cannot seek within artifact payload"
  else if outcome.short ∨ content.length < size then
    .fail .integrityFailure "artifact payload is shorter than its metadata" (textString (shortDigest digest))
  else if Digest.ofContent (content.take size) ≠ digest then
    .fail .digestMismatch "artifact payload does not match its digest"
      (textString (Digest.ofContent (content.take size)).hex ++ " != " ++ textString digest.hex)
  else .ok ()

inductive Verifying
  | opening
  | reading (size : ℕ)
  | quarantining (e : Error)
  | dropping (e : Error)
  | verified (status : Status)

def verifyStep (o : Options) (outcome : Outcome) (digest : Digest) :
    Verifying → ArtifactStore → Verifying × ArtifactStore
  | .opening, s =>
    match s.metadata digest with
    | .error e => (.verified (.error e), s)
    | .ok metadata => (.reading metadata.sizeBytes, s)
  | .reading size, s =>
    match outcome.status, s.payloads.find digest with
    | .ok (), some content =>
      match readPayload outcome digest size content with
      | .ok () => (.verified (.ok ()), s)
      -- an error that says nothing of the content is dropped
      | .error e => if isIntegrityCode e.code then (.quarantining e, s) else (.verified (.ok ()), s)
    | _, _ => (.verified (.fail .artifactUnavailable "artifact payload file is missing" (payloadPath o digest)), s)
  | .quarantining e, s =>
    match outcome.status, s.payloads.find digest with
    | .ok (), some _ => (.dropping e, { s with payloads := s.payloads.erase digest })
    | _, _ => (.verified (.error e), s)
  | .dropping e, s =>
    match s.index.find digest with
    | none => (.verified (.error e), s)
    | some metadata =>
      (.verified (.error e),
        { s with
          index := s.index.erase digest
          usedBytes := if s.usedBytes > metadata.sizeBytes then s.usedBytes - metadata.sizeBytes else 0 })
  | .verified status, s => (.verified status, s)

/-- What one step of a verification does to the store. -/
theorem verifyStep_cases (o : Options) (outcome : Outcome) (digest : Digest) (stage : Verifying) (store : ArtifactStore) :
    ((verifyStep o outcome digest stage store).2 = store ∧
        ((∃ e, stage = .dropping e) → store.contains digest = false) ∧
        ∀ e, (verifyStep o outcome digest stage store).1 ≠ .dropping e) ∨
      (∃ e, stage = .quarantining e ∧ (verifyStep o outcome digest stage store).1 = .dropping e ∧
        outcome.status = .ok () ∧
        (verifyStep o outcome digest stage store).2 = { store with payloads := store.payloads.erase digest }) ∨
      ∃ e usedBytes, stage = .dropping e ∧ usedBytes ≤ store.usedBytes ∧
        (verifyStep o outcome digest stage store).2 =
          { store with index := store.index.erase digest, usedBytes := usedBytes } := by
  cases stage with
  | opening =>
    rw [verifyStep]
    split <;> exact .inl ⟨rfl, (fun h => nomatch h), fun _ h => nomatch h⟩
  | reading size =>
    rw [verifyStep]
    split
    · split
      · exact .inl ⟨rfl, (fun h => nomatch h), fun _ h => nomatch h⟩
      · split <;> exact .inl ⟨rfl, (fun h => nomatch h), fun _ h => nomatch h⟩
    · exact .inl ⟨rfl, (fun h => nomatch h), fun _ h => nomatch h⟩
  | quarantining e =>
    rw [verifyStep]
    split
    next hstatus _ => exact .inr (.inl ⟨e, rfl, rfl, hstatus, rfl⟩)
    · exact .inl ⟨rfl, (fun h => nomatch h), fun _ h => nomatch h⟩
  | dropping e =>
    rw [verifyStep]
    cases hfind : store.index.find digest with
    | none => exact .inl ⟨rfl, fun _ => by rw [contains, hfind]; rfl, fun _ h => nomatch h⟩
    | some metadata =>
      refine .inr (.inr ⟨e, _, rfl, ?_, rfl⟩)
      split
      · exact Nat.sub_le ..
      · exact Nat.zero_le _
  | verified status => exact .inl ⟨rfl, (fun h => nomatch h), fun _ h => nomatch h⟩

/-! Publishing. -/

/-- A staged file, with what its caller declares and found. -/
structure Publication where
  metadata : ArtifactMetadata
  staged : Bytes
  actualDigest : Digest
  actualSize : ℕ

def Publication.stored (p : Publication) : ArtifactMetadata :=
  { p.metadata with digest := p.actualDigest, sizeBytes := p.actualSize }

/-- Whether the artifact is already present; an error when there is no room for it. -/
def reserve (o : Options) (p : Publication) (s : ArtifactStore) : Result Bool :=
  if s.contains p.actualDigest then .ok true
  else if s.index.length ≥ o.maxArtifacts then
    .fail .storeFull "artifact count budget is exhausted" (toString o.maxArtifacts)
  else if p.actualSize > o.maxTotalBytes ∨ s.usedBytes > o.maxTotalBytes - p.actualSize then
    .fail .storeFull "artifact byte budget is exhausted" (toString o.maxTotalBytes)
  else .ok false

def writeMetadata (outcome : Outcome) (digest : Digest) (encoded : Bytes) (s : ArtifactStore) : ArtifactStore :=
  match outcome.status with
  | .ok () => { s with metadataFiles := s.metadataFiles.insert digest encoded }
  | .error _ => if outcome.removed then { s with metadataFiles := s.metadataFiles.erase digest } else s

theorem writeMetadata_same (outcome : Outcome) (digest : Digest) (encoded : Bytes) (store : ArtifactStore) :
    (writeMetadata outcome digest encoded store).index = store.index ∧
      (writeMetadata outcome digest encoded store).usedBytes = store.usedBytes ∧
      (writeMetadata outcome digest encoded store).payloads = store.payloads := by
  rw [writeMetadata]
  split
  · exact ⟨rfl, rfl, rfl⟩
  · split <;> exact ⟨rfl, rfl, rfl⟩

/-- Which critical section or file operation of a publish comes next. -/
inductive Stage
  | reserving
  | preparing (alreadyPresent : Bool)
  | moving (encoded : Bytes)
  | describing (encoded : Bytes)
  | withdrawing (e : Error)
  | indexing
  | verifying (encoded : Bytes) (stage : Verifying)
  | looking (encoded : Bytes)
  | restoring (encoded : Bytes)
  | done (status : Status)

def publishStep (o : Options) (outcome : Outcome) (p : Publication) :
    Stage → ArtifactStore → Stage × ArtifactStore
  | .reserving, s =>
    match reserve o p s with
    | .error e => (.done (.error e), s)
    | .ok alreadyPresent => (.preparing alreadyPresent, s)
  | .preparing alreadyPresent, s =>
    match outcome.status with
    | .error _ =>
      (.done (.fail .openFailed "cannot create artifact shard directory" (shardDirectory o p.actualDigest)), s)
    | .ok () =>
      match encodeArtifactMetadata p.stored with
      | .error e => (.done (.error e), s)
      | .ok encoded => (if alreadyPresent then .verifying encoded .opening else .moving encoded, s)
  | .moving encoded, s =>
    match outcome.status with
    | .error _ => (.done (.fail .ioFailure "cannot publish artifact payload" (payloadPath o p.actualDigest)), s)
    | .ok () => (.describing encoded, { s with payloads := s.payloads.insert p.actualDigest p.staged })
  | .describing encoded, s =>
    match outcome.status with
    | .error e => (.withdrawing e, writeMetadata outcome p.actualDigest encoded s)
    | .ok () => (.indexing, writeMetadata outcome p.actualDigest encoded s)
  | .withdrawing e, s =>
    match outcome.status with
    | .error _ => (.done (.error e), s)
    | .ok () => (.done (.error e), { s with payloads := s.payloads.erase p.actualDigest })
  | .indexing, s =>
    -- another publish of the same content may have been faster
    if s.contains p.actualDigest then (.done (.ok ()), s)
    else
      (.done (.ok ()),
        { s with
          index := s.index.insert p.actualDigest p.stored
          usedBytes := (s.usedBytes + p.actualSize) % 2 ^ 64 })
  | .verifying encoded stage, s =>
    match verifyStep o outcome p.actualDigest stage s with
    | (.verified (.ok ()), s) => (.looking encoded, s)
    | (.verified (.error e), s) => (.done (.error e), s)
    | (stage, s) => (.verifying encoded stage, s)
  | .looking encoded, s =>
    match outcome.status, s.metadataFiles.find p.actualDigest with
    | .ok (), some _ => (.done (.ok ()), s)
    | _, _ => (.restoring encoded, s)
  | .restoring encoded, s => (.done outcome.status, writeMetadata outcome p.actualDigest encoded s)
  | .done status, s => (.done status, s)

/-! Any number of publishes at the same time. -/

structure Publishing where
  store : ArtifactStore
  running : List (Publication × Stage) := []

inductive Move
  | publish (p : Publication)
  | step (i : ℕ) (outcome : Outcome)
  | leave (i : ℕ)

namespace Publishing

def next (o : Options) (s : Publishing) : Move → Option Publishing
  | .publish p => some { s with running := s.running ++ [(p, .reserving)] }
  | .step i outcome =>
    match s.running[i]? with
    | none => none
    | some (p, stage) =>
      let after := publishStep o outcome p stage s.store
      some ⟨after.2, s.running.set i (p, after.1)⟩
  | .leave i =>
    match s.running[i]? with
    | some (_, .done _) => some { s with running := s.running.eraseIdx i }
    | _ => none

/-- Every publish that was called has returned, or is about to. -/
def Quiet (s : Publishing) : Prop := ∀ x ∈ s.running, ∃ status, x.2 = .done status

end Publishing

end ArtifactStore

end ConfigurationFabric
