import Mathlib.Data.List.AList
import ConfigurationFabric.Library.Program
import ConfigurationFabric.Protocol

/-! The target agent: its files, its durable records and its message handlers. -/

namespace ConfigurationFabric

open LittleEndian
open Program

/-! Paths. -/

/-- A path below one of the agent's roots, component by component. -/
abbrev Directory := List Bytes

def resolveComponent (path : Directory) (component : Bytes) : Directory :=
  if component = [] ∨ component = text "." then path
  else if component = text ".." then
    if path = [] ∨ path.getLast? = some (text "..") then path ++ [component] else path.dropLast
  else path ++ [component]

def resolvePath (path : Bytes) : Directory := (path.splitOn 47).foldl resolveComponent []

def liveKeyDirectory (key : ConfigKey) : Directory := resolvePath key

def stagingPath (deployment : DeploymentId) : Directory := resolvePath (deployment ++ text ".part")

/-- The recursive walk goes below the live root and takes a directory named `payload` for no key. -/
def isWalked (directory : Directory) : Bool :=
  directory ≠ [] && directory.head? ≠ some (text "..") && directory.getLast? ≠ some (text "payload")

/-- A directory below the live root whose path runs through no pointer, marker or payload directory. -/
def isKeyDirectory (directory : Directory) : Bool :=
  isWalked directory && directory.all fun c => c ≠ text "current" && c ≠ text "pending" && c ≠ text "payload"

structure PointerValue where
  generation : Generation
  digest : Digest
  artifact : ArtifactId
  deriving DecidableEq

/-- The content of a `current` or `pending` file: what `parsePointer` makes of it. -/
inductive LiveValue
  | pointer (value : PointerValue)
  | unreadable
  deriving DecidableEq

/-- The file `payload/<generation>-<first twelve digits>.cfg` of a key directory. -/
structure PayloadName where
  directory : Directory
  generation : Generation
  digits : Bytes
  deriving DecidableEq

abbrev FileMap (κ α : Type) := AList fun _ : κ => α

-- The maps are apart as the files are where every key has a directory as `isKeyDirectory` asks it. The source puts a
-- key that climbs wherever its path leads, `../staging` among the staged files and `../live/k` where `k` is; results
-- that rest on the pointers of several keys, or on what a start removes, ask for such directories.
structure Files where
  staging : FileMap Directory Bytes := ∅
  current : FileMap Directory LiveValue := ∅
  pending : FileMap Directory LiveValue := ∅
  payload : FileMap PayloadName Bytes := ∅
  /-- copies into a payload directory that were never renamed -/
  parts : List (Directory × Bytes) := []

def payloadName (directory : Directory) (generation : Generation) (digest : Digest) : PayloadName :=
  ⟨directory, generation, shortDigest digest⟩

/-! Durable records, as the agent writes them. -/

inductive AgentRecord
  | identity (target : TargetId) (klass : TargetClass) (guarantee : ApplyGuarantee) (term : Term)
      (incarnation : IncarnationId) (restartCount : ℕ)
  | controllerFence (epoch : Epoch) (incarnation : IncarnationId) (node : NodeId)
  | targetCommit (generation : Generation) (digest : Digest) (artifact : ArtifactId)
  | transferUpsert (record : TransferRecord)
  | transferRemove (deployment : DeploymentId)
  | findingUpsert (finding : AppliedFinding)
  | applyPrepared (deployment : DeploymentId) (generation : Generation) (digest : Digest)
  | applyResolved (activations : ℕ)
  | rollbackNote (applyRollbacks duplicatesSuppressed staleOffersRefused digestRejections : ℕ)

def AgentRecord.apply (s : AgentState) : AgentRecord → AgentState
  | .identity target klass guarantee term incarnation restartCount =>
    { s with target, klass, guarantee, term, incarnation, restartCount }
  | .controllerFence epoch incarnation node =>
    { s with
      lastControllerEpoch := epoch
      lastControllerIncarnation := incarnation
      lastControllerNode := if node = [] then s.lastControllerNode else node }
  | .targetCommit generation digest artifact =>
    { s with
      committedGeneration := generation
      committedDigest := digest
      committedArtifact := if artifact = [] then s.committedArtifact else artifact }
  | .transferUpsert record => { s with transfers := s.transfers.insert record.deployment record }
  | .transferRemove deployment => { s with transfers := s.transfers.erase deployment }
  | .findingUpsert finding => s.upsertFinding finding
  | .applyPrepared deployment generation digest =>
    { s with
      applyPrepared := true
      preparedDeployment := deployment
      preparedGeneration := generation
      preparedDigest := digest }
  | .applyResolved activations =>
    { s with
      applyPrepared := false
      preparedDeployment := []
      preparedGeneration := 0
      preparedDigest := .zero 32
      activations }
  | .rollbackNote applyRollbacks duplicatesSuppressed staleOffersRefused digestRejections =>
    { s with applyRollbacks, duplicatesSuppressed, staleOffersRefused, digestRejections }

def rollbackPayload (s : AgentState) : AgentRecord :=
  .rollbackNote s.applyRollbacks s.duplicatesSuppressed s.staleOffersRefused s.digestRejections

/-! The agent's world. -/

structure AgentOptions where
  target : TargetId
  klass : TargetClass := .unspecified
  guarantee : ApplyGuarantee := .atomicActivate
  maxArtifactBytes : ℕ := 64 * 1024 * 1024
  retainedPayloadsPerKey : ℕ := 4
  verifyCommittedPayloadOnStart : Bool := true

/-- A frame the agent has sent, with the request it answers and what was live at that moment. -/
structure Answered where
  request : Message
  reply : Reply
  live : FileMap Directory LiveValue
  state : AgentState

structure World where
  /-- the store's state in memory -/
  mem : AgentState := {}
  /-- what replaying the store's journal gives -/
  dur : AgentState := {}
  files : Files := {}
  chunkCounter : ℕ := 0
  /-- the messages received so far, in order -/
  received : List Message := []
  /-- the frames sent so far, in order -/
  sent : List Answered := []
  /-- the activation switches made so far, in order -/
  switched : List (ConfigKey × PointerValue) := []

def Files.putPending (directory : Directory) (value : PointerValue) (f : Files) : Files :=
  { f with pending := f.pending.insert directory (.pointer value) }

def Files.dropPending (directory : Directory) (f : Files) : Files :=
  { f with pending := f.pending.erase directory }

def Files.putCurrent (directory : Directory) (value : PointerValue) (f : Files) : Files :=
  { f with current := f.current.insert directory (.pointer value) }

def Files.dropCurrent (directory : Directory) (f : Files) : Files :=
  { f with current := f.current.erase directory }

def TransferRecord.pointer (r : TransferRecord) : PointerValue := ⟨r.generation, r.digest, r.artifact⟩

def World.commit (r : AgentRecord) (w : World) : World := { w with mem := r.apply w.mem, dur := r.apply w.dur }

def World.answer (request : Message) (reply : Reply) (w : World) : World :=
  { w with sent := w.sent ++ [⟨request, reply, w.files.current, w.mem⟩] }

/-- A transfer record changed in memory only. -/
def World.remember (deployment : DeploymentId) (r : TransferRecord) (w : World) : World :=
  { w with mem := { w.mem with transfers := w.mem.transfers.insert deployment r } }

def World.onFiles (f : Files → Files) (w : World) : World := { w with files := f w.files }

def World.writeStaging (path : Directory) (content : Bytes) : World → World :=
  .onFiles fun f => { f with staging := f.staging.insert path content }

def World.switch (r : TransferRecord) (w : World) : World :=
  { w with
    files := w.files.putCurrent (liveKeyDirectory r.key) r.pointer
    switched := w.switched ++ [(r.key, r.pointer)] }

/-- What the outside decides at one operation. -/
structure Env where
  /-- the file operation succeeds -/
  ok : Bool := true
  /-- the frame goes out -/
  connected : Bool := true
  count : ℕ := 0
  now : ℤ := 0
  random : Bytes := []
  incarnation : IncarnationId := .zero 16
  nonce : SessionNonce := .zero 16
  stamps : PayloadName → Option ℤ := fun _ => some 0
  partStamps : Directory × Bytes → Option ℤ := fun _ => some 0
  order : List Directory := []

abbrev Agent (α : Type) := Prog World Env α

namespace Agent

def succeeds : Agent Bool := do
  return (← Prog.ask).ok

def now : Agent ℤ := do
  return (← Prog.ask).now

def state : Agent AgentState := do
  return (← Prog.read).mem

/-- Memory only: what a crash forgets. -/
def setState (f : AgentState → AgentState) : Agent Unit := Prog.modify fun w => { w with mem := f w.mem }

-- every append succeeds here; in the source one that fails ends the handler with memory changed and the journal not
def commit (r : AgentRecord) : Agent Unit := Prog.modify (World.commit r)

/-- A frame that cannot be encoded or sent ends the session. -/
def send (request : Message) (reply : Reply) : Agent Status := do
  if !(← Prog.ask).connected then return .fail .connectionClosed "connection closed"
  Prog.modify (World.answer request reply)
  return .ok ()

def setFiles (f : Files → Files) : Agent Unit := Prog.modify (World.onFiles f)

/-- `std::filesystem::remove`, whose failure the agent ignores. -/
def remove (f : Files → Files) : Agent Unit := do
  if ← succeeds then setFiles f

/-- The temporary file is never read by name, so only the rename into place shows. A first rename that fails is
tried again after the destination has been removed. -/
def writeFileAtomic (put : World → World) (drop : Files → Files) : Agent Status := do
  if !(← succeeds) then return .fail .openFailed "cannot create temporary file"
  if !(← succeeds) then return .fail .ioFailure "failed to write complete file"
  if ← succeeds then
    Prog.modify put
    return .ok ()
  remove drop
  if ← succeeds then
    Prog.modify put
    return .ok ()
  return .fail .ioFailure "cannot rename temporary file into place"

/-! Transfers. -/

def increment (n : ℕ) : ℕ := (n + 1) % 2 ^ 64

def checkpointTransfer (r : TransferRecord) : Agent Unit := commit (.transferUpsert r)

def destroyTransfer (deployment : DeploymentId) : Agent Unit := do
  remove fun f => { f with staging := f.staging.erase (stagingPath deployment) }
  if ((← state).transfers.find deployment).isSome then commit (.transferRemove deployment)

def beginTransfer (m : PrepareMessage) (resumeFrom : ℕ) : Agent Unit := do
  let updatedAtMillis ← now
  checkpointTransfer {
    deployment := m.deployment, stream := m.stream, key := m.key, artifact := m.artifact
    generation := m.generation, digest := m.digest, totalBytes := m.sizeBytes, bytesReceived := resumeFrom
    verified := false, staged := false, updatedAtMillis }

/-- The size and digest of a file read to its end. -/
def hashFile (content : Option Bytes) (expectedBytes : ℕ) : Result Digest :=
  match content with
  | none => .fail .artifactUnavailable "artifact file is not readable"
  | some bytes =>
    if expectedBytes ≠ 0 ∧ bytes.length ≠ expectedBytes then
      .fail .sizeMismatch "artifact size does not match the declaration" s!"{bytes.length} != {expectedBytes}"
    else .ok (.ofContent bytes)

def hashStagingFile (content : Option Bytes) (expectedBytes : ℕ) : Agent (Result Digest) := do
  if !(← succeeds) then return .fail .ioFailure "read error while hashing artifact"
  return hashFile content expectedBytes

/-- Streams a staged file into a payload directory and renames it into place. -/
def copyFileAtomic (source : Directory) (name : PayloadName) : Agent Status := do
  let part := (name.directory, (← Prog.ask).random)
  let discard := remove fun f => { f with parts := f.parts.erase part }
  let w ← Prog.read
  match w.files.staging.lookup source with
  | none => return .fail .artifactUnavailable "cannot open the source file"
  | some content =>
    if !(← succeeds) then return .fail .openFailed "cannot create the destination file"
    setFiles fun f => { f with parts := part :: f.parts }
    if !(← succeeds) then
      discard
      return .fail .ioFailure "write error while copying"
    if !(← succeeds) then
      discard
      return .fail .ioFailure "cannot move the copied file into place"
    setFiles fun f => { f with parts := f.parts.erase part, payload := f.payload.insert name content }
    return .ok ()

def removePayloads : List (PayloadName ⊕ Directory × Bytes) → Agent Unit
  | [] => return ()
  | .inl name :: rest => do
    remove fun f => { f with payload := f.payload.erase name }
    removePayloads rest
  | .inr part :: rest => do
    remove fun f => { f with parts := f.parts.erase part }
    removePayloads rest

/-- The files of a payload directory with the times the file system gives for them. -/
def payloadEntries (env : Env) (f : Files) (directory : Directory) :
    List ((PayloadName ⊕ Directory × Bytes) × ℤ) :=
  ((f.payload.keys.filter (·.directory = directory)).filterMap fun n => (env.stamps n).map (.inl n, ·)) ++
    (f.parts.filter (·.1 = directory)).filterMap fun p => (env.partStamps p).map (.inr p, ·)

def prunePayloads (o : AgentOptions) (key : ConfigKey) : Agent Unit := do
  let env ← Prog.ask
  let w ← Prog.read
  let entries := payloadEntries env w.files (liveKeyDirectory key)
  if env.ok = false ∨ entries.length ≤ o.retainedPayloadsPerKey then return ()
  let newestFirst := entries.mergeSort fun a b => b.2 ≤ a.2
  removePayloads ((newestFirst.drop o.retainedPayloadsPerKey).map (·.1))

/-! Frames the agent sends. -/

def bounded (detail : String) : String := .ofList (detail.toList.take kMaxMessageDetailBytes)

/-- What the session's handshake has established. -/
structure Session where
  authorityEpoch : Epoch := 0

def sendNack (request : Message) (deployment : DeploymentId) (key : ConfigKey) (generation : Generation)
    (digest : Digest) (code : ErrorCode) (detail : String) : Agent Status := do
  let s ← state
  send request (.deliveryNack {
    deployment, key, code, directive := retryDirectiveFor code
    generation := if generation ≠ 0 then generation else 1
    digest := if digest.isSet then digest else .ofContent (text "no-digest")
    term := s.term, incarnation := s.incarnation, detail := bounded detail })

def sendAck (session : Session) (request : Message) (deployment : DeploymentId) (key : ConfigKey)
    (generation : Generation) (digest : Digest) (bytesTransferred : ℕ) : Agent Status := do
  let s ← state
  let targetTimestampMillis ← now
  send request (.deliveryAck {
    deployment, key, generation, digest, artifact := s.committedArtifact, state := .applied
    term := s.term, incarnation := s.incarnation, authorityEpoch := session.authorityEpoch
    guarantee := s.guarantee, bytesTransferred, targetTimestampMillis, evidenceFromReconcile := false })

def refusePrepare (m : PrepareMessage) (code : ErrorCode) (detail : String) (observedState : DeliveryState) :
    Agent Status := do
  let s ← state
  send (.prepare m) (.prepareReject {
    deployment := m.deployment, code, detail := bounded detail, observedState
    committedGeneration := s.committedGeneration })

end Agent

end ConfigurationFabric
