import Mathlib.Data.List.Perm.Basic
import ConfigurationFabric.AgentHandlers

namespace ConfigurationFabric

open LittleEndian
open Program

structure LiveRecovery where
  rolledBackUnresolvedPrepare : Bool := false
  adoptedCompletedSwitch : Bool := false
  clearedUnverifiableCommit : Bool := false
  removedStagingFiles : ℕ := 0
  verifiedPayloads : ℕ := 0
  deriving DecidableEq

namespace Agent

/-! Staged transfers at start-up. -/

/-- The part of a name in front of the first `.part`. -/
def stem : Bytes → Bytes
  | [] => []
  | c :: cs => if (text ".part").isPrefixOf (c :: cs) then [] else c :: stem cs

def removeUnknownStaging (known : List DeploymentId) : List Directory → LiveRecovery → Agent LiveRecovery
  | [], recovery => return recovery
  | [name] :: paths, recovery => do
    if stem name ∈ known then
      removeUnknownStaging known paths recovery
    else if ← succeeds then
      setFiles fun f => { f with staging := f.staging.erase [name] }
      removeUnknownStaging known paths
        { recovery with removedStagingFiles := recovery.removedStagingFiles + 1 }
    else removeUnknownStaging known paths recovery
  | _ :: paths, recovery => removeUnknownStaging known paths recovery

/-- The transfers the bytes on disk cannot support, and those whose file was cut back. -/
def fitTransfers : List TransferRecord → Agent (List DeploymentId × List TransferRecord)
  | [] => return ([], [])
  | r :: rs => do
    match (← Prog.read).files.staging.lookup (stagingPath r.deployment) with
    | none =>
      let (discard, resized) ← fitTransfers rs
      return (r.deployment :: discard, resized)
    | some content =>
      if content.length < r.bytesReceived then
        let (discard, resized) ← fitTransfers rs
        return (r.deployment :: discard, resized)
      else if content.length > r.bytesReceived then
        if ← succeeds then
          Prog.modify (World.writeStaging (stagingPath r.deployment) (content.take r.bytesReceived))
          let (discard, resized) ← fitTransfers rs
          return (discard, r :: resized)
        else
          let (discard, resized) ← fitTransfers rs
          return (r.deployment :: discard, resized)
      else fitTransfers rs

def destroyTransfers : List DeploymentId → Agent Unit
  | [] => return ()
  | deployment :: rest => do
    destroyTransfer deployment
    destroyTransfers rest

def checkpointTransfers : List TransferRecord → Agent Unit
  | [] => return ()
  | r :: rest => do
    checkpointTransfer r
    checkpointTransfers rest

def recoverTransfers : Agent LiveRecovery := do
  let w ← Prog.read
  let recovery ← removeUnknownStaging (w.mem.transfers.map (·.1)) w.files.staging.keys {}
  let (discard, resized) ← fitTransfers ((← state).transfers.map (·.2))
  destroyTransfers discard
  checkpointTransfers resized
  return recovery

/-! The live area at start-up. -/

/-- The pointer of a directory, if it is readable; an unreadable one is removed. -/
def readPointer (directory : Directory) (recovery : LiveRecovery) : Agent (Option PointerValue × LiveRecovery) := do
  match (← Prog.read).files.current.lookup directory with
  | none => return (none, recovery)
  | some (.pointer value) => return (some value, recovery)
  | some .unreadable =>
    remove (·.dropCurrent directory)
    return (none, { recovery with clearedUnverifiableCommit := true })

def noteRollback (recovery : LiveRecovery) : Agent LiveRecovery := do
  setState fun s => { s with applyRollbacks := increment s.applyRollbacks }
  commit (rollbackPayload (← state))
  return { recovery with rolledBackUnresolvedPrepare := true }

/-- A prepare marker is resolved: the switch had happened, or the window is rolled back. -/
def resolvePending (directory : Directory) (pointer : Option PointerValue) (recovery : LiveRecovery) :
    Agent LiveRecovery := do
  let s ← state
  let recovery ←
    if pointer.any fun v => v.generation == s.preparedGeneration && v.digest == s.preparedDigest then
      pure { recovery with adoptedCompletedSwitch := true }
    else noteRollback recovery
  remove (·.dropPending directory)
  let s ← state
  if s.applyPrepared then commit (.applyResolved s.activations)
  return recovery

def clearCommit (recovery : LiveRecovery) : Agent LiveRecovery := do
  commit (.targetCommit 0 (.zero 32) [])
  return { recovery with clearedUnverifiableCommit := true }

/-- The committed generation follows the pointer found in the directory. -/
def adoptPointer (o : AgentOptions) (directory : Directory) (pointer : Option PointerValue)
    (recovery : LiveRecovery) : Agent LiveRecovery := do
  match pointer with
  | none => if (← state).committedGeneration ≠ 0 then clearCommit recovery else return recovery
  | some value =>
    let content := (← Prog.read).files.payload.lookup (payloadName directory value.generation value.digest)
    let actual ← if o.verifyCommittedPayloadOnStart then hashStagingFile content 0 else pure (.ok value.digest)
    let recovery :=
      if o.verifyCommittedPayloadOnStart then
        { recovery with verifiedPayloads := recovery.verifiedPayloads + 1 }
      else recovery
    let s ← state
    if actual ≠ .ok value.digest then clearCommit recovery
    else if value.generation = s.committedGeneration ∧ value.digest = s.committedDigest ∧
        s.committedGeneration ≠ 0 then
      return recovery
    else
      commit (.targetCommit value.generation value.digest value.artifact)
      return { recovery with adoptedCompletedSwitch := true }

def recoverDirectory (o : AgentOptions) (directory : Directory) (recovery : LiveRecovery) : Agent LiveRecovery := do
  let pendingPresent := ((← Prog.read).files.pending.lookup directory).isSome
  let (pointer, recovery) ← readPointer directory recovery
  let recovery ← if pendingPresent then resolvePending directory pointer recovery else pure recovery
  adoptPointer o directory pointer recovery

def recoverDirectories (o : AgentOptions) : List Directory → LiveRecovery → Agent LiveRecovery
  | [], recovery => return recovery
  | directory :: rest, recovery => do
    let recovery ← recoverDirectory o directory recovery
    recoverDirectories o rest recovery

/-- The key directories the walk comes to: those with a pointer or a marker. -/
def keyDirectories (f : Files) : List Directory :=
  ((f.current.keys ++ f.pending.keys).filter (isWalked ·)).dedup

/-- The walk takes them in the order the file system gives. -/
def walk (order : List Directory) (f : Files) : List Directory :=
  if order.Perm (keyDirectories f) then order else keyDirectories f

def recoverLiveArea (o : AgentOptions) : Agent LiveRecovery := do
  let recovery ← recoverTransfers
  let order := (← Prog.ask).order
  let f := (← Prog.read).files
  let recovery ← recoverDirectories o (walk order f) recovery
  if (← state).applyPrepared then
    let recovery ← noteRollback recovery
    commit (.applyResolved (← state).activations)
    return recovery
  return recovery

/-- Everything `TargetAgent::open` does once the store has been replayed. -/
def «open» (o : AgentOptions) : Agent (Result LiveRecovery) := do
  if o.target = [] then return .fail .invalidArgument "agent target id must be set"
  if o.maxArtifactBytes = 0 ∨ o.retainedPayloadsPerKey = 0 then
    return .fail .invalidArgument "agent bounds must be non-zero"
  if !(← succeeds) then return .fail .openFailed "cannot create the live configuration area"
  let s ← state
  if s.target ≠ [] ∧ s.target ≠ o.target then
    return .fail .conflict "durable agent state belongs to a different target"
  if s.term ≠ 0 ∧ s.klass ≠ o.klass then
    return .fail .conflict "durable agent state declares a different target class"
  if s.term ≠ 0 ∧ s.guarantee ≠ o.guarantee then
    return .fail .guaranteeUnsupported
      ("durable agent state declares a different apply guarantee; changing it would silently " ++
        "change what activation means for this target")
  match checkedAdd s.term 1 with
  | none => return .fail .arithmeticOverflow "agent term exhausted"
  | some nextTerm =>
    if s.restartCount ≥ 2 ^ 32 - 1 then
      return .fail .arithmeticOverflow "agent restart counter exhausted"
    let incarnation := (← Prog.ask).incarnation
    commit (.identity o.target o.klass o.guarantee nextTerm incarnation (s.restartCount + 1))
    let recovery ← recoverLiveArea o
    return .ok recovery

/-! The handshake, once the frame has been authenticated. -/

def refuseHello {α : Type} (hello : HelloMessage) (code : ErrorCode) (detail : String) : Agent (Result α) := do
  let _ ← send (.hello hello) (.authReject code detail)
  return .fail code detail

/-- The authority is recorded before anything it sends can change the state; the acknowledgement follows. -/
def adoptAuthority (hello : HelloMessage) : Agent (Result HelloAckMessage) := do
  let s ← state
  if s.lastControllerEpoch ≠ 0 ∧ hello.epoch < s.lastControllerEpoch then
    return ← refuseHello hello .staleEpoch
      s!"controller authority epoch is older than the accepted one: {hello.epoch} < {s.lastControllerEpoch}"
  if s.lastControllerEpoch ≠ 0 ∧ hello.epoch = s.lastControllerEpoch ∧ s.lastControllerIncarnation.isSet ∧
      hello.incarnation ≠ s.lastControllerIncarnation then
    return ← refuseHello hello .fencedIncarnation
      "a different controller incarnation claims an already accepted epoch"
  commit (.controllerFence hello.epoch hello.incarnation hello.nodeId)
  let s ← state
  let nonce := (← Prog.ask).nonce
  return .ok {
    target := s.target, targetClass := s.klass, guarantee := s.guarantee, term := s.term
    incarnation := s.incarnation, nonce, capabilities := capabilitiesFor s.guarantee
    committedGeneration := s.committedGeneration, committedDigest := s.committedDigest
    committedArtifact := s.committedArtifact, restartCount := s.restartCount }

def acceptHello (hello : HelloMessage) : Agent (Result Session) := do
  match ← adoptAuthority hello with
  | .error e => return .error e
  | .ok ack =>
    match ← send (.hello hello) (.helloAck ack) with
    | .error e => return .error e
    | .ok () => return .ok { authorityEpoch := hello.epoch }

end Agent

end ConfigurationFabric
