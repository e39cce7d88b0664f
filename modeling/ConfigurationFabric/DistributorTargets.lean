import ConfigurationFabric.DistributorLives
import ConfigurationFabric.Library.Ledger

/-! The distributor's sessions with targets whose agents are honest, through any number of its processes. -/

namespace ConfigurationFabric

open LittleEndian
open Threads
open Ledgers

/-- A target, the frames from it that its session has not read, and those it has been sent. -/
structure Peer extends Site Generation Digest where
  unread : List Reply := []
  heard : List Outgoing := []

/-- What an honest agent does on a frame, or leaves undone: it never goes back, and never changes what a generation is.
A window may have been rolled back by the time of a new session. -/
def serves (x : Site Generation Digest) (frame : Outgoing) (x' : Site Generation Digest) : Prop :=
  match frame with
  | .message (.hello _) | .message (.applyAbort _) => x' = x ∨ x' = { x with window := none }
  | .message (.applyPrepare m) =>
    x' = x ∨ x.content.generation ≤ m.generation ∧ x' = { x with window := some m.generation }
  | .message (.applyCommit m) =>
    x' = x ∨ x.content.generation < m.generation ∧ x' = { content := ⟨m.generation, m.digest⟩ }
  | _ => x' = x

/-- What an honest agent says, it says of what it runs. -/
def truthful (x : Site Generation Digest) (frame : Outgoing) : Reply → Prop
  | .helloAck a => x.content = ⟨a.committedGeneration, a.committedDigest⟩
  | .prepareAck a => a.duplicateSuppressed = true → ∃ m, frame = .message (.prepare m) ∧ a.deployment = m.deployment ∧
      x.content = ⟨m.generation, m.digest⟩
  | .applyCommitAck a => a.committed = true → x.content = ⟨a.committedGeneration, a.committedDigest⟩
  | .deliveryAck a => x.content = ⟨a.generation, a.digest⟩
  | .reconcileReport a => x.content = ⟨a.committedGeneration, a.committedDigest⟩ ∧ x.window.isSome = a.applyPrepared ∧
      ∀ f ∈ a.findings, isActivationState f.state = true →
        f.generation < x.content.generation ∨ ⟨f.generation, f.digest⟩ = x.content
  | _ => True

def Peer.left (p : Peer) (rest : List Reply) : Peer := { p with unread := rest }

/-- A new session is a new connection. -/
def Peer.waiting (p : Peer) : Outgoing → List Reply
  | .message (.hello _) => []
  | _ => p.unread

structure Peer.Answers (p : Peer) (frame : Outgoing) (p' : Peer) : Prop where
  heard : p'.heard = p.heard ++ [frame]
  serves : serves p.toSite frame p'.toSite
  replies : ∃ replies, p'.unread = p.waiting frame ++ replies ∧ ∀ reply ∈ replies, truthful p'.toSite frame reply

/-- The targets and the store. -/
abbrev Fabric := (TargetId → Peer) × Controller

/-! What the controller has on record. -/

def TargetRuntime.mark (runtime : TargetRuntime) : Mark Generation Digest :=
  ⟨⟨runtime.committedGeneration, runtime.committedDigest⟩, runtime.applyPrepared⟩

/-- What is delivered, and where. -/
structure Parcel where
  id : DeploymentId
  target : TargetId
  key : ConfigKey
  generation : Generation
  digest : Digest

def DeliveryRecord.parcel (r : DeliveryRecord) : Parcel := ⟨r.id, r.target, r.key, r.generation, r.digest⟩

namespace ControllerState

def shown (s : ControllerState) (id : TargetId) : Option (Mark Generation Digest) :=
  (s.findTarget id).map TargetRuntime.mark

/-- Whether a delivery is stored, and whether it is acknowledged. -/
def settled (s : ControllerState) (id : DeploymentId) : Option Bool :=
  (s.findDelivery id).map fun r => r.state == .acknowledged

end ControllerState

namespace Distributor

/-- What the steps of a run have to meet. -/
structure Care where
  plans : DeploymentPlan → Prop
  writes : Option Copy → Fabric → Prop
  sends : TargetId → Outgoing → Fabric → Prop
  starts : Controller → Prop

/-- Nothing at all. -/
def anyhow : Care := ⟨fun _ => True, fun _ _ => True, fun _ _ _ => True, fun _ => True⟩

/-- Every target has one config key, and every delivery a name of its own. -/
structure Books extends Orders DeploymentId TargetId Generation Digest where
  key : TargetId → ConfigKey

structure Books.Lists (b : Books) (r : Parcel) : Prop where
  site : b.site r.id = r.target
  content : b.content r.id = ⟨r.generation, r.digest⟩
  key : b.key r.target = r.key

/-- Deliveries are planned by the books; a target's record is written back while the stored one still shows what the
copy does; nothing is offered to a target whose record shows an open window, and no window is asked for a generation
that the target runs; a process starts with a journal that has the deliveries, whether they are acknowledged, and what
is shown of the targets as the process before had them in memory. -/
def careful (b : Books) : Care where
  plans plan := ∀ i ∈ plan.instructions, b.Lists (plannedDelivery plan i 0).parcel
  writes c w := ∀ id copy, c = some (.target id copy) →
    (copy.getD {}).mark = ((w.2.mem.findTarget id).getD {}).mark
  sends target frame w :=
    (∀ m, frame = .message (.prepare m) → ((w.2.mem.findTarget target).getD {}).applyPrepared = false) ∧
      ∀ m, frame = .message (.applyPrepare m) → m.generation ≠ (w.1 target).content.generation
  starts c := c.dur.settled = c.mem.settled ∧ c.dur.shown = c.mem.shown

/-- A session is connected to its target. Frames come in the order in which they were sent, and may fail to come. -/
def session (care : Care) (target : TargetId) :
    Outside (TargetId → Peer) Controller Choice Request (Result Incoming) where
  emit m w peers := care.sends target m.frame w ∧
    ∃ p, (w.1 target).Answers m.frame p ∧ peers = Function.update w.1 target p
  receive r w peers :=
    match r with
    | .ok (.reply reply) => ∃ rest, (w.1 target).unread = reply :: rest ∧
        peers = Function.update w.1 target ((w.1 target).left rest)
    | _ => peers = w.1
  input _ _ := True

/-- Other tasks have no connection. -/
def indoors : Outside (TargetId → Peer) Controller Choice Request (Result Incoming) where
  emit _ w peers := peers = w.1
  receive _ w peers := peers = w.1
  input _ _ := True

def outside (care : Care) : Task → Outside (TargetId → Peer) Controller Choice Request (Result Incoming)
  | .session target _ => session care target
  | _ => indoors

abbrev Works := Pool Controller Copy Choice Request (Result Incoming) Status (TargetId → Peer) Task

/-- A target has one session at a time. -/
def grants (care : Care) (P : Works) (t : Task) : Prop :=
  (t.claimed = none ∨ ∀ x ∈ P.threads, x.1.claimed ≠ t.claimed) ∧
    match t with
    | .submitPlan plan => care.plans plan
    | _ => True

abbrev Serves (care : Care) (o : DistributorOptions) : Works → Works → Prop :=
  Crew.Run (outside care) (program o) (grants care) fun _ c w _ => care.writes c w

abbrev Opening (o : DistributorOptions) (w : Fabric) (p : Worker Status) (w' : Fabric) : Prop :=
  Relation.ReflTransGen (fun x y => ∃ c, Thread.Move indoors x.1 x.2 c y.1 y.2)
    («open» o, (w.1, ⟨w.2.dur, w.2.dur⟩)) (p, w')

/-- A process that is cut short while it opens, or while it serves. -/
inductive Tenure (care : Care) (o : DistributorOptions) (w : Fabric) : Fabric → Prop
  | opening {p : Worker Status} {w' : Fabric} : Opening o w p w' → Tenure care o w w'
  | serving {w' : Fabric} {P : Works} : Opening o w (.ret (.ok ())) w' → Serves care o ⟨w', []⟩ P →
      Tenure care o w P.world

/-- One process after the other. -/
abbrev Tenures (care : Care) : Fabric → Fabric → Prop :=
  Relation.ReflTransGen fun w w' => care.starts w.2 ∧ ∃ o, Tenure care o w w'

end Distributor

end ConfigurationFabric
