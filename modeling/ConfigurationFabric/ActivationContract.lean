import ConfigurationFabric.AgentWindow
import ConfigurationFabric.DistributorSteps

/-! Activation over a connection: the frames the distributor sends, and the agent that answers them. -/

namespace ConfigurationFabric

open LittleEndian
open Threads
open Program

abbrev Trace := List (Outgoing × AgentState)

/-- One connection seen from the distributor: what the agent at the other end has answered and nobody has read yet, and
the frames that were sent, each with the state the agent was in. -/
structure Channel where
  agent : World
  running : Bool := true
  unread : List Reply := []
  sent : Trace := []

namespace Channel

def answered (a a' : World) : List Reply := (a'.sent.drop a.sent.length).map (·.reply)

/-- The session goes on. -/
def served : Option Status → Bool
  | some (.ok ()) => true
  | _ => false

/-- A frame is handled by the agent, or there is nothing that would handle it. -/
inductive Delivered (o : AgentOptions) (s : Agent.Session) : Outgoing → Channel → Channel → Prop
  | handled {m : Message} {x : Channel} {a : World} {r : Option Status} : x.running = true →
      Prog.Exec (fun _ => True) (Agent.dispatch o s m) (x.agent.receive m) r a →
      Delivered o s (.message m) x
        ⟨a, served r, x.unread ++ answered x.agent a, x.sent ++ [(.message m, x.agent.mem)]⟩
  | unhandled {frame : Outgoing} {x : Channel} : (x.running = true → ∀ m, frame ≠ .message m) →
      Delivered o s frame x { x with sent := x.sent ++ [(frame, x.agent.mem)] }

inductive Read : Result Incoming → Channel → Channel → Prop
  | reply {x : Channel} {reply : Reply} {rest : List Reply} :
      x.unread = reply :: rest → Read (.ok (.reply reply)) x { x with unread := rest }
  | error {x : Channel} (e : Error) : Read (.error e) x x

end Channel

/-- The distributor's end of the connection. -/
def dialled (o : AgentOptions) (s : Agent.Session) : Outside Channel Controller Choice Request (Result Incoming) where
  emit request w x := Channel.Delivered o s request.frame w.1 x
  receive r w x := Channel.Read r w.1 x
  input _ _ := True

/-- The other threads have connections of their own. -/
def Elsewhere (w w' : Channel × Controller) : Prop := w'.1 = w.1

/-! What goes out for an activation. -/

def Outgoing.isPrepare : Outgoing → Bool
  | .message (.applyPrepare _) => true
  | _ => false

def Outgoing.isCommit : Outgoing → Bool
  | .message (.applyCommit _) => true
  | _ => false

/-- The exact conditions under which the agent refuses a frame because of the window. -/
def WindowRefused : Outgoing × AgentState → Prop
  | (.message (.applyPrepare _), s) => s.guarantee = .atomicActivate
  | (.message (.applyCommit _), s) => s.guarantee = .prepareCommitAbort ∧ s.applyPrepared = false
  | _ => False

def Trace.commits (sent : Trace) : Bool := sent.any (·.1.isCommit)

def Trace.preparesFirst (sent : Trace) : Bool := (sent.takeWhile (!·.1.isCommit)).any (·.1.isPrepare)

/-- A prepare goes out before the commit exactly under the guarantee that asks for one. -/
def Trace.Follows (g : ApplyGuarantee) (sent : Trace) : Prop :=
  sent.commits = true → (sent.preparesFirst = true ↔ g = .prepareCommitAbort)

structure Trace.Contract (g : ApplyGuarantee) (sent : Trace) : Prop where
  follows : sent.Follows g
  accepted : ∀ e ∈ sent, ¬ WindowRefused e

namespace Trace

variable {sent : Trace} {g : ApplyGuarantee} {e : Outgoing × AgentState}

theorem not_commits : sent.commits = false ↔ ∀ e ∈ sent, e.1.isCommit = false := by
  simp [commits]

theorem Follows.of_none (h : sent.commits = false) : sent.Follows g := fun hsome => by
  rw [h] at hsome
  cases hsome

theorem commits_append (he : e.1.isCommit = false) : commits (sent ++ [e]) = sent.commits := by
  simp [commits, he]

theorem preparesFirst_append (h : sent.commits = false) (he : e.1.isCommit = true) :
    preparesFirst (sent ++ [e]) = sent.any (·.1.isPrepare) := by
  have hall : ∀ a ∈ sent, (!a.1.isCommit) = true := fun a ha => by rw [not_commits.mp h a ha]; rfl
  rw [preparesFirst, List.takeWhile_append_of_pos hall, List.takeWhile_cons_of_neg (by simp [he]), List.append_nil]

/-- What comes after the commit does not change what came before it. -/
theorem Follows.append (h : sent.Follows g) (he : e.1.isCommit = false) : Follows g (sent ++ [e]) := by
  by_cases hsome : sent.commits = true
  · obtain ⟨a, ha, hcommit⟩ := List.any_eq_true.mp hsome
    have hlt : (sent.takeWhile (!·.1.isCommit)).length ≠ sent.length := by
      intro heq
      have hself := (List.takeWhile_prefix (fun e : Outgoing × AgentState => !e.1.isCommit) (l := sent)).eq_of_length heq
      have hnot := List.all_eq_true.mp (List.all_takeWhile (l := sent)) a (hself.symm ▸ ha)
      simp [hcommit] at hnot
    intro _
    rw [preparesFirst, List.takeWhile_append, if_neg hlt]
    exact h hsome
  · rw [Bool.not_eq_true] at hsome
    exact .of_none (by rw [commits_append he, hsome])

end Trace

/-! Threads that do not talk. -/

namespace Distributor

variable {record : DeliveryRecord} {cause : Cause}

theorem silent_clock {T : ℤ → Prop} (h : ∀ now, T now) : clock.Silent T := fun i => h i.now

theorem silent_state {T : ControllerState → Prop} (h : ∀ s, T s) : state.Silent T := fun c => h c.mem

theorem silent_commit {copy : Copy} {make : ControllerState → ControllerRecord} {T : Status × ControllerState → Prop}
    (h : ∀ x, T x) : (commit copy make).Silent T := by
  simp only [commit, Thread.silent_bind, Thread.silent_ask]
  intro i
  split
  · exact fun s => h _
  · exact fun s => h _
  · exact fun s => h _

theorem silent_commitDelivery {make : ControllerState → DeliveryRecord} {T : Status × DeliveryRecord → Prop}
    (h : ∀ status s, T (status, make s)) : (commitDelivery record cause make).Silent T := by
  rw [commitDelivery]
  split
  · exact fun s => h _ _
  · rw [Thread.silent_bind]
    exact silent_commit fun x => h _ _

/-- Evidence leaves the guarantee of a record as it is. -/
abbrev Guaranteed (record : DeliveryRecord) (x : Status × DeliveryRecord) : Prop :=
  x.2.effectiveGuarantee = record.effectiveGuarantee

theorem silent_upsertDelivery : (upsertDelivery record cause).Silent fun _ => True := by
  rw [upsertDelivery, Thread.silent_bind]
  exact silent_commitDelivery fun _ _ => trivial

theorem silent_recordTransition {target : DeliveryState} {kind : EvidenceKind} {code : ErrorCode} {detail : Bytes}
    {fromReconciliation : Bool} :
    (recordTransition record target kind code detail fromReconciliation cause).Silent (Guaranteed record) := by
  rw [recordTransition]
  split
  · exact rfl
  · rw [Thread.silent_bind]
    exact silent_clock fun _ => silent_commitDelivery fun _ _ => rfl

theorem silent_noteEvent {kind : EvidenceKind} {detail : Bytes} :
    (noteEvent record kind detail cause).Silent (Guaranteed record) := by
  rw [noteEvent, Thread.silent_bind]
  refine silent_clock fun _ => ?_
  rw [Thread.silent_bind]
  exact silent_clock fun _ => silent_commitDelivery fun _ _ => rfl

theorem silent_recordFailure {code : ErrorCode} {detail : Bytes} :
    (recordFailure record code detail cause).Silent fun _ => True := by
  rw [recordFailure]
  split
  · trivial
  split
  · trivial
  dsimp only
  split
  · exact silent_noteEvent.mono fun _ _ => trivial
  · exact silent_recordTransition.mono fun _ _ => trivial

theorem silent_recordRetired {reason : Bytes} : (recordRetired record reason cause).Silent fun _ => True := by
  rw [recordRetired]
  split
  · trivial
  · rw [Thread.silent_bind]
    refine silent_recordTransition.mono fun x _ => ?_
    split
    · trivial
    · rw [Thread.silent_bind]
      exact silent_upsertDelivery.mono fun _ _ => trivial

theorem silent_adoptActivation {fromReconciliation : Bool} {detail : Bytes} :
    (adoptActivation record fromReconciliation detail cause).Silent fun _ => True := by
  have hadopt (record : DeliveryRecord) : (adoptRuntime record).Silent fun _ => True := by
    rw [adoptRuntime, Thread.silent_bind]
    refine silent_state fun s => ?_
    split
    · trivial
    split
    · trivial
    · rw [Thread.silent_bind]
      refine silent_clock fun _ => ?_
      rw [upsertTarget, Thread.silent_bind]
      exact silent_commit fun _ => trivial
  rw [adoptActivation]
  split
  · rw [Thread.silent_bind]
    refine silent_recordTransition.mono fun x _ => ?_
    split
    · trivial
    · exact hadopt _
  · exact hadopt record

theorem silent_acknowledge {fromReconciliation : Bool} {detail : Bytes} :
    (acknowledge record fromReconciliation detail cause).Silent fun _ => True := by
  rw [acknowledge]
  split
  · split
    · exact silent_upsertDelivery
    · trivial
  · rw [Thread.silent_bind]
    refine silent_recordTransition.mono fun x _ => ?_
    split
    · trivial
    · exact silent_upsertDelivery

end Distributor

/-! The agent's side of it. -/

namespace Agent

/-- The guarantee stays, an open window stays open, and whoever is told that one is open is told rightly. -/
structure Upholds (w w' : World) : Prop where
  guarantee : w'.mem.guarantee = w.mem.guarantee
  kept : w.mem.applyPrepared = true → w'.mem.applyPrepared = true
  told : ∃ more, w'.sent = w.sent ++ more ∧ ∀ a ∈ more, ∀ ack, a.reply = .applyPrepareAck ack → ack.prepared = true →
    w'.mem.applyPrepared = true

section Upholds

variable {w w' w'' : World} {allowed : Env → Prop}

theorem Upholds.silent (hguarantee : w'.mem.guarantee = w.mem.guarantee)
    (hkept : w.mem.applyPrepared = true → w'.mem.applyPrepared = true) (hsent : w'.sent = w.sent) : Upholds w w' where
  guarantee := hguarantee
  kept := hkept
  told := ⟨[], by rw [hsent, List.append_nil], by simp⟩

theorem Upholds.refl (w : World) : Upholds w w := .silent rfl id rfl

theorem Upholds.trans (h : Upholds w w') (h' : Upholds w' w'') : Upholds w w'' where
  guarantee := h'.guarantee.trans h.guarantee
  kept hopen := h'.kept (h.kept hopen)
  told := by
    obtain ⟨more, hmore, htold⟩ := h.told
    obtain ⟨more', hmore', htold'⟩ := h'.told
    refine ⟨more ++ more', by rw [hmore', hmore, List.append_assoc], fun a ha ack hack hprepared => ?_⟩
    obtain ha | ha := List.mem_append.mp ha
    · exact h'.kept (htold a ha ack hack hprepared)
    · exact htold' a ha ack hack hprepared

theorem Upholds.along (h : Relation.ReflTransGen Upholds w w') : Upholds w w' := by
  induction h with
  | refl => exact .refl w
  | tail _ hstep ih => exact ih.trans hstep

theorem upholds_send {request : Message} {reply : Reply}
    (h : ∀ ack, reply = .applyPrepareAck ack → ack.prepared = true → w.mem.applyPrepared = true) :
    (send request reply).Steps allowed Upholds (fun _ _ => True) w := by
  refine steps_send ⟨rfl, id, [_], rfl, fun a ha ack hack => ?_⟩ trivial fun _ => trivial
  rw [List.mem_singleton.mp ha] at hack
  exact h ack hack

theorem upholds_copyFileAtomic {source : Directory} {name : PayloadName} :
    (copyFileAtomic source name).Steps allowed Upholds (fun _ _ => True) w := by
  simp only [copyFileAtomic, Prog.steps_bind, Prog.steps_ask, Prog.steps_read]
  intro e _
  split
  · trivial
  simp only [Prog.steps_bind, steps_succeeds]
  intro e₁ _
  split
  · trivial
  simp only [Prog.steps_bind, steps_setFiles, steps_succeeds]
  refine ⟨.silent rfl id rfl, fun e₂ _ => ?_⟩
  split
  · rw [Prog.steps_bind]
    exact steps_remove (.silent rfl id rfl) trivial trivial
  simp only [Prog.steps_bind, steps_succeeds]
  intro e₃ _
  split
  · rw [Prog.steps_bind]
    exact steps_remove (.silent rfl id rfl) trivial trivial
  · simp only [Prog.steps_bind, steps_setFiles]
    exact ⟨.silent rfl id rfl, trivial⟩

theorem upholds_onStage {m : StageMessage} : (onStage m).Steps allowed Upholds (fun _ _ => True) w := by
  have hrespond (ack : StageAckMessage) (w' : World) :
      (send (.stage m) (.stageAck ack)).Steps allowed Upholds (fun _ _ => True) w' :=
    upholds_send fun _ h => by cases h
  simp only [onStage, Prog.steps_bind, steps_state]
  split
  · exact hrespond _ _
  split
  · exact hrespond _ _
  split
  · exact hrespond _ _
  split
  · exact hrespond _ _
  simp only [Prog.steps_bind, steps_succeeds]
  intro e _
  split
  · exact hrespond _ _
  rw [Prog.steps_bind]
  refine upholds_copyFileAtomic.mono fun r w' _ => ?_
  split
  · exact hrespond _ _
  · simp only [checkpointTransfer, Prog.steps_bind, steps_now, steps_commit]
    exact fun e _ => ⟨.silent rfl id rfl, hrespond _ _⟩

theorem upholds_onApplyPrepare {m : ApplyPrepareMessage} :
    (onApplyPrepare m).Steps allowed Upholds (fun _ _ => True) w := by
  have hrefuse (ack : ApplyPrepareAckMessage) (w' : World) (hack : ack.prepared = false) :
      (send (.applyPrepare m) (.applyPrepareAck ack)).Steps allowed Upholds (fun _ _ => True) w' := by
    refine upholds_send fun ack' h hprepared => ?_
    cases h
    rw [hack] at hprepared
    cases hprepared
  have hopen {c : TransferRecord} {marker : PointerValue} (w : World) : (openWindow c marker).Steps allowed Upholds
      (fun r w' => r = .ok () → w'.mem.applyPrepared = true) w := by
    simp only [openWindow, Prog.steps_bind]
    refine steps_writeFileAtomic (.silent rfl id rfl) ⟨.silent rfl (fun _ => rfl) rfl, fun _ => rfl⟩
      (fun e h => by cases h) fun _ => ⟨.silent rfl id rfl, .silent rfl id rfl, ?_, fun e h => by cases h⟩
    exact ⟨.silent rfl (fun _ => rfl) rfl, fun _ => rfl⟩
  simp only [onApplyPrepare, Prog.steps_bind, steps_state]
  split
  · exact hrefuse _ _ rfl
  split
  · exact hrefuse _ _ rfl
  split
  · exact hrefuse _ _ rfl
  split
  · exact hrefuse _ _ rfl
  split
  · exact hrefuse _ _ rfl
  rw [Prog.steps_bind]
  refine (hopen w).mono fun r w' hw' => ?_
  split
  · exact hrefuse _ _ rfl
  · exact upholds_send fun _ _ _ => hw' rfl

end Upholds

end Agent

/-! The two of them. -/

namespace Channel

variable {o : AgentOptions} {s : Agent.Session} {x x' : Channel}

/-- A prepare that stands acknowledged among the unread answers has opened a window. -/
def Told (x : Channel) : Prop := ∀ ack, Reply.applyPrepareAck ack ∈ x.unread → ack.prepared = true →
  x.agent.mem.applyPrepared = true

theorem Delivered.upholds {m : Message} (h : Delivered o s (.message m) x x')
    (hm : ∀ w, (Agent.dispatch o s m).Steps (fun _ => True) Agent.Upholds (fun _ _ => True) w) :
    x'.agent.mem.guarantee = x.agent.mem.guarantee ∧ (x.Told → x'.Told) := by
  cases h with
  | @handled m x a r hrunning hexec =>
    have hupholds : Agent.Upholds (x.agent.receive m) a := .along ((hm _).exec hexec).1
    refine ⟨hupholds.guarantee, fun hx ack hack hprepared => ?_⟩
    obtain ⟨more, hmore, htold⟩ := hupholds.told
    obtain hack | hack := List.mem_append.mp hack
    · exact hupholds.kept (hx ack hack hprepared)
    · rw [answered, hmore] at hack
      change _ ∈ ((x.agent.sent ++ more).drop x.agent.sent.length).map (·.reply) at hack
      rw [List.drop_left] at hack
      obtain ⟨answer, ha, hreply⟩ := List.mem_map.mp hack
      exact htold answer ha ack hreply hprepared
  | unhandled => exact ⟨rfl, id⟩

theorem Delivered.sent {frame : Outgoing} (h : Delivered o s frame x x') :
    x'.sent = x.sent ++ [(frame, x.agent.mem)] := by
  cases h <;> rfl

theorem Read.same {r : Result Incoming} (h : Read r x x') : x'.agent = x.agent ∧ x'.sent = x.sent := by
  cases h <;> exact ⟨rfl, rfl⟩

theorem Read.told {r : Result Incoming} (h : Read r x x') (hx : x.Told) : x'.Told := by
  cases h with
  | reply hunread => exact fun ack hack => hx ack (hunread ▸ List.mem_cons_of_mem _ hack)
  | error => exact hx

end Channel

namespace Distributor

section Course

variable {α : Type} {o : AgentOptions} {s : Agent.Session} {d g : ApplyGuarantee} {x : Channel} {c : Controller}
  {session : SessionContext} {record : DeliveryRecord}

/-- What holds of the frames of an activation under the guarantee `d`, when the agent's own is `g`. -/
structure OnCourse (d g : ApplyGuarantee) (x : Channel) : Prop where
  follows : x.sent.Follows d
  accepted : d = g → ∀ e ∈ x.sent, ¬ WindowRefused e

/-- No commit has gone out yet. -/
structure Ready (d g : ApplyGuarantee) (prepared : Prop) (x : Channel) : Prop where
  guarantee : x.agent.mem.guarantee = g
  commits : x.sent.commits = false
  prepares : x.sent.any (·.1.isPrepare) = true ↔ prepared
  accepted : d = g → ∀ e ∈ x.sent, ¬ WindowRefused e
  told : x.Told

theorem Ready.onCourse {prepared : Prop} (h : Ready d g prepared x) : OnCourse d g x := ⟨.of_none h.commits, h.accepted⟩

theorem Ready.read {prepared : Prop} {x' : Channel} {r : Result Incoming} (h : Ready d g prepared x) (hr : Channel.Read r x x') :
    Ready d g prepared x' where
  guarantee := by rw [hr.same.1, h.guarantee]
  commits := by rw [hr.same.2, h.commits]
  prepares := by rw [hr.same.2, h.prepares]
  accepted := by rw [hr.same.2]; exact h.accepted
  told := hr.told h.told

/-- A frame before the commit. -/
theorem Ready.sent {prepared prepared' : Prop} {x' : Channel} {m : Message} (h : Ready d g prepared x)
    (hdelivered : Channel.Delivered o s (.message m) x x')
    (hm : ∀ w, (Agent.dispatch o s m).Steps (fun _ => True) Agent.Upholds (fun _ _ => True) w)
    (hcommit : (Outgoing.message m).isCommit = false)
    (hprepared : prepared' ↔ prepared ∨ (Outgoing.message m).isPrepare = true)
    (haccepted : d = g → ¬ WindowRefused (.message m, x.agent.mem)) : Ready d g prepared' x' := by
  obtain ⟨hguarantee, htold⟩ := hdelivered.upholds hm
  refine ⟨hguarantee.trans h.guarantee, ?_, ?_, fun hd e he => ?_, htold h.told⟩
  · rw [hdelivered.sent, Trace.commits_append hcommit, h.commits]
  · rw [hdelivered.sent, List.any_append, Bool.or_eq_true, h.prepares, hprepared]
    simp
  · rw [hdelivered.sent] at he
    obtain he | he := List.mem_append.mp he
    · exact h.accepted hd e he
    · rw [List.mem_singleton.mp he]
      exact haccepted hd

/-- A frame after the commit, or one that is no part of the activation. -/
theorem OnCourse.sent {x' : Channel} {frame : Outgoing} (h : OnCourse d g x) (hdelivered : Channel.Delivered o s frame x x')
    (hcommit : frame.isCommit = false) (haccepted : ¬ WindowRefused (frame, x.agent.mem)) : OnCourse d g x' where
  follows := by
    rw [hdelivered.sent]
    exact h.follows.append hcommit
  accepted hd e he := by
    rw [hdelivered.sent] at he
    obtain he | he := List.mem_append.mp he
    · exact h.accepted hd e he
    · rw [List.mem_singleton.mp he]
      exact haccepted

abbrev Course (o : AgentOptions) (s : Agent.Session) (d g : ApplyGuarantee) (p : Worker α)
    (Q : α → Channel × Controller → Prop) (w : Channel × Controller) : Prop :=
  p.Steps (dialled o s) Elsewhere (fun _ w w' => OnCourse d g w.1 → OnCourse d g w'.1) Q w

theorem course_silent {p : Worker α} {T : α → Prop} {Q : α → Channel × Controller → Prop} (h : p.Silent T)
    (hQ : ∀ a c', T a → Q a (x, c')) : Course o s d g p Q (x, c) :=
  h.steps (fun _ _ hrely => hrely) (fun _ _ _ _ h => h) hQ

theorem course_transmit {request : Request} {Q : Status → Channel × Controller → Prop} (herror : ∀ e c', Q (.error e) (x, c'))
    (hsent : ∀ x' c', Channel.Delivered o s request.frame x x' →
      (OnCourse d g x → OnCourse d g x') ∧ Q (.ok ()) (x', c')) : Course o s d g (transmit request) Q (x, c) := by
  rintro ⟨x₁, c₁⟩ i hrely -
  obtain rfl : x₁ = x := hrely
  obtain ⟨now, stop, status, artifact, outcome, bytes, present, random⟩ := i
  cases status with
  | error e => exact herror e c₁
  | ok =>
    rintro ⟨x₂, c₂⟩ x' hrely hdelivered
    obtain rfl : x₂ = x₁ := hrely
    exact hsent x' c₂ hdelivered

theorem course_hear {Q : Result Incoming → Channel × Controller → Prop}
    (h : ∀ r x' c', Channel.Read r x x' → Q r (x', c')) : Course o s d g Thread.hear Q (x, c) := by
  rintro ⟨x₁, c₁⟩ r x' hrely hread
  obtain rfl : x₁ = x := hrely
  refine ⟨fun hx => ?_, h r x' c₁ hread⟩
  exact ⟨hread.same.2 ▸ hx.follows, hread.same.2 ▸ hx.accepted⟩

theorem course_stageDelivery (hx : Ready d g False x) (hrecord : record.effectiveGuarantee = d) :
    Course o s d g (stageDelivery session record)
      (fun r w => ∀ staged, r = .ok staged → staged.effectiveGuarantee = d ∧ Ready d g False w.1) (x, c) := by
  rw [stageDelivery, Course, Thread.steps_bind]
  refine course_transmit (fun e c' staged h => by cases h) fun x' c' hdelivered => ?_
  have hx' : Ready d g False x' :=
    hx.sent hdelivered (fun _ => Agent.upholds_onStage) rfl (by simp [Outgoing.isPrepare]) fun _ => id
  refine ⟨fun _ => hx'.onCourse, ?_⟩
  dsimp only
  rw [Thread.steps_bind]
  refine course_hear fun r x'' c'' hread => ?_
  have hfailed (code : ErrorCode) (detail : Bytes) : Course o s d g
      (do return .error (← recordFailure record code detail .frame).1 : Worker (Except Status DeliveryRecord))
      (fun r w => ∀ staged, r = .ok staged → staged.effectiveGuarantee = d ∧ Ready d g False w.1) (x'', c'') := by
    rw [Course, Thread.steps_bind]
    exact course_silent silent_recordFailure fun a c' _ staged h => by cases h
  split
  · exact fun staged h => by cases h
  · exact hfailed _ _
  · split
    · exact hfailed _ _
    · rw [Thread.steps_bind]
      refine course_silent silent_recordTransition fun a c' ha => ?_
      split
      · exact fun staged h => by cases h
      · intro staged h
        cases h
        exact ⟨ha.trans hrecord, hx'.read hread⟩
  · exact fun staged h => by cases h

theorem course_prepareApply (hx : Ready d g False x) (hrecord : record.effectiveGuarantee = d)
    (hd : d = .prepareCommitAbort) : Course o s d g (prepareApply session record)
      (fun r w => ∀ opened, r = .ok opened → opened.effectiveGuarantee = d ∧ Ready d g True w.1 ∧
        w.1.agent.mem.applyPrepared = true) (x, c) := by
  rw [prepareApply, Course, Thread.steps_bind]
  refine course_transmit (fun e c' opened h => by cases h) fun x' c' hdelivered => ?_
  have hx' : Ready d g True x' := by
    refine hx.sent hdelivered (fun _ => Agent.upholds_onApplyPrepare) rfl (by simp [Outgoing.isPrepare]) fun h => ?_
    intro (hatomic : x.agent.mem.guarantee = .atomicActivate)
    rw [hx.guarantee, ← h, hd] at hatomic
    cases hatomic
  refine ⟨fun _ => hx'.onCourse, ?_⟩
  dsimp only
  rw [Thread.steps_bind]
  refine course_hear fun r x'' c'' hread => ?_
  have hfailed (code : ErrorCode) (detail : Bytes) : Course o s d g
      (do return .error (← recordFailure record code detail .frame).1 : Worker (Except Status DeliveryRecord))
      (fun r w => ∀ opened, r = .ok opened → opened.effectiveGuarantee = d ∧ Ready d g True w.1 ∧
        w.1.agent.mem.applyPrepared = true) (x'', c'') := by
    rw [Course, Thread.steps_bind]
    exact course_silent silent_recordFailure fun a c' _ opened h => by cases h
  split
  · exact fun opened h => by cases h
  · exact hfailed _ _
  next ack =>
    split
    · exact hfailed _ _
    next hprepared =>
      have hopen : x''.agent.mem.applyPrepared = true := by
        rw [hread.same.1]
        cases hread with
        | reply hunread => exact hx'.told ack (by rw [hunread]; exact List.mem_cons_self) (by simpa using hprepared)
      rw [Thread.steps_bind]
      refine course_silent silent_noteEvent fun a c' ha => ?_
      split
      · exact fun opened h => by cases h
      · intro opened h
        cases h
        exact ⟨ha.trans hrecord, hx'.read hread, hopen⟩
  · exact fun opened h => by cases h

theorem course_awaitAcknowledgement (rounds : ℕ) :
    Course o s d g (awaitAcknowledgement session record rounds) (fun _ _ => True) (x, c) := by
  induction rounds generalizing x c with
  | zero => trivial
  | succ rounds ih =>
    rw [awaitAcknowledgement, Course, Thread.steps_bind]
    refine course_hear fun r x' c' hread => ?_
    split
    · split
      · trivial
      · trivial
    · split
      · trivial
      split
      · trivial
      rw [Thread.steps_bind]
      refine course_silent silent_adoptActivation fun a c' _ => ?_
      split
      · trivial
      · rw [Thread.steps_bind]
        refine course_silent (T := fun _ => True) (silent_state fun _ => trivial) fun record c' _ => ?_
        rw [Thread.steps_bind]
        refine course_silent (T := fun _ => True) (silent_state fun _ => trivial) fun epoch c' _ => ?_
        exact course_silent silent_acknowledge fun _ _ _ => trivial
    · rw [Thread.steps_bind]
      exact course_silent silent_recordFailure fun _ _ _ => trivial
    · rw [Thread.steps_bind]
      exact course_transmit (fun _ _ => trivial) fun x'' c'' hdelivered => ⟨fun h => h.sent hdelivered rfl id, ih⟩
    · trivial

theorem course_commitApply {rounds : ℕ} {prepared : Prop} (hx : Ready d g prepared x)
    (hprepared : prepared ↔ d = .prepareCommitAbort)
    (hopen : d = .prepareCommitAbort → x.agent.mem.applyPrepared = true) :
    Course o s d g (commitApply rounds session record) (fun _ _ => True) (x, c) := by
  rw [commitApply, Course, Thread.steps_bind]
  refine course_transmit (fun e c' => trivial) fun x' c' hdelivered => ?_
  have hx' : OnCourse d g x' := by
    refine ⟨?_, fun h e he => ?_⟩
    · intro _
      rw [hdelivered.sent, Trace.preparesFirst_append hx.commits rfl, hx.prepares, hprepared]
    · rw [hdelivered.sent] at he
      obtain he | he := List.mem_append.mp he
      · exact hx.accepted h e he
      · rw [List.mem_singleton.mp he]
        intro (hrefused : x.agent.mem.guarantee = .prepareCommitAbort ∧ x.agent.mem.applyPrepared = false)
        obtain ⟨hguarantee, hclosed⟩ := hrefused
        rw [hx.guarantee, ← h] at hguarantee
        rw [hopen hguarantee] at hclosed
        cases hclosed
  refine ⟨fun _ => hx', ?_⟩
  dsimp only
  rw [Thread.steps_bind]
  refine course_hear fun r x'' c'' _ => ?_
  have hfailed (code : ErrorCode) (detail : Bytes) : Course o s d g
      (do return (← recordFailure record code detail .frame).1 : Worker Status) (fun _ _ => True) (x'', c'') := by
    rw [Course, Thread.steps_bind]
    exact course_silent silent_recordFailure fun _ _ _ => trivial
  split
  · trivial
  · split
    · rw [Thread.steps_bind]
      exact course_silent silent_recordRetired fun _ _ _ => trivial
    · exact hfailed _ _
  · split
    · exact hfailed _ _
    split
    · exact hfailed _ _
    rw [Thread.steps_bind]
    refine course_silent silent_adoptActivation fun a c' _ => ?_
    split
    · trivial
    · rw [Thread.steps_bind]
      refine course_silent (T := fun _ => True) (silent_state fun _ => trivial) fun record c' _ => ?_
      exact course_awaitAcknowledgement rounds
  · trivial

/-- What follows once the delivery is staged. -/
def activateStaged (rounds : ℕ) (session : SessionContext) (record : DeliveryRecord) : Worker Status := do
  match ← prepareIfGuaranteed session record with
  | .error status => return status
  | .ok record => commitApply rounds session record

theorem course_activateDelivery {rounds : ℕ} (hx : Ready record.effectiveGuarantee g False x) :
    Course o s record.effectiveGuarantee g (activateDelivery rounds session record) (fun _ _ => True) (x, c) := by
  generalize hd : record.effectiveGuarantee = d at hx ⊢
  have hcommit (staged : DeliveryRecord) (x : Channel) (c : Controller) (hguarantee : staged.effectiveGuarantee = d)
      (hx : Ready d g False x) : Course o s d g (activateStaged rounds session staged) (fun _ _ => True) (x, c) := by
    rw [activateStaged, Course, Thread.steps_bind, prepareIfGuaranteed]
    split
    next hprepares =>
      rw [hguarantee] at hprepares
      refine (course_prepareApply hx hguarantee hprepares).mono fun r w hw => ?_
      split
      · trivial
      · obtain ⟨-, hready, hopen⟩ := hw _ rfl
        exact course_commitApply hready (by simp [hprepares]) fun _ => hopen
    next hprepares =>
      rw [hguarantee] at hprepares
      exact course_commitApply hx (by simp [hprepares]) fun h => absurd h hprepares
  rw [activateDelivery, Course, Thread.steps_bind, stageIfVerified]
  split
  · refine (course_stageDelivery hx hd).mono fun r w hw => ?_
    split
    · trivial
    · obtain ⟨hguarantee, hready⟩ := hw _ rfl
      exact hcommit _ w.1 w.2 hguarantee hready
  · exact hcommit record x c hd hx

/-- What the target has reported in this session decides the activation exactly where the plan declared the same. -/
theorem activation_follows_iff {rounds : ℕ} {x' : Channel} {c' : Controller} {p : Worker Status}
    (hreported : session.report.map (·.guarantee) = some g) (hhonest : x.agent.mem.guarantee = g) (hnew : x.sent = [])
    (htold : x.Told)
    (hrun : Thread.Amid (dialled o s) Elsewhere (activateDelivery rounds session record, (x, c)) (p, (x', c'))) :
    (session.report.map (·.guarantee) = some record.effectiveGuarantee → Trace.Contract g x'.sent) ∧
      (Trace.commits x'.sent = true →
        (Trace.Contract g x'.sent ↔ session.report.map (·.guarantee) = some record.effectiveGuarantee)) := by
  rw [hreported, Option.some.injEq, eq_comm]
  have hready : Ready record.effectiveGuarantee g False x :=
    ⟨hhonest, by rw [hnew]; rfl, by simp [hnew], by simp [hnew], htold⟩
  have hsteps : Course o s record.effectiveGuarantee g (activateDelivery rounds session record) (fun _ _ => True)
      (x, c) := course_activateDelivery hready
  obtain ⟨⟨hfollows, haccepted⟩, -⟩ := hsteps.amid
    (I := fun w => OnCourse record.effectiveGuarantee g w.1) hready.onCourse (fun _ _ => rfl)
    (fun _ _ _ h h' => h'.trans h) (fun _ h => h)
    (fun w w' hw hother => ⟨hother, by rw [hother]; exact hw⟩) (fun _ _ _ hw hG => hG hw) hrun
  have hcontract (h : record.effectiveGuarantee = g) : Trace.Contract g x'.sent :=
    ⟨h ▸ hfollows, haccepted h⟩
  refine ⟨hcontract, fun hcommits => ⟨fun h => ?_, hcontract⟩⟩
  have hboth := (hfollows hcommits).symm.trans (h.follows hcommits)
  cases hd : record.effectiveGuarantee with
  | prepareCommitAbort => exact (hboth.mp hd).symm
  | atomicActivate =>
    cases hg : g with
    | atomicActivate => rfl
    | prepareCommitAbort =>
      have hprepares := hboth.mpr hg
      rw [hd] at hprepares
      cases hprepares

end Course

/-- A target that holds the content staged, and the delivery of a plan that left the guarantee at its default. -/
def stagedTarget (g : ApplyGuarantee) : World where
  mem := {
    target := text "t"
    guarantee := g
    term := 1
    transfers := [(text "d", {
      deployment := text "d", key := text "k", generation := 1, digest := .fill 32 7, totalBytes := 1
      bytesReceived := 1, verified := true, staged := true })] }

def stagedDelivery : DeliveryRecord where
  id := text "d"
  target := text "t"
  key := text "k"
  generation := 1
  digest := .fill 32 7
  sizeBytes := 1
  requirement := .allowPrepareCommit
  state := .staged

def stagedSession (g : ApplyGuarantee) : SessionContext where
  target := text "t"
  targetTerm := 1
  targetIncarnation := .fill 16 7
  peerMaxPayload := 65536
  report := some (Agent.reconcileReport (stagedTarget g).mem {} 16)

def stagedCommit : Message := .applyCommit ⟨text "d", 1, .fill 32 7⟩

/-- The frame that goes out first is the commit. -/
theorem staged_commits (g : ApplyGuarantee) : ∃ p x c,
    Thread.Amid (dialled { target := text "t" } {}) Elsewhere
      (activateDelivery 1 (stagedSession g) stagedDelivery, (⟨stagedTarget g, true, [], []⟩, {})) (p, (x, c)) ∧
    x.sent = [(.message stagedCommit, (stagedTarget g).mem)] := by
  have hexec : ∃ r a, Prog.Exec (fun _ => True) (Agent.dispatch { target := text "t" } {} stagedCommit)
      ((stagedTarget g).receive stagedCommit) (some r) a :=
    Prog.Exec.complete (i := {}) trivial _ _
  obtain ⟨r, a, hexec⟩ := hexec
  let x : Channel :=
    ⟨a, Channel.served (some r), [] ++ Channel.answered (stagedTarget g) a, [(.message stagedCommit, (stagedTarget g).mem)]⟩
  have hgo : Channel.Delivered { target := text "t" } {} (.message stagedCommit) ⟨stagedTarget g, true, [], []⟩ x :=
    .handled rfl hexec
  have hmoves : ∃ p₁, Thread.Move (dialled { target := text "t" } {})
      (activateDelivery 1 (stagedSession g) stagedDelivery) (⟨stagedTarget g, true, [], []⟩, {}) none p₁
      (⟨stagedTarget g, true, [], []⟩, {}) ∧ ∃ p₂, Thread.Move (dialled { target := text "t" } {}) p₁
      (⟨stagedTarget g, true, [], []⟩, {}) none p₂ (x, {}) := ⟨_, .input (i := {}) trivial, _, .emit hgo⟩
  obtain ⟨p₁, hask, p₂, hsend⟩ := hmoves
  have hfirst : Thread.Amid (dialled { target := text "t" } {}) Elsewhere (_, (⟨stagedTarget g, true, [], []⟩, {}))
      (p₁, (⟨stagedTarget g, true, [], []⟩, {})) := .single (.inl ⟨none, hask⟩)
  exact ⟨p₂, x, {}, hfirst.tail (.inl ⟨none, hsend⟩), rfl⟩

theorem declared_commit_refused : ¬ ∀ (g : ApplyGuarantee) (p : Worker Status) (x : Channel) (c : Controller),
    Thread.Amid (dialled { target := text "t" } {}) Elsewhere
      (activateDelivery 1 (stagedSession g) stagedDelivery, (⟨stagedTarget g, true, [], []⟩, {})) (p, (x, c)) →
    Trace.Contract g x.sent := by
  intro h
  obtain ⟨p, x, c, hrun, hsent⟩ := staged_commits .prepareCommitAbort
  have hcontract := h .prepareCommitAbort p x c hrun
  rw [hsent] at hcontract
  exact hcontract.accepted _ List.mem_cons_self ⟨rfl, rfl⟩

theorem declared_commit_accepted : ∃ (p : Worker Status) (x : Channel) (c : Controller),
    Thread.Amid (dialled { target := text "t" } {}) Elsewhere
      (activateDelivery 1 (stagedSession .atomicActivate) stagedDelivery,
        (⟨stagedTarget .atomicActivate, true, [], []⟩, {})) (p, (x, c)) ∧
    Trace.commits x.sent = true ∧ Trace.Contract .atomicActivate x.sent := by
  obtain ⟨p, x, c, hrun, hsent⟩ := staged_commits .atomicActivate
  exact ⟨p, x, c, hrun, by rw [hsent]; rfl,
    (activation_follows_iff rfl rfl rfl (fun _ h => absurd h List.not_mem_nil) hrun).1 rfl⟩

end Distributor

end ConfigurationFabric
