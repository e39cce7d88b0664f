import ConfigurationFabric.AgentSystem
import ConfigurationFabric.DistributorRetired

/-! One session with an agent, and the requests that its answers are about. -/

namespace ConfigurationFabric

open LittleEndian
open Threads

/-- The two ends of a connection: the agent, what it has sent and the distributor has not read, the request that the
frame read last answers, and whether a reconcile report has been read. -/
structure Link where
  agent : Machine
  unread : List (Option DeploymentId × Reply) := []
  heard : Option (Option DeploymentId) := none
  reported : Bool := false

namespace Link

/-- What the agent sends while it acts on the request answers it. Nothing is read after a Goodbye. -/
def sent (l : Link) (m : Request) (M : Machine) : Link :=
  { l with
    agent := M
    unread :=
      if m.frame = .message .goodbye then []
      else l.unread ++ (M.world.sent.drop l.agent.world.sent.length).map fun x => (m.about, x.reply) }

def isReport : Reply → Bool
  | .reconcileReport _ => true
  | _ => false

def read (l : Link) (reply : Reply) : Option Link :=
  match l.unread with
  | [] => none
  | (about, first) :: rest =>
    if first = reply then
      some { l with
        unread := rest
        heard := some about
        reported := l.reported || about == none && isReport reply }
    else none

theorem read_eq_some {l l' : Link} {reply : Reply} (h : l.read reply = some l') : ∃ about rest,
    l.unread = (about, reply) :: rest ∧ l'.unread = rest ∧ l'.heard = some about ∧
      l'.reported = (l.reported || about == none && isReport reply) := by
  rw [read] at h
  split at h
  · cases h
  next about first rest hunread =>
    split at h
    next hfirst =>
      cases h
      exact ⟨about, rest, hfirst ▸ hunread, rfl, rfl, rfl⟩
    · cases h

end Link

namespace Distributor

/-- The session the agent has granted last. -/
def sessionOf (received : List Message) : Agent.Session where
  authorityEpoch := (received.reverse.findSome? fun m =>
    match m with
    | .hello hello => some hello.epoch
    | _ => none).getD 0

def arrival (M : Machine) : Outgoing → Option Agent.Event
  | .message (.hello m) => some (.hello m)
  | .message m => some (.message (sessionOf M.world.received) m)
  | .helloConfirm | .pong _ => none

/-- The agent acts on a frame, or it does not get there. -/
inductive Handles (o : AgentOptions) (allowed : Env → Prop) (M : Machine) (frame : Outgoing) : Machine → Prop
  | acts {M' : Machine} {e : Agent.Event} : arrival M frame = some e → Agent.Step o allowed M e M' →
      Handles o allowed M frame M'
  | ignores : Handles o allowed M frame M

/-- Frames come in the order in which the agent has sent them. Where `strict`, a request goes out only while all that is
unread is about the same delivery. -/
def connection (o : AgentOptions) (allowed : Env → Prop) (strict : Prop) :
    Outside Link Controller Choice Request (Result Incoming) where
  emit m w l := (strict → m.frame ≠ .message .goodbye → ∀ x ∈ w.1.unread, x.1 = m.about) ∧
    ∃ M, Handles o allowed w.1.agent m.frame M ∧ l = w.1.sent m M
  receive r w l :=
    match r with
    | .error _ => l = w.1
    | .ok (.reply reply) => w.1.read reply = some l
    | .ok _ => False
  input _ _ := True

/-- What the other threads of the process may do in between. -/
def Beside (w w' : Link × Controller) : Prop :=
  w'.1 = w.1 ∧ (w.2.Filed → w'.2.Filed) ∧ w'.2.mem.epoch = w.2.mem.epoch

/-- The write of a delivery, and the answers it may be made for. -/
structure Attributed (copy : DeliveryRecord) (cause : Cause) (w w' : Link × Controller) : Prop where
  written : ∃ record durable, record.id = copy.id ∧ w' = (w.1, w.2.commit durable (.deliveryUpsert record))
  frame : cause = .frame → w.1.heard = some (some copy.id)
  report : cause = .report → w.1.reported = true

/-- Every step of the session. -/
structure Keeps (c : Option Copy) (w w' : Link × Controller) : Prop where
  filed : w.2.Filed → w'.2.Filed
  epoch : w'.2.mem.epoch = w.2.mem.epoch
  attributed : ∀ copy cause, c = some (.delivery copy cause) → Attributed copy cause w w'

theorem keeps_none {l : Link} {w : Link × Controller} : Keeps none w (l, w.2) := ⟨id, rfl, fun _ _ h => by cases h⟩

def attributing (o : AgentOptions) (allowed : Env → Prop) : Setting Link where
  O := connection o allowed True
  rely w w' := w'.2.mem.Filed ∧ w'.2.mem.epoch = w.2.mem.epoch ∧ w'.1 = w.1
  G := Keeps
  asked about l := ∀ x ∈ l.unread, x.1 = about
  heard about l := l.heard = some about
  reported l := l.reported = true
  own _ := True
  fenced := False
  trans h h' := ⟨h'.1, h'.2.1.trans h.2.1, h'.2.2.trans h.2.2⟩
  filed h := h.1
  epoch h := h.2.1
  fence := nofun
  asked_rely h ha := by rwa [h.2.2]
  heard_rely h ha := by rwa [h.2.2]
  reported_rely h ha := by rwa [h.2.2]
  emit := by
    rintro m w l ⟨hstrict, M, -, rfl⟩ _ _
    refine ⟨keeps_none, ?_, fun _ h => h, fun h => h⟩
    intro x hx
    simp only [Link.sent] at hx
    split at hx
    · cases hx
    next hgoodbye =>
      obtain hx | hx := List.mem_append.mp hx
      · exact hstrict trivial hgoodbye x hx
      · obtain ⟨y, -, rfl⟩ := List.mem_map.mp hx
        rfl
  receive := by
    rintro r w l hreceive -
    match r with
    | .error e =>
      obtain rfl : l = w.1 := hreceive
      exact ⟨keeps_none, fun h => h, fun _ h => ⟨h, (fun _ h => nomatch h), fun _ _ h => nomatch h⟩⟩
    | .ok (.reply reply) =>
      obtain ⟨about, rest, hunread, hrest, hheard, hreported⟩ := Link.read_eq_some hreceive
      refine ⟨keeps_none, fun h => by simp [hreported, h], fun a hasked => ?_⟩
      rw [hunread] at hasked
      have habout : about = a := hasked _ List.mem_cons_self
      refine ⟨fun x hx => hasked x (List.mem_cons_of_mem _ (hrest ▸ hx)), fun _ _ => hheard.trans (by rw [habout]), ?_⟩
      rintro rfl report ⟨⟩
      rw [hreported, habout]
      exact Bool.or_true _
    | .ok (.ping nonce) => cases hreceive
    | .ok (.other type) => cases hreceive
  delivery hfiled hname hid hretired hframe hreport := by
    refine ⟨fun h => h.commit, rfl, fun copy cause h => ?_⟩
    cases h
    exact ⟨⟨_, _, hid _, rfl⟩, hframe, hreport⟩
  target _ _ _ := ⟨fun h => h.commit, rfl, fun _ _ h => nomatch h⟩
  adopt _ _ _ _ := ⟨fun h => h.commit, rfl, fun _ _ h => nomatch h⟩
  contact _ := by
    refine ⟨fun h => ⟨h.mem.markContact _ _ _, h.dur⟩, ?_, fun _ _ h => nomatch h⟩
    simp only [markContact]
    split <;> rfl
  remove _ := ⟨fun h => h.commit, rfl, fun _ _ h => nomatch h⟩
  artifact _ := ⟨fun h => h.commit, rfl, fun _ _ h => nomatch h⟩
  compact _ := ⟨fun h => ⟨h.mem, h.mem⟩, rfl, fun _ _ h => nomatch h⟩

/-- Where every request goes out with nothing unread but answers about the same delivery, whatever the session writes on
a delivery because of an answer it has read is about that delivery. -/
theorem responses_attributed {o : DistributorOptions} {agent : AgentOptions} {allowed : Env → Prop} {w₀ : World}
    {P : Process} {M : Machine} {target : TargetId} {rounds : ℕ} {p p' : Worker Status} {w w' : Link × Controller}
    {copy : DeliveryRecord} {cause : Cause} (hw₀ : Opened o w₀)
    (hP : Pool.Run wire (program o) admits (fun _ _ _ _ => True) ⟨w₀, []⟩ P)
    (hrun : Thread.Amid (connection agent allowed True) Beside
      (program o (.session target rounds), (⟨M, [], none, false⟩, P.world.2)) (p, w))
    (hmove : Thread.Move (connection agent allowed True) p w (some (.delivery copy cause)) p' w') :
    Attributed copy cause w w' := by
  have hkeeps : (retiring o admits fun _ _ _ _ => True).Keeps P := (Discipline.keeps_nil hw₀.filed).runs hP
  have hruns : (attributing agent allowed).Runs (program o (.session target rounds)) :=
    Setting.runs_program fun _ _ _ => trivial
  obtain ⟨-, w₁, hrely, hsteps⟩ := (hruns (⟨M, [], none, false⟩, P.world.2)).amid (I := fun w => w.2.Filed) hkeeps.holds
    (fun w hw => ⟨hw.mem, rfl, rfl⟩) (fun _ _ _ => (attributing agent allowed).trans) (fun _ => keeps_none)
    (fun w w' hw h => ⟨⟨(h.2.1 hw).mem, h.2.2, h.1⟩, h.2.1 hw⟩) (fun _ _ _ hw h => h.filed hw) hrun
  exact (hsteps.move hrely (fun _ => keeps_none) hmove).1.attributed copy cause rfl

/-! Sessions by a script. -/

/-- The agent on these inputs for each frame. -/
def acted (o : AgentOptions) (inputs : Outgoing → List Env) (M : Machine) (frame : Outgoing) : Machine :=
  match arrival M frame with
  | none => M
  | some e => Agent.advance o (inputs frame) 200 M e

theorem acted_handles {o : AgentOptions} {inputs : Outgoing → List Env} {M : Machine} {frame : Outgoing} :
    Handles o (fun _ => True) M frame (acted o inputs M frame) := by
  rw [acted]
  split
  · exact .ignores
  next e harrival =>
    have hadvance : Agent.advance o (inputs frame) 200 M e = M ∨
        Agent.Step o (fun _ => True) M e (Agent.advance o (inputs frame) 200 M e) :=
      Agent.step_advance fun _ _ _ => ⟨trivial, trivial⟩
    obtain heq | hstep := hadvance
    · rw [heq]
      exact .ignores
    · exact .acts harrival hstep

/-- The distributor reads whatever the agent has sent. -/
def linked (o : AgentOptions) (inputs : Outgoing → List Env) (strict : Prop) [Decidable strict] :
    Driver (connection o (fun _ => True) strict) where
  file m w :=
    if strict → m.frame ≠ .message .goodbye → ∀ x ∈ w.1.unread, x.1 = m.about then
      some (w.1.sent m (acted o inputs w.1.agent m.frame))
    else none
  i₀ := { now := 1, bytes := .ok [1, 2, 3] }
  r₀ w := w.1.unread.head?.map fun x => .ok (.reply x.2)
  hears r w :=
    match r with
    | .error _ => some w.1
    | .ok (.reply reply) => w.1.read reply
    | .ok _ => none
  chooses _ _ := true
  emits m w l h := by
    split at h
    next hstrict =>
      cases h
      exact ⟨hstrict, _, acted_handles, rfl⟩
    · cases h
  receives r w l h := by
    match r with
    | .error _ => exact (Option.some.inj h).symm
    | .ok (.reply reply) => exact h
    | .ok (.ping nonce) => cases h
    | .ok (.other type) => cases h
  inputs _ _ _ := trivial

/-- What the session writes on a delivery in the step after these many, with the state before and after. -/
def written {O : Outside Link Controller Choice Request (Result Incoming)} (D : Driver O) (n : ℕ) (p : Worker Status)
    (w : Link × Controller) : Option ((DeliveryRecord × Cause) × (Link × Controller) × (Link × Controller)) :=
  match p.advance D (fun _ _ _ => true) n [] w with
  | none => none
  | some (p, w) =>
    match p.next D [] w with
    | some (some (.delivery copy cause), _, _, w') => some ((copy, cause), w, w')
    | _ => none

theorem written_moves {O : Outside Link Controller Choice Request (Result Incoming)} {D : Driver O} {n : ℕ}
    {p : Worker Status} {w w₁ w₂ : Link × Controller} {copy : DeliveryRecord} {cause : Cause}
    (h : written D n p w = some ((copy, cause), w₁, w₂)) : ∃ p₁ p₂, Thread.Amid O Beside (p, w) (p₁, w₁) ∧
      Thread.Move O p₁ w₁ (some (.delivery copy cause)) p₂ w₂ := by
  rw [written] at h
  split at h
  · cases h
  next p₁ w₁ hadvance =>
    split at h
    next copy cause script p₂ w₂ hnext =>
      cases h
      refine ⟨p₁, p₂, ?_, Thread.next_move hnext⟩
      exact Relation.ReflTransGen.mono (fun _ _ hmove => .inl hmove) _ _ (Thread.advance_reaches hadvance)
    · cases h

def secondPlan : DeploymentPlan where
  setId := text "set"
  rolloutSet := text "r"
  instructions := [{ exampleInstruction with configKey := text "l", generation := 2 }]

def plannedTwice : List (Order Choice (Result Incoming) Task) :=
  planned ++ [.spawn (.submitPlan secondPlan), .go 0 [] 40, .join 0]

def exampleAgent : Machine :=
  Agent.advance { target := text "t" } (List.replicate 60 { incarnation := .fill 16 5 }) 200 {}
    (.start [])

theorem reachable_exampleAgent :
    Agent.Reachable { target := text "t" } (fun _ => True) (fun _ _ => True) exampleAgent :=
  Agent.reachable_advance .empty 200 trivial fun _ _ _ => ⟨trivial, trivial⟩

/-- The agent cannot read the staged file back. -/
def unreadable : Outgoing → List Env
  | .message (.transferComplete _) => List.replicate 60 { ok := false }
  | .message (.chunk _) => List.replicate 60 { count := 3 }
  | _ => Agent.calm

/-- The refusal of the first transfer comes in two frames, and the second of them is taken for the answer to the next
delivery's Prepare. -/
theorem second_frame_misattributed : ¬ ∀ (o : DistributorOptions) (agent : AgentOptions) (w₀ : World) (P : Process)
    (M : Machine) (target : TargetId) (rounds : ℕ) (p p' : Worker Status) (w w' : Link × Controller)
    (copy : DeliveryRecord) (cause : Cause), Opened o w₀ →
    Pool.Run wire (program o) admits (fun _ _ _ _ => True) ⟨w₀, []⟩ P →
    Agent.Reachable agent (fun _ => True) (fun _ _ => True) M →
    Thread.Amid (connection agent (fun _ => True) False) Beside
      (program o (.session target rounds), (⟨M, [], none, false⟩, P.world.2)) (p, w) →
    Thread.Move (connection agent (fun _ => True) False) p w (some (.delivery copy cause)) p' w' →
    Attributed copy cause w w' := by
  intro h
  have hruns : (served (fun _ _ _ _ => true) { nodeId := text "n" } plannedTwice ([], {})).map (fun P =>
      (written (linked { target := text "t" } unreadable False) 76 (program { nodeId := text "n" }
        (.session (text "t") 9)) (⟨exampleAgent, [], none, false⟩, P.world.2)).map fun x =>
          (x.1.2, x.2.1.1.heard == some (some x.1.1.id))) = some (some (.frame, false)) := by decide +kernel
  obtain ⟨P, hP, hwrite⟩ := Option.map_eq_some_iff.mp hruns
  obtain ⟨⟨⟨copy, cause⟩, w, w'⟩, hwritten, hpair⟩ := Option.map_eq_some_iff.mp hwrite
  obtain ⟨hcause, hheard⟩ := Prod.mk.inj hpair
  obtain ⟨w₀, hopened, hrun⟩ : ∃ w, Opened { nodeId := text "n" } w ∧
      Pool.Run wire (program { nodeId := text "n" }) admits (fun _ _ _ _ => True) ⟨w, []⟩ P :=
    opened_of_served (fun _ _ _ _ _ => trivial) hP
  obtain ⟨p, p', hamid, hmove⟩ := written_moves hwritten
  have hattributed : Attributed copy cause w w' :=
    h _ _ w₀ P exampleAgent _ _ p p' w w' copy cause hopened hrun reachable_exampleAgent hamid hmove
  rw [beq_eq_false_iff_ne] at hheard
  exact hheard (hattributed.frame hcause)

/-- An agent that refuses both offers, each in one frame. -/
theorem single_answers_attributed : ∃ (copy : DeliveryRecord) (w w' : Link × Controller), copy.generation = 2 ∧
    w.1.heard = some (some copy.id) ∧ Attributed copy .frame w w' := by
  have hruns : (served (fun _ _ _ _ => true) { nodeId := text "n" } plannedTwice ([], {})).map (fun P =>
      (written (linked { target := text "t", maxArtifactBytes := 2 } unreadable True) 66 (program { nodeId := text "n" }
        (.session (text "t") 9)) (⟨exampleAgent, [], none, false⟩, P.world.2)).map fun x =>
          (x.1.1.generation, x.1.2)) = some (some (2, .frame)) := by decide +kernel
  obtain ⟨P, hP, hwrite⟩ := Option.map_eq_some_iff.mp hruns
  obtain ⟨⟨⟨copy, cause⟩, w, w'⟩, hwritten, hpair⟩ := Option.map_eq_some_iff.mp hwrite
  obtain ⟨hgeneration, rfl⟩ := Prod.mk.inj hpair
  obtain ⟨w₀, hopened, hrun⟩ : ∃ w, Opened { nodeId := text "n" } w ∧
      Pool.Run wire (program { nodeId := text "n" }) admits (fun _ _ _ _ => True) ⟨w, []⟩ P :=
    opened_of_served (fun _ _ _ _ _ => trivial) hP
  obtain ⟨p, p', hamid, hmove⟩ := written_moves hwritten
  have hattributed : Attributed copy .frame w w' := responses_attributed hopened hrun hamid hmove
  exact ⟨copy, w, w', hgeneration, hattributed.frame rfl, hattributed⟩

end Distributor

end ConfigurationFabric
