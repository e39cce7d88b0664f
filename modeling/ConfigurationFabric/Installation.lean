import ConfigurationFabric.AgentStanding
import ConfigurationFabric.DistributorTruth
import ConfigurationFabric.Library.Images

/-! The controller together with the agents of its targets, all of which may die at any point. -/

namespace ConfigurationFabric

open LittleEndian
open Threads
open Ledgers

/-- The agent of a target, the frames from it that its session has not read, and those it has been sent. -/
structure Station where
  options : AgentOptions
  machine : Machine := {}
  unread : List Reply := []
  heard : List Outgoing := []

namespace Station

variable {o : AgentOptions} {M M' : Machine} {S S' : Station} {key : ConfigKey}
  {content : DeploymentId → Content Generation Digest} {frame : Outgoing}

/-- The agent dies, or is started. -/
def Outage (o : AgentOptions) (M M' : Machine) : Prop :=
  Agent.Step o Agent.Calm M .crash M' ∨ ∃ order, Agent.Step o Agent.Calm M (.start order) M' ∧
    Agent.EndsAtNewest order M.world ∧ Agent.EndsVerifiable o order M.world.files

/-- Before a frame arrives, the agent may die; only a new session finds it started again. -/
def Before (o : AgentOptions) (M : Machine) (M' : Machine) : Outgoing → Prop
  | .message (.hello _) => Relation.ReflTransGen (Outage o) M M'
  | _ => M' = M ∨ Agent.Step o Agent.Calm M .crash M'

/-- The agent handles the frame, as far as it comes. What cannot be decoded, or finds nobody, is lost. -/
inductive Handles (o : AgentOptions) (M : Machine) : Outgoing → Machine → Prop
  | lost {frame : Outgoing} : Handles o M frame M
  | hello {m : HelloMessage} {M' : Machine} : Agent.Step o Agent.Calm M (.hello m) M' → Handles o M (.message (.hello m)) M'
  | message {session : Agent.Session} {m : Message} {M' : Machine} :
      Agent.Step o Agent.Calm M (.message session m) M' → Handles o M (.message m) M'

/-- A new session is a new connection. -/
def waiting (S : Station) : Outgoing → List Reply
  | .message (.hello _) => []
  | _ => S.unread

/-- A frame comes to a station. Of the answers, those before the connection breaks arrive. -/
structure Takes (S : Station) (frame : Outgoing) (S' : Station) : Prop where
  options : S'.options = S.options
  heard : S'.heard = S.heard ++ [frame]
  machine : ∃ M, Before S.options S.machine M frame ∧ Handles S.options M frame S'.machine
  unread : ∃ n, S'.unread = S.waiting frame ++
    ((S'.machine.world.sent.drop S.machine.world.sent.length).take n).map (·.reply)

/-- The target of a station. -/
def peer (key : ConfigKey) (S : Station) : Peer :=
  { Agent.standing (liveKeyDirectory key) S.machine.world with unread := S.unread, heard := S.heard }

/-- What a frame has to be like for the agent's books to stay in order. -/
structure Orderly (key : ConfigKey) (content : DeploymentId → Content Generation Digest) (S : Station)
    (frame : Outgoing) : Prop where
  prepare : ∀ m, frame = .message (.prepare m) → m.key = key ∧ content m.deployment = ⟨m.generation, m.digest⟩
  applyPrepare : ∀ m, frame = .message (.applyPrepare m) → m.generation ≠ (S.peer key).content.generation

theorem Outage.poised (h : Outage o M M') (hM : Agent.Poised key content M) :
    Agent.Poised key content M' ∧ Agent.Lapses key M.world M'.world := by
  obtain hcrash | ⟨order, hstart, hends⟩ := h
  · cases hcrash
    exact ⟨⟨hM.housed, fun h => (by cases h), fun h => (by cases h)⟩, .refl _⟩
  · exact hM.start hends hstart

theorem outages_poised (h : Relation.ReflTransGen (Outage o) M M') (hM : Agent.Poised key content M) :
    Agent.Poised key content M' ∧ Agent.Lapses key M.world M'.world := by
  induction h with
  | refl => exact ⟨hM, .refl _⟩
  | tail _ hstep ih =>
    obtain ⟨hposed, hlapses⟩ := ih
    obtain ⟨hposed', hlapses'⟩ := hstep.poised hposed
    exact ⟨hposed', hlapses.trans hlapses'⟩

/-- Dying alone shows nowhere. -/
theorem before_poised (h : Before o M M' frame) (hM : Agent.Poised key content M) :
    Agent.Poised key content M' ∧ Agent.Lapses key M.world M'.world ∧
      ((∀ m, frame ≠ .message (.hello m)) → Agent.standing (liveKeyDirectory key) M'.world =
        Agent.standing (liveKeyDirectory key) M.world) := by
  have hcrash (h : M' = M ∨ Agent.Step o Agent.Calm M .crash M') : Agent.Poised key content M' ∧
      M'.world = M.world := by
    obtain rfl | hcrash := h
    · exact ⟨hM, rfl⟩
    · cases hcrash
      exact ⟨⟨hM.housed, fun h => (by cases h), fun h => (by cases h)⟩, rfl⟩
  by_cases hhello : ∃ m, frame = .message (.hello m)
  · obtain ⟨m, rfl⟩ := hhello
    obtain ⟨hposed, hlapses⟩ := outages_poised h hM
    exact ⟨hposed, hlapses, fun hnone => absurd rfl (hnone m)⟩
  · have hother : M' = M ∨ Agent.Step o Agent.Calm M .crash M' := by
      unfold Before at h
      split at h
      · exact absurd ⟨_, rfl⟩ hhello
      · exact h
    obtain ⟨hposed, hworld⟩ := hcrash hother
    rw [hworld]
    exact ⟨hposed, .refl _, fun _ => rfl⟩

theorem serves_idle (x : Site Generation Digest) : serves x frame x := by
  cases frame with
  | message m => exact Agent.serves_self x m
  | helloConfirm => rfl
  | pong => rfl

/-- A window that was rolled back before a new session is as one rolled back by it. -/
theorem serves_lapsed {w w' : World} {x : Site Generation Digest} (hlapses : Agent.Lapses key w w')
    (hstill : (∀ m, frame ≠ .message (.hello m)) → Agent.standing (liveKeyDirectory key) w' =
      Agent.standing (liveKeyDirectory key) w)
    (h : serves (Agent.standing (liveKeyDirectory key) w') frame x) :
    serves (Agent.standing (liveKeyDirectory key) w) frame x := by
  by_cases hhello : ∃ m, frame = .message (.hello m)
  · obtain ⟨m, rfl⟩ := hhello
    obtain hsame | hclosed := hlapses.standing
    · rwa [hsame] at h
    · rw [hclosed] at h
      obtain rfl | rfl := h
      · exact .inr rfl
      · exact .inr rfl
  · rwa [hstill fun m heq => hhello ⟨m, heq⟩] at h

/-- What handling comes to, for a machine that may have died before. -/
structure Served (key : ConfigKey) (frame : Outgoing) (w w' : World) : Prop where
  serves : serves (Agent.standing (liveKeyDirectory key) w) frame (Agent.standing (liveKeyDirectory key) w')
  sent : ∃ more, w'.sent = w.sent ++ more ∧
    ∀ a ∈ more, truthful (Agent.standing (liveKeyDirectory key) w') frame a.reply

theorem Handles.served (h : Handles o M frame M') (hM : Agent.Poised key content M)
    (hprepare : ∀ m, frame = .message (.prepare m) → m.key = key ∧ content m.deployment = ⟨m.generation, m.digest⟩)
    (hwindow : ∀ m, frame = .message (.applyPrepare m) →
      m.generation ≠ (Agent.standing (liveKeyDirectory key) M.world).content.generation) :
    Agent.Poised key content M' ∧ Served key frame M.world M'.world := by
  cases h with
  | lost => exact ⟨hM, serves_idle _, [], (List.append_nil _).symm, fun _ h => absurd h List.not_mem_nil⟩
  | hello hstep =>
    obtain ⟨hposed, hunderway⟩ := hM.hello hstep
    exact ⟨hposed, hunderway.serves, hunderway.sent⟩
  | @message session m _ hstep =>
    have hsuits : Agent.Suits o key content M.world (.message session m) := by
      cases m with
      | prepare p => exact hprepare p rfl
      | _ => trivial
    obtain ⟨hposed, hunderway⟩ := hM.message hsuits (fun p heq => hwindow p (congrArg _ heq)) hstep
    exact ⟨hposed, hunderway.serves, hunderway.sent⟩

/-- To the session, a station is the target it expects. -/
theorem Takes.answers (h : S.Takes frame S') (hS : Agent.Poised key content S.machine)
    (horderly : S.Orderly key content frame) :
    (S.peer key).Answers frame (S'.peer key) ∧ Agent.Poised key content S'.machine := by
  obtain ⟨M, hbefore, hhandles⟩ := h.machine
  obtain ⟨hM, hlapses, hstill⟩ := before_poised hbefore hS
  obtain ⟨hposed, hserved⟩ := hhandles.served hM horderly.prepare fun m heq => by
    rw [hstill fun _ heq' => by rw [heq] at heq'; cases heq']
    exact horderly.applyPrepare m heq
  obtain ⟨n, hunread⟩ := h.unread
  obtain ⟨more, hmore, htruthful⟩ := hserved.sent
  rw [hmore, hlapses.sent, List.drop_left] at hunread
  refine ⟨⟨h.heard, serves_lapsed hlapses hstill hserved.serves, (more.take n).map (·.reply), ?_, ?_⟩, hposed⟩
  · exact hunread
  · intro reply hreply
    obtain ⟨a, ha, rfl⟩ := List.mem_map.mp hreply
    exact htruthful a (List.mem_of_mem_take ha)

end Station

/-- The stations of the targets, and the store. -/
abbrev Installation := (TargetId → Station) × Controller

namespace Installation

open Distributor (Books careful)

variable {b : Books} {o : DistributorOptions} {w w' : Installation}

def peers (b : Books) (stations : TargetId → Station) (t : TargetId) : Peer := (stations t).peer (b.key t)

/-- A session is connected to the agent of its target, whose key has a directory of its own. -/
def connected (b : Books) (target : TargetId) :
    Outside (TargetId → Station) Controller Choice Request (Result Incoming) where
  emit m w stations := isKeyDirectory (liveKeyDirectory (b.key target)) = true ∧
    (careful b).sends target m.frame (seen (peers b) w) ∧ ∃ S, (w.1 target).Takes m.frame S ∧ stations = Function.update w.1 target S
  receive r w stations :=
    match r with
    | .ok (.reply reply) => ∃ rest, (w.1 target).unread = reply :: rest ∧
        stations = Function.update w.1 target { w.1 target with unread := rest }
    | _ => stations = w.1
  input _ _ := True

def alone : Outside (TargetId → Station) Controller Choice Request (Result Incoming) where
  emit _ w stations := stations = w.1
  receive _ w stations := stations = w.1
  input _ _ := True

def surroundings (b : Books) : Distributor.Task → Outside (TargetId → Station) Controller Choice Request (Result Incoming)
  | .session target _ => connected b target
  | _ => alone

/-- Every agent is in order. -/
def Poised (b : Books) (stations : TargetId → Station) : Prop :=
  ∀ t, Agent.Poised (b.key t) b.content (stations t).machine

theorem peers_update {stations : TargetId → Station} {target : TargetId} {S : Station} :
    peers b (Function.update stations target S) =
      Function.update (peers b stations) target (S.peer (b.key target)) := by
  funext t
  rw [peers, Function.update_apply, Function.update_apply]
  split
  next heq => rw [heq]
  · rfl

theorem Poised.update {stations : TargetId → Station} {target : TargetId} {S : Station} (h : Poised b stations)
    (hS : Agent.Poised (b.key target) b.content S.machine) : Poised b (Function.update stations target S) := by
  intro t
  rw [Function.update_apply]
  split
  next heq => rw [heq]; exact hS
  · exact h t

/-! What a session may send, it has reason to. -/

theorem warranted_of_deeds {own : TargetId → Prop} {target : TargetId} {m : Request} {w : Fabric}
    (hdeeds : ∀ peers, (Distributor.session (careful b) target).emit m w peers →
      Distributor.Deed b own none w (peers, w.2))
    (hsends : (careful b).sends target m.frame w) : Distributor.warranted b w target m.frame := by
  let deaf : Peer := { w.1 target with
    unread := (w.1 target).waiting m.frame, heard := (w.1 target).heard ++ [m.frame] }
  have hanswers : (w.1 target).Answers m.frame deaf :=
    ⟨rfl, Station.serves_idle _, [], (List.append_nil _).symm, fun _ h => absurd h List.not_mem_nil⟩
  have hdeed := hdeeds _ ⟨hsends, deaf, hanswers, rfl⟩
  have hlonger (heard : List Outgoing) : heard ++ [m.frame] ≠ heard := fun h =>
    absurd (congrArg List.length h) (by simp)
  generalize hw' : (Function.update w.1 target deaf, w.2) = w' at hdeed
  have hpeer : w'.1 target = deaf := by
    rw [← hw']
    exact Function.update_self ..
  cases hdeed with
  | idle => exact absurd (congrArg Peer.heard hpeer).symm (hlonger _)
  | @asks _ target' frame p hown hwarranted hsends' hanswers' =>
    dsimp only at hpeer
    rw [Function.update_apply] at hpeer
    split at hpeer
    next heq =>
      subst heq
      have hheard := hanswers'.heard.symm.trans (congrArg Peer.heard hpeer)
      obtain rfl : frame = m.frame := List.singleton_inj.mp (List.append_cancel_left hheard)
      exact hwarranted
    · exact absurd (congrArg Peer.heard hpeer).symm (hlonger _)
  | @reads _ target' reply rest hown hunread =>
    dsimp only at hpeer
    rw [Function.update_apply] at hpeer
    split at hpeer
    next heq =>
      subst heq
      exact absurd (congrArg Peer.heard hpeer).symm (hlonger _)
    · exact absurd (congrArg Peer.heard hpeer).symm (hlonger _)

theorem orderly_of_warranted {target : TargetId} {frame : Outgoing}
    (hwarranted : Distributor.warranted b (seen (peers b) w) target frame)
    (hsends : (careful b).sends target frame (seen (peers b) w)) :
    (w.1 target).Orderly (b.key target) b.content frame := by
  constructor
  · rintro m rfl
    exact ⟨hwarranted.2, hwarranted.1⟩
  · exact hsends.2

section Shows

variable {base : TargetId → Generation} {hhistory : o.policy.maxHistoryPerLineage ≠ 0}

theorem alone_shows {fit : Request → Fabric → Prop} : alone.Shows Distributor.indoors (peers b) (Poised b) fit where
  emit hJ _ he := by
    subst he
    exact ⟨rfl, hJ⟩
  receive hJ he := by
    subst he
    exact ⟨rfl, hJ⟩
  input h := h

theorem connected_shows {target : TargetId} {rounds : ℕ} :
    (connected b target).Shows (Distributor.session (careful b) target) (peers b) (Poised b)
      ((Distributor.uprightDiscipline b base o hhistory).Fit (.session target rounds)) where
  emit := by
    rintro m w _ hJ ⟨-, hdeeds⟩ ⟨-, hsends, S, htakes, rfl⟩
    have horderly := orderly_of_warranted (warranted_of_deeds hdeeds hsends) hsends
    obtain ⟨hanswers, hposed⟩ := htakes.answers (hJ target) horderly
    exact ⟨⟨hsends, _, hanswers, peers_update⟩, hJ.update hposed⟩
  receive := by
    intro r w e hJ he
    have hsilent (he : e = w.1) : peers b e = peers b w.1 ∧ Poised b e := by
      subst he
      exact ⟨rfl, hJ⟩
    match r with
    | .ok (.reply reply) =>
      obtain ⟨rest, hunread, rfl⟩ := he
      exact ⟨⟨rest, hunread, peers_update⟩, hJ.update (hJ target)⟩
    | .ok (.ping nonce) | .ok (.other type) | .error error => exact hsilent he
  input h := h

theorem surroundings_shows (t : Distributor.Task) :
    (surroundings b t).Shows (Distributor.outside (careful b) t) (peers b) (Poised b)
      ((Distributor.uprightDiscipline b base o hhistory).Fit t) := by
  cases t with
  | session target rounds => exact connected_shows
  | _ => exact alone_shows

end Shows

/-! Lives of the controller's processes. -/

abbrev Boots (o : DistributorOptions) (w : Installation) (p : Worker Status) (w' : Installation) : Prop :=
  Relation.ReflTransGen (fun x y => ∃ c, Thread.Move alone x.1 x.2 c y.1 y.2)
    (Distributor.open o, (w.1, ⟨w.2.dur, w.2.dur⟩)) (p, w')

abbrev Works := Pool Controller Copy Choice Request (Result Incoming) Status (TargetId → Station) Distributor.Task

abbrev Runs (b : Books) (o : DistributorOptions) : Works → Works → Prop :=
  Relation.ReflTransGen (Crew.Above (surroundings b) (Distributor.program o) (peers b) (Distributor.grants (careful b))
    fun _ c w _ => (careful b).writes c w)

/-- A process that is cut short while it opens, or while it serves. -/
inductive Life (b : Books) (o : DistributorOptions) (w : Installation) : Installation → Prop
  | opening {p : Worker Status} {w' : Installation} : Boots o w p w' → Life b o w w'
  | serving {w' : Installation} {P : Works} : Boots o w (.ret (.ok ())) w' → Runs b o ⟨w', []⟩ P → Life b o w P.world

/-- One process after the other. -/
abbrev Lives (b : Books) : Installation → Installation → Prop :=
  Relation.ReflTransGen fun w w' => (careful b).starts w.2 ∧ ∃ o, Life b o w w'

theorem Boots.shown {p : Worker Status} (h : Boots o w p w') (hw : Poised b w.1) :
    Distributor.Opening o (seen (peers b) w) p (seen (peers b) w') ∧ Poised b w'.1 :=
  Thread.image_reaches alone_shows hw h

/-- The step lemma over processes. -/
theorem Life.shown {base : TargetId → Generation} (h : Life b o w w') (hstarts : (careful b).starts w.2)
    (hw : Distributor.Upright b base (seen (peers b) w)) (hposed : Poised b w.1) :
    Distributor.Tenure (careful b) o (seen (peers b) w) (seen (peers b) w') ∧ Poised b w'.1 := by
  cases h with
  | opening hboots =>
    obtain ⟨hopening, hposed'⟩ := Boots.shown hboots hposed
    exact ⟨.opening hopening, hposed'⟩
  | serving hboots hruns =>
    obtain ⟨hopening, hposed'⟩ := Boots.shown hboots hposed
    obtain ⟨hupright, hhistory⟩ := hw.opening hstarts hopening
    have hkeeps := Crew.Discipline.keeps_nil (D := Distributor.uprightDiscipline b base o (hhistory rfl)) hupright
    obtain ⟨hserves, hposed''⟩ := hkeeps.image_run (P := ⟨_, []⟩) surroundings_shows hposed' hruns
    exact ⟨.serving hopening hserves, hposed''⟩

/-- The run lemma. -/
theorem Lives.shown {base : TargetId → Generation} (h : Lives b w w')
    (hw : Distributor.Upright b base (seen (peers b) w)) (hposed : Poised b w.1) :
    Distributor.Tenures (careful b) (seen (peers b) w) (seen (peers b) w') ∧ Poised b w'.1 := by
  induction h with
  | refl => exact ⟨.refl, hposed⟩
  | tail _ hstep ih =>
    obtain ⟨hstarts, o, hlife⟩ := hstep
    obtain ⟨htenures, hposed'⟩ := ih
    obtain ⟨htenure, hposed''⟩ := hlife.shown hstarts (Distributor.Tenures.upright htenures hw) hposed'
    exact ⟨htenures.tail ⟨hstarts, o, htenure⟩, hposed''⟩

/-! What is acknowledged is on the target's disk, and what is reported. -/

def fresh (options : TargetId → AgentOptions) : TargetId → Station := fun t => { options := options t }

theorem upright_fresh {options : TargetId → AgentOptions} :
    Distributor.Upright b (fun _ => 0) (seen (peers b) (fresh options, {})) :=
  Distributor.upright_initial Distributor.quiet_idle

theorem lives_upright {options : TargetId → AgentOptions} (h : Lives b (fresh options, {}) w) :
    Distributor.Upright b (fun _ => 0) (seen (peers b) w) ∧ Poised b w.1 := by
  obtain ⟨htenures, hposed⟩ := Lives.shown h upright_fresh fun _ => Agent.poised_empty
  exact ⟨Distributor.Tenures.upright htenures upright_fresh, hposed⟩

/-- Every life of the controller among real agents is one among honest targets, and the agents stay in order. -/
theorem lives_shown (b : Books) (options : TargetId → AgentOptions) (w : Installation)
    (hw : Lives b (fresh options, {}) w) :
    Distributor.Tenures (careful b) (fun _ => Distributor.idlePeer, {}) (seen (peers b) w) ∧ Poised b w.1 :=
  Lives.shown hw (Distributor.upright_initial Distributor.quiet_idle) fun _ => Agent.poised_empty

section Pointers

variable {M : Machine} {directory : Directory} {g : Generation} {d : Digest}

theorem standing_of_pointer {v : PointerValue} (hv : Agent.pointerAt M.world.files.current directory = some v) :
    (Agent.standing directory M.world).content = ⟨v.generation, v.digest⟩ := by
  rw [Agent.standing_content, hv]

theorem unset_of_no_pointer (hnone : Agent.pointerAt M.world.files.current directory = none) :
    (Agent.standing directory M.world).content.generation = 0 := by
  rw [Agent.standing_content, hnone]

theorem pointer_of_standing (hset : g ≠ 0) (h : (Agent.standing directory M.world).content = ⟨g, d⟩) :
    ∃ v, M.world.files.current.lookup directory = some (.pointer v) ∧ v.generation = g ∧ v.digest = d := by
  cases hv : Agent.pointerAt M.world.files.current directory with
  | none => exact absurd ((congrArg Content.generation h).symm.trans (unset_of_no_pointer hv)) hset
  | some v =>
    obtain ⟨hgeneration, hdigest⟩ := Content.mk.inj ((standing_of_pointer hv).symm.trans h)
    exact ⟨v, Agent.mem_pointerAt.mp hv, hgeneration, hdigest⟩

theorem reached_of_standing (hset : g ≠ 0) (h : (Agent.standing directory M.world).Reached ⟨g, d⟩) :
    Agent.Reached M.world.files.current directory g d := by
  obtain hlater | hsame := h
  · cases hv : Agent.pointerAt M.world.files.current directory with
    | none =>
      rw [unset_of_no_pointer hv] at hlater
      exact absurd hlater (Nat.not_lt_zero _)
    | some v =>
      rw [standing_of_pointer hv] at hlater
      exact ⟨v, Agent.mem_pointerAt.mp hv, .inl hlater⟩
  · obtain ⟨v, hv, hnames⟩ := pointer_of_standing hset hsame.symm
    exact ⟨v, hv, .inr hnames⟩

end Pointers

/-- The live pointer on the target's disk names what is acknowledged, or something newer, however often the agent dies
and starts from then on. -/
theorem acknowledged_on_disk (b : Books) (options : TargetId → AgentOptions) (w : Installation)
    (hw : Lives b (fresh options, {}) w) (id : DeploymentId) (r : DeliveryRecord)
    (hr : w.2.mem.findDelivery id = some r) (hstate : r.state = .acknowledged) (hset : r.generation ≠ 0)
    (M : Machine)
    (hM : Relation.ReflTransGen (Station.Outage (w.1 r.target).options) (w.1 r.target).machine M) :
    Agent.Reached M.world.files.current (liveKeyDirectory r.key) r.generation r.digest := by
  obtain ⟨hupright, hposed⟩ := lives_upright hw
  apply reached_of_standing hset
  rw [← show b.key r.target = r.key from (hupright.lists hr).1.key, Site.Reached,
    Agent.lapses_content (Station.outages_poised hM (hposed r.target)).2]
  exact hupright.reached hr hstate

/-- Where a report shows a lineage as converged, the live pointer names just what is desired. -/
theorem converged_on_disk (b : Books) (options : TargetId → AgentOptions) (w : Installation)
    (hw : Lives b (fresh options, {}) w) (p : DistributorPolicy) (now : ℤ) (l : LineageConvergence)
    (hl : l ∈ (buildConvergenceReport w.2.mem p now).lineages) (hconverged : l.converged = true)
    (hset : l.desiredGeneration ≠ 0) (M : Machine)
    (hM : Relation.ReflTransGen (Station.Outage (w.1 l.target).options) (w.1 l.target).machine M) :
    ∃ v, M.world.files.current.lookup (liveKeyDirectory l.key) = some (.pointer v) ∧
      v.generation = l.desiredGeneration ∧ v.digest = l.desiredDigest := by
  obtain ⟨hupright, hposed⟩ := lives_upright hw
  have hcontent := (hupright.backed hl hconverged).content
  have hlater := Agent.lapses_content (Station.outages_poised hM (hposed l.target)).2
  rw [hupright.keyed hl] at hlater
  exact pointer_of_standing hset (hlater.trans ((hupright.keyed hl) ▸ hcontent))

/-! A run in which all goes well. -/

def lively : List Env := List.replicate 60 { incarnation := .fill 16 5, now := 1 }

/-- An agent that is not running is started for a new session. -/
def awake (S : Station) : Outgoing → Machine
  | .message (.hello _) => if S.machine.running then S.machine else Agent.advance S.options lively 200 S.machine (.start [])
  | _ => S.machine

def handled (o : AgentOptions) (M : Machine) : Outgoing → Machine
  | .message (.hello m) => Agent.advance o lively 200 M (.hello m)
  | .message m => Agent.advance o lively 200 M (.message {} m)
  | _ => M

def served (S : Station) (frame : Outgoing) : Station :=
  let M := handled S.options (awake S frame) frame
  { S with
    machine := M
    unread := S.waiting frame ++ (M.world.sent.drop S.machine.world.sent.length).map (·.reply)
    heard := S.heard ++ [frame] }

def Startable (S : Station) : Prop :=
  Agent.EndsAtNewest [] S.machine.world ∧ Agent.EndsVerifiable S.options [] S.machine.world.files

instance (S : Station) : Decidable (Startable S) := inferInstanceAs (Decidable (_ ∧ _))

section Served

variable {a : AgentOptions} {M : Machine} {S : Station} {frame : Outgoing}

theorem step_lively {e : Agent.Event} :
    Agent.advance a lively 200 M e = M ∨ Agent.Step a Agent.Calm M e (Agent.advance a lively 200 M e) :=
  Agent.step_advance fun i hi _ => by
    rw [List.eq_of_mem_replicate (b := i) hi]
    exact ⟨rfl, rfl⟩

theorem before_awake (hstart : Startable S) : Station.Before S.options S.machine (awake S frame) frame := by
  unfold awake
  split
  · split
    · exact .refl
    · obtain heq | hstep := step_lively (a := S.options) (M := S.machine) (e := .start [])
      · rw [heq]
        exact .refl
      · exact .single (.inr ⟨[], hstep, hstart⟩)
  next hother =>
    unfold Station.Before
    split
    next m => exact absurd rfl (hother m)
    · exact .inl rfl

theorem handles_handled : Station.Handles a M frame (handled a M frame) := by
  unfold handled
  split
  next m =>
    obtain heq | hstep := step_lively (a := a) (M := M) (e := .hello m)
    · rw [heq]
      exact .lost
    · exact .hello hstep
  next m _ =>
    obtain heq | hstep := step_lively (a := a) (M := M) (e := .message {} m)
    · rw [heq]
      exact .lost
    · exact .message hstep
  · exact .lost

theorem takes_served (hstart : Startable S) : S.Takes frame (served S frame) where
  options := rfl
  heard := rfl
  machine := ⟨_, before_awake hstart, handles_handled⟩
  unread := ⟨_, by rw [List.take_length]; rfl⟩

end Served

def byteBooks : Books where
  site _ := text "t"
  content _ := ⟨1, Digest.ofContent (text "cfg")⟩
  key _ := text "k"

def connection (t : TargetId) : Driver (connected byteBooks t) where
  file m w := if (careful byteBooks).sends t m.frame (seen (peers byteBooks) w) ∧ Startable (w.1 t) then
    some (Function.update w.1 t (served (w.1 t) m.frame)) else none
  i₀ := { now := 1, bytes := .ok (text "cfg") }
  r₀ w := (w.1 t).unread.head?.map fun reply => .ok (.reply reply)
  hears r w :=
    match r, (w.1 t).unread with
    | .ok (.reply reply), head :: rest =>
      if reply = head then some (Function.update w.1 t { w.1 t with unread := rest }) else none
    | _, _ => none
  chooses _ _ := true
  emits m w stations h := by
    split at h
    next hsends =>
      have hkey : isKeyDirectory (liveKeyDirectory (text "k")) = true := by decide
      exact ⟨hkey, hsends.1, _, takes_served hsends.2, (Option.some.inj h).symm⟩
    · cases h
  receives r w stations h := by
    split at h
    next reply head rest hunread =>
      split at h
      next heq => exact ⟨rest, by rw [hunread, heq], (Option.some.inj h).symm⟩
      · cases h
    · cases h
  inputs _ _ _ := trivial

def homely : Driver alone where
  file _ w := some w.1
  i₀ := { now := 1 }
  r₀ _ := none
  hears _ w := some w.1
  chooses _ _ := true
  emits _ _ _ h := (Option.some.inj h).symm
  receives _ _ _ h := (Option.some.inj h).symm
  inputs _ _ _ := trivial

def driver : ∀ t : Distributor.Task, Driver (surroundings byteBooks t)
  | .session target _ => connection target
  | .localDecision _ | .submitPlan _ | .retire _ _ | .ingest _ => homely

def checked (_ : Distributor.Task) (c : Option Copy) (w _ : Installation) : Bool :=
  decide ((careful byteBooks).writes c (seen (peers byteBooks) w))

def byteInstruction : DeploymentInstruction :=
  { Distributor.exampleInstruction with digest := Digest.ofContent (text "cfg") }

def bytePlan : DeploymentPlan := { Distributor.examplePlan with instructions := [byteInstruction] }

def byteArtifact : ArtifactMetadata := { Distributor.exampleArtifact with digest := Digest.ofContent (text "cfg") }

/-- A process that gets an artifact and a plan, and has a session with the agent. -/
def delivered : Option Installation :=
  match (Distributor.open (Distributor.exampleOptions 3)).advance homely (fun _ _ _ => true) 40 []
    (fresh fun t => { target := t }, ⟨{}, {}⟩) with
  | some (.ret (.ok ()), w') => Crew.perform driver (Distributor.program (Distributor.exampleOptions 3))
      (fun P t => Distributor.grants (careful byteBooks) (P.image (peers byteBooks)) t) checked 400
      [(.ingest byteArtifact, []), (.submitPlan bytePlan, []), (.session (text "t") 9, [])] w'
  | _ => none

def byteDelivery : DeploymentId := deriveDeploymentId (text "t") (text "k") 1 (Digest.ofContent (text "cfg"))

theorem delivered_lives (h : delivered = some w) : Lives byteBooks (fresh fun t => { target := t }, {}) w := by
  rw [delivered] at h
  split at h
  next w' hopen =>
    have hruns : Runs byteBooks (Distributor.exampleOptions 3) ⟨w', []⟩ ⟨w, []⟩ :=
      Crew.perform_run (fun _ _ _ _ => of_decide_eq_true) h
    exact .single ⟨⟨rfl, rfl⟩, _, .serving (Thread.advance_reaches hopen) hruns⟩
  · cases h

theorem delivered_shown : ∃ w, delivered = some w ∧
    Distributor.Tenures (careful byteBooks) (fun _ => Distributor.idlePeer, {}) (seen (peers byteBooks) w) ∧
      Poised byteBooks w.1 := by
  have hrun : delivered.isSome = true := by decide +kernel
  obtain ⟨w, hw⟩ := Option.isSome_iff_exists.mp hrun
  exact ⟨w, hw, lives_shown byteBooks _ w (delivered_lives hw)⟩

/-- The agent dies, and walks its one live directory at the next start. -/
def again (S : Station) : Machine :=
  Agent.advance S.options lively 200 ⟨S.machine.world, false⟩ (.start [liveKeyDirectory (text "k")])

def Repeatable (S : Station) : Prop :=
  S.machine.running = true ∧ Agent.EndsAtNewest [liveKeyDirectory (text "k")] S.machine.world ∧
    Agent.EndsVerifiable S.options [liveKeyDirectory (text "k")] S.machine.world.files

instance (S : Station) : Decidable (Repeatable S) := inferInstanceAs (Decidable (_ ∧ _))

theorem again_outages {S : Station} (h : Repeatable S) :
    Relation.ReflTransGen (Station.Outage S.options) S.machine (again S) := by
  obtain ⟨hrunning, hends⟩ := h
  have hcrash : Station.Outage S.options S.machine ⟨S.machine.world, false⟩ := by
    left
    have hmachine : S.machine = ⟨S.machine.world, true⟩ := by rw [← hrunning]
    rw [hmachine]
    exact .crash
  obtain heq | hstep := step_lively (a := S.options) (M := ⟨S.machine.world, false⟩)
    (e := .start [liveKeyDirectory (text "k")])
  · rw [again, heq]
    exact .single hcrash
  · exact .tail (.single hcrash) (.inr ⟨_, hstep, hends⟩)


/-- The delivery is acknowledged, and after another start of the agent the pointer is there. -/
theorem delivered_on_disk : ∃ (w : Installation) (r : DeliveryRecord), w.2.mem.findDelivery byteDelivery = some r ∧
    r.generation = 1 ∧ (again (w.1 r.target)).running = true ∧
      Agent.Reached (again (w.1 r.target)).world.files.current (liveKeyDirectory r.key) r.generation r.digest := by
  have hrun : (delivered.map fun w => ((w.2.mem.findDelivery byteDelivery).map fun r =>
      (r.state, r.generation, decide (r.target = text "t")), decide (Repeatable (w.1 (text "t"))),
        (again (w.1 (text "t"))).running)) = some (some (.acknowledged, 1, true), true, true) := by decide +kernel
  obtain ⟨w, hw, hpair⟩ := Option.map_eq_some_iff.mp hrun
  obtain ⟨hfound, hrest⟩ := Prod.mk.inj hpair
  obtain ⟨hrepeatable, hagain⟩ := Prod.mk.inj hrest
  obtain ⟨r, hr, hrecord⟩ := Option.map_eq_some_iff.mp hfound
  obtain ⟨hstate, hrecord⟩ := Prod.mk.inj hrecord
  obtain ⟨hgeneration, htarget⟩ := Prod.mk.inj hrecord
  rw [← of_decide_eq_true htarget] at hrepeatable hagain
  refine ⟨w, r, hr, hgeneration, hagain, ?_⟩
  exact acknowledged_on_disk byteBooks _ w (delivered_lives hw) byteDelivery r hr hstate
    (by rw [hgeneration]; decide) _ (again_outages (of_decide_eq_true hrepeatable))

/-- Its lineage has converged. -/
theorem converged_after_restart : ∃ (w : Installation) (l : LineageConvergence),
    (buildConvergenceReport w.2.mem {} 1).lineages = [l] ∧ l.desiredGeneration = 1 ∧
      ∃ v, (again (w.1 l.target)).world.files.current.lookup (liveKeyDirectory l.key) = some (.pointer v) ∧
        v.generation = l.desiredGeneration ∧ v.digest = l.desiredDigest := by
  have hrun : (delivered.map fun w => ((buildConvergenceReport w.2.mem {} 1).lineages.map fun l =>
      (l.converged, l.desiredGeneration, decide (l.target = text "t")), decide (Repeatable (w.1 (text "t"))))) =
        some ([(true, 1, true)], true) := by decide +kernel
  obtain ⟨w, hw, hpair⟩ := Option.map_eq_some_iff.mp hrun
  obtain ⟨hlineages, hrepeatable⟩ := Prod.mk.inj hpair
  obtain ⟨l, hl, hlineage⟩ := List.map_eq_singleton_iff.mp hlineages
  obtain ⟨hconverged, hlineage⟩ := Prod.mk.inj hlineage
  obtain ⟨hgeneration, htarget⟩ := Prod.mk.inj hlineage
  rw [← of_decide_eq_true htarget] at hrepeatable
  refine ⟨w, l, hl, hgeneration, ?_⟩
  exact converged_on_disk byteBooks _ w (delivered_lives hw) {} 1 l (hl ▸ List.mem_singleton_self l) hconverged
    (by rw [hgeneration]; decide) _ (again_outages (of_decide_eq_true hrepeatable))

end Installation

end ConfigurationFabric
