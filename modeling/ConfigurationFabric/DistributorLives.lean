import ConfigurationFabric.AgentAuthority
import ConfigurationFabric.DistributorTasks

/-! Processes of a distributor on one state directory, one after the other. -/

namespace ConfigurationFabric

open LittleEndian
open Threads

namespace Distributor

/-- The frames sent so far, by all processes, and the store. -/
abbrev World := List Request × Controller

/-- Frames that go out are kept; what comes in and what else happens is anybody's choice. -/
def wire : Outside (List Request) Controller Choice Request (Result Incoming) where
  emit m w sent := sent = w.1 ++ [m]
  receive _ w sent := sent = w.1
  input _ _ := True

theorem appended (m : Request) (w : World) (e : List Request) (h : some (w.1 ++ [m]) = some e) : e = w.1 ++ [m] :=
  (Option.some.inj h).symm

def freely : Driver wire where
  file m w := some (w.1 ++ [m])
  i₀ := {}
  r₀ _ := none
  hears _ w := some w.1
  chooses _ _ := true
  emits := appended
  receives _ _ _ h := (Option.some.inj h).symm
  inputs _ _ _ := trivial

abbrev Process := Pool Controller Copy Choice Request (Result Incoming) Status (List Request) Task

def Task.claimed : Task → Option TargetId
  | .session target _ => some target
  | _ => none

/-- A target has one session at a time. -/
def admits (P : Process) (t : Task) : Prop := t.claimed = none ∨ ∀ x ∈ P.threads, x.1.claimed ≠ t.claimed

instance (P : Process) (t : Task) : Decidable (admits P t) :=
  inferInstanceAs (Decidable (t.claimed = none ∨ ∀ x ∈ P.threads, x.1.claimed ≠ t.claimed))

/-! What one step can do. -/

inductive Act (own : TargetId → Prop) (fenced : Prop) : Option Copy → World → World → Prop
  | idle {w : World} : Act own fenced none w w
  | sent {w : World} {m : Request} :
      (∀ hello, m.frame = .message (.hello hello) → hello.epoch = w.2.mem.epoch) →
      Act own fenced none w (w.1 ++ [m], w.2)
  | delivery {w : World} {copy record : DeliveryRecord} {cause : Cause} {durable : Bool} : record.id = copy.id →
      (copy.state = .retired → record.state = .retired) →
      Act own fenced (some (.delivery copy cause)) w (w.1, w.2.commit durable (.deliveryUpsert record))
  | target {w : World} {id : TargetId} {copy : Option TargetRuntime} {runtime : TargetRuntime} {durable : Bool} :
      runtime.id = id → runtime.fence = (copy.getD {}).fence →
      Act own fenced (some (.target id copy)) w (w.1, w.2.commit durable (.targetUpsert runtime))
  | adopt {w : World} {id : TargetId} {copy : Option TargetRuntime} {runtime : TargetRuntime} {durable : Bool} :
      own id → runtime.id = id → (fenced → (copy.getD {}).fence.Follows runtime.fence) →
      Act own fenced (some (.target id copy)) w (w.1, w.2.commit durable (.targetUpsert runtime))
  | contact {w : World} {target : TargetId} {current : Bool} {atMillis : ℤ} :
      Act own fenced (some .own) w (w.1, { w.2 with mem := markContact target current atMillis w.2.mem })
  | remove {w : World} {id : DeploymentId} {durable : Bool} :
      Act own fenced (some .own) w (w.1, w.2.commit durable (.deliveryRemove id))
  | artifact {w : World} {metadata : ArtifactMetadata} {durable : Bool} :
      Act own fenced (some .own) w (w.1, w.2.commit durable (.artifactUpsert metadata))
  | compact {w : World} : Act own fenced (some .own) w (w.1, { w.2 with dur := w.2.mem })

/-- The setting in which nothing is known of the frames that come in. -/
def setting (rely : World → World → Prop) (own : TargetId → Prop) (fenced : Prop)
    (trans : ∀ {w w' w''}, rely w w' → rely w' w'' → rely w w'') (filed : ∀ {w w'}, rely w w' → w'.2.mem.Filed)
    (epoch : ∀ {w w'}, rely w w' → w'.2.mem.epoch = w.2.mem.epoch)
    (fence : ∀ {w w' id}, fenced → own id → rely w w' → w'.2.mem.fence id = w.2.mem.fence id) :
    Setting (List Request) where
  O := wire
  rely := rely
  G := Act own fenced
  asked _ _ := True
  heard _ _ := True
  reported _ := True
  own := own
  fenced := fenced
  trans := trans
  filed := filed
  epoch := epoch
  fence := fence
  asked_rely _ h := h
  heard_rely _ h := h
  reported_rely _ h := h
  emit := by
    rintro m w _ rfl _ hhello
    exact ⟨.sent hhello, trivial, fun _ h => h, fun h => h⟩
  receive := by
    rintro r w _ rfl _
    exact ⟨.idle, fun h => h, fun _ _ => ⟨trivial, fun _ _ => trivial, fun _ _ _ => trivial⟩⟩
  delivery _ _ hid hretired _ _ := .delivery (hid _) fun h => hretired h _
  target _ := .target
  adopt _ := .adopt
  contact _ := .contact
  remove _ := .remove
  artifact _ := .artifact
  compact _ := .compact

namespace Act

variable {own : TargetId → Prop} {fenced : Prop} {c : Option Copy} {w w' : World}

theorem filed (h : Act own fenced c w w') (hw : w.2.Filed) : w'.2.Filed := by
  cases h with
  | idle => exact hw
  | sent => exact hw
  | delivery => exact hw.commit
  | target => exact hw.commit
  | adopt => exact hw.commit
  | contact => exact ⟨hw.1.markContact _ _ _, hw.2⟩
  | remove => exact hw.commit
  | artifact => exact hw.commit
  | compact => exact ⟨hw.1, hw.1⟩

/-- Only an identity record moves the epoch. -/
theorem epoch (h : Act own fenced c w w') : w'.2.mem.epoch = w.2.mem.epoch := by
  cases h with
  | contact =>
    simp only [markContact]
    split <;> rfl
  | _ => rfl

theorem epoch_dur (h : Act own fenced c w w') (hw : w.2.dur.epoch = w.2.mem.epoch) :
    w'.2.dur.epoch = w.2.mem.epoch := by
  cases h with
  | idle => exact hw
  | sent => exact hw
  | @delivery _ _ _ _ durable => cases durable <;> exact hw
  | @target _ _ _ _ durable => cases durable <;> exact hw
  | @adopt _ _ _ _ durable => cases durable <;> exact hw
  | contact => exact hw
  | @remove _ _ durable => cases durable <;> exact hw
  | @artifact _ _ durable => cases durable <;> exact hw
  | compact => rfl

end Act

/-! Start-up. -/

/-- A process that starts has what the journal holds. -/
def boot (w : World) : World := (w.1, ⟨w.2.dur, w.2.dur⟩)

/-- How far a thread comes when it runs alone. -/
abbrev Reaches (p : Worker Status) (w : World) (p' : Worker Status) (w' : World) : Prop :=
  Relation.ReflTransGen (fun x y => ∃ c, Thread.Move wire x.1 x.2 c y.1 y.2) (p, w) (p', w')

/-- What holds of a delivery in memory and in the journal. -/
def Stores (id : DeploymentId) (T : DeliveryRecord → Prop) (w : World) : Prop :=
  (∀ r, w.2.mem.findDelivery id = some r → T r) ∧ ∀ r, w.2.dur.findDelivery id = some r → T r

/-- Nothing is sent while a process opens, and the epoch in the journal does not go back. A delivery changes at most from
transferred to offered. -/
structure Opens (w w' : World) : Prop where
  sent : w'.1 = w.1
  epoch : w.2.dur.epoch ≤ w'.2.dur.epoch
  filed : w.2.Filed → w'.2.Filed
  stores : ∀ {id : DeploymentId} {T : DeliveryRecord → Prop},
    (∀ r detail, r.state = .transferred → T r → T { r with state := .offered, lastDetail := detail }) →
    Stores id T w → Stores id T w'

theorem Opens.refl (w : World) : Opens w w := ⟨rfl, le_refl _, id, fun _ h => h⟩

theorem Opens.trans {u v w : World} (h : Opens u v) (h' : Opens v w) : Opens u w :=
  ⟨h'.sent.trans h.sent, le_trans h.epoch h'.epoch, fun hu => h'.filed (h.filed hu),
    fun hT hu => h'.stores hT (h.stores hT hu)⟩

theorem reopened_stores {s : ControllerState} {id : DeploymentId} {T : DeliveryRecord → Prop}
    (hT : ∀ r detail, r.state = .transferred → T r → T { r with state := .offered, lastDetail := detail })
    (h : ∀ r, s.findDelivery id = some r → T r) (r : DeliveryRecord) (hr : (reopened s).findDelivery id = some r) :
    T r := by
  rw [ControllerState.findDelivery, reopened, SortedMap.find_map s.deliveries fun r =>
    if r.state = .transferred then
      { r with
        state := .offered
        lastDetail := text "reset to offered after distributor restart: the previous transfer was never verified" }
    else r] at hr
  obtain ⟨r', hr', rfl⟩ := Option.map_eq_some_iff.mp hr
  split
  next htransferred => exact hT r' _ htransferred (h r' hr')
  · exact h r' hr'

theorem reopened_filed {s : ControllerState} (h : s.Filed) : (reopened s).Filed := by
  constructor
  · intro e he
    obtain ⟨d, hd, rfl⟩ := List.mem_map.mp he
    dsimp only
    split <;> exact h.deliveries d hd
  · intro e he
    obtain ⟨d, hd, rfl⟩ := List.mem_map.mp he
    exact h.targets d hd
  · exact List.pairwise_map.mpr h.sorted

theorem steps_compactIfNeeded {w : World} {n : Epoch} (hmem : w.2.mem.epoch = n) (hdur : w.2.dur.epoch = n) :
    compactIfNeeded.Steps wire Eq (fun _ => Opens) (fun _ w' => w'.2.mem.epoch = n ∧ w'.2.dur.epoch = n) w := by
  have hcompact {written : Bool} {status : Status} : (do
      compact written
      return status : Worker Status).Steps wire Eq (fun _ => Opens)
        (fun _ w' => w'.2.mem.epoch = n ∧ w'.2.dur.epoch = n) w := by
    rw [Thread.steps_bind, compact]
    split
    · exact ⟨hmem, hdur⟩
    · rw [Thread.steps_bind, Thread.steps_update]
      rintro _ rfl
      exact ⟨⟨rfl, le_of_eq (hdur.trans hmem.symm), fun h => ⟨h.mem, h.mem⟩, fun _ h => ⟨h.1, h.1⟩⟩, hmem, hmem⟩
  rw [compactIfNeeded, Thread.steps_bind, Thread.steps_ask]
  rintro _ choice rfl -
  split
  · exact ⟨hmem, hdur⟩
  · exact hcompact
  · exact hcompact

theorem steps_open {o : DistributorOptions} {w : World} (hw : w.2.mem.epoch = w.2.dur.epoch) :
    («open» o).Steps wire Eq (fun _ => Opens) (fun status w' => status = .ok () →
      w'.2.mem.epoch = w'.2.dur.epoch ∧ w.2.dur.epoch < w'.2.dur.epoch) w := by
  rw [«open»]
  split
  · exact fun h => nomatch h
  split
  · exact fun h => nomatch h
  rw [Thread.steps_bind, Thread.steps_ask]
  rintro _ choice rfl -
  split
  · exact fun h => nomatch h
  rw [Thread.steps_bind, Distributor.epoch, Thread.steps_bind, state, Thread.steps_bind, Thread.steps_view]
  rintro _ rfl
  rw [Thread.steps_pure, Thread.steps_pure]
  split
  · exact fun h => nomatch h
  next next hnext =>
    have hlt : w.2.dur.epoch < next := by
      rw [checkedAdd] at hnext
      split at hnext
      · cases hnext
      · cases hnext
        rw [hw]
        exact Nat.lt_succ_self _
    rw [Thread.steps_bind, Thread.steps_ask]
    rintro _ identity rfl -
    rw [Thread.steps_bind, clock, Thread.steps_bind, Thread.steps_ask]
    rintro _ started rfl -
    rw [Thread.steps_pure, Thread.steps_bind, commit, Thread.steps_bind, Thread.steps_ask]
    rintro _ outcome rfl -
    have hopens {durable : Bool} {incarnation : IncarnationId} {startedAtMillis : ℤ} :
        Opens w (w.1, w.2.commit durable (.identity o.nodeId next incarnation startedAtMillis)) := by
      refine ⟨rfl, ?_, fun h => h.commit, fun _ h => ⟨h.1, ?_⟩⟩
      · cases durable with
        | false => exact le_refl _
        | true => exact le_of_lt hlt
      · cases durable <;> exact h.2
    split
    · rw [Thread.steps_bind, state, Thread.steps_bind, Thread.steps_view]
      rintro _ rfl h
      exact nomatch h
    · rw [Thread.steps_bind, Thread.steps_update]
      rintro _ rfl
      exact ⟨hopens, fun h => nomatch h⟩
    · rw [Thread.steps_bind, Thread.steps_update]
      rintro _ rfl
      refine ⟨hopens, ?_⟩
      rw [Thread.steps_pure]
      dsimp only
      rw [Thread.steps_bind, Thread.steps_update]
      rintro _ rfl
      refine ⟨⟨rfl, le_refl _, fun h => ⟨reopened_filed h.mem, h.dur⟩, fun hT h =>
        ⟨reopened_stores hT h.1, h.2⟩⟩, ?_⟩
      apply (steps_compactIfNeeded rfl rfl).mono
      rintro _ w' ⟨hmem, hdur⟩ -
      exact ⟨hmem.trans hdur.symm, lt_of_lt_of_eq hlt hdur.symm⟩

theorem reaches_open {o : DistributorOptions} {w w' : World} {p : Worker Status}
    (h : Reaches («open» o) (boot w) p w') : Opens (boot w) w' ∧ p.Steps wire Eq (fun _ => Opens)
      (fun status w' => status = .ok () → w'.2.mem.epoch = w'.2.dur.epoch ∧ w.2.dur.epoch < w'.2.dur.epoch) w' :=
  (steps_open (o := o) (w := boot w) rfl).reaches (R := Opens) (fun _ => rfl) (fun w => .refl w) .refl
    (fun _ _ _ => .trans) (fun _ _ _ h => h) h

/-! Lives. -/

/-- A process that is cut short while it opens, or while it serves. -/
inductive Life (o : DistributorOptions) (w : World) : World → Prop
  | opening {p : Worker Status} {w' : World} : Reaches («open» o) (boot w) p w' → Life o w w'
  | serving {w' : World} {P : Process} : Reaches («open» o) (boot w) (.ret (.ok ())) w' →
      Pool.Run wire (program o) admits (fun _ _ _ _ => True) ⟨w', []⟩ P → Life o w P.world

abbrev Lives : World → World → Prop := Relation.ReflTransGen fun w w' => ∃ o, Life o w w'

def helloEpoch (m : Request) : Option Epoch :=
  match m.frame with
  | .message (.hello hello) => some hello.epoch
  | _ => none

/-- The epochs that Hellos carried. -/
def epochs (sent : List Request) : List Epoch := sent.filterMap helloEpoch

/-- The frames a process sends all carry its epoch. -/
structure Serving (n : Epoch) (before : List Request) (w : World) : Prop where
  filed : w.2.Filed
  mem : w.2.mem.epoch = n
  dur : w.2.dur.epoch = n
  sent : ∃ later, w.1 = before ++ later ∧ ∀ x ∈ epochs later, x = n

theorem Serving.act {own : TargetId → Prop} {fenced : Prop} {c : Option Copy} {n : Epoch} {before : List Request}
    {w w' : World} (h : Serving n before w) (hact : Act own fenced c w w') : Serving n before w' := by
  refine ⟨hact.filed h.filed, hact.epoch.trans h.mem, (hact.epoch_dur (h.dur.trans h.mem.symm)).trans h.mem, ?_⟩
  obtain ⟨later, hsent, hlater⟩ := h.sent
  cases hact with
  | @sent _ m hhello =>
    refine ⟨later ++ [m], by simp [hsent], fun x hx => ?_⟩
    rw [epochs, List.filterMap_append] at hx
    obtain hx | hx := List.mem_append.mp hx
    · exact hlater x hx
    · obtain ⟨m', hm', hepoch⟩ := List.mem_filterMap.mp hx
      obtain rfl := List.mem_singleton.mp hm'
      unfold helloEpoch at hepoch
      split at hepoch
      next hello hframe =>
        cases hepoch
        exact (hhello hello hframe).trans h.mem
      · cases hepoch
  | _ => exact ⟨later, hsent, hlater⟩

/-- Any task may run beside any other that the process admits, and the epoch stays. -/
theorem filed_trans {_ : Task} {w w' w'' : World} (h : w'.2.mem.Filed ∧ w'.2.mem.epoch = w.2.mem.epoch)
    (h' : w''.2.mem.Filed ∧ w''.2.mem.epoch = w'.2.mem.epoch) : w''.2.mem.Filed ∧ w''.2.mem.epoch = w.2.mem.epoch :=
  ⟨h'.1, h'.2.trans h.2⟩

theorem act_idle (_ : Task) (w : World) : Act (fun _ => True) False none w w := .idle

def servingDiscipline (o : DistributorOptions) (n : Epoch) (before : List Request) :
    Discipline wire (program o) admits fun _ _ _ _ => True where
  I := Serving n before
  mates _ _ := True
  rely _ w w' := w'.2.mem.Filed ∧ w'.2.mem.epoch = w.2.mem.epoch
  G _ := Act (fun _ => True) False
  Q _ _ _ := True
  symm _ := trivial
  refl _ _ h := ⟨h.filed.mem, rfl⟩
  trans := @filed_trans
  idle := act_idle
  admitted _ _ _ := trivial
  relied h _ _ hact := ⟨(hact.filed h.filed).mem, hact.epoch⟩
  kept h _ hact := h.act hact
  steps _ _ := (Setting.runs_program (S := setting _ _ _ (fun h h' => ⟨h'.1, h'.2.trans h.2⟩) (fun h => h.1)
    (fun h => h.2) nofun) fun _ _ _ => trivial) _

/-- Between two processes: no epoch sent is beyond the one in the journal. -/
structure Rests (w : World) : Prop where
  filed : w.2.dur.Filed
  sent : ∀ x ∈ epochs w.1, x ≤ w.2.dur.epoch

theorem rests_initial : Rests ([], {}) := ⟨.initial, fun _ hx => absurd hx List.not_mem_nil⟩

theorem Life.rests {o : DistributorOptions} {w w' : World} (h : Life o w w') (hw : Rests w) :
    Rests w' ∧ w.2.dur.epoch ≤ w'.2.dur.epoch ∧
      ∃ later, w'.1 = w.1 ++ later ∧ ∀ y ∈ epochs later, w.2.dur.epoch < y := by
  cases h with
  | opening hreach =>
    obtain ⟨hopens, -⟩ := reaches_open hreach
    refine ⟨⟨(hopens.filed ⟨hw.filed, hw.filed⟩).dur, fun x hx => ?_⟩, hopens.epoch, [], ?_, nofun⟩
    · rw [hopens.sent] at hx
      exact le_trans (hw.sent x hx) hopens.epoch
    · rw [hopens.sent, List.append_nil]
      rfl
  | @serving w₁ P hreach hrun =>
    obtain ⟨hopens, hlast⟩ := reaches_open hreach
    obtain ⟨hepoch, hlt⟩ := hlast rfl
    have hstart : Serving w₁.2.dur.epoch w.1 w₁ :=
      ⟨hopens.filed ⟨hw.filed, hw.filed⟩, hepoch, rfl, [], by rw [hopens.sent, List.append_nil]; rfl, nofun⟩
    have hkeeps : (servingDiscipline o w₁.2.dur.epoch w.1).Keeps P := (Discipline.keeps_nil hstart).runs hrun
    obtain ⟨hfiled, -, hdur, later, hsent, hlater⟩ := hkeeps.holds
    refine ⟨⟨hfiled.dur, fun x hx => ?_⟩, le_trans hopens.epoch (le_of_eq hdur.symm), later, hsent, fun y hy => ?_⟩
    · rw [hsent, epochs, List.filterMap_append] at hx
      rw [hdur]
      obtain hx | hx := List.mem_append.mp hx
      · exact le_trans (hw.sent x hx) (le_of_lt hlt)
      · exact le_of_eq (hlater x hx)
    · rw [hlater y hy]
      exact hlt

theorem Lives.rests {w w' : World} (h : Lives w w') (hw : Rests w) :
    Rests w' ∧ w.2.dur.epoch ≤ w'.2.dur.epoch ∧
      ∃ later, w'.1 = w.1 ++ later ∧ ∀ y ∈ epochs later, w.2.dur.epoch < y := by
  induction h with
  | refl => exact ⟨hw, le_refl _, [], (List.append_nil _).symm, nofun⟩
  | tail _ hlife ih =>
    obtain ⟨hrests, hle, later, hsent, hlater⟩ := ih
    obtain ⟨o, hlife⟩ := hlife
    obtain ⟨hrests', hle', more, hsent', hmore⟩ := hlife.rests hrests
    refine ⟨hrests', le_trans hle hle', later ++ more, by rw [hsent', hsent, List.append_assoc], fun y hy => ?_⟩
    rw [epochs, List.filterMap_append] at hy
    obtain hy | hy := List.mem_append.mp hy
    · exact hlater y hy
    · exact lt_of_le_of_lt hle (hmore y hy)

/-! Lives by a schedule. -/

/-- The state after an opening without trouble. -/
def opened (o : DistributorOptions) (w : World) : Option World :=
  match («open» o).advance freely (fun _ _ _ => true) 40 [] (boot w) with
  | some (.ret (.ok ()), w') => some w'
  | _ => none

/-- A process that follows the orders, where every step passes the check. -/
def served (check : Task → Option Copy → World → World → Bool) (o : DistributorOptions)
    (orders : List (Order Choice (Result Incoming) Task)) (w : World) : Option Process :=
  (opened o w).bind fun w' => Pool.follow freely (program o) admits check orders ⟨w', []⟩

theorem opened_reaches {o : DistributorOptions} {w w' : World} (h : opened o w = some w') :
    Reaches («open» o) (boot w) (.ret (.ok ())) w' := by
  rw [opened] at h
  split at h
  next w' hopen =>
    cases h
    exact Thread.advance_reaches hopen
  · cases h

/-- What a process does next by the orders. -/
def resumed (check : Task → Option Copy → World → World → Bool) (o : DistributorOptions)
    (orders : List (Order Choice (Result Incoming) Task)) (P : Process) : Option Process :=
  P.follow freely (program o) admits check orders

theorem served_life {o : DistributorOptions} {orders : List (Order Choice (Result Incoming) Task)} {w : World}
    {P : Process} (h : served (fun _ _ _ _ => true) o orders w = some P) : Life o w P.world := by
  obtain ⟨w', hopen, hfollow⟩ := Option.bind_eq_some_iff.mp h
  exact .serving (opened_reaches hopen) (Pool.follow_run (fun _ _ _ _ _ => trivial) hfollow)

/-- Every epoch in a Hello and every term in a HelloAck is beyond those of all earlier processes. -/
theorem authority_unique :
    (∀ {w w' : World}, Lives ([], {}) w → Lives w w' → ∃ later, w'.1 = w.1 ++ later ∧
      ∀ x ∈ epochs w.1, ∀ y ∈ epochs later, x < y) ∧
    (∀ {allowed : Env → Prop} {M M' : Machine}, Agent.Lives allowed {} M → M.running = false →
      Agent.Lives allowed M M' → ∃ later, M'.world.sent = M.world.sent ++ later ∧
        ∀ x ∈ Agent.acknowledged M.world.sent, ∀ y ∈ Agent.acknowledged later, x.2.term < y.2.term) := by
  constructor
  · intro w w' hw hw'
    obtain ⟨hrests, -, -⟩ := Lives.rests hw rests_initial
    obtain ⟨-, -, later, hsent, hlater⟩ := Lives.rests hw' hrests
    exact ⟨later, hsent, fun x hx y hy => lt_of_le_of_lt (hrests.sent x hx) (hlater y hy)⟩
  · intro allowed M M' hM hdown hM'
    exact Agent.terms_increase hM hdown hM'

/-- One session, as far as its Hello. -/
def greeted (w : World) : Option Process :=
  served (fun _ _ _ _ => true) { nodeId := text "n" } [.spawn (.session (text "t") 1), .go 0 [] 6] w

/-- An agent that is started again and greeted again. -/
def agentGreetedTwice : Machine :=
  Agent.visited Agent.firstHello (Agent.started { target := text "t" } (Agent.crashed Agent.onceAccepted))

theorem restart_counts_up :
    (∃ P Q : Process, epochs P.world.1 = [1] ∧ ∃ later, Q.world.1 = P.world.1 ++ later ∧ epochs Q.world.1 = [1, 2] ∧
      ∀ x ∈ epochs P.world.1, ∀ y ∈ epochs later, x < y) ∧
    (Agent.acknowledged agentGreetedTwice.world.sent).map (·.2.term) = [1, 2] ∧
    ∃ later, agentGreetedTwice.world.sent = (Agent.crashed Agent.onceAccepted).world.sent ++ later ∧
      ∀ x ∈ Agent.acknowledged (Agent.crashed Agent.onceAccepted).world.sent, ∀ y ∈ Agent.acknowledged later,
        x.2.term < y.2.term := by
  refine ⟨?_, by decide, ?_⟩
  · have hone : (greeted ([], {})).map (fun P => epochs P.world.1) = some [1] := by decide
    have htwo : ((greeted ([], {})).bind fun P => greeted P.world).map (fun P => epochs P.world.1) = some [1, 2] := by
      decide
    obtain ⟨P, hP, hsent⟩ := Option.map_eq_some_iff.mp hone
    rw [hP, Option.bind_some] at htwo
    obtain ⟨Q, hQ, hsent'⟩ := Option.map_eq_some_iff.mp htwo
    obtain ⟨later, hlater, hlt⟩ := authority_unique.1 (.single ⟨_, served_life hP⟩) (.single ⟨_, served_life hQ⟩)
    exact ⟨P, Q, hsent, later, hlater, hsent', hlt⟩
  · apply authority_unique.2 (Agent.lives_onceAccepted.trans (Agent.lives_crashed _)) rfl
    exact (Agent.lives_started _ _).trans (Agent.lives_visited _ _)

end Distributor

end ConfigurationFabric
