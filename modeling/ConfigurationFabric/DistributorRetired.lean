import ConfigurationFabric.DistributorFences

/-! Deliveries that have been retired. -/

namespace ConfigurationFabric

open LittleEndian
open Threads

namespace Distributor

namespace Setting

variable {ε : Type} {S : Setting ε} {w : ε × Controller}

theorem steps_commitDelivery {copy : DeliveryRecord} {make : ControllerState → DeliveryRecord}
    {Q : Status × DeliveryRecord → ε × Controller → Prop} (hid : ∀ s, (make s).id = copy.id)
    (hretired : copy.state = .retired → ∀ s, (make s).state = .retired) (herror : ∀ e r w', Q (.error e, r) w')
    (hok : ∀ w', S.rely w w' → Q (.ok (), make w'.2.mem) (w'.1, w'.2.commit true (.deliveryUpsert (make w'.2.mem)))) :
    S.Steps (commitDelivery copy .own make) Q w := by
  rw [commitDelivery]
  cases hparse : parseDeploymentId copy.id with
  | error e => exact fun w' _ => herror _ _ _
  | ok name =>
    have hname : copy.id ≠ [] := by
      intro hempty
      simp [hempty, parseDeploymentId, parseId, Result.fail] at hparse
    dsimp only
    rw [Setting.Steps, Thread.steps_bind]
    apply steps_commit
    · exact fun w' e _ => herror _ _ _
    · intro w' status durable hrely hdurable
      refine ⟨S.delivery (S.filed hrely) hname hid hretired (fun h => by cases h) (fun h => by cases h), ?_⟩
      cases status with
      | error e => exact herror _ _ _
      | ok _ =>
        rw [hdurable rfl]
        exact hok w' hrely

/-- When a retirement is reported done, it is what the store holds. -/
theorem steps_retireDeployment {id : DeploymentId} {reason : Bytes} :
    S.Steps (retireDeployment id reason) (fun status w' => status = .ok () →
      ∃ r, w'.2.mem.findDelivery id = some r ∧ r.state = .retired) w := by
  rw [retireDeployment, Setting.Steps, Thread.steps_bind, snapshotDelivery, Thread.steps_bind]
  apply steps_state
  intro w₁ hrely₁
  rw [Thread.steps_pure]
  cases hfind : w₁.2.mem.findDelivery id with
  | none => exact fun h => by cases h
  | some record =>
    have hid : record.id = id := (S.filed hrely₁).delivery hfind
    rw [Option.getD_some]
    split
    · exact fun h => by cases h
    rw [Thread.steps_bind, recordRetired]
    split
    next hretired => exact fun _ => ⟨record, hfind, hretired⟩
    rw [Thread.steps_bind, recordTransition]
    split
    · exact fun h => by cases h
    rw [Thread.steps_bind]
    apply steps_clock
    intro w₂ now _
    apply steps_commitDelivery
    · exact fun _ => rfl
    · exact fun _ _ => rfl
    · exact fun _ _ _ h => by cases h
    · intro w₃ _
      dsimp only
      rw [Thread.steps_bind, upsertDelivery, Thread.steps_bind]
      apply steps_commitDelivery
      · exact fun _ => rfl
      · exact fun _ _ => rfl
      · exact fun _ _ _ h => by cases h
      · intro w₄ _ _
        exact ⟨_, (SortedMap.find_insert _ _ _ _).trans (if_pos hid.symm), rfl⟩

end Setting

/-- The delivery is retired as long as it is stored. -/
def Retired (id : DeploymentId) (w : World) : Prop := ∀ r, w.2.mem.findDelivery id = some r → r.state = .retired

def Task.names (id : DeploymentId) : Task → Prop
  | .submitPlan plan => ∃ i ∈ plan.instructions, deriveDeploymentId i.target i.configKey i.generation i.digest = id
  | _ => False

/-- No copy of the delivery from before its retirement is written back. -/
def Unstale (id : DeploymentId) (_ : Task) (c : Option Copy) (_ _ : World) : Prop :=
  ∀ copy cause, c = some (.delivery copy cause) → copy.id = id → copy.state = .retired

theorem Act.retired {own : TargetId → Prop} {fenced : Prop} {t : Task} {c : Option Copy} {w w' : World}
    {id : DeploymentId} (h : Act own fenced c w w') (hunstale : Unstale id t c w w') (hw : Retired id w) :
    Retired id w' := by
  cases h with
  | @delivery _ copy record _ _ hid hretired =>
    intro r hr
    rw [ControllerState.findDelivery, Controller.commit, ControllerRecord.apply, SortedMap.find_insert] at hr
    split at hr
    next heq =>
      cases hr
      exact hretired (hunstale copy _ rfl (hid.symm.trans heq.symm))
    · exact hw r hr
  | @remove _ gone _ =>
    intro r hr
    rw [ControllerState.findDelivery, Controller.commit, ControllerRecord.apply, SortedMap.find_erase] at hr
    split at hr
    · cases hr
    · exact hw r hr
  | contact =>
    intro r hr
    rw [markContact] at hr
    split at hr <;> exact hw r hr
  | _ => exact hw

/-- Nothing is known of what the other threads write. -/
def retiring (o : DistributorOptions) (admits : Process → Task → Prop)
    (meets : Task → Option Copy → World → World → Prop) : Discipline wire (program o) admits meets where
  I w := w.2.Filed
  mates _ _ := True
  rely _ w w' := w'.2.mem.Filed ∧ w'.2.mem.epoch = w.2.mem.epoch
  G _ := Act (fun _ => True) False
  Q t status w := ∀ id reason, t = .retire id reason → status = .ok () → Retired id w
  symm _ := trivial
  refl _ _ h := ⟨h.mem, rfl⟩
  trans := @filed_trans
  idle := act_idle
  admitted _ _ _ := trivial
  relied h _ _ hact := ⟨(hact.filed h).mem, hact.epoch⟩
  kept h _ hact := hact.filed h
  steps {P t} _ _ := by
    have hruns := Setting.runs_program (o := o) (t := t) (S := setting
      (fun w w' => w'.2.mem.Filed ∧ w'.2.mem.epoch = w.2.mem.epoch) (fun _ => True) False
      (fun h h' => ⟨h'.1, h'.2.trans h.2⟩) (fun h => h.1) (fun h => h.2) nofun) (fun _ _ _ => trivial) P.world
    cases t with
    | retire id reason =>
      apply (Setting.steps_retireDeployment (S := setting
        (fun w w' => w'.2.mem.Filed ∧ w'.2.mem.epoch = w.2.mem.epoch) (fun _ => True) False
        (fun h h' => ⟨h'.1, h'.2.trans h.2⟩) (fun h => h.1) (fun h => h.2) nofun)).mono
      rintro status w' h _ _ ⟨⟩ hok r hr
      obtain ⟨r', hr', hretired⟩ := h hok
      cases hr'.symm.trans hr
      exact hretired
    | _ => exact hruns.mono fun _ _ _ _ _ h => nomatch h

/-- The step in which `retireDeployment` returns without an error. -/
inductive Returns (id : DeploymentId) : Process → Process → Prop
  | done {w w' : World} {before after : List (Task × Worker Status)} {reason : Bytes} {p : Worker Status}
      {c : Option Copy} : Thread.Move wire p w c (.ret (.ok ())) w' →
      Returns id ⟨w, before ++ (.retire id reason, p) :: after⟩ ⟨w', before ++ (.retire id reason, .ret (.ok ())) :: after⟩

/-- Once `retireDeployment` has returned, the delivery stays retired until a later plan names it, where no thread writes
a copy back that it took before. -/
theorem retirement_stays {o : DistributorOptions} {w : World} {id : DeploymentId} {P P₁ P₂ : Process} (hw : Opened o w)
    (hrun : Pool.Run wire (program o) admits (fun _ _ _ _ => True) ⟨w, []⟩ P) (hreturns : Returns id P P₁)
    (hlater : Pool.Run wire (program o) (fun P t => admits P t ∧ ¬ t.names id) (Unstale id) P₁ P₂) :
    Retired id P₂.world := by
  have hkeeps : (retiring o admits fun _ _ _ _ => True).Keeps P := (Discipline.keeps_nil hw.filed).runs hrun
  obtain @⟨w₁, w₂, before, after, reason, p, c, hmove⟩ := hreturns
  obtain ⟨-, hlast, hkeeps₂⟩ := hkeeps.move hmove trivial
  have hstart : Retired id w₂ := hlast id reason rfl rfl
  have hkeeps' : (retiring o (fun P t => admits P t ∧ ¬ t.names id) (Unstale id)).Keeps
      ⟨w₂, before ++ (.retire id reason, .ret (.ok ())) :: after⟩ := ⟨hkeeps₂.holds, hkeeps₂.apart, hkeeps₂.course⟩
  apply hkeeps'.run (R := fun w w' => Retired id w → Retired id w') hlater
  · exact fun _ h => h
  · exact fun _ _ _ h h' hw => h' (h hw)
  · exact fun t c w w' _ hunstale hact => hact.retired hunstale
  · exact hstart

/-! Runs by a schedule. -/

instance (id : DeploymentId) (t : Task) : Decidable (t.names id) :=
  match t with
  | .submitPlan plan => inferInstanceAs
    (Decidable (∃ i ∈ plan.instructions, deriveDeploymentId i.target i.configKey i.generation i.digest = id))
  | .session _ _ | .localDecision _ | .retire _ _ | .ingest _ => isFalse nofun

instance (id : DeploymentId) (t : Task) (c : Option Copy) (w w' : World) : Decidable (Unstale id t c w w') :=
  match c with
  | some (.delivery copy cause) =>
    decidable_of_iff (copy.id = id → copy.state = .retired)
      ⟨fun h _ _ heq => by cases heq; exact h, fun h => h _ _ rfl⟩
  | some (.target _ _) => isTrue fun _ _ h => nomatch h
  | some .own => isTrue fun _ _ h => nomatch h
  | none => isTrue fun _ _ h => nomatch h

def ended : Worker Status → Option Status
  | .ret status => some status
  | _ => none

theorem ended_eq_some {p : Worker Status} {status : Status} (h : ended p = some status) : p = .ret status := by
  cases p with
  | ret a =>
    cases h
    rfl
  | _ => cases h

/-- Thread `i` retires a delivery, and its next step is its last. -/
def returning (i : ℕ) (P : Process) : Option (DeploymentId × Process) :=
  match P.threads.drop i with
  | (.retire id reason, p) :: after =>
    match p.next freely [] P.world with
    | some (_, _, p', w') =>
      if ended p' = some (.ok ()) then some (id, ⟨w', P.threads.take i ++ (.retire id reason, p') :: after⟩) else none
    | none => none
  | _ => none

theorem returning_returns {i : ℕ} {P P₁ : Process} {id : DeploymentId} (h : returning i P = some (id, P₁)) :
    Returns id P P₁ := by
  rw [returning] at h
  split at h
  next id reason p after hdrop =>
    split at h
    next c script p' w' hnext =>
      split at h
      next hended =>
        cases h
        obtain rfl := ended_eq_some hended
        have hdone : Returns id ⟨P.world, P.threads.take i ++ (.retire id reason, p) :: after⟩
            ⟨w', P.threads.take i ++ (.retire id reason, .ret (.ok ())) :: after⟩ := .done (Thread.next_move hnext)
        rwa [← hdrop, List.take_append_drop] at hdone
      · cases h
    · cases h
  · cases h

def exampleDelivery : DeploymentId :=
  deriveDeploymentId (text "t") (text "k") 1 (.fill 32 7)

/-- A session that cannot connect has taken its copy of the delivery, which is then retired. -/
def retiredBehindSession : Option (DeploymentId × Process) :=
  (served (fun _ _ _ _ => true) { nodeId := text "n" } (planned ++ [.spawn (.session (text "t") 1),
    .go 0 [.inl { status := .fail .connectionRefused "connection refused" }] 2, .spawn (.retire exampleDelivery []),
    .go 1 [] 5]) ([], {})).bind (returning 1)

theorem stale_session_undoes_retirement : ¬ ∀ (o : DistributorOptions) (w : World) (id : DeploymentId)
    (P P₁ P₂ : Process), Opened o w → Pool.Run wire (program o) admits (fun _ _ _ _ => True) ⟨w, []⟩ P →
    Returns id P P₁ →
    Pool.Run wire (program o) (fun P t => admits P t ∧ ¬ t.names id) (fun _ _ _ _ => True) P₁ P₂ →
    Retired id P₂.world := by
  intro h
  have hrun : retiredBehindSession.map (fun x => (x.1, (Pool.follow freely (program { nodeId := text "n" })
      (fun P t => admits P t ∧ ¬ t.names exampleDelivery) (fun _ _ _ _ => true) [.go 0 [] 3] x.2).map fun P =>
        (P.world.2.mem.findDelivery exampleDelivery).map (·.state))) =
      some (exampleDelivery, some (some .failed)) := by decide +kernel
  obtain ⟨⟨id, P₁⟩, hreturned, hpair⟩ := Option.map_eq_some_iff.mp hrun
  obtain ⟨P, hserved, hreturning⟩ := Option.bind_eq_some_iff.mp hreturned
  obtain ⟨rfl, hlater⟩ := Prod.mk.inj hpair
  obtain ⟨P₂, hP₂, hfound⟩ := Option.map_eq_some_iff.mp hlater
  obtain ⟨r, hr, hfailed⟩ := Option.map_eq_some_iff.mp hfound
  obtain ⟨w, hopened, hP⟩ : ∃ w, Opened { nodeId := text "n" } w ∧
      Pool.Run wire (program { nodeId := text "n" }) admits (fun _ _ _ _ => True) ⟨w, []⟩ P :=
    opened_of_served (fun _ _ _ _ _ => trivial) hserved
  have hretired := h _ w _ P P₁ P₂ hopened hP (returning_returns hreturning)
    (Pool.follow_run (fun _ _ _ _ _ => trivial) hP₂) r hr
  rw [hfailed] at hretired
  cases hretired

/-- The session starts after the retirement. -/
theorem later_session_keeps_retirement : ∃ P : Process, P.threads.length = 2 ∧
    (P.world.2.mem.findDelivery exampleDelivery).isSome = true ∧ Retired exampleDelivery P.world := by
  have hrun : ((served (fun _ _ _ _ => true) { nodeId := text "n" } (planned ++
      [.spawn (.retire exampleDelivery []), .go 0 [] 5]) ([], {})).bind (returning 0)).map (fun x =>
      (x.1, (Pool.follow freely (program { nodeId := text "n" })
        (fun P t => admits P t ∧ ¬ t.names exampleDelivery)
        (fun t c w w' => decide (Unstale exampleDelivery t c w w')) [.spawn (.session (text "t") 1),
          .go 1 [.inl { status := .fail .connectionRefused "connection refused" }] 9] x.2).map fun P =>
        (P.threads.length, (P.world.2.mem.findDelivery exampleDelivery).isSome))) =
      some (exampleDelivery, some (2, true)) := by decide +kernel
  obtain ⟨⟨id, P₁⟩, hreturned, hpair⟩ := Option.map_eq_some_iff.mp hrun
  obtain ⟨P, hserved, hreturning⟩ := Option.bind_eq_some_iff.mp hreturned
  obtain ⟨rfl, hlater⟩ := Prod.mk.inj hpair
  obtain ⟨P₂, hP₂, hfound⟩ := Option.map_eq_some_iff.mp hlater
  obtain ⟨hlength, hstored⟩ := Prod.mk.inj hfound
  obtain ⟨w, hopened, hP⟩ : ∃ w, Opened { nodeId := text "n" } w ∧
      Pool.Run wire (program { nodeId := text "n" }) admits (fun _ _ _ _ => True) ⟨w, []⟩ P :=
    opened_of_served (fun _ _ _ _ _ => trivial) hserved
  exact ⟨P₂, hlength, hstored, retirement_stays hopened hP (returning_returns hreturning)
    (Pool.follow_run (fun _ _ _ _ => of_decide_eq_true) hP₂)⟩

end Distributor

end ConfigurationFabric
