import ConfigurationFabric.DistributorLives

/-! The boot term and incarnation that the controller holds against a target. -/

namespace ConfigurationFabric

open LittleEndian
open Threads

namespace Distributor

/-- A target's record is written back while the stored fence is still the one of the copy. -/
def Current (_ : Task) (c : Option Copy) (w _ : World) : Prop :=
  ∀ id copy, c = some (.target id copy) → (copy.getD {}).fence = w.2.mem.fence id

/-- Tasks that do not claim the same target. -/
def Apart (t u : Task) : Prop := ∀ id, t.claimed = some id → u.claimed ≠ some id

theorem Apart.symm {t u : Task} (h : Apart t u) : Apart u t := fun id hu ht => h id ht hu

theorem admits_apart {P : Process} {t : Task} (h : admits P t) (x : Task × Worker Status) (hx : x ∈ P.threads) :
    Apart x.1 t := by
  intro id hclaimed ht
  obtain hnone | hother := h
  · rw [hnone] at ht
    cases ht
  · exact hother x hx (hclaimed.trans ht.symm)

theorem Act.fence_follows {own : TargetId → Prop} {t : Task} {c : Option Copy} {w w' : World} (h : Act own True c w w')
    (hcurrent : Current t c w w') (id : TargetId) : (w.2.mem.fence id).Follows (w'.2.mem.fence id) := by
  have hwritten {copy : Option TargetRuntime} {runtime : TargetRuntime} {durable : Bool}
      (hstored : (copy.getD {}).fence = w.2.mem.fence runtime.id) (hnew : (copy.getD {}).fence.Follows runtime.fence) :
      (w.2.mem.fence id).Follows ((w.2.commit durable (.targetUpsert runtime)).mem.fence id) := by
    rw [Setting.fence_commit_target]
    split
    next heq =>
      rw [heq, ← hstored]
      exact hnew
    · exact Fence.follows_refl _
  cases h with
  | target hid hfence =>
    subst hid
    refine hwritten (hcurrent _ _ rfl) ?_
    rw [hfence]
    exact Fence.follows_refl _
  | adopt _ hid hfollows =>
    subst hid
    exact hwritten (hcurrent _ _ rfl) (hfollows trivial)
  | contact =>
    rw [Setting.fence_markContact]
    exact Fence.follows_refl _
  | _ => exact Fence.follows_refl _

/-- A fence that is not the thread's own stays. -/
theorem Act.fence_other {own : TargetId → Prop} {fenced : Prop} {t : Task} {c : Option Copy} {w w' : World}
    (h : Act own fenced c w w') (hcurrent : Current t c w w') {id : TargetId} (hid : ¬ own id) :
    w'.2.mem.fence id = w.2.mem.fence id := by
  cases h with
  | target hname hfence =>
    subst hname
    rw [Setting.fence_commit_target]
    split
    next heq => rw [heq, hfence, hcurrent _ _ rfl]
    · rfl
  | @adopt _ _ _ runtime _ hown hname =>
    subst hname
    rw [Setting.fence_commit_target]
    split
    next heq =>
      rw [heq] at hid
      exact absurd hown hid
    · rfl
  | contact => exact Setting.fence_markContact
  | _ => rfl

/-- While every record is current, no other thread moves the fence a session relies on. -/
def fencing (o : DistributorOptions) : Discipline wire (program o) admits Current where
  I w := w.2.Filed
  mates := Apart
  rely t w w' := w'.2.mem.Filed ∧ w'.2.mem.epoch = w.2.mem.epoch ∧
    ∀ id, t.claimed = some id → w'.2.mem.fence id = w.2.mem.fence id
  G t := Act (fun id => t.claimed = some id) True
  Q _ _ _ := True
  symm := Apart.symm
  refl _ _ h := ⟨h.mem, rfl, fun _ _ => rfl⟩
  trans h h' := ⟨h'.1, h'.2.1.trans h.2.1, fun id hid => (h'.2.2 id hid).trans (h.2.2 id hid)⟩
  idle _ _ := .idle
  admitted := admits_apart
  relied hw hmates hcurrent hact :=
    ⟨(hact.filed hw).mem, hact.epoch, fun id hid => hact.fence_other hcurrent fun hown => hmates id hown hid⟩
  kept hw _ hact := hact.filed hw
  steps _ _ := (Setting.runs_program (S := setting _ _ _
      (fun h h' => ⟨h'.1, h'.2.1.trans h.2.1, fun id hid => (h'.2.2 id hid).trans (h.2.2 id hid)⟩) (fun h => h.1)
      (fun h => h.2.1) fun _ hown h => h.2.2 _ hown) fun target rounds heq => by rw [heq]; rfl) _

/-- A controller that has opened its directory, with nothing running yet. -/
def Opened (o : DistributorOptions) (w : World) : Prop :=
  ∃ w₀, Lives ([], {}) w₀ ∧ Reaches («open» o) (boot w₀) (.ret (.ok ())) w

theorem Opened.filed {o : DistributorOptions} {w : World} (h : Opened o w) : w.2.Filed := by
  obtain ⟨w₀, hlives, hopen⟩ := h
  have hrests : Rests w₀ := (Lives.rests hlives rests_initial).1
  exact (reaches_open hopen).1.filed ⟨hrests.filed, hrests.filed⟩

/-- Where records are written back only while they are current, no stored term goes back and no term changes its
incarnation. -/
theorem target_fence_monotone {o : DistributorOptions} {w : World} {P P' : Process} (hw : Opened o w)
    (hP : Pool.Run wire (program o) admits Current ⟨w, []⟩ P) (hP' : Pool.Run wire (program o) admits Current P P')
    (id : TargetId) : (P.world.2.mem.fence id).Follows (P'.world.2.mem.fence id) := by
  have hkeeps : (fencing o).Keeps P := (Discipline.keeps_nil hw.filed).runs hP
  apply hkeeps.run (R := fun w w' => (w.2.mem.fence id).Follows (w'.2.mem.fence id)) hP'
  · exact fun w => Fence.follows_refl _
  · exact fun u v w h h' => h.trans h'
  · exact fun t c w w' _ hcurrent hact => hact.fence_follows hcurrent id

/-! Runs by a schedule. -/

instance (t : Task) (c : Option Copy) (w w' : World) : Decidable (Current t c w w') :=
  match c with
  | some (.target id copy) =>
    decidable_of_iff ((copy.getD {}).fence = w.2.mem.fence id) ⟨fun h _ _ heq => by cases heq; exact h, fun h => h _ _ rfl⟩
  | some (.delivery _ _) => isTrue nofun
  | some .own => isTrue nofun
  | none => isTrue nofun

def exampleInstruction : DeploymentInstruction where
  target := text "t"
  configKey := text "k"
  artifact := text "a"
  revision := 1
  generation := 1
  schema := text "s"
  schemaVersion := 1
  digest := .fill 32 7
  sizeBytes := 3
  endpoint := text "h:1"

def examplePlan : DeploymentPlan where
  setId := text "set"
  rolloutSet := text "r"
  instructions := [exampleInstruction]

def exampleArtifact : ArtifactMetadata where
  id := text "a"
  revision := 1
  schema := text "s"
  schemaVersion := 1
  digest := .fill 32 7
  sizeBytes := 3
  mediaType := text "application/octet-stream"
  producer := []
  producedAtMillis := 0
  storedAtMillis := 0

/-- An acknowledgement of the boot with this term. -/
def exampleAck (term : Term) : HelloAckMessage where
  target := text "t"
  targetClass := .unspecified
  guarantee := .atomicActivate
  term
  incarnation := .fill 16 5
  nonce := .zero 16
  committedGeneration := 0
  committedDigest := .zero 32
  committedArtifact := []
  restartCount := 0

/-- The artifact is there and the plan has been submitted. -/
def planned : List (Order Choice (Result Incoming) Task) :=
  [.spawn (.ingest exampleArtifact), .go 0 [] 9, .join 0, .spawn (.submitPlan examplePlan), .go 0 [] 40, .join 0]

/-- A session as far as the target's record after the handshake. -/
def acknowledged (i : ℕ) (term : Term) : Order Choice (Result Incoming) Task :=
  .go i [.inr (.ok (.reply (.helloAck (exampleAck term))))] 15

theorem opened_of_served {check : Task → Option Copy → World → World → Bool}
    {meets : Task → Option Copy → World → World → Prop} (hcheck : ∀ t c w w', check t c w w' = true → meets t c w w')
    {o : DistributorOptions} {orders : List (Order Choice (Result Incoming) Task)} {P : Process}
    (h : served check o orders ([], {}) = some P) :
    ∃ w, Opened o w ∧ Pool.Run wire (program o) admits meets ⟨w, []⟩ P := by
  obtain ⟨w, hopen, hfollow⟩ := Option.bind_eq_some_iff.mp h
  exact ⟨w, ⟨_, .refl, opened_reaches hopen⟩, Pool.follow_run hcheck hfollow⟩

/-- A plan is submitted again; between its read and its write of the target's record a session stores the boot term 2. -/
theorem stale_plan_lowers_term : ¬ ∀ (o : DistributorOptions) (w : World) (P P' : Process), Opened o w →
    Pool.Run wire (program o) admits (fun _ _ _ _ => True) ⟨w, []⟩ P →
    Pool.Run wire (program o) admits (fun _ _ _ _ => True) P P' →
    ∀ id, (P.world.2.mem.fence id).Follows (P'.world.2.mem.fence id) := by
  intro h
  have hfirst : ((served (fun _ _ _ _ => true) { nodeId := text "n" } (planned ++
      [.spawn (.submitPlan examplePlan), .go 0 [] 5, .spawn (.session (text "t") 1), acknowledged 1 2]) ([], {})).map
      fun P => ((P.world.2.mem.fence (text "t")).term, (resumed (fun _ _ _ _ => true) { nodeId := text "n" }
        [.go 0 [] 2] P).map fun P => (P.world.2.mem.fence (text "t")).term)) = some (2, some 0) := by
    decide +kernel
  obtain ⟨P, hP, hpair⟩ := Option.map_eq_some_iff.mp hfirst
  obtain ⟨htwo, hsecond⟩ := Prod.mk.inj hpair
  obtain ⟨P', hP', hzero⟩ := Option.map_eq_some_iff.mp hsecond
  obtain ⟨w, hopened, hrun⟩ : ∃ w, Opened { nodeId := text "n" } w ∧
      Pool.Run wire (program { nodeId := text "n" }) admits (fun _ _ _ _ => True) ⟨w, []⟩ P :=
    opened_of_served (fun _ _ _ _ _ => trivial) hP
  have hle := (h _ w P P' hopened hrun (Pool.follow_run (fun _ _ _ _ _ => trivial) hP') (text "t")).1
  rw [htwo, hzero] at hle
  exact absurd hle (by decide)

/-- The same plan, read and written after the session has stored the term. -/
theorem current_plan_keeps_term : ∃ P P' : Process,
    (P.world.2.mem.fence (text "t")).term = 1 ∧ P'.threads.length = 2 ∧
      (P.world.2.mem.fence (text "t")).Follows (P'.world.2.mem.fence (text "t")) := by
  have hfirst : ((served (fun t c w w' => decide (Current t c w w')) { nodeId := text "n" } (planned ++
      [.spawn (.session (text "t") 1), acknowledged 0 1]) ([], {})).map
      fun P => ((P.world.2.mem.fence (text "t")).term, (resumed (fun t c w w' => decide (Current t c w w'))
        { nodeId := text "n" } [.spawn (.submitPlan examplePlan), .go 1 [] 40] P).map fun P => P.threads.length)) =
      some (1, some 2) := by
    decide +kernel
  obtain ⟨P, hP, hpair⟩ := Option.map_eq_some_iff.mp hfirst
  obtain ⟨hone, hsecond⟩ := Prod.mk.inj hpair
  obtain ⟨P', hP', hthreads⟩ := Option.map_eq_some_iff.mp hsecond
  obtain ⟨w, hopened, hrun⟩ := opened_of_served (fun _ _ _ _ => of_decide_eq_true) hP
  exact ⟨P, P', hone, hthreads,
    target_fence_monotone hopened hrun (Pool.follow_run (fun _ _ _ _ => of_decide_eq_true) hP') (text "t")⟩

end Distributor

end ConfigurationFabric
