import ConfigurationFabric.AgentStartup

/-! Runs of the agent: starts, messages and crashes in any order. -/

namespace ConfigurationFabric

open LittleEndian
open Program

/-- The agent's process with everything it leaves behind when it dies. -/
structure Machine where
  world : World := {}
  running : Bool := false

def World.receive (m : Message) (w : World) : World := { w with received := w.received ++ [m] }

/-- The store has been replayed and the process has nothing else in memory. -/
def World.restart (w : World) : World := { w with mem := w.dur, chunkCounter := 0 }

namespace Agent

inductive Event
  | start (order : List Directory)
  | hello (m : HelloMessage)
  | message (session : Session) (m : Message)
  | crash

def opened : Option (Result LiveRecovery) → Bool
  | some (.ok _) => true
  | _ => false

/-- One event of a run. A program that is cut leaves the process dead. -/
inductive Step (o : AgentOptions) (allowed : Env → Prop) : Machine → Event → Machine → Prop
  | start {w w' : World} {order : List Directory} {r : Option (Result LiveRecovery)} :
      Prog.Exec (fun e => allowed e ∧ e.order = order) («open» o) w.restart r w' →
      Step o allowed ⟨w, false⟩ (.start order) ⟨w', opened r⟩
  | hello {w w' : World} {m : HelloMessage} {r : Option (Result Session)} :
      Prog.Exec allowed (acceptHello m) (w.receive (.hello m)) r w' →
      Step o allowed ⟨w, true⟩ (.hello m) ⟨w', r.isSome⟩
  | message {w w' : World} {session : Session} {m : Message} {r : Option Status} :
      m.Valid → Prog.Exec allowed (dispatch o session m) (w.receive m) r w' →
      Step o allowed ⟨w, true⟩ (.message session m) ⟨w', r.isSome⟩
  | crash {w : World} : Step o allowed ⟨w, true⟩ .crash ⟨w, false⟩

/-- What runs from an empty directory come to, when every event meets a condition on the state it finds. -/
inductive Reachable (o : AgentOptions) (allowed : Env → Prop) (meets : World → Event → Prop) : Machine → Prop
  | empty : Reachable o allowed meets {}
  | step {M M' : Machine} {e : Event} :
      Reachable o allowed meets M → meets M.world e → Step o allowed M e M' → Reachable o allowed meets M'

/-- `W` holds at every update, and `I` between the messages of a running agent. -/
structure Inductive (o : AgentOptions) (allowed : Env → Prop) (meets : World → Event → Prop)
    (W I : World → Prop) : Prop where
  empty : W {}
  kept : ∀ {w : World}, W w → Kept w.mem ∧ Kept w.dur
  readable : ∀ {w : World}, W w → Readable w.files
  restart : ∀ {w : World}, W w → W w.restart
  hello : ∀ {w : World} {m : HelloMessage}, W w → I w → W (w.receive (.hello m)) ∧ I (w.receive (.hello m))
  receive : ∀ {w : World} {session : Session} {m : Message}, meets w (.message session m) → m.Valid → W w → I w →
    W (w.receive m) ∧ I (w.receive m)
  handled : ∀ {w w' : World}, AStep (Failing allowed) I w w' → W w → W w'
  recovered : ∀ {w w' : World}, RStep w w' → W w → W w'
  stable : Stable (Failing allowed) I
  started : ∀ {w w' : World} {order : List Directory}, meets w (.start order) → W w → W w' →
    Reopened o order (Failing allowed) w.restart w' → I w'

section Rule

variable {o : AgentOptions} {allowed : Env → Prop} {meets : World → Event → Prop} {W I : World → Prop}

theorem Reopened.mono {order : List Directory} {failing failing' : Prop} {w w' : World}
    (h : Reopened o order failing w w') (hf : failing → failing') : Reopened o order failing' w w' where
  current := h.current
  findings := h.findings
  switched := h.switched
  sent := h.sent
  received := h.received
  kept := h.kept
  adopted directory v hd hv hnot hver := h.adopted directory v hd hv (fun h => hnot (hf h)) hver

theorem along {R : World → World → Prop} {w w' : World} (h : Relation.ReflTransGen R w w')
    (hR : ∀ w w', R w w' → W w → W w') (hw : W w) : W w' := by
  induction h with
  | refl => exact hw
  | tail _ hstep ih => exact hR _ _ hstep ih

theorem Inductive.step (h : Inductive o allowed meets W I) {M M' : Machine} {e : Event}
    (hM : W M.world ∧ (M.running = true → I M.world)) (hmeets : meets M.world e) (hstep : Step o allowed M e M') :
    W M'.world ∧ (M'.running = true → I M'.world) := by
  obtain ⟨hW, hI⟩ := hM
  cases hstep with
  | @start w w' order r hexec =>
    have hW₀ := h.restart hW
    have hsteps : («open» o).Steps (fun e => allowed e ∧ e.order = order) RStep
        (fun r w' => opened (some r) = true → Reopened o order (Failing allowed) w.restart w') w.restart := by
      refine steps_open (fun e he => he.2) (h.kept hW₀).1 (h.readable hW₀) (fun recovery w' hdone _ _ => ?_) ?_
      · exact hdone.mono fun ⟨e, he, hok⟩ => ⟨e, he.1, hok⟩
      · exact fun e he => absurd he (by simp [opened])
    obtain ⟨hreach, hdone⟩ := hsteps.exec hexec
    have hW' := along hreach (fun _ _ => h.recovered) hW₀
    refine ⟨hW', fun hopened => ?_⟩
    cases r with
    | none => cases hopened
    | some r => exact h.started hmeets hW hW' (hdone r rfl hopened)
  | @hello w w' m r hexec =>
    obtain ⟨hW₀, hI₀⟩ := @Inductive.hello _ _ _ _ _ h _ m hW (hI rfl)
    obtain ⟨hreach, hdone⟩ := (steps_quiet h.stable hI₀ (@steps_acceptHello allowed m _)).exec hexec
    refine ⟨along hreach (fun _ _ => h.handled) hW₀, fun hsome => ?_⟩
    obtain ⟨a, rfl⟩ := Option.isSome_iff_exists.mp hsome
    exact (hdone a rfl).2
  | @message w w' session m r hvalid hexec =>
    obtain ⟨hW₀, hI₀⟩ := h.receive hmeets hvalid hW (hI rfl)
    have hmem : m ∈ (w.receive m).received := by simp [World.receive]
    obtain ⟨hreach, hdone⟩ := (steps_dispatch h.stable hI₀ (h.kept hW₀).1 hvalid hmem).exec hexec
    refine ⟨along hreach (fun _ _ => h.handled) hW₀, fun hsome => ?_⟩
    obtain ⟨a, rfl⟩ := Option.isSome_iff_exists.mp hsome
    exact hdone a rfl
  | crash => exact ⟨hW, by simp⟩

/-- The invariant rule for runs. -/
theorem Inductive.reachable (h : Inductive o allowed meets W I) {M : Machine} (hM : Reachable o allowed meets M) :
    W M.world ∧ (M.running = true → I M.world) := by
  induction hM with
  | empty => exact ⟨h.empty, by simp⟩
  | step _ hmeets hstep ih => exact h.step ih hmeets hstep

/-! What is received is recorded by nothing else. -/

theorem Quiet.received {w w' : World} (h : Quiet w w') : w'.received = w.received := by
  cases h <;> rfl

theorem AStep.received {failing : Prop} {w w' : World} (h : AStep failing I w w') : w'.received = w.received := by
  cases h with
  | quiet _ hq => exact hq.received
  | resolved | unmarked | switched | lost | settled | found => rfl

theorem RStep.received {w w' : World} (h : RStep w w') : w'.received = w.received := by
  cases h with
  | quiet hq _ => exact hq.received
  | resized | checkpointed | dropped | adopted | cleared | identified => rfl

/-- A property of the messages alone joins the invariant. -/
theorem Inductive.andReceived (h : Inductive o allowed meets W I) {P : List Message → Prop} (hnil : P [])
    (hhello : ∀ received m, P received → P (received ++ [.hello m]))
    (hmessage : ∀ w session m, meets w (.message session m) → P w.received → P (w.received ++ [m])) :
    Inductive o allowed meets (fun w => W w ∧ P w.received) I where
  empty := ⟨h.empty, hnil⟩
  kept hw := h.kept hw.1
  readable hw := h.readable hw.1
  restart hw := ⟨h.restart hw.1, hw.2⟩
  hello hw hI :=
    have hnext := h.hello hw.1 hI
    ⟨⟨hnext.1, hhello _ _ hw.2⟩, hnext.2⟩
  receive hmeets hm hw hI :=
    have hnext := h.receive hmeets hm hw.1 hI
    ⟨⟨hnext.1, hmessage _ _ _ hmeets hw.2⟩, hnext.2⟩
  handled hstep hw := ⟨h.handled hstep hw.1, hstep.received ▸ hw.2⟩
  recovered hstep hw := ⟨h.recovered hstep hw.1, hstep.received ▸ hw.2⟩
  stable := h.stable
  started hmeets hw hw' hdone := h.started hmeets hw.1 hw'.1 hdone

end Rule

/-! Runs that can be evaluated. -/

/-- The machine after one event on the given inputs, cut after `n` updates; an event that does not fit is left out. -/
def advance (o : AgentOptions) (is : List Env) (n : ℕ) (M : Machine) : Event → Machine
  | .start order =>
    if M.running then M
    else
      let r := («open» o).run (is.map fun e => { e with order }) n M.world.restart
      ⟨r.2, opened r.1⟩
  | .hello m =>
    if M.running then
      let r := (acceptHello m).run is n (M.world.receive (.hello m))
      ⟨r.2, r.1.isSome⟩
    else M
  | .message session m =>
    if M.running ∧ m.Valid then
      let r := (dispatch o session m).run is n (M.world.receive m)
      ⟨r.2, r.1.isSome⟩
    else M
  | .crash => ⟨M.world, false⟩

theorem step_advance {o : AgentOptions} {allowed : Env → Prop} {M : Machine} {is : List Env} {n : ℕ} {e : Event}
    (his : ∀ i ∈ is, ∀ order, allowed { i with order } ∧ allowed i) :
    advance o is n M e = M ∨ Step o allowed M e (advance o is n M e) := by
  obtain ⟨w, running⟩ := M
  cases e with
  | start order =>
    cases running with
    | true => exact .inl rfl
    | false =>
      refine .inr (.start (Prog.exec_run _ (fun i hi => ?_) n _))
      obtain ⟨j, hj, rfl⟩ := List.mem_map.mp hi
      exact ⟨(his j hj order).1, rfl⟩
  | hello m =>
    cases running with
    | false => exact .inl rfl
    | true => exact .inr (.hello (Prog.exec_run _ (fun i hi => (his i hi []).2) n _))
  | message session m =>
    rw [advance]
    split
    case isTrue hrun =>
      obtain rfl : running = true := hrun.1
      exact .inr (.message hrun.2 (Prog.exec_run _ (fun i hi => (his i hi []).2) n _))
    case isFalse => exact .inl rfl
  | crash =>
    cases running with
    | false => exact .inl rfl
    | true => exact .inr .crash

theorem reachable_advance {o : AgentOptions} {allowed : Env → Prop} {meets : World → Event → Prop} {M : Machine}
    (h : Reachable o allowed meets M) {is : List Env} (n : ℕ) {e : Event} (hmeets : meets M.world e)
    (his : ∀ i ∈ is, ∀ order, allowed { i with order } ∧ allowed i) : Reachable o allowed meets (advance o is n M e) := by
  obtain heq | hstep := step_advance (n := n) (M := M) (e := e) his
  · rw [heq]
    exact h
  · exact h.step hmeets hstep

/-- Every event of the list meets the condition where it comes. -/
def MeetsAll (o : AgentOptions) (meets : World → Event → Prop) (is : List Env) (n : ℕ) : Machine → List Event → Prop
  | _, [] => True
  | M, e :: es => meets M.world e ∧ MeetsAll o meets is n (advance o is n M e) es

instance decidableMeetsAll {o : AgentOptions} {meets : World → Event → Prop} [∀ w e, Decidable (meets w e)]
    {is : List Env} {n : ℕ} : ∀ (M : Machine) (es : List Event), Decidable (MeetsAll o meets is n M es)
  | _, [] => .isTrue trivial
  | M, e :: es =>
    @instDecidableAnd (meets M.world e) (MeetsAll o meets is n (advance o is n M e) es) _
      (decidableMeetsAll (advance o is n M e) es)

theorem meetsAll {o : AgentOptions} {meets : World → Event → Prop} {is : List Env} {n : ℕ} {es : List Event}
    (h : ∀ e ∈ es, ∀ w, meets w e) (M : Machine) : MeetsAll o meets is n M es := by
  induction es generalizing M with
  | nil => exact trivial
  | cons e es ih =>
    obtain ⟨he, hes⟩ := List.forall_mem_cons.mp h
    exact ⟨he _, ih hes _⟩

theorem reachable_foldl {o : AgentOptions} {allowed : Env → Prop} {meets : World → Event → Prop} {is : List Env}
    {n : ℕ} (his : ∀ i ∈ is, ∀ order, allowed { i with order } ∧ allowed i) {es : List Event} {M : Machine}
    (h : Reachable o allowed meets M) (hes : MeetsAll o meets is n M es) :
    Reachable o allowed meets (es.foldl (advance o is n) M) := by
  induction es generalizing M with
  | nil => exact h
  | cons e es ih => exact ih (reachable_advance h n hes.1 his) hes.2

/-- Inputs with which nothing fails. -/
def calm : List Env := List.replicate 60 {}

def run (o : AgentOptions) (es : List Event) : Machine := es.foldl (advance o calm 200) {}

theorem reachable_run {o : AgentOptions} {allowed : Env → Prop} {meets : World → Event → Prop}
    (hallowed : ∀ order, allowed { order }) {es : List Event} (hes : MeetsAll o meets calm 200 {} es) :
    Reachable o allowed meets (run o es) := by
  refine reachable_foldl (fun i hi order => ?_) .empty hes
  obtain rfl : i = {} := List.eq_of_mem_replicate hi
  exact ⟨hallowed order, hallowed []⟩

/-- The messages that bring a single byte to a key and activate it. -/
def delivery (deployment : DeploymentId) (key : ConfigKey) (generation : Generation) (b : UInt8) : List Event :=
  let digest := Digest.ofContent [b]
  [.message {} (.prepare {
    deployment, key, artifact := text "artifact", generation, digest, sizeBytes := 1, schema := [], schemaVersion := 1
    requirement := .allowPrepareCommit, guarantee := .atomicActivate, authorityEpoch := 1, attempt := 1
    stream := generation, chunkBytes := 1 }),
  .message {} (.chunk ⟨generation, 0, 0, [b]⟩),
  .message {} (.transferComplete ⟨deployment, generation, digest, 1⟩),
  .message {} (.stage ⟨deployment, generation, generation, digest⟩),
  .message {} (.applyCommit ⟨deployment, generation, digest⟩)]

end Agent

end ConfigurationFabric
