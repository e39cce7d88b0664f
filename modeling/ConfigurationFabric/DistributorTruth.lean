import ConfigurationFabric.ConvergenceBlockers
import ConfigurationFabric.DistributorErrands
import ConfigurationFabric.DistributorFences

/-! What the controller shows of its targets is so, through any number of its processes. -/

namespace ConfigurationFabric

open LittleEndian
open Threads
open Ledgers

namespace Distributor

variable {b : Books} {base : TargetId → Generation} {o : DistributorOptions} {w w' : Fabric}

/-! The tasks of one process. -/

abbrev errand (b : Books) (base : TargetId → Generation) (t : Task) : Errand :=
  ⟨b, base, fun id => t.claimed = some id, outside (careful b) t⟩

theorem errand_session {target : TargetId} {rounds : ℕ} :
    errand b base (.session target rounds) = visiting b base target := by
  have hown : (fun id => (Task.session target rounds).claimed = some id) = fun id => id = target := by
    funext id
    rw [Task.claimed, Option.some_inj]
    exact propext eq_comm
  exact congrArg (fun own => Errand.mk b base own (session (careful b) target)) hown

theorem does_program (hhistory : o.policy.maxHistoryPerLineage ≠ 0) {P : Works} {t : Task}
    (ht : grants (careful b) P t) : (errand b base t).Does (program o t) (fun _ _ => True) w := by
  cases t with
  | session target rounds =>
    rw [errand_session, program, Errand.does_bind]
    exact Errand.does_mono Errand.does_runSession fun _ _ _ => trivial
  | localDecision candidate => exact Errand.does_applyLocalDecision
  | submitPlan plan => exact Errand.does_submitPlan hhistory ht.2
  | retire id reason => exact Errand.does_retireDeployment
  | ingest declared => exact (Errand.within_ingestArtifact Errand.lasting_true.stable).does trivial fun _ _ _ _ => trivial

theorem grants_apart {care : Care} {P : Works} {t : Task} (h : grants care P t) (x : Task × Worker Status)
    (hx : x ∈ P.threads) : Apart x.1 t := by
  intro id hclaimed ht
  obtain hnone | hother := h.1
  · rw [hnone] at ht
    cases ht
  · exact hother x hx (hclaimed.trans ht.symm)

def uprightDiscipline (b : Books) (base : TargetId → Generation) (o : DistributorOptions)
    (hhistory : o.policy.maxHistoryPerLineage ≠ 0) :
    Crew.Discipline (outside (careful b)) (program o) (grants (careful b)) fun _ c w _ => (careful b).writes c w where
  I := Upright b base
  mates := Apart
  rely t := Rely b base fun id => t.claimed = some id
  G t := Deed b fun id => t.claimed = some id
  Q _ _ _ := True
  symm := Apart.symm
  refl _ _ := Rely.refl
  trans := Rely.trans
  idle _ _ := .idle
  admitted := grants_apart
  relied h hapart hwrites hdeed := hdeed.relied hwrites h hapart
  kept h hwrites hdeed := hdeed.upright hwrites h
  steps ht _ := does_program hhistory ht

/-! Start-up. -/

/-- The deliveries, whether they are acknowledged, and what is shown of the targets, are the same. -/
structure Alike (s s' : ControllerState) : Prop where
  filed : s.Filed → s'.Filed
  parcels : ∀ id, (s'.findDelivery id).map DeliveryRecord.parcel = (s.findDelivery id).map DeliveryRecord.parcel
  settled : s'.settled = s.settled
  shown : s'.shown = s.shown

theorem Alike.refl (s : ControllerState) : Alike s s := ⟨id, fun _ => rfl, rfl, rfl⟩

theorem Alike.keeps {s s' : ControllerState} (h : Alike s s') (hs : b.Keeps s) : b.Keeps s' := by
  intro id r' hr'
  have hparcel := h.parcels id
  rw [hr', Option.map_some] at hparcel
  obtain ⟨r, hr, heq⟩ := Option.map_eq_some_iff.mp hparcel.symm
  rw [← heq]
  exact hs id r hr

theorem Upright.alike (hw : Upright b base w) (hpeers : w'.1 = w.1) (hmem : Alike w.2.mem w'.2.mem)
    (hdur : Alike w.2.dur w'.2.dur) : Upright b base w' := by
  obtain ⟨peers, c⟩ := w'
  obtain rfl : peers = w.1 := hpeers
  refine ⟨⟨hmem.filed hw.filed.mem, hdur.filed hw.filed.dur⟩, hmem.keeps hw.mem, hdur.keeps hw.dur, ?_, hw.unread⟩
  have hledger : ledger (w.1, c) = ledger w :=
    congrArg₂ (fun entries marks => Ledger.mk (ledger w).sites entries marks) hmem.settled hmem.shown
  rw [hledger]
  exact hw.sound

theorem alike_identity {s : ControllerState} {nodeId : NodeId} {epoch : Epoch} {incarnation : IncarnationId}
    {startedAtMillis : ℤ} : Alike s ((ControllerRecord.identity nodeId epoch incarnation startedAtMillis).apply s) :=
  ⟨fun h => h.apply _, fun _ => rfl, rfl, rfl⟩

/-- A transfer that was cut short is offered again. -/
def offeredAgain (r : DeliveryRecord) : DeliveryRecord :=
  if r.state = .transferred then
    { r with
      state := .offered
      lastDetail := text "reset to offered after distributor restart: the previous transfer was never verified" }
  else r

theorem alike_reopened {s : ControllerState} : Alike s (reopened s) := by
  have hdelivery (id : DeploymentId) : (reopened s).findDelivery id = (s.findDelivery id).map offeredAgain :=
    SortedMap.find_map s.deliveries offeredAgain id
  have htarget (id : TargetId) : (reopened s).findTarget id = (s.findTarget id).map TargetRuntime.durable :=
    SortedMap.find_map s.targets TargetRuntime.durable id
  refine ⟨reopened_filed, fun id => ?_, funext fun id => ?_, funext fun id => ?_⟩
  · rw [hdelivery, Option.map_map]
    refine congrArg (fun f => (s.findDelivery id).map f) (funext fun r => ?_)
    rw [Function.comp_apply, offeredAgain]
    split <;> rfl
  · rw [ControllerState.settled, ControllerState.settled, hdelivery, Option.map_map]
    refine congrArg (fun f => (s.findDelivery id).map f) (funext fun r => ?_)
    rw [Function.comp_apply, offeredAgain]
    split
    next htransferred =>
      rw [htransferred]
      rfl
    · rfl
  · rw [ControllerState.shown, ControllerState.shown, htarget, Option.map_map]
    rfl

/-- What an opening process does to the world. -/
def Settles (b : Books) (base : TargetId → Generation) (_ : Option Copy) (w w' : Fabric) : Prop :=
  Upright b base w → Upright b base w'

theorem steps_open_compact {status : Status} {written : Bool} {Q : Status → Fabric → Prop} (hQ : ∀ w', Q status w') :
    (do
      compact written
      return status : Worker Status).Steps indoors Eq (Settles b base) Q w := by
  rw [Thread.steps_bind, compact]
  split
  · exact hQ _
  · rw [Thread.steps_bind, Thread.steps_update]
    rintro _ rfl
    exact ⟨fun h => ⟨⟨h.filed.mem, h.filed.mem⟩, h.mem, h.mem, h.sound, h.unread⟩, hQ _⟩

theorem history_of_validate {p : DistributorPolicy} (h : p.validate = .ok ()) : p.maxHistoryPerLineage ≠ 0 := by
  intro hzero
  rw [DistributorPolicy.validate] at h
  split_ifs at h <;> cases h

/-- A process that opens leaves the ledger as it is, and has a policy that keeps some history. -/
theorem steps_open_settles : («open» o).Steps indoors Eq (Settles b base)
    (fun status _ => status = .ok () → o.policy.maxHistoryPerLineage ≠ 0) w := by
  rw [«open»]
  split
  · exact fun h => by cases h
  split
  · exact fun h => by cases h
  next hvalid =>
    have hhistory : o.policy.maxHistoryPerLineage ≠ 0 := history_of_validate hvalid
    rw [Thread.steps_bind, Thread.steps_ask]
    rintro _ choice rfl -
    split
    · exact fun h => by cases h
    rw [Thread.steps_bind, Distributor.epoch, Thread.steps_bind, state, Thread.steps_bind, Thread.steps_view]
    rintro _ rfl
    rw [Thread.steps_pure, Thread.steps_pure]
    split
    · exact fun h => by cases h
    rw [Thread.steps_bind, Thread.steps_ask]
    rintro _ identity rfl -
    rw [Thread.steps_bind, clock, Thread.steps_bind, Thread.steps_ask]
    rintro _ started rfl -
    rw [Thread.steps_pure, Thread.steps_bind]
    apply commit_steps
    · exact fun _ _ _ h h' => h.trans h'
    · rintro _ e rfl h
      cases h
    · rintro _ status durable rfl -
      refine ⟨fun h => h.alike rfl alike_identity ?_, ?_⟩
      · cases durable with
        | false => exact .refl _
        | true => exact alike_identity
      cases status with
      | error e => exact fun h => by cases h
      | ok _ =>
        dsimp only
        rw [Thread.steps_bind, Thread.steps_update]
        rintro _ rfl
        refine ⟨fun h => h.alike rfl alike_reopened (.refl _), ?_⟩
        rw [compactIfNeeded, Thread.steps_bind, Thread.steps_ask]
        rintro _ room rfl -
        split
        · exact fun _ => hhistory
        · exact steps_open_compact fun _ _ => hhistory
        · exact steps_open_compact fun _ _ => hhistory

/-- A process that is opening. -/
theorem Upright.opening {p : Worker Status} {w₁ : Fabric} (hw : Upright b base w) (hstarts : (careful b).starts w.2)
    (hopening : Opening o w p w₁) : Upright b base w₁ ∧
      p.Steps indoors Eq (Settles b base) (fun status _ => status = .ok () → o.policy.maxHistoryPerLineage ≠ 0) w₁ := by
  have hboot : Upright b base (w.1, ⟨w.2.dur, w.2.dur⟩) := by
    refine ⟨⟨hw.filed.dur, hw.filed.dur⟩, hw.dur, hw.dur, ?_, hw.unread⟩
    have hledger : ledger (w.1, ⟨w.2.dur, w.2.dur⟩) = ledger w :=
      congrArg₂ (fun entries marks => Ledger.mk (ledger w).sites entries marks) hstarts.1 hstarts.2
    rw [hledger]
    exact hw.sound
  obtain ⟨hsettles, hsteps⟩ := steps_open_settles.reaches (R := fun w w' => Upright b base w → Upright b base w')
    (fun _ => rfl) (fun _ h => h) (fun _ h => h) (fun _ _ _ h h' h'' => h' (h h'')) (fun _ _ _ h => h) hopening
  exact ⟨hsettles hboot, hsteps⟩

/-- The step lemma over processes. -/
theorem Tenure.upright (h : Tenure (careful b) o w w') (hstarts : (careful b).starts w.2) (hw : Upright b base w) :
    Upright b base w' := by
  cases h with
  | opening hopening => exact (hw.opening hstarts hopening).1
  | serving hopening hserves =>
    obtain ⟨hw₁, hhistory⟩ := hw.opening hstarts hopening
    have hkeeps := (Crew.Discipline.keeps_nil (D := uprightDiscipline b base o (hhistory rfl)) hw₁).runs hserves
    exact hkeeps.holds

/-- Targets that nobody has spoken to: no window is open, and nothing of theirs is unread. -/
def Quiet (peers : TargetId → Peer) : Prop := ∀ t, (peers t).window = none ∧ (peers t).unread = []

theorem upright_initial {peers : TargetId → Peer} (hpeers : Quiet peers) :
    Upright b (fun t => (peers t).content.generation) (peers, {}) where
  filed := ⟨.initial, .initial⟩
  mem _ _ h := by cases h
  dur _ _ h := by cases h
  sound := by
    constructor
    · exact fun _ => le_rfl
    · exact fun s h => absurd h (lt_irrefl _)
    · intro s g h
      rw [show ((ledger (peers, {})).sites s).window = none from (hpeers s).1] at h
      cases h
    · exact fun _ _ h => by cases h
    · exact fun _ h => by cases h
  unread t reply h := by
    rw [show ((peers, ({} : Controller)).1 t).unread = [] from (hpeers t).2] at h
    cases h

theorem Tenures.upright (h : Tenures (careful b) w w') (hw : Upright b base w) : Upright b base w' := by
  induction h with
  | refl => exact hw
  | tail _ hstep ih =>
    obtain ⟨hstarts, o, htenure⟩ := hstep
    exact htenure.upright hstarts ih

/-! What is acknowledged, and what is reported. -/

theorem Upright.done (hw : Upright b base w) {id : DeploymentId} {r : DeliveryRecord}
    (hr : w.2.mem.findDelivery id = some r) (hstate : r.state = .acknowledged) : (ledger w).Done b.toOrders r.id := by
  obtain ⟨-, rfl⟩ := hw.lists hr
  apply hw.sound.settled
  change w.2.mem.settled r.id = some true
  rw [ControllerState.settled, hr, Option.map_some, hstate]
  rfl

theorem Upright.reached (hw : Upright b base w) {id : DeploymentId} {r : DeliveryRecord}
    (hr : w.2.mem.findDelivery id = some r) (hstate : r.state = .acknowledged) :
    (w.1 r.target).toSite.Reached ⟨r.generation, r.digest⟩ := by
  have hlists := (hw.lists hr).1
  have hreached := (hw.done hr hstate).reached
  rw [lists_site hlists, lists_content hlists] at hreached
  exact hreached

/-- A target runs what it acknowledged, or something newer. -/
theorem acknowledged_reached (b : Books) (peers : TargetId → Peer) (hpeers : Quiet peers) (w : Fabric)
    (hw : Tenures (careful b) (peers, {}) w) (id : DeploymentId) (r : DeliveryRecord)
    (hr : w.2.mem.findDelivery id = some r) (hstate : r.state = .acknowledged) :
    (w.1 r.target).toSite.Reached ⟨r.generation, r.digest⟩ :=
  (Tenures.upright hw (upright_initial hpeers)).reached hr hstate

/-- What a report says of a converged lineage is so. -/
structure Backed (peers : TargetId → Peer) (l : LineageConvergence) : Prop where
  content : (peers l.target).content = ⟨l.desiredGeneration, l.desiredDigest⟩
  generation : l.currentGeneration = l.desiredGeneration
  digest : l.currentDigest = l.desiredDigest
  blockers : l.blockers = []
  pending : l.pending = []

/-- What is on record for a target is all of one lineage. -/
theorem Upright.unpassed (hw : Upright b base w) {e : LineageKey × List DeliveryRecord}
    (he : e ∈ Convergence.lineages w.2.mem) {d : DeliveryRecord} (hd : Convergence.desired e.2 = some d) :
    ¬ (ledger w).Passed b.toOrders d.id := by
  rintro ⟨j, hj, hsite, hnewer⟩
  have hnewest := Convergence.newest_desired hd
  obtain ⟨hlineage, hstored⟩ := Convergence.lineage_of_desired he hd
  have hlists := (Errand.lists_of_mem hw hstored).1
  obtain ⟨settled, hsettled⟩ := Option.isSome_iff_exists.mp hj
  obtain ⟨r, hr, -⟩ := Option.map_eq_some_iff.mp hsettled
  obtain ⟨hlists', rfl⟩ := hw.lists hr
  have htarget : r.target = d.target := (lists_site hlists').symm.trans (hsite.trans (lists_site hlists))
  have hkey : r.key = d.key := by
    rw [← show b.key r.target = r.key from hlists'.key, htarget]
    exact hlists.key
  have hmem : r ∈ e.2 := by
    rw [← (Convergence.records_of_mem he).1, List.mem_filter]
    refine ⟨List.mem_map.mpr ⟨(r.id, r), SortedMap.find_mem hr, rfl⟩, decide_eq_true ?_⟩
    rw [← hlineage]
    exact congrArg₂ LineageKey.mk htarget hkey
  rw [lists_content hlists, lists_content hlists'] at hnewer
  have holder : Convergence.older d r = true := Convergence.older_iff.mpr hnewer
  rw [hnewest.last r hmem] at holder
  cases holder

theorem Upright.keyed (hw : Upright b base w) {p : DistributorPolicy} {now : ℤ} {l : LineageConvergence}
    (hl : l ∈ (buildConvergenceReport w.2.mem p now).lineages) : b.key l.target = l.key := by
  obtain ⟨e, he, d, hd, rfl⟩ := Convergence.entry_of_report hl
  obtain ⟨htarget, hkey⟩ := LineageKey.mk.inj (@Convergence.entry_buildLineage w.2.mem p now d).1
  have hlists := (Errand.lists_of_mem hw (Convergence.lineage_of_desired he hd).2).1
  rw [htarget, hkey]
  exact hlists.key

theorem Upright.backed (hw : Upright b base w) {p : DistributorPolicy} {now : ℤ} {l : LineageConvergence}
    (hl : l ∈ (buildConvergenceReport w.2.mem p now).lineages) (hconverged : l.converged = true) : Backed w.1 l := by
  obtain ⟨e, he, d, hd, rfl⟩ := Convergence.entry_of_report hl
  obtain ⟨hentry, hgeneration, hdigest, -⟩ := @Convergence.entry_buildLineage w.2.mem p now d
  have hexplains := @Convergence.explains_buildLineage w.2.mem p now d
  have hstored := (Convergence.lineage_of_desired he hd).2
  obtain ⟨hlists, hfind⟩ := Errand.lists_of_mem hw hstored
  obtain hpassed | hshown := (hw.done hfind (hexplains.converged.mp hconverged)).clear
  · exact absurd hpassed (hw.unpassed he hd)
  obtain ⟨hcontent, hmark⟩ := hshown
  rw [lists_site hlists, lists_content hlists] at hcontent hmark
  obtain ⟨runtime, hruntime, hmarked⟩ := Option.map_eq_some_iff.mp hmark
  obtain ⟨hsame, hwindow⟩ := Mark.mk.inj hmarked
  obtain ⟨hcurrent, hcurrentDigest⟩ := Content.mk.inj hsame
  have hclear : (Convergence.buildLineage w.2.mem p now d).blockers = [] :=
    hexplains.clear.mpr ⟨hconverged, runtime, hruntime, hwindow, hcurrent.le⟩
  obtain ⟨hshows, hshowsDigest⟩ := @Convergence.current_buildLineage w.2.mem p now d _ hruntime
  constructor
  · rw [(LineageKey.mk.inj hentry).1, hgeneration, hdigest]
    exact hcontent
  · rw [hshows, hgeneration]
    exact hcurrent
  · rw [hshowsDigest, hdigest]
    exact hcurrentDigest
  · exact hclear
  · exact hexplains.settled hclear

/-- A lineage that a report shows as converged has nothing in its way, and its target runs just what is desired. -/
theorem report_backed (b : Books) (peers : TargetId → Peer) (hpeers : Quiet peers) (w : Fabric)
    (hw : Tenures (careful b) (peers, {}) w) (p : DistributorPolicy) (now : ℤ) (l : LineageConvergence)
    (hl : l ∈ (buildConvergenceReport w.2.mem p now).lineages) (hconverged : l.converged = true) : Backed w.1 l :=
  (Tenures.upright hw (upright_initial hpeers)).backed hl hconverged

/-! A run in which all goes well. -/

/-- An agent that does all it is asked for, and says so. -/
def candidly (p : Peer) : Outgoing → Peer
  | .message (.hello _) => { p with
      unread := [.helloAck { exampleAck 1 with
        committedGeneration := p.content.generation
        committedDigest := p.content.digest }] }
  | .message (.reconcileRequest _) => { p with
      unread := p.unread ++ [.reconcileReport { exampleReport 1 with
        committedGeneration := p.content.generation
        committedDigest := p.content.digest
        applyPrepared := p.window.isSome }] }
  | .message (.prepare m) => { p with
      unread := p.unread ++ [.prepareAck {
        deployment := m.deployment
        stream := m.stream
        committedGeneration := p.content.generation
        committedDigest := p.content.digest
        priorState := .prepared
        priorGeneration := 0
        priorDigest := .zero 32 }] }
  | .message (.chunk m) => { p with
      unread := p.unread ++ [.chunkAck {
        stream := m.stream, sequence := m.sequence, bytesReceived := m.offset + m.data.length }] }
  | .message (.transferComplete m) => { p with
      unread := p.unread ++ [.transferResult { deployment := m.deployment, stream := m.stream, verified := true }] }
  | .message (.stage m) => { p with
      unread := p.unread ++ [.stageAck { deployment := m.deployment, staged := true }] }
  | .message (.applyCommit m) =>
    if p.content.generation < m.generation then
      { content := ⟨m.generation, m.digest⟩
        unread := p.unread ++ [
          .applyCommitAck {
            deployment := m.deployment
            committed := true
            state := .applied
            committedGeneration := m.generation
            committedDigest := m.digest },
          .deliveryAck {
            deployment := m.deployment
            key := text "k"
            generation := m.generation
            digest := m.digest
            artifact := text "a"
            state := .applied
            term := 1
            incarnation := .fill 16 5
            authorityEpoch := 1
            guarantee := .atomicActivate
            bytesTransferred := 0
            targetTimestampMillis := 0
            evidenceFromReconcile := false }] }
    else p
  | _ => p

def candid (p : Peer) (frame : Outgoing) : Peer := { candidly p frame with heard := p.heard ++ [frame] }

theorem candid_answers (p : Peer) (frame : Outgoing) : p.Answers frame (candid p frame) := by
  have hsame {replies : List Reply} (hsite : (candid p frame).toSite = p.toSite)
      (hserves : serves p.toSite frame p.toSite) (hunread : (candid p frame).unread = p.waiting frame ++ replies)
      (htruthful : ∀ reply ∈ replies, truthful p.toSite frame reply) : p.Answers frame (candid p frame) := by
    refine ⟨rfl, hsite ▸ hserves, replies, hunread, ?_⟩
    rw [hsite]
    exact htruthful
  cases frame with
  | helloConfirm => exact hsame rfl rfl (List.append_nil _).symm (fun _ h => absurd h List.not_mem_nil)
  | pong => exact hsame rfl rfl (List.append_nil _).symm (fun _ h => absurd h List.not_mem_nil)
  | message m =>
    cases m with
    | hello => exact hsame rfl (.inl rfl) rfl (by simp [truthful])
    | reconcileRequest => exact hsame rfl rfl rfl (by simp [truthful, exampleReport])
    | prepare => exact hsame rfl rfl rfl (by simp [truthful])
    | chunk => exact hsame rfl rfl rfl (by simp [truthful])
    | transferComplete => exact hsame rfl rfl rfl (by simp [truthful])
    | stage => exact hsame rfl rfl rfl (by simp [truthful])
    | applyCommit m =>
      by_cases hlt : p.content.generation < m.generation
      · have hnew : candidly p (.message (.applyCommit m)) = _ := if_pos hlt
        rw [candid, hnew]
        exact ⟨rfl, .inr ⟨hlt, rfl⟩, _, rfl, by simp [truthful]⟩
      · have hold : candidly p (.message (.applyCommit m)) = p := if_neg hlt
        rw [candid, hold] at hsame ⊢
        exact hsame rfl (.inl rfl) (List.append_nil _).symm (fun _ h => absurd h List.not_mem_nil)
    | applyPrepare => exact hsame rfl (.inl rfl) (List.append_nil _).symm (fun _ h => absurd h List.not_mem_nil)
    | applyAbort => exact hsame rfl (.inl rfl) (List.append_nil _).symm (fun _ h => absurd h List.not_mem_nil)
    | _ => exact hsame rfl rfl (List.append_nil _).symm (fun _ h => absurd h List.not_mem_nil)

section Checks

variable {b : Books}

instance (r : Parcel) : Decidable (b.Lists r) :=
  decidable_of_iff (b.site r.id = r.target ∧ b.content r.id = ⟨r.generation, r.digest⟩ ∧ b.key r.target = r.key)
    ⟨fun h => ⟨h.1, h.2.1, h.2.2⟩, fun h => ⟨h.site, h.content, h.key⟩⟩

instance (P : Works) (t : Task) : Decidable (grants (careful b) P t) :=
  match t with
  | .submitPlan plan =>
    inferInstanceAs (Decidable ((_ ∨ _) ∧ ∀ i ∈ plan.instructions, b.Lists (plannedDelivery plan i 0).parcel))
  | .session _ _ | .localDecision _ | .retire _ _ | .ingest _ => inferInstanceAs (Decidable ((_ ∨ _) ∧ True))

instance (c : Option Copy) (w : Fabric) : Decidable ((careful b).writes c w) :=
  match c with
  | some (.target id copy) => decidable_of_iff ((copy.getD {}).mark = ((w.2.mem.findTarget id).getD {}).mark)
      ⟨fun h _ _ heq => by cases heq; exact h, fun h => h _ _ rfl⟩
  | some (.delivery _ _) => isTrue fun _ _ h => by cases h
  | some .own => isTrue fun _ _ h => by cases h
  | none => isTrue fun _ _ h => by cases h

instance (target : TargetId) (frame : Outgoing) (w : Fabric) : Decidable ((careful b).sends target frame w) :=
  match frame with
  | .message (.prepare m) => decidable_of_iff (((w.2.mem.findTarget target).getD {}).applyPrepared = false)
      ⟨fun h => ⟨fun _ _ => h, fun _ heq => (by cases heq)⟩, fun h => h.1 m rfl⟩
  | .message (.applyPrepare m) => decidable_of_iff (m.generation ≠ (w.1 target).content.generation)
      ⟨fun h => ⟨fun _ heq => (by cases heq), fun _ heq => by cases heq; exact h⟩, fun h => h.2 m rfl⟩
  | .helloConfirm | .pong _ | .message (.hello _) | .message (.chunk _) | .message (.transferComplete _)
  | .message (.stage _) | .message (.applyCommit _) | .message (.applyAbort _) | .message (.reconcileRequest _)
  | .message (.retire _) | .message (.ping _) | .message .goodbye | .message .unexpected =>
    isTrue ⟨fun _ h => (by cases h), fun _ h => (by cases h)⟩

end Checks

def exampleBooks : Books where
  site _ := text "t"
  content _ := ⟨1, .fill 32 7⟩
  key _ := text "k"

/-- The next frame of the target is heard when a session listens. -/
def visitor (t : TargetId) : Driver (session (careful exampleBooks) t) where
  file m w := if (careful exampleBooks).sends t m.frame w then
    some (Function.update w.1 t (candid (w.1 t) m.frame)) else none
  i₀ := { now := 1, bytes := .ok (text "cfg") }
  r₀ w := (w.1 t).unread.head?.map fun reply => .ok (.reply reply)
  hears r w :=
    match r, (w.1 t).unread with
    | .ok (.reply reply), head :: rest =>
      if reply = head then some (Function.update w.1 t ((w.1 t).left rest)) else none
    | _, _ => none
  chooses _ _ := true
  emits m w peers h := by
    split at h
    next hsends => exact ⟨hsends, _, candid_answers _ _, (Option.some.inj h).symm⟩
    · cases h
  receives r w peers h := by
    split at h
    next reply head rest hunread =>
      split at h
      next heq => exact ⟨rest, by rw [hunread, heq], (Option.some.inj h).symm⟩
      · cases h
    · cases h
  inputs _ _ _ := trivial

def homely : Driver indoors where
  file _ w := some w.1
  i₀ := { now := 1 }
  r₀ _ := none
  hears _ w := some w.1
  chooses _ _ := true
  emits _ _ _ h := (Option.some.inj h).symm
  receives _ _ _ h := (Option.some.inj h).symm
  inputs _ _ _ := trivial

def driver : ∀ t : Task, Driver (outside (careful exampleBooks) t)
  | .session target _ => visitor target
  | .localDecision _ | .submitPlan _ | .retire _ _ | .ingest _ => homely

def checked (_ : Task) (c : Option Copy) (w _ : Fabric) : Bool := decide ((careful exampleBooks).writes c w)

def idlePeer : Peer := { content := ⟨0, .zero 32⟩ }

theorem quiet_idle : Quiet fun _ => idlePeer := fun _ => ⟨rfl, rfl⟩

/-- A process that gets an artifact and a plan, and has a session with the target. -/
def delivered (o : DistributorOptions) (w : Fabric) : Option Fabric :=
  match («open» o).advance homely (fun _ _ _ => true) 40 [] (w.1, ⟨w.2.dur, w.2.dur⟩) with
  | some (.ret (.ok ()), w') => Crew.perform driver (program o) (grants (careful exampleBooks)) checked 400
      [(.ingest exampleArtifact, []), (.submitPlan examplePlan, []), (.session (text "t") 9, [])] w'
  | _ => none

theorem delivered_tenures {w : Fabric} (h : delivered o (fun _ => idlePeer, {}) = some w) :
    Tenures (careful exampleBooks) (fun _ => idlePeer, {}) w := by
  rw [delivered] at h
  split at h
  next w' hopen =>
    have hserves : Serves (careful exampleBooks) o ⟨w', []⟩ ⟨w, []⟩ :=
      Crew.perform_run (fun _ _ _ _ => of_decide_eq_true) h
    exact .single ⟨⟨rfl, rfl⟩, o, .serving (Thread.advance_reaches hopen) hserves⟩
  · cases h

/-- The delivery is acknowledged, and the target runs it. -/
theorem delivery_reached : ∃ (w : Fabric) (r : DeliveryRecord),
    w.2.mem.findDelivery exampleDelivery = some r ∧ r.generation = 1 ∧ (w.1 r.target).toSite.Reached ⟨r.generation, r.digest⟩ := by
  have hrun : (delivered (exampleOptions 3) (fun _ => idlePeer, {})).map (fun w =>
      (w.2.mem.findDelivery exampleDelivery).map fun r => (r.state, r.generation)) =
        some (some (.acknowledged, 1)) := by decide +kernel
  obtain ⟨w, hw, hfound⟩ := Option.map_eq_some_iff.mp hrun
  obtain ⟨r, hr, hpair⟩ := Option.map_eq_some_iff.mp hfound
  obtain ⟨hstate, hgeneration⟩ := Prod.mk.inj hpair
  exact ⟨w, r, hr, hgeneration,
    acknowledged_reached exampleBooks _ quiet_idle w (delivered_tenures hw) exampleDelivery r hr hstate⟩

/-- Its lineage has converged. -/
theorem delivery_backed : ∃ (w : Fabric) (l : LineageConvergence),
    (buildConvergenceReport w.2.mem {} 1).lineages = [l] ∧ l.desiredGeneration = 1 ∧ Backed w.1 l := by
  have hrun : (delivered (exampleOptions 3) (fun _ => idlePeer, {})).map (fun w =>
      (buildConvergenceReport w.2.mem {} 1).lineages.map fun l => (l.converged, l.desiredGeneration)) =
        some [(true, 1)] := by decide +kernel
  obtain ⟨w, hw, hlineages⟩ := Option.map_eq_some_iff.mp hrun
  obtain ⟨l, hl, hpair⟩ := List.map_eq_singleton_iff.mp hlineages
  obtain ⟨hconverged, hgeneration⟩ := Prod.mk.inj hpair
  exact ⟨w, l, hl, hgeneration, report_backed exampleBooks _ quiet_idle w (delivered_tenures hw) {} 1 l
    (hl ▸ List.mem_singleton_self l) hconverged⟩

end Distributor

end ConfigurationFabric
