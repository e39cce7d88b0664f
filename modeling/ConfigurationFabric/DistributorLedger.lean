import ConfigurationFabric.DistributorTargets

/-! What holds of the targets and the store throughout, and what a step of a process may do to them. -/

namespace ConfigurationFabric

open LittleEndian
open Threads
open Ledgers

namespace Distributor

def ledger (w : Fabric) : Ledger DeploymentId TargetId Generation Digest where
  sites t := (w.1 t).toSite
  entries := w.2.mem.settled
  marks := w.2.mem.shown

/-- What of a reply lasts while its target moves on. -/
def lasts (b : Books) (base : Generation) (x : Site Generation Digest) : Reply → Prop
  | .prepareAck a => a.duplicateSuppressed = true → x.Vouches base (b.content a.deployment)
  | .applyCommitAck a => a.committed = true → x.Vouches base ⟨a.committedGeneration, a.committedDigest⟩
  | .deliveryAck a => x.Vouches base ⟨a.generation, a.digest⟩
  | _ => True

def Books.Keeps (b : Books) (s : ControllerState) : Prop := ∀ id r, s.findDelivery id = some r → b.Lists r.parcel

structure Upright (b : Books) (base : TargetId → Generation) (w : Fabric) : Prop where
  filed : w.2.Filed
  mem : b.Keeps w.2.mem
  dur : b.Keeps w.2.dur
  sound : (ledger w).Sound b.toOrders base
  unread : ∀ t, ∀ reply ∈ (w.1 t).unread, lasts b (base t) (w.1 t).toSite reply

/-- What a frame may ask of a target. -/
def warranted (b : Books) (w : Fabric) (target : TargetId) : Outgoing → Prop
  | .message (.prepare m) => b.content m.deployment = ⟨m.generation, m.digest⟩ ∧ m.key = b.key target
  | .message (.applyPrepare m) => (ledger w).Covers b.toOrders target m.generation
  | .message (.applyCommit m) => (ledger w).Covers b.toOrders target m.generation
  | _ => True

/-- One step of a task that has the sessions in `own`. -/
inductive Deed (b : Books) (own : TargetId → Prop) : Option Copy → Fabric → Fabric → Prop
  | idle {w : Fabric} : Deed b own none w w
  | asks {w : Fabric} {target : TargetId} {frame : Outgoing} {p : Peer} : own target → warranted b w target frame →
      (careful b).sends target frame w → (w.1 target).Answers frame p →
      Deed b own none w (Function.update w.1 target p, w.2)
  | reads {w : Fabric} {target : TargetId} {reply : Reply} {rest : List Reply} : own target →
      (w.1 target).unread = reply :: rest →
      Deed b own none w (Function.update w.1 target ((w.1 target).left rest), w.2)
  | delivery {w : Fabric} {copy record : DeliveryRecord} {cause : Cause} {durable : Bool} : b.Lists record.parcel →
      (record.state = .acknowledged → (ledger w).Done b.toOrders record.id) →
      Deed b own (some (.delivery copy cause)) w (w.1, w.2.commit durable (.deliveryUpsert record))
  | target {w : Fabric} {id : TargetId} {copy : Option TargetRuntime} {runtime : TargetRuntime} {durable : Bool} :
      runtime.id = id → (¬ own id → runtime.mark = (copy.getD {}).mark) →
      ((copy.getD {}).mark = ((w.2.mem.findTarget id).getD {}).mark → (ledger w).Tells b.toOrders id runtime.mark) →
      Deed b own (some (.target id copy)) w (w.1, w.2.commit durable (.targetUpsert runtime))
  | contact {w : Fabric} {target : TargetId} {current : Bool} {atMillis : ℤ} :
      Deed b own (some .own) w (w.1, { w.2 with mem := markContact target current atMillis w.2.mem })
  | remove {w : Fabric} {id : DeploymentId} {durable : Bool} : (ledger w).Passed b.toOrders id →
      Deed b own (some .own) w (w.1, w.2.commit durable (.deliveryRemove id))
  | artifact {w : Fabric} {metadata : ArtifactMetadata} {durable : Bool} :
      Deed b own (some .own) w (w.1, w.2.commit durable (.artifactUpsert metadata))
  | compact {w : Fabric} : Deed b own (some .own) w (w.1, { w.2 with dur := w.2.mem })

/-! What a record does to what is stored and shown. -/

section Records

variable {c : Controller} {durable : Bool}

theorem settled_delivery {record : DeliveryRecord} : (c.commit durable (.deliveryUpsert record)).mem.settled =
    Function.update c.mem.settled record.id (some (record.state == .acknowledged)) := by
  funext id
  simp only [ControllerState.settled, ControllerState.findDelivery, Controller.commit, ControllerRecord.apply,
    SortedMap.find_insert, Function.update_apply]
  split <;> rfl

theorem settled_remove {id : DeploymentId} :
    (c.commit durable (.deliveryRemove id)).mem.settled = Function.update c.mem.settled id none := by
  funext id'
  simp only [ControllerState.settled, ControllerState.findDelivery, Controller.commit, ControllerRecord.apply,
    SortedMap.find_erase, Function.update_apply]
  split <;> rfl

theorem shown_target {runtime : TargetRuntime} : (c.commit durable (.targetUpsert runtime)).mem.shown =
    Function.update c.mem.shown runtime.id (some runtime.mark) := by
  funext id
  simp only [ControllerState.shown, ControllerState.findTarget, Controller.commit, ControllerRecord.apply,
    ControllerStateCodec.setTarget, SortedMap.find_insert, Function.update_apply]
  split <;> rfl

theorem shown_markContact {s : ControllerState} {target : TargetId} {current : Bool} {atMillis : ℤ} :
    (markContact target current atMillis s).shown = s.shown := by
  rw [markContact]
  split
  · rfl
  next runtime hfind =>
    funext id
    simp only [ControllerState.shown, ControllerState.findTarget, SortedMap.find_insert]
    split
    next heq =>
      rw [heq, hfind]
      rfl
    · rfl

theorem findDelivery_markContact {s : ControllerState} {target : TargetId} {current : Bool} {atMillis : ℤ}
    {id : DeploymentId} : (markContact target current atMillis s).findDelivery id = s.findDelivery id := by
  rw [markContact]
  split <;> rfl

theorem settled_markContact {s : ControllerState} {target : TargetId} {current : Bool} {atMillis : ℤ} :
    (markContact target current atMillis s).settled = s.settled := by
  funext id
  rw [ControllerState.settled, findDelivery_markContact, ControllerState.settled]

theorem shown_of_find {s : ControllerState} {id : TargetId} {runtime : TargetRuntime}
    (h : s.findTarget id = some runtime) : s.shown id = some runtime.mark := congrArg (Option.map _) h

theorem shown_getD {s : ControllerState} {id : TargetId} {m : Mark Generation Digest} (h : s.shown id = some m) :
    ((s.findTarget id).getD {}).mark = m := by
  rw [ControllerState.shown] at h
  obtain ⟨runtime, hfind, rfl⟩ := Option.map_eq_some_iff.mp h
  rw [hfind, Option.getD_some]

theorem settled_isSome {s : ControllerState} {id : DeploymentId} {r : DeliveryRecord}
    (h : s.findDelivery id = some r) : (s.settled id).isSome := by
  rw [ControllerState.settled, h]
  rfl

end Records

/-! What a step does to the ledger. -/

section Steps

variable {b : Books} {base : TargetId → Generation} {own : TargetId → Prop} {c : Option Copy} {w w' : Fabric}

theorem serves_step {x x' : Site Generation Digest} {target : TargetId} {frame : Outgoing}
    (hx : x = (w.1 target).toSite) (hserves : serves x frame x') (hwarranted : warranted b w target frame)
    (hsends : (careful b).sends target frame w) :
    x' = x ∨ Site.Step ((ledger w).Covers b.toOrders target) x x' := by
  subst hx
  unfold serves at hserves
  split at hserves
  · refine hserves.imp id fun heq => ?_
    rw [heq]
    exact .closes
  · refine hserves.imp id fun heq => ?_
    rw [heq]
    exact .closes
  next m =>
    refine hserves.imp id fun ⟨hle, heq⟩ => ?_
    rw [heq]
    exact .opens (lt_of_le_of_ne hle fun hsame => hsends.2 m rfl hsame.symm) hwarranted
  next m =>
    refine hserves.imp id fun ⟨hlt, heq⟩ => ?_
    rw [heq]
    exact .commits hlt hwarranted
  · exact .inl hserves

theorem vouches_step {covered : Generation → Prop} {x x' : Site Generation Digest} {low : Generation}
    {content : Content Generation Digest} (hx : x' = x ∨ Site.Step covered x x') (h : x.Vouches low content) :
    x'.Vouches low content := by
  obtain rfl | hstep := hx
  · exact h
  · exact ⟨h.1, hstep.reached h.2⟩

theorem lasts_step {covered : Generation → Prop} {x x' : Site Generation Digest} {low : Generation} {reply : Reply}
    (hx : x' = x ∨ Site.Step covered x x') (h : lasts b low x reply) : lasts b low x' reply := by
  cases reply with
  | prepareAck a => exact fun hduplicate => vouches_step hx (h hduplicate)
  | applyCommitAck a => exact fun hcommitted => vouches_step hx (h hcommitted)
  | deliveryAck a => exact vouches_step hx h
  | _ => trivial

theorem lasts_truthful {target : TargetId} {frame : Outgoing} {x : Site Generation Digest} {low : Generation}
    {reply : Reply} (hwarranted : warranted b w target frame) (hlow : low ≤ x.content.generation)
    (h : truthful x frame reply) : lasts b low x reply := by
  have hself {content : Content Generation Digest} (heq : x.content = content) : x.Vouches low content := by
    rw [← heq]
    exact ⟨hlow, .inr rfl⟩
  cases reply with
  | prepareAck a =>
    intro hduplicate
    obtain ⟨m, rfl, hdeployment, hcontent⟩ := h hduplicate
    rw [hdeployment]
    exact hself (hcontent.trans (Eq.symm hwarranted.1))
  | applyCommitAck a => exact fun hcommitted => hself (h hcommitted)
  | deliveryAck a => exact hself h
  | _ => trivial

theorem ledger_asks {target : TargetId} {p : Peer} : ledger (Function.update w.1 target p, w.2) =
    { ledger w with sites := Function.update (ledger w).sites target p.toSite } := by
  refine congrArg (fun sites => Ledger.mk sites w.2.mem.settled w.2.mem.shown) (funext fun t => ?_)
  change (Function.update w.1 target p t).toSite = _
  by_cases ht : t = target
  · subst ht
    rw [Function.update_self, Function.update_self]
  · rw [Function.update_of_ne ht, Function.update_of_ne ht]
    rfl

theorem delivery_step {record : DeliveryRecord} {durable : Bool}
    (hdone : record.state = .acknowledged → (ledger w).Done b.toOrders record.id) :
    Ledger.Step b.toOrders (ledger w) (ledger (w.1, w.2.commit durable (.deliveryUpsert record))) := by
  have hentries : ledger (w.1, w.2.commit durable (.deliveryUpsert record)) = { ledger w with
      entries := Function.update (ledger w).entries record.id (some (record.state == .acknowledged)) } :=
    congrArg (fun entries => Ledger.mk (ledger w).sites entries (ledger w).marks) settled_delivery
  rw [hentries]
  by_cases hstate : record.state = .acknowledged
  · rw [hstate, beq_self_eq_true]
    exact .settles (hdone hstate)
  · rw [beq_eq_false_iff_ne.mpr hstate]
    exact .enters record.id

theorem remove_step {id : DeploymentId} {durable : Bool} (hpassed : (ledger w).Passed b.toOrders id) :
    Ledger.Step b.toOrders (ledger w) (ledger (w.1, w.2.commit durable (.deliveryRemove id))) := by
  have hentries : ledger (w.1, w.2.commit durable (.deliveryRemove id)) = { ledger w with
      entries := Function.update (ledger w).entries id none } :=
    congrArg (fun entries => Ledger.mk (ledger w).sites entries (ledger w).marks) settled_remove
  rw [hentries]
  exact .drops hpassed

theorem ledger_contact {target : TargetId} {current : Bool} {atMillis : ℤ} :
    ledger (w.1, { w.2 with mem := markContact target current atMillis w.2.mem }) = ledger w :=
  congrArg₂ (fun entries marks => Ledger.mk (ledger w).sites entries marks) settled_markContact shown_markContact

theorem ledger_reads {target : TargetId} {rest : List Reply} :
    ledger (Function.update w.1 target ((w.1 target).left rest), w.2) = ledger w := by
  rw [ledger_asks]
  exact congrArg (fun sites => Ledger.mk sites w.2.mem.settled w.2.mem.shown) (Function.update_eq_self target _)

/-- Where a target's record is written back while it is current, a deed is a step of the ledger or none. -/
theorem Deed.ledger_step (h : Deed b own c w w') (hwrites : (careful b).writes c w) :
    ledger w' = ledger w ∨ Ledger.Step b.toOrders (ledger w) (ledger w') := by
  cases h with
  | idle => exact .inl rfl
  | @asks _ target frame p _ hwarranted hsends hanswers =>
    rw [ledger_asks]
    obtain hsame | hstep := serves_step rfl hanswers.serves hwarranted hsends
    · left
      rw [hsame]
      exact congrArg (fun sites => Ledger.mk sites w.2.mem.settled w.2.mem.shown) (Function.update_eq_self target _)
    · exact .inr (.site hstep)
  | reads => exact .inl ledger_reads
  | delivery _ hdone => exact .inr (delivery_step hdone)
  | @target _ id copy runtime durable hid _ htells =>
    subst hid
    right
    have hmarks : ledger (w.1, w.2.commit durable (.targetUpsert runtime)) = { ledger w with
        marks := Function.update (ledger w).marks runtime.id (some runtime.mark) } :=
      congrArg (fun marks => Ledger.mk (ledger w).sites (ledger w).entries marks) shown_target
    rw [hmarks]
    exact .marks (htells (hwrites _ _ rfl))
  | contact => exact .inl ledger_contact
  | remove hpassed => exact .inr (remove_step hpassed)
  | artifact => exact .inl rfl
  | compact => exact .inl rfl

/-- What is on record stays, or something newer is. -/
structure Advances (b : Books) (w w' : Fabric) : Prop where
  passed : ∀ i, (ledger w).Passed b.toOrders i → (ledger w').Passed b.toOrders i
  covers : ∀ t g, (ledger w).Covers b.toOrders t g → (ledger w').Covers b.toOrders t g

theorem Advances.refl (w : Fabric) : Advances b w w := ⟨fun _ h => h, fun _ _ h => h⟩

theorem Advances.trans {w'' : Fabric} (h : Advances b w w') (h' : Advances b w' w'') : Advances b w w'' :=
  ⟨fun i hi => h'.passed i (h.passed i hi), fun t g hg => h'.covers t g (h.covers t g hg)⟩

theorem Advances.of_entries (h : w'.2.mem.settled = w.2.mem.settled) : Advances b w w' := by
  constructor
  · rintro i ⟨j, hj, hbefore⟩
    exact ⟨j, (congrArg Option.isSome (congrFun h j)).trans hj, hbefore⟩
  · rintro t g ⟨j, hj, hsite⟩
    exact ⟨j, (congrArg Option.isSome (congrFun h j)).trans hj, hsite⟩

theorem Advances.of_step (h : Ledger.Step b.toOrders (ledger w) (ledger w')) : Advances b w w' :=
  ⟨fun _ => h.passed, fun _ _ => h.covers⟩

theorem Deed.advances (h : Deed b own c w w') : Advances b w w' := by
  cases h with
  | delivery _ hdone => exact .of_step (delivery_step hdone)
  | contact => exact .of_entries settled_markContact
  | remove hpassed => exact .of_step (remove_step hpassed)
  | _ => exact .of_entries rfl

/-! The invariant. -/

theorem Books.Keeps.apply {s : ControllerState} (h : b.Keeps s) {r : ControllerRecord}
    (hr : ∀ record, r = .deliveryUpsert record → b.Lists record.parcel) : b.Keeps (r.apply s) := by
  intro id found hfound
  cases r with
  | deliveryUpsert record =>
    simp only [ControllerState.findDelivery, ControllerRecord.apply, SortedMap.find_insert] at hfound
    split at hfound
    · cases hfound
      exact hr _ rfl
    · exact h id found hfound
  | deliveryRemove removed =>
    simp only [ControllerState.findDelivery, ControllerRecord.apply, SortedMap.find_erase] at hfound
    split at hfound
    · cases hfound
    · exact h id found hfound
  | _ => exact h id found hfound

theorem Deed.keeps (h : Deed b own c w w') (hmem : b.Keeps w.2.mem) (hdur : b.Keeps w.2.dur) :
    b.Keeps w'.2.mem ∧ b.Keeps w'.2.dur := by
  have hcommit {durable : Bool} {r : ControllerRecord}
      (hr : ∀ record, r = .deliveryUpsert record → b.Lists record.parcel) :
      b.Keeps (w.2.commit durable r).mem ∧ b.Keeps (w.2.commit durable r).dur := by
    refine ⟨hmem.apply hr, ?_⟩
    cases durable with
    | false => exact hdur
    | true => exact hdur.apply hr
  cases h with
  | idle => exact ⟨hmem, hdur⟩
  | asks => exact ⟨hmem, hdur⟩
  | reads => exact ⟨hmem, hdur⟩
  | delivery hlists =>
    apply hcommit
    rintro _ ⟨⟩
    exact hlists
  | target => exact hcommit fun _ h => by cases h
  | contact =>
    refine ⟨fun id r hr => hmem id r ?_, hdur⟩
    rw [← hr]
    exact findDelivery_markContact.symm
  | remove => exact hcommit fun _ h => by cases h
  | artifact => exact hcommit fun _ h => by cases h
  | compact => exact ⟨hmem, hmem⟩

theorem Deed.filed (h : Deed b own c w w') (hw : w.2.Filed) : w'.2.Filed := by
  cases h with
  | idle => exact hw
  | asks => exact hw
  | reads => exact hw
  | delivery => exact hw.commit
  | target => exact hw.commit
  | contact => exact ⟨hw.mem.markContact _ _ _, hw.dur⟩
  | remove => exact hw.commit
  | artifact => exact hw.commit
  | compact => exact ⟨hw.mem, hw.mem⟩

theorem Deed.unread (h : Deed b own c w w') (hw : Upright b base w) :
    ∀ t, ∀ reply ∈ (w'.1 t).unread, lasts b (base t) (w'.1 t).toSite reply := by
  cases h with
  | @asks _ target frame p _ hwarranted hsends hanswers =>
    intro t reply hreply
    dsimp only at hreply ⊢
    by_cases ht : t = target
    · subst ht
      rw [Function.update_self] at hreply ⊢
      have hstep := serves_step rfl hanswers.serves hwarranted hsends
      obtain ⟨replies, hunread, htruthful⟩ := hanswers.replies
      rw [hunread] at hreply
      obtain hold | hnew := List.mem_append.mp hreply
      · have hmem : reply ∈ (w.1 t).unread := by
          unfold Peer.waiting at hold
          split at hold
          · cases hold
          · exact hold
        exact lasts_step hstep (hw.unread t reply hmem)
      · have hlow : base t ≤ p.content.generation := by
          obtain hsame | hstep := hstep
          · exact (hw.sound.low t).trans_eq (congrArg (·.content.generation) hsame.symm)
          · obtain heq | ⟨hlt, -⟩ := hstep.content
            · exact (hw.sound.low t).trans_eq (congrArg (·.generation) heq.symm)
            · exact (hw.sound.low t).trans hlt.le
        exact lasts_truthful hwarranted hlow (htruthful reply hnew)
    · rw [Function.update_of_ne ht] at hreply ⊢
      exact hw.unread t reply hreply
  | @reads _ target head rest _ hunread =>
    intro t reply hreply
    dsimp only at hreply ⊢
    by_cases ht : t = target
    · subst ht
      rw [Function.update_self] at hreply ⊢
      exact hw.unread t reply (hunread ▸ List.mem_cons_of_mem _ hreply)
    · rw [Function.update_of_ne ht] at hreply ⊢
      exact hw.unread t reply hreply
  | _ => exact hw.unread

theorem Deed.upright (h : Deed b own c w w') (hwrites : (careful b).writes c w) (hw : Upright b base w) :
    Upright b base w' where
  filed := h.filed hw.filed
  mem := (h.keeps hw.mem hw.dur).1
  dur := (h.keeps hw.mem hw.dur).2
  sound := by
    obtain heq | hstep := h.ledger_step hwrites
    · rw [heq]
      exact hw.sound
    · exact hstep.sound hw.sound
  unread := h.unread hw

/-! What the other tasks leave alone. -/

structure Rely (b : Books) (base : TargetId → Generation) (own : TargetId → Prop) (w w' : Fabric) : Prop where
  upright : Upright b base w'
  advances : Advances b w w'
  peer : ∀ t, own t → w'.1 t = w.1 t
  shown : ∀ t m, own t → w.2.mem.shown t = some m → w'.2.mem.shown t = some m

theorem Rely.refl (h : Upright b base w) : Rely b base own w w := ⟨h, .refl w, fun _ _ => rfl, fun _ _ _ hm => hm⟩

theorem Rely.trans {w'' : Fabric} (h : Rely b base own w w') (h' : Rely b base own w' w'') :
    Rely b base own w w'' where
  upright := h'.upright
  advances := h.advances.trans h'.advances
  peer t ht := (h'.peer t ht).trans (h.peer t ht)
  shown t m ht hm := h'.shown t m ht (h.shown t m ht hm)

/-- A settled order stays as it is, or is passed. -/
theorem Rely.clear (h : Rely b base own w w') {i : DeploymentId} (hi : own (b.site i))
    (hclear : (ledger w).Clear b.toOrders i) : (ledger w').Clear b.toOrders i := by
  obtain hpassed | hshown := hclear
  · exact .inl (h.advances.passed i hpassed)
  · refine .inr ⟨?_, h.shown _ _ hi hshown.mark⟩
    rw [← hshown.site]
    exact congrArg (·.content) (h.peer _ hi)

theorem Deed.relied {own' : TargetId → Prop} (h : Deed b own c w w') (hwrites : (careful b).writes c w)
    (hw : Upright b base w) (hapart : ∀ t, own t → ¬ own' t) : Rely b base own' w w' := by
  have hmoved {target : TargetId} {p : Peer} (hown : own target) (t : TargetId) (ht : own' t) :
      Function.update w.1 target p t = w.1 t := by
    apply Function.update_of_ne
    rintro rfl
    exact hapart _ hown ht
  refine ⟨h.upright hwrites hw, h.advances, ?_, ?_⟩
  · cases h with
    | asks hown => exact hmoved hown
    | reads hown => exact hmoved hown
    | _ => exact fun _ _ => rfl
  · cases h with
    | @target _ id copy runtime durable hid hmark =>
      intro t m ht hm
      subst hid
      rw [shown_target, Function.update_apply]
      split
      next heq =>
        subst heq
        rw [hmark fun hown => hapart _ hown ht, hwrites _ _ rfl, shown_getD hm]
      · exact hm
    | contact =>
      intro t m _ hm
      rw [shown_markContact]
      exact hm
    | _ => exact fun _ _ _ hm => hm

end Steps

end Distributor

end ConfigurationFabric
