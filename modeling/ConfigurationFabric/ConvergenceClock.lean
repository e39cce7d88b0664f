import ConfigurationFabric.Convergence
import ConfigurationFabric.Library.Delimited

/-! What of the convergence report depends on the clock and on the process that makes it. -/

namespace ConfigurationFabric

open LittleEndian

def TargetRuntime.durable (r : TargetRuntime) : TargetRuntime := { r with contactEstablishedThisProcess := false }

def ControllerState.durable (s : ControllerState) : ControllerState :=
  { s with targets := s.targets.map fun e => (e.1, e.2.durable) }

namespace Convergence

variable {s s' : ControllerState} {p : DistributorPolicy} {now now' : ℤ} {d : DeliveryRecord} {l l' : LineageConvergence}

/-! Sorting and removing repetitions. -/

section Unique

variable {α : Type} [DecidableEq α]

theorem mem_unique {l : List α} {a : α} : a ∈ unique l ↔ a ∈ l := by
  induction l using unique.induct with
  | case1 => rfl
  | case2 => rfl
  | case3 b l ih =>
    rw [unique, if_pos rfl, ih]
    simp
  | case4 b b' l hne ih =>
    rw [unique, if_neg hne, List.mem_cons, ih]
    exact List.mem_cons.symm

theorem head?_unique (l : List α) : (unique l).head? = l.head? := by
  induction l using unique.induct with
  | case1 => rfl
  | case2 => rfl
  | case3 b l ih => rw [unique, if_pos rfl, ih]; rfl
  | case4 b b' l hne ih => rw [unique, if_neg hne]; rfl

end Unique

theorem mem_sort {α : Type} {less : α → α → Bool} {l : List α} {a : α} : a ∈ sort less l ↔ a ∈ l :=
  List.mem_insertionSort _

theorem mem_blockers {b : BlockerKind} : b ∈ (arranged l).blockers ↔ b ∈ l.blockers := mem_unique.trans mem_sort

def kinds : List BlockerKind :=
  [.none, .notYetDelivered, .deliveryInFlight, .awaitingAcknowledgement, .retryBudgetExhausted, .targetUnreachable,
    .targetAuthorityFenced, .guaranteeUnsupported, .artifactUnavailable, .digestMismatchReported,
    .sizeMismatchReported, .schemaUnsupported, .policyRejected, .targetAheadOfDesired, .superseded,
    .livenessEvidenceStale, .prepareWindowOpen, .livePointerUnverified]

theorem mem_kinds (b : BlockerKind) : b ∈ kinds := by
  cases b <;> decide

theorem value_injective : Function.Injective BlockerKind.value := by
  have h : ∀ a ∈ kinds, ∀ b ∈ kinds, a.value = b.value → a = b := by decide
  exact fun a b => h a (mem_kinds a) b (mem_kinds b)

theorem name_injective : Function.Injective fun b => text (blockerKindName b) := by
  have h : ∀ a ∈ kinds, ∀ b ∈ kinds, text (blockerKindName a) = text (blockerKindName b) → a = b := by decide
  exact fun a b => h a (mem_kinds a) b (mem_kinds b)

theorem name_unbroken (b : BlockerKind) : ∀ x ∈ text (blockerKindName b), x ≠ 32 ∧ x ≠ 10 := by
  have h : ∀ b ∈ kinds, (text (blockerKindName b)).all fun x => x ≠ 32 ∧ x ≠ 10 := by decide
  exact fun x hx => of_decide_eq_true (List.all_eq_true.mp (h b (mem_kinds b)) x hx)

theorem blockers_pairwise (l : List BlockerKind) :
    (sort (fun lhs rhs => lhs.value < rhs.value) l).Pairwise fun a b => a.value ≤ b.value := by
  let r (a b : BlockerKind) : Prop := decide (b.value < a.value) = false
  have hr (a b : BlockerKind) : r a b ↔ a.value ≤ b.value := by simp [r]
  have : Std.Total r := ⟨fun a b => by simp only [hr]; omega⟩
  have : IsTrans BlockerKind r := ⟨fun a b c h h' => by simp only [hr] at *; omega⟩
  exact (List.pairwise_insertionSort r l).imp fun h => (hr _ _).mp h

/-- The first blocker is the least. -/
theorem front_iff {b : BlockerKind} :
    (arranged l).blockers.head? = some b ↔ b ∈ l.blockers ∧ ∀ x ∈ l.blockers, b.value ≤ x.value := by
  have hsorted := blockers_pairwise l.blockers
  have hmem (x : BlockerKind) : x ∈ sort (fun lhs rhs => lhs.value < rhs.value) l.blockers ↔ x ∈ l.blockers :=
    mem_sort
  rw [arranged, head?_unique]
  generalize sort (fun lhs rhs => decide (lhs.value < rhs.value)) l.blockers = m at hsorted hmem
  cases m with
  | nil =>
    constructor
    · intro h
      cases h
    · rintro ⟨hb, -⟩
      exact absurd ((hmem b).mpr hb) List.not_mem_nil
  | cons a m =>
    obtain ⟨hle, -⟩ := List.pairwise_cons.mp hsorted
    have hleast : ∀ x ∈ l.blockers, a.value ≤ x.value := by
      intro x hx
      obtain rfl | hx := List.mem_cons.mp ((hmem x).mpr hx)
      · exact le_rfl
      · exact hle x hx
    constructor
    · intro h
      obtain rfl := Option.some.inj h
      exact ⟨(hmem a).mp List.mem_cons_self, hleast⟩
    · rintro ⟨hb, hmin⟩
      have hsame := le_antisymm (hleast b hb) (hmin a ((hmem a).mp List.mem_cons_self))
      rw [value_injective hsame]
      rfl

/-! One lineage. -/

/-- The flag of this process is not shown. -/
def forget (l : LineageConvergence) : LineageConvergence := { l with contactEstablishedThisProcess := false }

theorem render_forget (l : LineageConvergence) : (forget l).render = l.render := rfl

theorem forget_stateFindings (l : LineageConvergence) : forget (stateFindings p d l) = stateFindings p d (forget l) := by
  unfold stateFindings
  split <;> rfl

theorem forget_runtimeFindings (fresh : Bool) (runtime : Option TargetRuntime) (l : LineageConvergence) :
    forget (runtimeFindings fresh d runtime l) = runtimeFindings fresh d (runtime.map TargetRuntime.durable) (forget l) := by
  cases runtime with
  | none => rfl
  | some r =>
    simp only [runtimeFindings, Option.map_some, TargetRuntime.durable]
    split <;> split <;> split <;> rfl

theorem forget_lineageOf (runtime : Option TargetRuntime) (fresh : Bool) :
    forget (lineageOf p d runtime fresh) = lineageOf p d (runtime.map TargetRuntime.durable) fresh := by
  have hbase : forget (lineageBase d runtime) = lineageBase d (runtime.map TargetRuntime.durable) := by
    cases runtime <;> rfl
  have harranged (l : LineageConvergence) : forget (arranged l) = arranged (forget l) := rfl
  rw [lineageOf, harranged, forget_runtimeFindings, forget_stateFindings, hbase, lineageOf]

/-- Freshness matters where something is pending at a target that is known. -/
theorem lineageOf_congr {runtime : Option TargetRuntime} {fresh fresh' : Bool}
    (h : isPendingState d.state = true → ∀ r ∈ runtime, fresh = fresh') :
    lineageOf p d runtime fresh = lineageOf p d runtime fresh' := by
  cases runtime with
  | none => rfl
  | some r =>
    by_cases hpending : isPendingState d.state = true
    · rw [h hpending r rfl]
    · simp only [lineageOf, runtimeFindings, Bool.eq_false_of_not_eq_true hpending, Bool.and_false]

/-- A lineage that is shown differently for a stale contact. -/
structure Staled (fresh stale : LineageConvergence) : Prop where
  same : { stale with blockers := fresh.blockers, pending := fresh.pending } = fresh
  only : BlockerKind.livenessEvidenceStale ∉ fresh.blockers
  blockers : ∀ b, b ∈ stale.blockers ↔ b = .livenessEvidenceStale ∨ b ∈ fresh.blockers
  earlier : ∃ b ∈ fresh.blockers, b.value < BlockerKind.livenessEvidenceStale.value

theorem failureBlocker_settled (e : ErrorCode) : BlockerKind.livenessEvidenceStale ∉ failureBlocker e := by
  unfold failureBlocker
  split <;> decide

/-- A pending state has a blocker of its own. -/
theorem stateFindings_pending (hpending : isPendingState d.state = true) (hl : l.blockers = []) :
    BlockerKind.livenessEvidenceStale ∉ (stateFindings p d l).blockers ∧
      ∃ b ∈ (stateFindings p d l).blockers, b.value < BlockerKind.livenessEvidenceStale.value := by
  have hone {b : BlockerKind} (hb : b.value < BlockerKind.livenessEvidenceStale.value) (more : List BlockerKind)
      (hmore : BlockerKind.livenessEvidenceStale ∉ more) : BlockerKind.livenessEvidenceStale ∉ l.blockers ++ b :: more ∧
        ∃ b' ∈ l.blockers ++ b :: more, b'.value < BlockerKind.livenessEvidenceStale.value := by
    rw [hl]
    refine ⟨fun h => ?_, b, List.mem_cons_self, hb⟩
    obtain rfl | h := List.mem_cons.mp h
    · exact absurd hb (lt_irrefl _)
    · exact hmore h
  unfold stateFindings
  cases hstate : d.state with
  | applied | staged | verified | offered | transferred | prepared => exact hone (by decide) [] List.not_mem_nil
  | failed =>
    dsimp only
    split
    · exact hone (by decide) _ (failureBlocker_settled d.lastError)
    · exact hone (by decide) _ (failureBlocker_settled d.lastError)
  | acknowledged | rejected | retired =>
    rw [hstate] at hpending
    cases hpending

theorem staled_staleFinding (hl : BlockerKind.livenessEvidenceStale ∉ l.blockers)
    (hearlier : ∃ b ∈ l.blockers, b.value < BlockerKind.livenessEvidenceStale.value) : Staled l (staleFinding l) where
  same := rfl
  only := hl
  blockers b := by
    simp only [staleFinding, List.mem_append, List.mem_singleton]
    exact or_comm
  earlier := hearlier

/-- Another blocker changes nothing about that. -/
theorem Staled.push (h : Staled l l') {f : LineageConvergence → LineageConvergence} {b : BlockerKind}
    (hne : b ≠ .livenessEvidenceStale) (hf : ∀ l, (f l).blockers = l.blockers ++ [b])
    (hsame : { f l' with blockers := (f l).blockers, pending := (f l).pending } = f l) : Staled (f l) (f l') where
  same := hsame
  only := by
    rw [hf, List.mem_append, List.mem_singleton]
    rintro (hmem | heq)
    · exact h.only hmem
    · exact hne heq.symm
  blockers x := by
    rw [hf, hf, List.mem_append, List.mem_append, h.blockers, or_assoc]
  earlier := by
    obtain ⟨x, hx, hlt⟩ := h.earlier
    exact ⟨x, by rw [hf]; exact List.mem_append_left _ hx, hlt⟩

theorem staled_runtimeFindings {r : TargetRuntime} (hpending : isPendingState d.state = true)
    (hl : BlockerKind.livenessEvidenceStale ∉ l.blockers)
    (hearlier : ∃ b ∈ l.blockers, b.value < BlockerKind.livenessEvidenceStale.value) :
    Staled (runtimeFindings true d (some r) l) (runtimeFindings false d (some r) l) := by
  have hstale := staled_staleFinding hl hearlier
  have hwindow : Staled (if r.applyPrepared then windowFinding l else l)
      (if r.applyPrepared then windowFinding (staleFinding l) else staleFinding l) := by
    split
    · exact hstale.push (by decide) (fun _ => rfl) rfl
    · exact hstale
  simp only [runtimeFindings, hpending, Bool.not_true, Bool.not_false, Bool.and_self, Bool.false_and, if_true]
  split
  · exact hwindow.push (by decide) (fun _ => rfl) (congrArg (aheadFinding r d) hwindow.same)
  · exact hwindow

theorem staled_lineageOf {r : TargetRuntime} (hpending : isPendingState d.state = true) :
    ∃ l l', lineageOf p d (some r) true = arranged l ∧ lineageOf p d (some r) false = arranged l' ∧ Staled l l' := by
  obtain ⟨hnot, hearlier⟩ := stateFindings_pending (p := p) (l := lineageBase d (some r)) hpending rfl
  exact ⟨_, _, rfl, rfl, staled_runtimeFindings hpending hnot hearlier⟩

/-- Whatever reads neither list is the same. -/
theorem Staled.read {β : Type} (h : Staled l l') (f : LineageConvergence → β)
    (hf : ∀ l bs items, f { l with blockers := bs, pending := items } = f l) : f (arranged l') = f (arranged l) :=
  calc f (arranged l')
      = f { l' with blockers := l.blockers, pending := l.pending } := (hf l' _ _).trans (hf l' _ _).symm
    _ = f l := by rw [h.same]
    _ = f (arranged l) := (hf l _ _).symm

/-- The least blocker is the same. -/
theorem Staled.front (h : Staled l l') : (arranged l').blockers.head? = (arranged l).blockers.head? := by
  obtain ⟨x, hx, hlt⟩ := h.earlier
  cases hfront : (arranged l).blockers.head? with
  | none =>
    rw [List.head?_eq_none_iff] at hfront
    exact absurd (mem_blockers.mpr hx) (by rw [hfront]; exact List.not_mem_nil)
  | some b =>
    obtain ⟨hb, hle⟩ := front_iff.mp hfront
    refine front_iff.mpr ⟨(h.blockers b).mpr (.inr hb), fun y hy => ?_⟩
    obtain rfl | hy := (h.blockers y).mp hy
    · exact (hle x hx).trans hlt.le
    · exact hle y hy

/-! Its text. -/

theorem blockerLine_inj {bs bs' : List BlockerKind} {t t' : Bytes} (h : bs ≠ []) (h' : bs' ≠ [])
    (heq : LineageConvergence.blockerLine bs ++ t = LineageConvergence.blockerLine bs' ++ t') : bs = bs' := by
  have hspace (b : BlockerKind) : text " " ++ text (blockerKindName b) = 32 :: text (blockerKindName b) := rfl
  have hend (rest : Bytes) : text "\n" ++ rest = 10 :: rest := rfl
  rw [LineageConvergence.blockerLine, LineageConvergence.blockerLine, if_neg h, if_neg h'] at heq
  simp only [List.append_assoc, List.append_cancel_left_eq, hspace, hend] at heq
  exact (Delimited.line_inj name_injective (by decide) name_unbroken heq).1

/-- Two texts that go on from different blockers never agree. -/
theorem Staled.render_ne (h : Staled l l') (t t' : Bytes) : (arranged l).render ++ t ≠ (arranged l').render ++ t' := by
  obtain ⟨x, hx, -⟩ := h.earlier
  have hnil : (arranged l).blockers ≠ [] := List.ne_nil_of_mem (mem_blockers.mpr hx)
  have hnil' : (arranged l').blockers ≠ [] := List.ne_nil_of_mem (mem_blockers.mpr ((h.blockers x).mpr (.inr hx)))
  have hsummary := h.read LineageConvergence.summary fun _ _ _ => rfl
  intro heq
  rw [LineageConvergence.render, LineageConvergence.render, hsummary] at heq
  simp only [List.append_assoc, List.append_cancel_left_eq] at heq
  have hsame := blockerLine_inj hnil hnil' heq
  have hmem : BlockerKind.livenessEvidenceStale ∈ (arranged l').blockers :=
    mem_blockers.mpr ((h.blockers _).mpr (.inl rfl))
  exact h.only (mem_blockers.mp (hsame ▸ hmem))

/-! The report. -/

/-- The two are counted alike. -/
structure Alike (l l' : LineageConvergence) : Prop where
  converged : l'.converged = l.converged
  front : l'.blockers.head? = l.blockers.head?
  current : l'.currentGeneration = l.currentGeneration
  desired : l'.desiredGeneration = l.desiredGeneration
  material : ConvergenceReport.lineageMaterial l' = ConvergenceReport.lineageMaterial l

theorem Staled.alike (h : Staled l l') : Alike (arranged l) (arranged l') where
  converged := h.read LineageConvergence.converged fun _ _ _ => rfl
  front := h.front
  current := h.read LineageConvergence.currentGeneration fun _ _ _ => rfl
  desired := h.read LineageConvergence.desiredGeneration fun _ _ _ => rfl
  material := h.read ConvergenceReport.lineageMaterial fun _ _ _ => rfl

/-- Freshness never changes how a lineage is counted. -/
theorem alike_lineageOf (runtime : Option TargetRuntime) (fresh fresh' : Bool) :
    Alike (lineageOf p d runtime fresh) (lineageOf p d runtime fresh') := by
  have hrefl (l : LineageConvergence) : Alike l l := ⟨rfl, rfl, rfl, rfl, rfl⟩
  by_cases hsame : isPendingState d.state = true → ∀ r ∈ runtime, fresh = fresh'
  · rw [lineageOf_congr hsame]
    exact hrefl _
  · simp only [not_forall] at hsame
    obtain ⟨hpending, r, rfl, hne⟩ := hsame
    obtain ⟨l, l', hfresh, hstale, h⟩ := staled_lineageOf (p := p) (r := r) hpending
    cases fresh <;> cases fresh'
    · exact absurd rfl hne
    · rw [hfresh, hstale]
      have ha := h.alike
      exact ⟨ha.converged.symm, ha.front.symm, ha.current.symm, ha.desired.symm, ha.material.symm⟩
    · rw [hfresh, hstale]
      exact h.alike
    · exact absurd rfl hne

/-- What follows a lineage cannot make up for a different freshness. -/
theorem render_lineageOf_ne {r : TargetRuntime} {fresh fresh' : Bool} (hpending : isPendingState d.state = true)
    (hne : fresh ≠ fresh') (t t' : Bytes) :
    (lineageOf p d (some r) fresh).render ++ t ≠ (lineageOf p d (some r) fresh').render ++ t' := by
  obtain ⟨l, l', hfresh, hstale, h⟩ := staled_lineageOf (p := p) (r := r) hpending
  cases fresh <;> cases fresh'
  · exact absurd rfl hne
  · rw [hfresh, hstale]
    exact (h.render_ne t' t).symm
  · rw [hfresh, hstale]
    exact h.render_ne t t'
  · exact absurd rfl hne

/-- The newest delivery of each lineage. -/
def desiredDeliveries (s : ControllerState) : List DeliveryRecord := (lineages s).filterMap fun e => desired e.2

/-- The contact with the delivery's target is fresh. -/
def freshFor (s : ControllerState) (p : DistributorPolicy) (now : ℤ) (d : DeliveryRecord) : Bool :=
  (s.findTarget d.target).any fun r => isFreshContact r p now

/-- What the report reads besides the targets. -/
structure SameRecords (s s' : ControllerState) : Prop where
  nodeId : s.nodeId = s'.nodeId
  epoch : s.epoch = s'.epoch
  incarnation : s.incarnation = s'.incarnation
  deliveries : s.deliveries = s'.deliveries

theorem sameRecords_of_durable (h : s.durable = s'.durable) : SameRecords s s' := by
  simp only [ControllerState.durable, ControllerState.mk.injEq] at h
  obtain ⟨hnode, hepoch, hincarnation, -, -, hdeliveries, -⟩ := h
  exact ⟨hnode, hepoch, hincarnation, hdeliveries⟩

theorem SameRecords.lineages (h : SameRecords s s') : lineages s = lineages s' := by
  rw [Convergence.lineages, h.deliveries, Convergence.lineages]

theorem SameRecords.desired (h : SameRecords s s') : desiredDeliveries s = desiredDeliveries s' := by
  rw [desiredDeliveries, h.lineages, desiredDeliveries]

theorem findTarget_durable (h : s.durable = s'.durable) (id : TargetId) :
    (s.findTarget id).map TargetRuntime.durable = (s'.findTarget id).map TargetRuntime.durable := by
  have hfind := congrArg (fun s : ControllerState => s.targets.find id) h
  simpa only [ControllerState.durable, ControllerState.findTarget, SortedMap.find_map] using hfind

/-- Both know the target, or neither does. -/
theorem freshFor_eq_iff (h : s.durable = s'.durable) : freshFor s p now d = freshFor s' p now' d ↔
    ∀ r ∈ s.findTarget d.target, ∀ r' ∈ s'.findTarget d.target, isFreshContact r p now = isFreshContact r' p now' := by
  have hsame := findTarget_durable h d.target
  unfold freshFor
  cases hr : s.findTarget d.target with
  | none =>
    rw [hr] at hsame
    cases hr' : s'.findTarget d.target with
    | none => simp
    | some r' => rw [hr'] at hsame; cases hsame
  | some r =>
    rw [hr] at hsame
    cases hr' : s'.findTarget d.target with
    | none => rw [hr'] at hsame; cases hsame
    | some r' => simp

theorem forget_buildLineage (s : ControllerState) (p : DistributorPolicy) (now : ℤ) (d : DeliveryRecord) :
    forget (buildLineage s p now d) =
      lineageOf p d ((s.findTarget d.target).map TargetRuntime.durable) (freshFor s p now d) :=
  forget_lineageOf _ _

theorem alike_buildLineage (h : s.durable = s'.durable) (d : DeliveryRecord) :
    Alike (buildLineage s p now d) (buildLineage s' p now' d) := by
  have ha := alike_lineageOf (p := p) (d := d) ((s.findTarget d.target).map TargetRuntime.durable)
    (freshFor s p now d) (freshFor s' p now' d)
  have hs' := forget_buildLineage s' p now' d
  rw [← findTarget_durable h] at hs'
  rw [← forget_buildLineage, ← hs'] at ha
  exact ⟨ha.converged, ha.front, ha.current, ha.desired, ha.material⟩

/-- The report without its lineages. -/
def counts (r : ConvergenceReport) : ConvergenceReport := { r with lineages := [] }

theorem counts_count {r r' : ConvergenceReport} (h : counts r = counts r') (hl : Alike l l') :
    counts (count r l) = counts (count r' l') := by
  have hkeep (r : ConvergenceReport) (l : LineageConvergence) : counts (count r l) = counts (count (counts r) l) := by
    unfold count
    split_ifs <;> rfl
  have halike (r : ConvergenceReport) : counts (count r l) = counts (count r l') := by
    unfold count
    rw [hl.converged, hl.front, hl.current, hl.desired]
    split_ifs <;> rfl
  rw [hkeep, h, ← hkeep, halike]

theorem lineages_count (r : ConvergenceReport) (l : LineageConvergence) : (count r l).lineages = r.lineages ++ [l] := by
  unfold count
  split_ifs <;> rfl

theorem counts_addLineage (h : s.durable = s'.durable) {r r' : ConvergenceReport} (hr : counts r = counts r')
    (records : List DeliveryRecord) :
    counts (addLineage s p now r records) = counts (addLineage s' p now' r' records) := by
  unfold addLineage
  split
  · exact hr
  case h_2 d _ =>
    refine counts_count ?_ (alike_buildLineage h d)
    have hkeep (r : ConvergenceReport) (m n : ℕ) :
        counts { r with retiredCount := r.retiredCount + m, rejectedCount := r.rejectedCount + n } =
          { counts r with retiredCount := (counts r).retiredCount + m, rejectedCount := (counts r).rejectedCount + n } :=
      rfl
    rw [hkeep, hkeep, hr]

theorem lineages_addLineage (r : ConvergenceReport) (records : List DeliveryRecord) :
    (addLineage s p now r records).lineages = r.lineages ++ (desired records).toList.map (buildLineage s p now) := by
  unfold addLineage
  split
  case h_1 hnone => rw [hnone]; simp
  case h_2 d hsome => rw [lineages_count, hsome]; rfl

theorem counts_report (h : s.durable = s'.durable) :
    counts (buildConvergenceReport s p now) = counts (buildConvergenceReport s' p now') := by
  have hs := sameRecords_of_durable h
  have hfold (es : List (LineageKey × List DeliveryRecord)) (r r' : ConvergenceReport) (hr : counts r = counts r') :
      counts (es.foldl (fun r e => addLineage s p now r e.2) r) =
        counts (es.foldl (fun r e => addLineage s' p now' r e.2) r') := by
    induction es generalizing r r' with
    | nil => exact hr
    | cons e es ih => exact ih _ _ (counts_addLineage h hr e.2)
  rw [buildConvergenceReport, buildConvergenceReport, hs.lineages, hs.nodeId, hs.epoch, hs.incarnation]
  exact hfold _ _ _ rfl

theorem lineages_report : (buildConvergenceReport s p now).lineages = (desiredDeliveries s).map (buildLineage s p now) := by
  have hfold (es : List (LineageKey × List DeliveryRecord)) (r : ConvergenceReport) :
      (es.foldl (fun r e => addLineage s p now r e.2) r).lineages =
        r.lineages ++ (es.filterMap fun e => desired e.2).map (buildLineage s p now) := by
    induction es generalizing r with
    | nil => simp
    | cons e es ih =>
      rw [List.foldl_cons, ih, lineages_addLineage, List.append_assoc]
      cases hd : desired e.2 <;> simp [hd]
  exact hfold _ _

theorem render_report : (buildConvergenceReport s p now).render = (counts (buildConvergenceReport s p now)).header ++
    (desiredDeliveries s).flatMap fun d => (buildLineage s p now d).render := by
  rw [ConvergenceReport.render, lineages_report, List.flatMap_map]
  rfl

theorem material_report : (buildConvergenceReport s p now).material =
    (counts (buildConvergenceReport s p now)).material ++
      (desiredDeliveries s).flatMap fun d => ConvergenceReport.lineageMaterial (buildLineage s p now d) := by
  rw [ConvergenceReport.material, lineages_report, List.flatMap_map, ConvergenceReport.material]
  simp only [counts, List.flatMap_nil, List.append_nil]

theorem material_same (h : s.durable = s'.durable) :
    (buildConvergenceReport s p now).material = (buildConvergenceReport s' p now').material := by
  have hdesired := (sameRecords_of_durable h).desired
  have hcounts : counts (buildConvergenceReport s p now) = counts (buildConvergenceReport s' p now') := counts_report h
  have hmaterial (d : DeliveryRecord) : ConvergenceReport.lineageMaterial (buildLineage s p now d) =
      ConvergenceReport.lineageMaterial (buildLineage s' p now' d) := (alike_buildLineage h d).material.symm
  rw [material_report, material_report, hcounts, hdesired]
  simp only [hmaterial]

/-- Over one durable state the fingerprint is always the same; the text is where the freshness of the contact is, for
every pending delivery of a known target. -/
theorem report_deterministic_iff (h : s.durable = s'.durable) :
    ((buildConvergenceReport s p now).render = (buildConvergenceReport s' p now').render ∧
      (buildConvergenceReport s p now).fingerprint = (buildConvergenceReport s' p now').fingerprint) ↔
    ∀ d ∈ desiredDeliveries s, isPendingState d.state = true →
      ∀ r ∈ s.findTarget d.target, ∀ r' ∈ s'.findTarget d.target, isFreshContact r p now = isFreshContact r' p now' := by
  have hfingerprint : (buildConvergenceReport s p now).fingerprint = (buildConvergenceReport s' p now').fingerprint := by
    rw [ConvergenceReport.fingerprint, material_same h, ConvergenceReport.fingerprint]
  have hshown (d : DeliveryRecord) : (buildLineage s' p now' d).render =
      (lineageOf p d ((s.findTarget d.target).map TargetRuntime.durable) (freshFor s' p now' d)).render := by
    rw [← render_forget, forget_buildLineage, findTarget_durable h]
  rw [and_iff_left hfingerprint, render_report, render_report, counts_report h, ← (sameRecords_of_durable h).desired,
    List.append_cancel_left_eq]
  refine Delimited.flatMap_eq_iff (fun d _ hagree => ?_) fun d _ hdiffer t t' => ?_
  · rw [hshown, ← render_forget, forget_buildLineage]
    exact congrArg LineageConvergence.render (lineageOf_congr fun hpending _ _ =>
      (freshFor_eq_iff h).mpr (hagree hpending))
  · rw [hshown, ← render_forget, forget_buildLineage]
    obtain ⟨hpending, hne⟩ := Classical.not_imp.mp hdiffer
    cases hr : s.findTarget d.target with
    | none =>
      rw [hr] at hne
      exact absurd (fun r hr => nomatch hr) hne
    | some r =>
      refine render_lineageOf_ne hpending (fun hfresh => hne ?_) t t'
      exact (freshFor_eq_iff h).mp hfresh

/-- A delivery that has been prepared for a target last heard of at time 1. -/
def onePending (contact : Bool) : ControllerState where
  nodeId := text "node"
  epoch := 1
  targets := [(text "t", {
    id := text "t", term := 1, lastContactMillis := 1, contactEstablishedThisProcess := contact })]
  deliveries := [(text "d", { id := text "d", target := text "t", key := text "k", generation := 1 })]

theorem stale_reports_agree :
    (buildConvergenceReport (onePending true) {} 20000).render = (buildConvergenceReport (onePending false) {} 1).render ∧
    (buildConvergenceReport (onePending true) {} 20000).fingerprint =
      (buildConvergenceReport (onePending false) {} 1).fingerprint := by
  have hsame : (onePending true).durable = (onePending false).durable := rfl
  exact (report_deterministic_iff hsame).mpr (by decide +kernel)

/-- A restart forgets the contact and shows in the report. -/
theorem restart_changes_report :
    ¬ ∀ (s s' : ControllerState) (p : DistributorPolicy) (now now' : ℤ), s.durable = s'.durable →
      (buildConvergenceReport s p now).render = (buildConvergenceReport s' p now').render ∧
        (buildConvergenceReport s p now).fingerprint = (buildConvergenceReport s' p now').fingerprint := by
  intro h
  have hdiffer : (buildConvergenceReport (onePending true) {} 1).render ≠
      (buildConvergenceReport (onePending false) {} 1).render := by decide +kernel
  exact hdiffer (h (onePending true) (onePending false) {} 1 1 rfl).1

end Convergence

end ConfigurationFabric
