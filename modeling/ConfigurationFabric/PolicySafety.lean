import ConfigurationFabric.Policy

/-! When the policy lets a delivery touch its target. -/

namespace ConfigurationFabric

/-- The actions that change what a target holds. -/
def PolicyAction.mutates : PolicyAction → Bool
  | .offer | .resumeTransfer | .activate => true
  | _ => false

/-- The delivery may go on, as far as the controller's own records tell. -/
structure DecisionInput.Admissible (i : DecisionInput) (p : DistributorPolicy) : Prop where
  current : i.supersededByNewerGeneration = false
  generation : i.targetGeneration = 0 ∨ i.targetGeneration ≤ i.desiredGeneration
  guarantee : guaranteeSatisfies i.targetGuarantee i.requirement = true
  artifact : i.artifactAvailable = true
  pending : isPendingState i.state = true
  notApplied : i.state ≠ .applied
  retry : i.state = .failed → i.failures < p.maxAttempts ∧ backoffFor p i.failures ≤ i.millisSinceLastAttempt

/-- What is known of the target is known from this process, and no window is open there. -/
structure DecisionInput.Evident (i : DecisionInput) : Prop where
  live : i.targetLive = true
  fresh : i.livenessEvidenceStale = false
  closed : i.targetApplyPrepared = false

namespace DistributorPolicy

variable {p : DistributorPolicy} {i : DecisionInput} {epoch : Epoch} {generation : Generation}

theorem pending_of_not_terminal {s : DeliveryState} (h : ¬ isTerminalState s = true) : isPendingState s = true := by
  cases s with
  | acknowledged => exact absurd rfl h
  | rejected => exact absurd rfl h
  | retired => exact absurd rfl h
  | _ => rfl

/-- The first five guards, which every delivery passes before it mutates. -/
theorem admissible_of_guards (hcurrent : ¬ (i.supersededByNewerGeneration = true ∨
      i.targetGeneration ≠ 0 ∧ i.targetGeneration > i.desiredGeneration))
    (hguarantee : ¬ (!guaranteeSatisfies i.targetGuarantee i.requirement) = true)
    (hartifact : ¬ (!i.artifactAvailable) = true) (hterminal : ¬ isTerminalState i.state = true)
    (happlied : ¬ i.state = .applied)
    (hretry : i.state = .failed → i.failures < p.maxAttempts ∧ backoffFor p i.failures ≤ i.millisSinceLastAttempt) :
    i.Admissible p := by
  obtain ⟨hsuperseded, hnewer⟩ := not_or.mp hcurrent
  constructor
  · exact Bool.eq_false_of_not_eq_true hsuperseded
  · by_cases hzero : i.targetGeneration = 0
    · exact .inl hzero
    · exact .inr (Nat.not_lt.mp fun hlt => hnewer ⟨hzero, hlt⟩)
  · simpa using hguarantee
  · simpa using hartifact
  · exact pending_of_not_terminal hterminal
  · exact happlied
  · exact hretry

theorem evident_of_guards (hstale : ¬ i.livenessEvidenceStale = true) (hopen : ¬ i.targetApplyPrepared = true)
    (hlive : ¬ (!i.targetLive) = true) : i.Evident := by
  constructor
  · simpa using hlive
  · exact Bool.eq_false_of_not_eq_true hstale
  · exact Bool.eq_false_of_not_eq_true hopen

theorem passed_of_mutates (h : (p.decide i epoch generation).action.mutates = true) :
    i.Admissible p ∧ (i.state = .failed ∨ i.Evident) := by
  revert h
  fun_cases DistributorPolicy.decide p i epoch generation
  case case11 h₁ h₂ h₃ h₄ h₅ hfailed hbudget hbackoff =>
    intro _
    refine ⟨admissible_of_guards h₁ h₂ h₃ h₄ h₅ fun _ => ?_, .inl hfailed⟩
    exact ⟨Nat.not_le.mp hbudget, Int.not_lt.mp hbackoff⟩
  case case15 h₁ h₂ h₃ h₄ h₅ h₆ h₇ h₈ h₉ _ =>
    exact fun _ => ⟨admissible_of_guards h₁ h₂ h₃ h₄ h₅ fun h => absurd h h₆, .inr (evident_of_guards h₇ h₈ h₉)⟩
  case case16 h₁ h₂ h₃ h₄ h₅ h₆ h₇ h₈ h₉ _ _ =>
    exact fun _ => ⟨admissible_of_guards h₁ h₂ h₃ h₄ h₅ fun h => absurd h h₆, .inr (evident_of_guards h₇ h₈ h₉)⟩
  case case17 h₁ h₂ h₃ h₄ h₅ h₆ h₇ h₈ h₉ _ _ =>
    exact fun _ => ⟨admissible_of_guards h₁ h₂ h₃ h₄ h₅ fun h => absurd h h₆, .inr (evident_of_guards h₇ h₈ h₉)⟩
  case case18 h₁ h₂ h₃ h₄ h₅ h₆ h₇ h₈ h₉ _ _ =>
    exact fun _ => ⟨admissible_of_guards h₁ h₂ h₃ h₄ h₅ fun h => absurd h h₆, .inr (evident_of_guards h₇ h₈ h₉)⟩
  case case19 h₁ h₂ h₃ h₄ h₅ h₆ h₇ h₈ h₉ _ _ =>
    exact fun _ => ⟨admissible_of_guards h₁ h₂ h₃ h₄ h₅ fun h => absurd h h₆, .inr (evident_of_guards h₇ h₈ h₉)⟩
  case case20 h₁ h₂ h₃ h₄ h₅ h₆ h₇ h₈ h₉ _ =>
    exact fun _ => ⟨admissible_of_guards h₁ h₂ h₃ h₄ h₅ fun h => absurd h h₆, .inr (evident_of_guards h₇ h₈ h₉)⟩
  case case21 h₁ h₂ h₃ h₄ h₅ h₆ h₇ h₈ h₉ _ =>
    exact fun _ => ⟨admissible_of_guards h₁ h₂ h₃ h₄ h₅ fun h => absurd h h₆, .inr (evident_of_guards h₇ h₈ h₉)⟩
  all_goals exact fun h => nomatch h

theorem state_of_offers
    (h : (p.decide i epoch generation).action = .offer ∨ (p.decide i epoch generation).action = .resumeTransfer) :
    i.state = .prepared ∨ i.state = .offered ∨ i.state = .transferred ∨ i.state = .failed ∧ i.failures < p.maxAttempts := by
  revert h
  fun_cases DistributorPolicy.decide p i epoch generation
  case case11 hfailed hbudget _ => exact fun _ => .inr (.inr (.inr ⟨hfailed, not_le.mp hbudget⟩))
  case case15 hs => exact fun _ => .inl hs
  case case16 hs _ => exact fun _ => .inr (.inl hs)
  case case17 hs _ => exact fun _ => .inr (.inl hs)
  case case18 hs _ => exact fun _ => .inr (.inr (.inl hs))
  case case19 hs _ => exact fun _ => .inr (.inr (.inl hs))
  all_goals exact fun h => h.elim (fun h => nomatch h) fun h => nomatch h

theorem budget_of_giveUp (h : (p.decide i epoch generation).action = .giveUp) : p.maxAttempts ≤ i.failures := by
  revert h
  fun_cases DistributorPolicy.decide p i epoch generation
  case case4 hbudget => exact fun _ => hbudget
  case case9 hbudget => exact fun _ => hbudget
  all_goals exact fun h => nomatch h

theorem mutates_of_failed (h : i.Admissible p) (hfailed : i.state = .failed) :
    (p.decide i epoch generation).action.mutates = true := by
  obtain ⟨hbudget, hbackoff⟩ := h.retry hfailed
  have hstale : ¬ (i.supersededByNewerGeneration = true ∨
      i.targetGeneration ≠ 0 ∧ i.targetGeneration > i.desiredGeneration) := by
    rintro (hsuperseded | ⟨hset, hnewer⟩)
    · rw [h.current] at hsuperseded
      cases hsuperseded
    · obtain hzero | hle := h.generation
      · exact hset hzero
      · exact Nat.not_lt.mpr hle hnewer
  rw [DistributorPolicy.decide, if_neg hstale, h.guarantee, h.artifact, hfailed]
  have hroom : ¬ i.failures ≥ p.maxAttempts := Nat.not_le.mpr hbudget
  have helapsed : ¬ i.millisSinceLastAttempt < backoffFor p i.failures := Int.not_lt.mpr hbackoff
  simp [isTerminalState, hroom, helapsed, PolicyAction.mutates]

/-- A mutating action needs an admissible delivery and current evidence, except that a delivery that has failed and may
be retried is offered again whatever is known of its target. -/
theorem mutates_safe_iff (p : DistributorPolicy) (i : DecisionInput) (epoch : Epoch) (generation : Generation) :
    ((p.decide i epoch generation).action.mutates = true → i.Admissible p ∧ i.Evident) ↔
      ¬ (i.state = .failed ∧ i.Admissible p ∧ ¬ i.Evident) := by
  constructor
  · rintro h ⟨hfailed, hadmissible, hblind⟩
    exact hblind (h (mutates_of_failed hadmissible hfailed)).2
  · intro h hmutates
    obtain ⟨hadmissible, hfailed | hevident⟩ := passed_of_mutates hmutates
    · by_contra hunsafe
      exact h ⟨hfailed, hadmissible, fun hevident => hunsafe ⟨hadmissible, hevident⟩⟩
    · exact ⟨hadmissible, hevident⟩

/-- A delivery to be retried at a target nothing is known of since the controller has started. -/
def blindRetry : DecisionInput where
  state := .failed
  failures := 1
  desiredGeneration := 1
  artifactAvailable := true
  livenessEvidenceStale := true
  targetApplyPrepared := true
  millisSinceLastAttempt := 1000

theorem failed_delivery_offered_blind : ¬ ∀ (p : DistributorPolicy) (i : DecisionInput), p.validate = .ok () →
    ∀ (epoch : Epoch) (generation : Generation), (p.decide i epoch generation).action.mutates = true →
      i.Admissible p ∧ i.Evident := by
  intro h
  have hvalid : ({} : DistributorPolicy).validate = .ok () := by decide
  have hmutates : (({} : DistributorPolicy).decide blindRetry 1 1).action.mutates = true := by decide
  have hevident := (h {} blindRetry hvalid 1 1 hmutates).2
  exact nomatch hevident.fresh

end DistributorPolicy

end ConfigurationFabric
