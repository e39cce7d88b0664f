import Mathlib.Tactic.Ring
import ConfigurationFabric.PolicySafety

/-! How long a failed delivery waits. -/

namespace ConfigurationFabric

/-- What the loop computes while its delay is within the ceiling; the guard on the product never fires. -/
theorem doubled_eq {ceiling delay : ℕ} (hceiling : ceiling < 2 ^ 63) (n : ℕ) (hdelay : delay ≤ ceiling) :
    min ceiling (doubled ceiling n delay) = min ceiling (delay * 2 ^ n) := by
  induction n generalizing delay with
  | zero => simp [doubled]
  | succ n ih =>
    rw [doubled]
    by_cases hfull : delay ≥ ceiling
    · have hpow : 0 < 2 ^ (n + 1) := by positivity
      have hmul : delay ≤ delay * 2 ^ (n + 1) := Nat.le_mul_of_pos_right delay hpow
      rw [if_pos hfull]
      omega
    · have hproduct : ¬ (delay ≠ 0 ∧ 2 > (2 ^ 64 - 1) / delay) := by
        rintro ⟨hpos, hlt⟩
        have hdiv := (Nat.div_lt_iff_lt_mul (Nat.pos_of_ne_zero hpos)).mp hlt
        omega
      have hchecked : (checkedMul delay 2).getD ceiling = delay * 2 := by
        rw [checkedMul, if_neg hproduct]
        rfl
      have hpow : delay * 2 ^ (n + 1) = delay * 2 * 2 ^ n := by ring
      rw [if_neg hfull, hchecked, hpow]
      by_cases hle : delay * 2 ≤ ceiling
      · exact ih hle
      · have hpos : 0 < 2 ^ n := by positivity
        have hmul : delay * 2 ≤ delay * 2 * 2 ^ n := Nat.le_mul_of_pos_right _ hpos
        have hstops : doubled ceiling n (delay * 2) = delay * 2 := by
          cases n with
          | zero => rfl
          | succ n => rw [doubled, if_pos (by omega)]
        rw [hstops]
        omega

namespace DistributorPolicy

variable {p : DistributorPolicy}

theorem backoff_of_validate (h : p.validate = .ok ()) :
    0 ≤ p.retryBackoffMillis ∧ p.retryBackoffMillis ≤ p.maxBackoffMillis := by
  revert h
  fun_cases DistributorPolicy.validate p
  case case11 hbackoff _ _ _ _ => exact fun _ => by omega
  all_goals
    intro h
    cases h

/-- The product is the one of the integers: nothing wraps around. -/
theorem backoffFor_eq (hvalid : p.validate = .ok ()) (hrange : p.maxBackoffMillis < 2 ^ 63) (failures : ℕ) :
    backoffFor p failures = min p.maxBackoffMillis (p.retryBackoffMillis * 2 ^ min failures 16) := by
  obtain ⟨hzero, hle⟩ := backoff_of_validate hvalid
  obtain ⟨delay, hdelay⟩ := Int.eq_ofNat_of_zero_le hzero
  obtain ⟨ceiling, hceiling⟩ := Int.eq_ofNat_of_zero_le (hzero.trans hle)
  have hcast (n : ℕ) (hn : n < 2 ^ 63) : ((n : ℤ) % 2 ^ 64).toNat = n := by omega
  have hcapped : (if failures > 16 then 16 else failures) = min failures 16 := by
    split <;> omega
  rw [hceiling] at hle hrange
  rw [hdelay] at hle
  have hsmall : ceiling < 2 ^ 63 := by omega
  have hloop := doubled_eq hsmall (min failures 16) (by omega : delay ≤ ceiling)
  have hmin (a : ℕ) : (if a > ceiling then ceiling else a) = min ceiling a := by
    split <;> omega
  simp only [backoffFor, hdelay, hceiling, hcast ceiling hsmall, hcast delay (by omega), hcapped, hmin, hloop]
  push_cast
  rfl

theorem backoff_bounds (hvalid : p.validate = .ok ()) (hrange : p.maxBackoffMillis < 2 ^ 63) (failures : ℕ) :
    p.retryBackoffMillis ≤ backoffFor p failures ∧ backoffFor p failures ≤ p.maxBackoffMillis := by
  obtain ⟨hzero, hle⟩ := backoff_of_validate hvalid
  have hpow : (1 : ℤ) ≤ 2 ^ min failures 16 := one_le_pow₀ (by decide)
  have hmul : p.retryBackoffMillis ≤ p.retryBackoffMillis * 2 ^ min failures 16 := le_mul_of_one_le_right hzero hpow
  rw [backoffFor_eq hvalid hrange]
  omega

theorem backoff_mono (hvalid : p.validate = .ok ()) (hrange : p.maxBackoffMillis < 2 ^ 63) {failures failures' : ℕ}
    (h : failures ≤ failures') : backoffFor p failures ≤ backoffFor p failures' := by
  have hpow : (2 : ℤ) ^ min failures 16 ≤ 2 ^ min failures' 16 := pow_le_pow_right₀ (by decide) (by omega)
  have hmul := mul_le_mul_of_nonneg_left hpow (backoff_of_validate hvalid).1
  rw [backoffFor_eq hvalid hrange, backoffFor_eq hvalid hrange]
  omega

/-- Only a delivery that has failed waits, and for the rest of its backoff. -/
theorem waits {i : DecisionInput} {epoch : Epoch} {generation : Generation}
    (h : (p.decide i epoch generation).action = .wait) : i.millisSinceLastAttempt < backoffFor p i.failures ∧
      (p.decide i epoch generation).retryAfterMillis = backoffFor p i.failures - i.millisSinceLastAttempt := by
  revert h
  fun_cases DistributorPolicy.decide p i epoch generation
  case case10 hbackoff => exact fun _ => ⟨hbackoff, rfl⟩
  all_goals exact fun h => by cases h

/-- The backoff is the capped power of two over the base, and a delivery that waits it out waits no longer. -/
theorem backoff_law (p : DistributorPolicy) (hvalid : p.validate = .ok ()) (hrange : p.maxBackoffMillis < 2 ^ 63) :
    (∀ failures, p.retryBackoffMillis ≤ backoffFor p failures ∧ backoffFor p failures ≤ p.maxBackoffMillis ∧
      backoffFor p failures = min p.maxBackoffMillis (p.retryBackoffMillis * 2 ^ min failures 16)) ∧
    (∀ failures failures', failures ≤ failures' → backoffFor p failures ≤ backoffFor p failures') ∧
    ∀ (i : DecisionInput) (epoch : Epoch) (generation : Generation), 0 ≤ i.millisSinceLastAttempt →
      (p.decide i epoch generation).action = .wait →
      0 < (p.decide i epoch generation).retryAfterMillis ∧
        (p.decide i epoch generation).retryAfterMillis ≤ p.maxBackoffMillis ∧
        (p.decide { i with
          millisSinceLastAttempt := i.millisSinceLastAttempt + (p.decide i epoch generation).retryAfterMillis }
          epoch generation).action ≠ .wait := by
  refine ⟨fun failures => ?_, fun _ _ => backoff_mono hvalid hrange, fun i epoch generation helapsed hwait => ?_⟩
  · obtain ⟨hlow, hhigh⟩ := backoff_bounds hvalid hrange failures
    exact ⟨hlow, hhigh, backoffFor_eq hvalid hrange failures⟩
  · obtain ⟨hlt, hretry⟩ := waits hwait
    obtain ⟨-, hhigh⟩ := backoff_bounds hvalid hrange i.failures
    rw [hretry]
    refine ⟨by omega, by omega, fun hagain => ?_⟩
    have hover := (waits hagain).1
    dsimp only at hover
    omega

/-- A delivery that has failed three times, the last time a millisecond ago. -/
def recentFailure : DecisionInput where
  state := .failed
  failures := 3
  artifactAvailable := true
  millisSinceLastAttempt := 1

theorem recent_failure_waits : backoffFor {} 3 = 1600 ∧
    (({} : DistributorPolicy).decide recentFailure 1 1).action = .wait ∧
    (({} : DistributorPolicy).decide { recentFailure with millisSinceLastAttempt := 1600 } 1 1).action ≠ .wait := by
  have hlaw := backoff_law {} (by decide) (by decide)
  have hwait : (({} : DistributorPolicy).decide recentFailure 1 1).action = .wait := by decide
  have hretry : (({} : DistributorPolicy).decide recentFailure 1 1).retryAfterMillis = 1599 := by decide
  obtain ⟨-, -, hagain⟩ := hlaw.2.2 recentFailure 1 1 (by decide) hwait
  rw [hretry] at hagain
  exact ⟨(hlaw.1 3).2.2.trans (by decide), hwait, hagain⟩

end DistributorPolicy

end ConfigurationFabric
