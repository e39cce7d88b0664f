import Mathlib.Algebra.Group.Nat.Defs
import Mathlib.Data.List.Basic
import Mathlib.Logic.Function.Basic

/-! Decimal numerals as bytes. -/

namespace ConfigurationFabric.Decimal

def digits (n : ℕ) : List UInt8 := (Nat.toDigits 10 n).map fun c => UInt8.ofNat c.toNat

/-- The bytes `0` to `9`. -/
def IsDigit (c : UInt8) : Prop := 48 ≤ c ∧ c ≤ 57

instance : DecidablePred IsDigit := fun c => inferInstanceAs (Decidable (48 ≤ c ∧ c ≤ 57))

def next (v : ℕ) (c : UInt8) : ℕ := v * 10 + (c.toNat - 48)

/-- The number that digits after `v` make. -/
def value (v : ℕ) (l : List UInt8) : ℕ := l.foldl next v

variable {n : ℕ}

theorem digits_ne_nil : digits n ≠ [] := by
  simp [digits]

theorem byte_of_digit {c : Char} (hc : c.isDigit = true) :
    IsDigit (UInt8.ofNat c.toNat) ∧ (UInt8.ofNat c.toNat).toNat = c.toNat := by
  have hbounds : 48 ≤ c.toNat ∧ c.toNat ≤ 57 := by
    simp only [Char.isDigit, Bool.and_eq_true, decide_eq_true_eq, ge_iff_le, UInt32.le_iff_toNat_le] at hc
    exact hc
  obtain ⟨hlow, hhigh⟩ := hbounds
  have hvalue : (UInt8.ofNat c.toNat).toNat = c.toNat := by
    rw [UInt8.toNat_ofNat']
    omega
  refine ⟨⟨?_, ?_⟩, hvalue⟩
  · rw [UInt8.le_iff_toNat_le, hvalue]
    exact hlow
  · rw [UInt8.le_iff_toNat_le, hvalue]
    exact hhigh

theorem isDigit_of_mem {c : UInt8} (hc : c ∈ digits n) : IsDigit c := by
  obtain ⟨d, hd, rfl⟩ := List.mem_map.mp hc
  exact (byte_of_digit (Nat.isDigit_of_mem_toDigits (by decide) (by decide) hd)).1

theorem value_map {l : List Char} (hl : ∀ c ∈ l, c.isDigit = true) (v : ℕ) :
    value v (l.map fun c => UInt8.ofNat c.toNat) = Nat.ofDigitChars 10 l v := by
  induction l generalizing v with
  | nil => simp [value]
  | cons c l ih =>
    obtain ⟨hc, hl⟩ := List.forall_mem_cons.mp hl
    rw [List.map_cons, Nat.ofDigitChars_cons, ← ih hl, Nat.mul_comm]
    simp only [value, List.foldl_cons, next, (byte_of_digit hc).2]
    rfl

theorem value_digits : value 0 (digits n) = n := by
  rw [digits, value_map fun c hc => Nat.isDigit_of_mem_toDigits (by decide) (by decide) hc]
  exact Nat.ofDigitChars_ten_toDigits

theorem digits_injective : Function.Injective digits := by
  intro a b h
  rw [← value_digits (n := a), h, value_digits]

theorem le_value (v : ℕ) (l : List UInt8) : v ≤ value v l := by
  induction l generalizing v with
  | nil => exact Nat.le_refl v
  | cons c l ih =>
    have hnext : v ≤ next v c := by
      unfold next
      omega
    exact Nat.le_trans hnext (ih _)

theorem length_digits_le {k : ℕ} (hk : 0 < k) (h : n < 10 ^ k) : (digits n).length ≤ k := by
  rw [digits, List.length_map]
  exact (Nat.length_toDigits_le_iff (by decide) hk).mpr h

end ConfigurationFabric.Decimal
