import Mathlib.Data.Nat.Basic
import Mathlib.Tactic.Ring
import Mathlib.Tactic.NormNum

namespace ConfigurationFabric.LittleEndian

abbrev Bytes := List UInt8

instance : LawfulBEq Bytes := inferInstance

/-- The `w` least significant base-256 digits of `v`, lowest first. -/
def store : ℕ → ℕ → Bytes
  | 0, _ => []
  | w + 1, v => UInt8.ofNat (v % 256) :: store w (v / 256)

def load : Bytes → ℕ
  | [] => 0
  | b :: bs => b.toNat + 256 * load bs

@[simp] theorem store_length (w v : ℕ) : (store w v).length = w := by
  induction w generalizing v with
  | zero => rfl
  | succ w ih => simp [store, ih]

theorem load_store_mod (w v : ℕ) : load (store w v) = v % 256 ^ w := by
  induction w generalizing v with
  | zero => simp [store, load, Nat.mod_one]
  | succ w ih =>
    have hb : (UInt8.ofNat (v % 256)).toNat = v % 256 := by simp
    rw [store, load, ih, hb, pow_succ', Nat.mod_mul]

theorem load_store {w v : ℕ} (h : v < 256 ^ w) : load (store w v) = v := by
  rw [load_store_mod, Nat.mod_eq_of_lt h]

theorem load_lt (bs : Bytes) : load bs < 256 ^ bs.length := by
  induction bs with
  | nil => simp [load]
  | cons b bs ih =>
    have hb := b.toNat_lt
    simp only [load, List.length_cons, pow_succ']
    omega

theorem store_load (bs : Bytes) : store bs.length (load bs) = bs := by
  induction bs with
  | nil => rfl
  | cons b bs ih =>
    have hb := b.toNat_lt
    have hm : (b.toNat + 256 * load bs) % 256 = b.toNat := by omega
    have hd : (b.toNat + 256 * load bs) / 256 = load bs := by omega
    simp only [load, List.length_cons, store, hm, hd, ih, UInt8.ofNat_toNat]

theorem load_injective {as bs : Bytes} (hl : as.length = bs.length) (h : load as = load bs) :
    as = bs := by
  rw [← store_load as, ← store_load bs, hl, h]

end ConfigurationFabric.LittleEndian
