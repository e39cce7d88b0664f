import ConfigurationFabric.Library.LittleEndian

namespace ConfigurationFabric.Crc

open LittleEndian

variable (poly : BitVec 32)

/-- One bit of a reflected 32-bit cyclic redundancy check. -/
def shift (c : BitVec 32) : BitVec 32 :=
  if c.getLsbD 0 then (c >>> 1) ^^^ poly else c >>> 1

def shifts : ℕ → BitVec 32 → BitVec 32
  | 0, c => c
  | n + 1, c => shift poly (shifts n c)

def tableEntry (i : BitVec 32) : BitVec 32 := shifts poly 8 i

def byteStep (c : BitVec 32) (b : UInt8) : BitVec 32 :=
  tableEntry poly ((c ^^^ b.toBitVec.setWidth 32) &&& 255#32) ^^^ (c >>> 8)

def update (c : BitVec 32) (bs : Bytes) : BitVec 32 := bs.foldl (byteStep poly) c

theorem update_append (c : BitVec 32) (as bs : Bytes) :
    update poly c (as ++ bs) = update poly (update poly c as) bs := by
  simp [update]

theorem shift_xor (a b : BitVec 32) : shift poly (a ^^^ b) = shift poly a ^^^ shift poly b := by
  unfold shift
  simp only [BitVec.getLsbD_xor, BitVec.ushiftRight_xor_distrib]
  ext i hi
  cases a.getLsbD 0 <;> cases b.getLsbD 0 <;> simp [Bool.xor_comm, Bool.xor_left_comm]

theorem shifts_xor (n : ℕ) (a b : BitVec 32) :
    shifts poly n (a ^^^ b) = shifts poly n a ^^^ shifts poly n b := by
  induction n with
  | zero => rfl
  | succ n ih => rw [shifts, ih, shift_xor]; rfl

-- While the low bits are clear no subtraction of the polynomial takes place.
theorem shifts_clear (c : BitVec 32) (n : ℕ) (h : ∀ i < n, c.getLsbD i = false) :
    shifts poly n c = c >>> n := by
  induction n with
  | zero => simp [shifts]
  | succ n ih =>
    have hn : (c >>> n).getLsbD 0 = false := by simpa using h n (by omega)
    rw [shifts, ih (fun i hi => h i (by omega)), shift, hn]
    simp [BitVec.shiftRight_add]

theorem mask_bit (i : ℕ) : (255#32).getLsbD i = decide (i < 8) := by
  rw [BitVec.getLsbD_ofNat, show (255 : ℕ) = 2 ^ 8 - 1 from rfl, Nat.testBit_two_pow_sub_one]
  by_cases h : i < 8
  · simp [h, show i < 32 by omega]
  · simp [h]

theorem split_low (w : BitVec 32) : w = (w &&& 255#32) ^^^ (w &&& ~~~255#32) := by
  ext i hi
  simp only [BitVec.getElem_xor, BitVec.getElem_and, BitVec.getElem_not]
  cases w[i] <;> cases (255#32)[i] <;> rfl

theorem byteStep_eq_shifts (c : BitVec 32) (b : UInt8) :
    byteStep poly c b = shifts poly 8 (c ^^^ b.toBitVec.setWidth 32) := by
  have hclear : ∀ i < 8, ((c ^^^ b.toBitVec.setWidth 32) &&& ~~~255#32).getLsbD i = false := by
    intro i hi
    simp only [BitVec.getLsbD_and, BitVec.getLsbD_not, mask_bit, hi, decide_true, Bool.not_true,
      Bool.and_false]
  have hhigh : ((c ^^^ b.toBitVec.setWidth 32) &&& ~~~255#32) >>> 8 = c >>> 8 := by
    apply BitVec.eq_of_getLsbD_eq
    intro i hi
    have hb : b.toBitVec.getLsbD (8 + i) = false := BitVec.getLsbD_of_ge _ _ (by omega)
    simp only [BitVec.getLsbD_ushiftRight, BitVec.getLsbD_and, BitVec.getLsbD_not, mask_bit,
      BitVec.getLsbD_xor, BitVec.getLsbD_setWidth, hb]
    by_cases h : 8 + i < 32
    · simp [h]
    · simp [BitVec.getLsbD_of_ge c (8 + i) (by omega)]
  conv_rhs => rw [split_low (c ^^^ b.toBitVec.setWidth 32)]
  rw [shifts_xor, shifts_clear poly _ 8 hclear, hhigh]
  rfl

/-! The check bit by bit. -/

/-- A bit of the message comes in at the low end and is divided out at once. -/
def bitStep (c : BitVec 32) (b : Bool) : BitVec 32 :=
  if c.getLsbD 0 ^^ b then (c >>> 1) ^^^ poly else c >>> 1

def serial (c : BitVec 32) (bits : List Bool) : BitVec 32 := bits.foldl (bitStep poly) c

/-- The low bit of a byte comes first. -/
def bitsOf (b : UInt8) : List Bool := (List.range 8).map b.toBitVec.getLsbD

theorem serial_append (c : BitVec 32) (as bs : List Bool) :
    serial poly c (as ++ bs) = serial poly (serial poly c as) bs := List.foldl_append

theorem bitStep_eq_shift (c : BitVec 32) (b : Bool) :
    bitStep poly c b = shift poly (c ^^^ if b then 1#32 else 0#32) := by
  have hlow : (c ^^^ if b then 1#32 else 0#32).getLsbD 0 = (c.getLsbD 0 ^^ b) := by
    cases b <;> simp
  have hrest : (c ^^^ if b then 1#32 else 0#32) >>> 1 = c >>> 1 := by
    rw [BitVec.ushiftRight_xor_distrib]
    cases b <;> simp
  rw [bitStep, shift, hlow, hrest]

/-- The bits of a value up to one more than before. -/
theorem low_succ (v : BitVec 8) (n : ℕ) : (v.setWidth (n + 1)).setWidth 32 =
    (v.setWidth n).setWidth 32 ^^^ if v.getLsbD n then BitVec.twoPow 32 n else 0#32 := by
  apply BitVec.eq_of_getLsbD_eq
  intro i hi
  have hbit : (if v.getLsbD n then BitVec.twoPow 32 n else 0#32).getLsbD i = (decide (i = n) && v.getLsbD n) := by
    cases v.getLsbD n <;> simp [hi, eq_comm]
  rw [BitVec.getLsbD_xor, hbit]
  simp only [BitVec.getLsbD_setWidth, hi, decide_true, Bool.true_and]
  by_cases hlt : i < n
  · simp [hlt, hlt.ne, Nat.lt_succ_of_lt hlt]
  by_cases heq : i = n
  · simp [heq]
  · have hge : ¬ i < n + 1 := by omega
    simp [hlt, heq, hge]

theorem serial_low (c : BitVec 32) (v : BitVec 8) {n : ℕ} (hn : n ≤ 8) :
    serial poly c ((List.range n).map v.getLsbD) = shifts poly n (c ^^^ (v.setWidth n).setWidth 32) := by
  induction n with
  | zero =>
    have hnone : (v.setWidth 0).setWidth 32 = 0#32 := by
      apply BitVec.eq_of_getLsbD_eq
      intro i hi
      rw [BitVec.getLsbD_setWidth, BitVec.getLsbD_setWidth]
      simp
    rw [hnone, BitVec.xor_zero]
    rfl
  | succ n ih =>
    -- the new bit reaches the low end after as many shifts as there are bits below it
    have hreach : shifts poly n (if v.getLsbD n then BitVec.twoPow 32 n else 0#32) =
        if v.getLsbD n then 1#32 else 0#32 := by
      rw [shifts_clear]
      · cases v.getLsbD n
        · simp
        · have h32 : n < 32 := by omega
          apply BitVec.eq_of_getLsbD_eq
          intro i hi
          simp only [if_true, BitVec.getLsbD_ushiftRight, BitVec.getLsbD_twoPow, h32, decide_true, Bool.true_and,
            BitVec.getLsbD_one]
          by_cases hzero : i = 0
          · simp [hzero]
          · simp [hzero]
      · intro i hi
        cases v.getLsbD n
        · simp
        · simp [BitVec.getLsbD_twoPow]
          omega
    rw [List.range_succ, List.map_append, serial_append, ih (by omega), low_succ, ← BitVec.xor_assoc, shifts,
      shifts_xor poly n (c ^^^ _), hreach, ← bitStep_eq_shift]
    rfl

theorem byteStep_eq_serial (c : BitVec 32) (b : UInt8) : byteStep poly c b = serial poly c (bitsOf b) := by
  rw [byteStep_eq_shifts, bitsOf, serial_low poly c b.toBitVec (le_refl 8), BitVec.setWidth_eq]

/-- A byte at a time or a bit at a time. -/
theorem update_eq_serial (c : BitVec 32) (bs : Bytes) : update poly c bs = serial poly c (bs.flatMap bitsOf) := by
  induction bs generalizing c with
  | nil => rfl
  | cons b bs ih =>
    rw [List.flatMap_cons, serial_append, ← byteStep_eq_serial]
    exact ih (byteStep poly c b)

variable {poly}

theorem shift_injective (hp : poly.getLsbD 31 = true) : Function.Injective (shift poly) := by
  intro a b h
  -- the top bit of the result tells which branch was taken
  have top (c : BitVec 32) : (shift poly c).getLsbD 31 = c.getLsbD 0 := by
    unfold shift
    cases hc : c.getLsbD 0 <;> simp [hp]
  have hlow : a.getLsbD 0 = b.getLsbD 0 := by rw [← top a, ← top b, h]
  have hshift : a >>> 1 = b >>> 1 := by
    unfold shift at h
    rw [hlow] at h
    split at h
    · exact (BitVec.xor_left_inj _).mp h
    · exact h
  apply BitVec.eq_of_getLsbD_eq
  intro i hi
  cases i with
  | zero => exact hlow
  | succ i =>
    have := congrArg (fun x => x.getLsbD i) hshift
    simpa [BitVec.getLsbD_ushiftRight, Nat.add_comm] using this

theorem shifts_injective (hp : poly.getLsbD 31 = true) (n : ℕ) :
    Function.Injective (shifts poly n) := by
  induction n with
  | zero => exact fun _ _ h => h
  | succ n ih => exact (shift_injective hp).comp ih

theorem byteStep_left_injective (hp : poly.getLsbD 31 = true) (b : UInt8) :
    Function.Injective (fun c => byteStep poly c b) := by
  intro c d h
  simp only [byteStep_eq_shifts] at h
  exact (BitVec.xor_left_inj _).mp (shifts_injective hp 8 h)

theorem byteStep_right_injective (hp : poly.getLsbD 31 = true) (c : BitVec 32) :
    Function.Injective (byteStep poly c) := by
  intro a b h
  simp only [byteStep_eq_shifts] at h
  have hw : a.toBitVec.setWidth 32 = b.toBitVec.setWidth 32 :=
    (BitVec.xor_right_inj _).mp (shifts_injective hp 8 h)
  have := congrArg (BitVec.setWidth 8) hw
  simpa [UInt8.toBitVec_inj] using this

theorem update_injective (hp : poly.getLsbD 31 = true) (bs : Bytes) :
    Function.Injective (fun c => update poly c bs) := by
  induction bs with
  | nil => exact fun _ _ h => h
  | cons b bs ih => exact ih.comp (byteStep_left_injective hp b)

/-- Changing one byte of a message always changes its remainder. -/
theorem update_one_byte (hp : poly.getLsbD 31 = true) (c : BitVec 32) (front back : Bytes)
    {a b : UInt8} (hab : a ≠ b) :
    update poly c (front ++ a :: back) ≠ update poly c (front ++ b :: back) := by
  intro h
  rw [update_append, update_append] at h
  change update poly (byteStep poly _ a) back = update poly (byteStep poly _ b) back at h
  exact hab (byteStep_right_injective hp _ (update_injective hp back h))

end ConfigurationFabric.Crc
