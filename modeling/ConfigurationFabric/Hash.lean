import ConfigurationFabric.Library.Crc

namespace ConfigurationFabric

open LittleEndian

/-- The reflected Castagnoli polynomial. -/
def kPoly : BitVec 32 := 0x82F63B78#32

structure Crc32c where
  state : BitVec 32 := 0xFFFFFFFF#32

namespace Crc32c

def update (c : Crc32c) (data : Bytes) : Crc32c := ⟨Crc.update kPoly c.state data⟩

-- the register as it stands: only the one-shot function below applies the final xor
def value (c : Crc32c) : BitVec 32 := c.state

end Crc32c

def crc32c (data : Bytes) : BitVec 32 :=
  Crc.update kPoly 0xFFFFFFFF#32 data ^^^ 0xFFFFFFFF#32

/-- What the streaming checksum holds after all of the bytes. -/
def crc32cRegister (data : Bytes) : BitVec 32 := Crc.update kPoly 0xFFFFFFFF#32 data

theorem crc32cRegister_eq (data : Bytes) : crc32cRegister data = crc32c data ^^^ 0xFFFFFFFF#32 := by
  rw [crc32c, BitVec.xor_assoc, BitVec.xor_self, BitVec.xor_zero, crc32cRegister]

theorem crc32c_pieces (as bs : Bytes) :
    (((({} : Crc32c).update as).update bs).value) = crc32cRegister (as ++ bs) := by
  simp only [Crc32c.update, Crc32c.value, crc32cRegister, Crc.update_append]

theorem kPoly_top : kPoly.getLsbD 31 = true := by decide

theorem crc32cRegister_one_byte (front back : Bytes) {a b : UInt8} (hab : a ≠ b) :
    crc32cRegister (front ++ a :: back) ≠ crc32cRegister (front ++ b :: back) :=
  Crc.update_one_byte kPoly_top _ front back hab

theorem crc32c_one_byte (front back : Bytes) {a b : UInt8} (hab : a ≠ b) :
    crc32c (front ++ a :: back) ≠ crc32c (front ++ b :: back) := by
  intro h
  exact crc32cRegister_one_byte front back hab ((BitVec.xor_left_inj _).mp h)

def rotr32 (value : BitVec 32) (count : ℕ) : BitVec 32 :=
  (value >>> count) ||| (value <<< (32 - count))

def bigEndian32 (p : Bytes) : BitVec 32 :=
  BitVec.ofNat 32 (load (p.take 4).reverse)

def kSha256K : List (BitVec 32) :=
  [0x428a2f98, 0x71374491, 0xb5c0fbcf, 0xe9b5dba5, 0x3956c25b, 0x59f111f1,
    0x923f82a4, 0xab1c5ed5, 0xd807aa98, 0x12835b01, 0x243185be, 0x550c7dc3,
    0x72be5d74, 0x80deb1fe, 0x9bdc06a7, 0xc19bf174, 0xe49b69c1, 0xefbe4786,
    0x0fc19dc6, 0x240ca1cc, 0x2de92c6f, 0x4a7484aa, 0x5cb0a9dc, 0x76f988da,
    0x983e5152, 0xa831c66d, 0xb00327c8, 0xbf597fc7, 0xc6e00bf3, 0xd5a79147,
    0x06ca6351, 0x14292967, 0x27b70a85, 0x2e1b2138, 0x4d2c6dfc, 0x53380d13,
    0x650a7354, 0x766a0abb, 0x81c2c92e, 0x92722c85, 0xa2bfe8a1, 0xa81a664b,
    0xc24b8b70, 0xc76c51a3, 0xd192e819, 0xd6990624, 0xf40e3585, 0x106aa070,
    0x19a4c116, 0x1e376c08, 0x2748774c, 0x34b0bcb5, 0x391c0cb3, 0x4ed8aa4a,
    0x5b9cca4f, 0x682e6ff3, 0x748f82ee, 0x78a5636f, 0x84c87814, 0x8cc70208,
    0x90befffa, 0xa4506ceb, 0xbef9a3f7, 0xc67178f2]

structure Sha256State where
  a : BitVec 32
  b : BitVec 32
  c : BitVec 32
  d : BitVec 32
  e : BitVec 32
  f : BitVec 32
  g : BitVec 32
  h : BitVec 32

namespace Sha256State

def initial : Sha256State :=
  ⟨0x6a09e667, 0xbb67ae85, 0x3c6ef372, 0xa54ff53a, 0x510e527f, 0x9b05688c, 0x1f83d9ab, 0x5be0cd19⟩

/-- The next word of the message schedule, from the words so far, latest first. -/
def scheduleWord (w : List (BitVec 32)) : BitVec 32 :=
  let w15 := w.getD 14 0
  let w2 := w.getD 1 0
  let s0 := rotr32 w15 7 ^^^ rotr32 w15 18 ^^^ (w15 >>> 3)
  let s1 := rotr32 w2 17 ^^^ rotr32 w2 19 ^^^ (w2 >>> 10)
  w.getD 15 0 + s0 + w.getD 6 0 + s1

def scheduleFrom : ℕ → List (BitVec 32) → List (BitVec 32)
  | 0, w => w
  | n + 1, w => scheduleFrom n (scheduleWord w :: w)

def schedule (block : Bytes) : List (BitVec 32) :=
  (scheduleFrom 48 ((List.range 16).map fun i => bigEndian32 (block.drop (4 * i))).reverse).reverse

def round (s : Sha256State) (kw : BitVec 32 × BitVec 32) : Sha256State :=
  let s1 := rotr32 s.e 6 ^^^ rotr32 s.e 11 ^^^ rotr32 s.e 25
  let ch := (s.e &&& s.f) ^^^ (~~~s.e &&& s.g)
  let temp1 := s.h + s1 + ch + kw.1 + kw.2
  let s0 := rotr32 s.a 2 ^^^ rotr32 s.a 13 ^^^ rotr32 s.a 22
  let maj := (s.a &&& s.b) ^^^ (s.a &&& s.c) ^^^ (s.b &&& s.c)
  let temp2 := s0 + maj
  ⟨temp1 + temp2, s.a, s.b, s.c, s.d + temp1, s.e, s.f, s.g⟩

def compress (s : Sha256State) (block : Bytes) : Sha256State :=
  let t := (kSha256K.zip (schedule block)).foldl round s
  ⟨s.a + t.a, s.b + t.b, s.c + t.c, s.d + t.d, s.e + t.e, s.f + t.f, s.g + t.g, s.h + t.h⟩

def compressBlocks : ℕ → Sha256State → Bytes → Sha256State
  | 0, s, _ => s
  | n + 1, s, data => compressBlocks n (s.compress (data.take 64)) (data.drop 64)

theorem compressBlocks_append (n : ℕ) (s : Sha256State) (data more : Bytes) (h : 64 * n ≤ data.length) :
    s.compressBlocks n (data ++ more) = s.compressBlocks n data := by
  induction n generalizing s data with
  | zero => rfl
  | succ n ih =>
    rw [compressBlocks, compressBlocks, List.take_append_of_le_length (by omega),
      List.drop_append_of_le_length (by omega)]
    apply ih
    rw [List.length_drop]
    omega

theorem compressBlocks_add (m n : ℕ) (s : Sha256State) (data : Bytes) :
    s.compressBlocks (m + n) data = (s.compressBlocks m data).compressBlocks n (data.drop (64 * m)) := by
  induction m generalizing s data with
  | zero => simp [compressBlocks]
  | succ m ih =>
    rw [Nat.add_right_comm, compressBlocks, compressBlocks, ih, List.drop_drop]
    congr 2
    omega

def bytes (s : Sha256State) : Bytes :=
  [s.a, s.b, s.c, s.d, s.e, s.f, s.g, s.h].flatMap fun w => (store 4 w.toNat).reverse

end Sha256State

structure Sha256 where
  state : Sha256State := .initial
  buffer : Bytes := []
  totalBytes : ℕ := 0

namespace Sha256

-- a partly filled buffer is completed first, whole blocks are then taken from the data itself
def update (s : Sha256) (data : Bytes) : Sha256 :=
  let totalBytes := (s.totalBytes + data.length) % 2 ^ 64
  let fill := if s.buffer.length > 0 then min (64 - s.buffer.length) data.length else 0
  let buffer := s.buffer ++ data.take fill
  let rest := data.drop fill
  let (state, buffer) :=
    if s.buffer.length > 0 ∧ buffer.length = 64 then (s.state.compress buffer, [])
    else (s.state, buffer)
  let blocks := rest.length / 64
  ⟨state.compressBlocks blocks rest, buffer ++ rest.drop (64 * blocks), totalBytes⟩

def finish (s : Sha256) : Bytes :=
  let bitLength := s.totalBytes * 8 % 2 ^ 64
  let held := s.buffer.length
  let afterMarker := (held + 1) % 64
  let padZeros := if afterMarker ≤ 56 then 56 - afterMarker else 120 - afterMarker
  let final := s.buffer ++ 0x80 :: List.replicate padZeros 0 ++ (store 8 bitLength).reverse
  (s.state.compressBlocks (final.length / 64) final).bytes

-- the padding stays in the state, and the count of bytes is not reset
def finished (s : Sha256) : Sha256 :=
  let bitLength := s.totalBytes * 8 % 2 ^ 64
  let held := s.buffer.length
  let afterMarker := (held + 1) % 64
  let padZeros := if afterMarker ≤ 56 then 56 - afterMarker else 120 - afterMarker
  let final := s.buffer ++ 0x80 :: List.replicate padZeros 0 ++ (store 8 bitLength).reverse
  ⟨s.state.compressBlocks (final.length / 64) final, [], s.totalBytes⟩

/-- What is held back and the new data, taken together. -/
theorem update_eq (s : Sha256) (data : Bytes) (h : s.buffer.length < 64) :
    s.update data = ⟨s.state.compressBlocks ((s.buffer ++ data).length / 64) (s.buffer ++ data),
      (s.buffer ++ data).drop (64 * ((s.buffer ++ data).length / 64)), (s.totalBytes + data.length) % 2 ^ 64⟩ := by
  rw [update]
  by_cases hheld : s.buffer.length > 0
  · by_cases hfull : 64 - s.buffer.length ≤ data.length
    · have hblock : (s.buffer ++ data.take (64 - s.buffer.length)).length = 64 := by
        simp only [List.length_append, List.length_take]
        omega
      have hall : s.buffer ++ data =
          (s.buffer ++ data.take (64 - s.buffer.length)) ++ data.drop (64 - s.buffer.length) := by
        rw [List.append_assoc, List.take_append_drop]
      have hcount : (s.buffer ++ data).length / 64 = 1 + (data.drop (64 - s.buffer.length)).length / 64 := by
        rw [List.length_append, List.length_drop]
        omega
      simp only [hheld, Nat.min_eq_left hfull, hblock, if_true, and_self, hcount]
      rw [hall]
      generalize s.buffer ++ data.take (64 - s.buffer.length) = front at hblock
      generalize data.drop (64 - s.buffer.length) = back
      rw [Sha256State.compressBlocks_add, Sha256State.compressBlocks_append 1 _ _ _ (by omega), Nat.mul_add,
        ← List.drop_drop, List.drop_left' hblock, Sha256State.compressBlocks, Sha256State.compressBlocks,
        List.take_of_length_le hblock.le, List.nil_append]
    · have hfill : min (64 - s.buffer.length) data.length = data.length := by omega
      have hlength : (s.buffer ++ data).length = s.buffer.length + data.length := List.length_append
      have hpartial : ¬(s.buffer.length + data.length = 64) := by omega
      have hnone : (s.buffer.length + data.length) / 64 = 0 := by omega
      simp only [hheld, hfill, if_true, List.take_length, List.drop_length, hlength, hpartial, and_false, if_false,
        hnone]
      simp [Sha256State.compressBlocks]
  · have hnil : s.buffer = [] := List.length_eq_zero_iff.mp (by omega)
    simp [hnil]

theorem buffer_update_lt (s : Sha256) (data : Bytes) (h : s.buffer.length < 64) : (s.update data).buffer.length < 64 := by
  rw [update_eq s data h]
  dsimp only
  rw [List.length_drop]
  omega

theorem update_append (s : Sha256) (as bs : Bytes) (h : s.buffer.length < 64) :
    s.update (as ++ bs) = (s.update as).update bs := by
  rw [update_eq _ bs (buffer_update_lt s as h), update_eq s _ h, update_eq s as h]
  dsimp only
  generalize hall : s.buffer ++ as = all
  have hblocks : 64 * (all.length / 64) ≤ all.length := Nat.mul_div_le _ _
  have hcount : (s.buffer ++ (as ++ bs)).length / 64 =
      all.length / 64 + (all.drop (64 * (all.length / 64)) ++ bs).length / 64 := by
    rw [← List.append_assoc, hall]
    simp only [List.length_append, List.length_drop]
    omega
  rw [hcount, Sha256State.compressBlocks_add, ← List.append_assoc, hall,
    Sha256State.compressBlocks_append _ _ _ _ hblocks, List.drop_append_of_le_length hblocks, Nat.mul_add,
    ← List.drop_drop, List.drop_append_of_le_length hblocks]
  simp only [List.length_append, Nat.mod_add_mod]
  rw [Nat.add_assoc]

end Sha256

def sha256 (data : Bytes) : Bytes := (({} : Sha256).update data).finish

def hmacSha256 (key message : Bytes) : Bytes :=
  let base := if key.length > 64 then sha256 key else key
  let normalised := base ++ List.replicate (64 - base.length) 0
  let inner := normalised.map (· ^^^ 0x36)
  let outer := normalised.map (· ^^^ 0x5c)
  let innerDigest := ((({} : Sha256).update inner).update message).finish
  ((({} : Sha256).update outer).update innerDigest).finish

def constantTimeEquals (a b : Bytes) : Bool :=
  a.length == b.length && (List.zipWith (fun x y => x ^^^ y) a b).foldl (fun acc x => acc ||| x) 0 == 0

def hexDigit (n : UInt8) : UInt8 := if n < 10 then 48 + n else 87 + n

def toHex (bytes : Bytes) : Bytes :=
  bytes.flatMap fun (b : UInt8) => [hexDigit ((b >>> 4) &&& 0x0F), hexDigit (b &&& 0x0F)]

def nibble (c : UInt8) : Option UInt8 :=
  if 48 ≤ c ∧ c ≤ 57 then some (c - 48)
  else if 97 ≤ c ∧ c ≤ 102 then some (c - 97 + 10)
  else if 65 ≤ c ∧ c ≤ 70 then some (c - 65 + 10)
  else none

def fromHex : Bytes → Option Bytes
  | [] => some []
  | [_] => none
  | high :: low :: rest =>
    match nibble high, nibble low with
    | some high, some low => (fromHex rest).map (((high <<< 4) ||| low) :: ·)
    | _, _ => none

end ConfigurationFabric
