import ConfigurationFabric.Library.Fips180
import ConfigurationFabric.Hash
import Mathlib.Data.List.Induction

/-! The streaming hasher against the standard. -/

namespace ConfigurationFabric

open LittleEndian

theorem rotr32_eq (value : BitVec 32) {count : ℕ} (h : count < 32) : rotr32 value count = value.rotateRight count :=
  (Fips180.rotateRight_eq value h).symm

theorem bigEndian32_eq (block : Bytes) (t : ℕ) : bigEndian32 (block.drop (4 * t)) = Fips180.messageWord block t := by
  rw [bigEndian32, Fips180.messageWord, Fips180.fromBytes_eq]

theorem kSha256K_eq : kSha256K = Fips180.constants := by decide

theorem getD_latest (w : ℕ → BitVec 32) {n i : ℕ} (h : i < n) :
    ((List.range n).map w).reverse.getD i 0 = w (n - 1 - i) := by
  have hlength : i < ((List.range n).map w).reverse.length := by simpa using h
  rw [List.getD_eq_getElem?_getD, List.getElem?_eq_getElem hlength, Option.getD_some, List.getElem_reverse,
    List.getElem_map, List.getElem_range]
  simp

namespace Sha256State

def working (s : Sha256State) : Fips180.Working := ⟨s.a, s.b, s.c, s.d, s.e, s.f, s.g, s.h⟩

theorem working_initial : initial.working = Fips180.Working.initial := by
  have hroots : [initial.a, initial.b, initial.c, initial.d, initial.e, initial.f, initial.g, initial.h] =
      [2, 3, 5, 7, 11, 13, 17, 19].map Fips180.rootBits := by decide +kernel
  simp only [List.map_cons, List.map_nil, List.cons.injEq, and_true] at hroots
  obtain ⟨ha, hb, hc, hd, he, hf, hg, hh⟩ := hroots
  rw [working, ha, hb, hc, hd, he, hf, hg, hh, Fips180.Working.initial]

theorem scheduleWord_eq (block : Bytes) (t : ℕ) :
    scheduleWord ((List.range (t + 16)).map (Fips180.schedule block)).reverse = Fips180.schedule block (t + 16) := by
  have hword {i j : ℕ} (h : i + j = 15) : ((List.range (t + 16)).map (Fips180.schedule block)).reverse.getD i 0 =
      Fips180.schedule block (t + j) := by
    rw [getD_latest _ (by omega)]
    congr 1
    omega
  rw [scheduleWord, hword (show 14 + 1 = 15 by rfl), hword (show 1 + 14 = 15 by rfl), hword (show 15 + 0 = 15 by rfl),
    hword (show 6 + 9 = 15 by rfl), Nat.add_zero, Fips180.schedule_late, Fips180.smallSigma0, Fips180.smallSigma1, rotr32_eq _ (by decide), rotr32_eq _ (by decide),
    rotr32_eq _ (by decide), rotr32_eq _ (by decide)]
  ac_rfl

theorem scheduleFrom_eq (block : Bytes) (n t : ℕ) :
    scheduleFrom n ((List.range (t + 16)).map (Fips180.schedule block)).reverse =
      ((List.range (t + 16 + n)).map (Fips180.schedule block)).reverse := by
  induction n generalizing t with
  | zero => rfl
  | succ n ih =>
    have hnext : Fips180.schedule block (t + 16) :: ((List.range (t + 16)).map (Fips180.schedule block)).reverse =
        ((List.range (t + 1 + 16)).map (Fips180.schedule block)).reverse := by
      have hrange : List.range (t + 1 + 16) = List.range (t + 16) ++ [t + 16] := List.range_succ
      rw [hrange, List.map_append, List.reverse_append]
      rfl
    rw [scheduleFrom, scheduleWord_eq, hnext, ih]
    congr 3
    omega

theorem schedule_eq (block : Bytes) : schedule block = (List.range 64).map (Fips180.schedule block) := by
  have hearly : ((List.range 16).map fun i => bigEndian32 (block.drop (4 * i))) =
      (List.range (0 + 16)).map (Fips180.schedule block) := by
    apply List.map_congr_left
    intro t ht
    rw [bigEndian32_eq, Fips180.schedule_early block (List.mem_range.mp ht)]
  rw [schedule, hearly, scheduleFrom_eq, List.reverse_reverse]

theorem working_round (s : Sha256State) (k w : BitVec 32) : (s.round (k, w)).working = s.working.round k w := by
  simp only [round, working, Fips180.Working.round, Fips180.bigSigma0, Fips180.bigSigma1, Fips180.ch, Fips180.maj,
    rotr32_eq _ (show 2 < 32 by decide), rotr32_eq _ (show 13 < 32 by decide), rotr32_eq _ (show 22 < 32 by decide),
    rotr32_eq _ (show 6 < 32 by decide), rotr32_eq _ (show 11 < 32 by decide), rotr32_eq _ (show 25 < 32 by decide)]

theorem working_compress (s : Sha256State) (block : Bytes) :
    (s.compress block).working = Fips180.compress s.working block := by
  have hconstants : kSha256K = (List.range 64).map fun t => Fips180.constants.getD t 0 := by
    rw [kSha256K_eq]
    decide
  have hrounds : ((kSha256K.zip (schedule block)).foldl round s).working =
      s.working.rounds (Fips180.schedule block) := by
    rw [hconstants, schedule_eq, List.zip_map', List.foldl_map, Fips180.Working.rounds]
    exact (List.foldl_hom working fun s t => (working_round s _ _).symm).symm
  rw [Fips180.compress, ← hrounds]
  rfl

theorem compressBlocks_succ (n : ℕ) (s : Sha256State) (data : Bytes) :
    s.compressBlocks (n + 1) data = (s.compressBlocks n data).compress ((data.drop (64 * n)).take 64) := by
  rw [compressBlocks_add]
  rfl

theorem working_compressBlocks (n : ℕ) (s : Sha256State) (data : Bytes) :
    (s.compressBlocks n data).working =
      (List.range n).foldl (fun v i => Fips180.compress v ((data.drop (64 * i)).take 64)) s.working := by
  induction n with
  | zero => rfl
  | succ n ih => rw [compressBlocks_succ, working_compress, ih, List.range_succ, List.foldl_append]; rfl

theorem bytes_eq (s : Sha256State) : s.bytes = [s.working.a, s.working.b, s.working.c, s.working.d, s.working.e,
    s.working.f, s.working.g, s.working.h].flatMap fun w => Fips180.toBytes 4 w.toNat := by
  simp only [bytes, working, Fips180.toBytes_eq]

end Sha256State

/-- A loop that writes into an array, one place after the other. -/
def fill (dst : Bytes) (offset count : ℕ) (f : ℕ → UInt8) : Bytes :=
  (List.range count).foldl (fun dst i => dst.set (offset + i) (f i)) dst

theorem fill_eq (front middle back : Bytes) (f : ℕ → UInt8) :
    fill (front ++ (middle ++ back)) front.length middle.length f =
      front ++ ((List.range middle.length).map f ++ back) := by
  induction middle using List.reverseRecOn generalizing back with
  | nil => rfl
  | append_singleton middle b ih =>
    have hplace : (front ++ ((List.range middle.length).map f ++ b :: back)).set (front.length + middle.length)
        (f middle.length) = front ++ ((List.range middle.length).map f ++ f middle.length :: back) := by
      rw [List.set_append_right _ _ (by omega), Nat.add_sub_cancel_left, List.set_append_right _ _ (by simp)]
      simp
    have hlast := ih (b :: back)
    rw [fill] at hlast
    rw [List.length_append, List.length_singleton, fill, List.range_succ, List.foldl_append, List.append_assoc,
      List.singleton_append, hlast, List.foldl_cons, List.foldl_nil, hplace, List.map_append]
    simp

theorem length_fill (dst : Bytes) (offset count : ℕ) (f : ℕ → UInt8) : (fill dst offset count f).length = dst.length := by
  induction count with
  | zero => rfl
  | succ count ih =>
    rw [fill] at ih
    rw [fill, List.range_succ, List.foldl_append, List.foldl_cons, List.foldl_nil, List.length_set, ih]

theorem copied_eq (source : Bytes) : (List.range source.length).map (fun i => source.getD i 0) = source := by
  apply List.ext_getElem
  · simp
  · intro i hi hi'
    simp only [List.getElem_map, List.getElem_range, List.getD_eq_getElem?_getD, List.getElem?_eq_getElem hi',
      Option.getD_some]

/-- What the final blocks hold once everything is written. -/
theorem final_eq (buffer : Bytes) {zeros : ℕ} (f : ℕ → UInt8) (h : buffer.length + 1 + zeros + 8 ≤ 128) :
    fill ((fill (List.replicate 128 0) 0 buffer.length fun i => buffer.getD i 0).set buffer.length 0x80)
      (buffer.length + 1 + zeros) 8 f =
      buffer ++ 0x80 :: List.replicate zeros 0 ++
        ((List.range 8).map f ++ List.replicate (119 - buffer.length - zeros) 0) := by
  generalize hspare : List.replicate (119 - buffer.length - zeros) (0 : UInt8) = spare
  -- the array as the parts that are written one after the other
  have hparts : List.replicate 128 (0 : UInt8) = [] ++ (List.replicate buffer.length 0 ++
      (0 :: List.replicate zeros 0 ++ (List.replicate 8 0 ++ spare))) := by
    simp only [← hspare, List.nil_append, ← List.replicate_succ, List.replicate_append_replicate]
    congr 1
    omega
  have hcopied := fill_eq [] (List.replicate buffer.length 0)
    (0 :: List.replicate zeros 0 ++ (List.replicate 8 0 ++ spare)) fun i => buffer.getD i 0
  rw [← hparts, List.length_replicate, copied_eq, List.nil_append, List.length_nil] at hcopied
  have hmarked : (buffer ++ (0 :: List.replicate zeros 0 ++ (List.replicate 8 0 ++ spare))).set buffer.length 0x80 =
      (buffer ++ 0x80 :: List.replicate zeros 0) ++ (List.replicate 8 0 ++ spare) := by
    rw [List.set_append_right _ _ (le_refl _), Nat.sub_self]
    simp
  have hfront : (buffer ++ 0x80 :: List.replicate zeros 0).length = buffer.length + 1 + zeros := by
    simp only [List.length_append, List.length_cons, List.length_replicate]
    omega
  have hlength := fill_eq (buffer ++ 0x80 :: List.replicate zeros 0) (List.replicate 8 0) spare f
  rw [List.length_replicate, hfront] at hlength
  rw [hcopied, hmarked, hlength]

theorem lengthBytes_eq (bitLength : ℕ) :
    (List.range 8).map (fun i => UInt8.ofNat (bitLength >>> (56 - i * 8) &&& 0xFF)) = Fips180.toBytes 8 bitLength := by
  have hreverse : (List.range 8).reverse = (List.range 8).map (7 - ·) := by decide
  rw [Fips180.toBytes, hreverse, List.map_map]
  apply List.map_congr_left
  intro i hi
  have hpower : 256 ^ (7 - i) = 2 ^ (56 - i * 8) := by
    have hsum : 56 - i * 8 = 8 * (7 - i) := by omega
    rw [hsum, Nat.pow_mul]
  rw [Function.comp_apply, Nat.shiftRight_eq_div_pow, hpower]
  congr 1
  exact Nat.and_two_pow_sub_one_eq_mod _ 8

namespace Sha256

/-- The finish with its array of two blocks; where a contract is broken there is no digest. -/
def finishChecked (s : Sha256) : Option Bytes :=
  let bitLength := s.totalBytes * 8 % 2 ^ 64
  let held := s.buffer.length
  let final := fill (List.replicate 128 0) 0 held fun i => s.buffer.getD i 0
  let final := final.set held 0x80
  let afterMarker := (held + 1) % 64
  let padZeros := if afterMarker ≤ 56 then 56 - afterMarker else 120 - afterMarker
  let lengthOffset := held + 1 + padZeros
  let totalLength := lengthOffset + 8
  if ¬ totalLength ≤ final.length then none
  else if ¬ totalLength % 64 = 0 then none
  else
    let final := fill final lengthOffset 8 fun i => UInt8.ofNat (bitLength >>> (56 - i * 8) &&& 0xFF)
    some (s.state.compressBlocks (totalLength / 64) final).bytes

theorem padZeros_eq (length : ℕ) :
    (if (length % 64 + 1) % 64 ≤ 56 then 56 - (length % 64 + 1) % 64 else 120 - (length % 64 + 1) % 64) =
      Fips180.zeroBytes length := by
  unfold Fips180.zeroBytes
  split <;> omega

/-- Both contracts hold, and the digest is that of the padding of the standard. -/
theorem finishChecked_eq (s : Sha256) (length : ℕ) (h : s.buffer.length = length % 64) :
    s.finishChecked =
      let final := s.buffer ++ 0x80 :: List.replicate (Fips180.zeroBytes length) 0 ++
        Fips180.toBytes 8 (s.totalBytes * 8 % 2 ^ 64)
      some (s.state.compressBlocks (final.length / 64) final).bytes := by
  have hpadZeros := padZeros_eq length
  have hroom : s.buffer.length + 1 + Fips180.zeroBytes length + 8 ≤ 128 := by
    rw [h, Fips180.zeroBytes]
    omega
  have haligned : (s.buffer.length + 1 + Fips180.zeroBytes length + 8) % 64 = 0 := by
    rw [h, Fips180.zeroBytes]
    omega
  have hlength : (s.buffer ++ 0x80 :: List.replicate (Fips180.zeroBytes length) 0 ++
      Fips180.toBytes 8 (s.totalBytes * 8 % 2 ^ 64)).length =
        s.buffer.length + 1 + Fips180.zeroBytes length + 8 := by
    simp only [List.length_append, List.length_cons, List.length_replicate, Fips180.length_toBytes]
    omega
  rw [← h] at hpadZeros
  dsimp only
  simp only [finishChecked, hpadZeros, List.length_set, length_fill, List.length_replicate, hroom, haligned,
    not_true_eq_false, if_false, final_eq _ _ hroom, lengthBytes_eq, hlength]
  rw [← List.append_assoc, Sha256State.compressBlocks_append]
  rw [hlength]
  exact Nat.mul_div_le _ _

theorem finish_eq_pad (s : Sha256) (length : ℕ) (h : s.buffer.length = length % 64) :
    s.finish =
      let final := s.buffer ++ 0x80 :: List.replicate (Fips180.zeroBytes length) 0 ++
        Fips180.toBytes 8 (s.totalBytes * 8 % 2 ^ 64)
      (s.state.compressBlocks (final.length / 64) final).bytes := by
  have hpadZeros := padZeros_eq length
  rw [← h] at hpadZeros
  simp only [finish, hpadZeros, Fips180.toBytes_eq]

theorem update_pieces (pieces : List Bytes) : pieces.foldl update {} = ({} : Sha256).update pieces.flatten := by
  have hempty : ({} : Sha256).buffer.length < 64 := by decide
  induction pieces using List.reverseRecOn with
  | nil => rfl
  | append_singleton pieces piece ih =>
    rw [List.foldl_append, ih, List.foldl_cons, List.foldl_nil, List.flatten_append, List.flatten_singleton,
      update_append _ _ _ hempty]

/-- What is held back with its padding, after the whole blocks: the padded message block by block. -/
theorem bytes_padded (message : Bytes) (h : message.length < 2 ^ 61) :
    let s := ({} : Sha256).update message
    let final := s.buffer ++ 0x80 :: List.replicate (Fips180.zeroBytes message.length) 0 ++
      Fips180.toBytes 8 (s.totalBytes * 8 % 2 ^ 64)
    (s.state.compressBlocks (final.length / 64) final).bytes = Fips180.sha256 message := by
  have hempty : ({} : Sha256).buffer.length < 64 := by decide
  have hbits : (0 + message.length) % 2 ^ 64 * 8 % 2 ^ 64 = 8 * message.length := by omega
  have hwhole : 64 * (message.length / 64) ≤ message.length := Nat.mul_div_le _ _
  rw [update_eq _ _ hempty]
  dsimp only
  rw [hbits]
  generalize htail : 0x80 :: List.replicate (Fips180.zeroBytes message.length) 0 ++
    Fips180.toBytes 8 (8 * message.length) = tail
  have hpad : Fips180.pad message = message ++ tail := by rw [Fips180.pad, ← htail, List.append_assoc]
  rw [List.append_assoc, htail, List.nil_append, ← List.drop_append_of_le_length hwhole, List.length_drop, ← hpad]
  have hcount : (Fips180.pad message).length / 64 =
      message.length / 64 + ((Fips180.pad message).length - 64 * (message.length / 64)) / 64 := by
    have hlonger : message.length ≤ (Fips180.pad message).length := by simp [hpad]
    omega
  have hall : (Sha256State.initial.compressBlocks (message.length / 64) message).compressBlocks
      (((Fips180.pad message).length - 64 * (message.length / 64)) / 64)
      ((Fips180.pad message).drop (64 * (message.length / 64))) =
        Sha256State.initial.compressBlocks ((Fips180.pad message).length / 64) (Fips180.pad message) := by
    rw [hcount, Sha256State.compressBlocks_add]
    congr 1
    rw [hpad, Sha256State.compressBlocks_append _ _ _ _ hwhole]
  rw [hall, Sha256State.bytes_eq, Sha256State.working_compressBlocks, Sha256State.working_initial]
  rfl

end Sha256

/-- However a message is cut into pieces, both contracts hold and the digest is the standard's. -/
theorem streamed_sha256 (pieces : List Bytes) (h : pieces.flatten.length < 2 ^ 61) :
    (pieces.foldl Sha256.update {}).finishChecked = some (Fips180.sha256 pieces.flatten) ∧
      (pieces.foldl Sha256.update {}).finish = Fips180.sha256 pieces.flatten := by
  have hempty : ({} : Sha256).buffer.length < 64 := by decide
  have hheld : (({} : Sha256).update pieces.flatten).buffer.length = pieces.flatten.length % 64 := by
    rw [Sha256.update_eq _ _ hempty, List.length_drop]
    exact (Nat.mod_eq_sub_mul_div).symm
  rw [Sha256.update_pieces, Sha256.finishChecked_eq _ _ hheld, Sha256.finish_eq_pad _ _ hheld]
  exact ⟨congrArg some (Sha256.bytes_padded _ h), Sha256.bytes_padded _ h⟩

theorem streamed_sha256_pieces :
    ([[0x61], [], [0x62, 0x63]].foldl Sha256.update {}).finishChecked = some (Fips180.sha256 [0x61, 0x62, 0x63]) ∧
      ([[0x61], [], [0x62, 0x63]].foldl Sha256.update {}).finish = Fips180.sha256 [0x61, 0x62, 0x63] :=
  streamed_sha256 [[0x61], [], [0x62, 0x63]] (by norm_num)

example : sha256 [0x61, 0x62, 0x63] =
    [0xba, 0x78, 0x16, 0xbf, 0x8f, 0x01, 0xcf, 0xea, 0x41, 0x41, 0x40, 0xde, 0x5d, 0xae, 0x22, 0x23,
      0xb0, 0x03, 0x61, 0xa3, 0x96, 0x17, 0x7a, 0x9c, 0xb4, 0x10, 0xff, 0x61, 0xf2, 0x00, 0x15, 0xad] := by
  decide +kernel

end ConfigurationFabric
