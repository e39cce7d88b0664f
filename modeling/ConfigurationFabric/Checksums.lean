import ConfigurationFabric.JournalScan

/-! The checksum of the table and the checksum of the polynomial. -/

namespace ConfigurationFabric

open LittleEndian

def makeCrc32cTable : List (BitVec 32) := (List.range 256).map fun i => Crc.shifts kPoly 8 (BitVec.ofNat 32 i)

def crc32cUpdate (state : BitVec 32) (data : Bytes) : BitVec 32 :=
  data.foldl (fun crc byte =>
    makeCrc32cTable.getD ((crc ^^^ byte.toBitVec.setWidth 32) &&& 0xFF#32).toNat 0 ^^^ (crc >>> 8)) state

/-- The reflected check bit by bit, over all bits of the message. -/
def castagnoli (data : Bytes) : BitVec 32 :=
  Crc.serial kPoly 0xFFFFFFFF#32 (data.flatMap Crc.bitsOf) ^^^ 0xFFFFFFFF#32

example : castagnoli (([0x31, 0x32, 0x33, 0x34, 0x35, 0x36, 0x37, 0x38, 0x39] : Bytes)) = 0xE3069283#32 := by
  decide +kernel

theorem table_entry (index : BitVec 32) (h : index.toNat < 256) :
    makeCrc32cTable.getD index.toNat 0 = Crc.tableEntry kPoly index := by
  rw [makeCrc32cTable, List.getD_eq_getElem?_getD, List.getElem?_map, List.getElem?_range h, Option.map_some,
    Option.getD_some, BitVec.ofNat_toNat, BitVec.setWidth_eq, Crc.tableEntry]

theorem low_byte_lt (value : BitVec 32) : (value &&& 0xFF#32).toNat < 256 := by
  rw [BitVec.toNat_and]
  exact Nat.lt_of_le_of_lt Nat.and_le_right (by decide)

theorem crc32cUpdate_eq (state : BitVec 32) (data : Bytes) : crc32cUpdate state data = Crc.update kPoly state data := by
  induction data generalizing state with
  | nil => rfl
  | cons byte data ih =>
    rw [crc32cUpdate, List.foldl_cons, table_entry _ (low_byte_lt _)]
    exact ih (Crc.byteStep kPoly state byte)

theorem update_pieces (state : BitVec 32) (pieces : List Bytes) :
    pieces.foldl (Crc.update kPoly) state = Crc.update kPoly state pieces.flatten := by
  induction pieces generalizing state with
  | nil => rfl
  | cons piece pieces ih => rw [List.foldl_cons, ih, List.flatten_cons, Crc.update_append]

theorem state_pieces (c : Crc32c) (pieces : List Bytes) :
    (pieces.foldl Crc32c.update c).state = pieces.foldl (Crc.update kPoly) c.state := by
  induction pieces generalizing c with
  | nil => rfl
  | cons piece pieces ih =>
    rw [List.foldl_cons, List.foldl_cons, ih]
    rfl

theorem crc32c_eq_castagnoli (data : Bytes) : crc32c data = castagnoli data := by
  rw [crc32c, Crc.update_eq_serial, castagnoli]

theorem register_eq_castagnoli (data : Bytes) : crc32cRegister data = castagnoli data ^^^ 0xFFFFFFFF#32 := by
  rw [crc32cRegister_eq, crc32c_eq_castagnoli]

/-- However the message is cut into pieces, the table gives the check of the whole. What the streaming
checksum returns, and with it the checksum of a record, is that check without its final xor. -/
theorem crc32c_correct :
    (∀ pieces : List Bytes, pieces.foldl crc32cUpdate 0xFFFFFFFF#32 ^^^ 0xFFFFFFFF#32 = castagnoli pieces.flatten ∧
      (pieces.foldl Crc32c.update {}).value = castagnoli pieces.flatten ^^^ 0xFFFFFFFF#32) ∧
    (∀ data : Bytes, crc32c data = castagnoli data) ∧
    ∀ (type : JournalRecordType) (sequence : ℕ) (payload : Bytes),
      (store 4 type.value ++ store 8 sequence).length = 12 ∧
        recordChecksum type sequence payload =
          castagnoli (store 4 type.value ++ store 8 sequence ++ payload) ^^^ 0xFFFFFFFF#32 := by
  refine ⟨fun pieces => ?_, crc32c_eq_castagnoli, fun type sequence payload => ⟨by simp, ?_⟩⟩
  · have htable : crc32cUpdate = Crc.update kPoly := funext₂ crc32cUpdate_eq
    constructor
    · rw [htable, update_pieces, ← crc32c_eq_castagnoli, crc32c]
    · rw [Crc32c.value, state_pieces, update_pieces, ← register_eq_castagnoli, crc32cRegister]
  · rw [recordChecksum_eq, register_eq_castagnoli]

/-- The check of the nine digits is e3069283; the streaming checksum returns its complement, and a note
with an empty payload is stored under the complement as well. -/
theorem streamed_without_final_xor :
    ((([0x31, 0x32, 0x33, 0x34, 0x35] : Bytes) :: [[0x36, 0x37, 0x38, 0x39]]).foldl Crc32c.update {}).value =
        0x1CF96D7C#32 ∧
      castagnoli (([0x31, 0x32, 0x33, 0x34, 0x35] : Bytes) :: [[0x36, 0x37, 0x38, 0x39]]).flatten = 0xE3069283#32 ∧
      recordChecksum .note 1 [] ≠ castagnoli (store 4 JournalRecordType.note.value ++ store 8 1 ++ []) := by
  refine ⟨by decide +kernel, by decide +kernel, by decide +kernel⟩

end ConfigurationFabric
