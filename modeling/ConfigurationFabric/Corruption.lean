import ConfigurationFabric.FrameStream
import ConfigurationFabric.SnapshotSlots
import ConfigurationFabric.StateUpserts
import ConfigurationFabric.StoreFallback

/-! One byte that is not what was written: a frame, a snapshot slot, a metadata record. -/

namespace ConfigurationFabric

open LittleEndian
open Program

def OneByteChanged (bs changed : Bytes) : Prop :=
  ∃ (i : ℕ) (b : UInt8), i < bs.length ∧ bs[i]? ≠ some b ∧ changed = bs.set i b

/-- A part and its checksum no longer fit after a change inside either. -/
theorem checksum_changed {part sum : Bytes} (hsum : load sum = (crc32c part).toNat) :
    (∀ {k : ℕ} {b : UInt8}, k < part.length → part[k]? ≠ some b → (crc32c (part.set k b)).toNat ≠ load sum) ∧
      ∀ {k : ℕ} {b : UInt8}, k < sum.length → sum[k]? ≠ some b → (crc32c part).toNat ≠ load (sum.set k b) := by
  constructor
  · intro k b hk hb h
    rw [hsum] at h
    exact crc32c_set hk hb (BitVec.eq_of_toNat_eq h)
  · intro k b hk hb h
    rw [← hsum] at h
    exact set_ne hk hb (load_injective (by rw [List.length_set]) h).symm

theorem load_crc32c (bytes : Bytes) : load (store 4 (crc32c bytes).toNat) = (crc32c bytes).toNat :=
  load_store (by have := (crc32c bytes).isLt; omega)

namespace Wire

/-- The bytes of a frame as they lie in the stream: what the header checksum covers, that checksum, the one of
the payload, the payload. -/
theorem encodeFrame_parts {type : FrameType} {flags maxPayloadBytes : ℕ} {payload encoded : Bytes}
    (h : encodeFrame type flags payload maxPayloadBytes = .ok encoded) :
    ∃ front : Bytes, front.length = 16 ∧ load ((front.drop 12).take 4) = payload.length ∧
      encoded = front ++ (store 4 (crc32c front).toNat ++
        (store 4 (if payload = [] then 0 else (crc32c payload).toNat) ++ payload)) := by
  obtain ⟨hmax, hpayload, -, rfl⟩ := encodeFrame_ok h
  have habs : kAbsoluteMaxPayloadBytes = 16777216 := rfl
  let fields := store 4 kFrameMagic ++ store 2 kWireVersion ++ store 2 type.value ++ store 2 flags ++ store 2 0
  have hfields : fields.length = 12 := by simp only [fields, List.length_append, store_length]
  refine ⟨fields ++ store 4 payload.length, ?_, ?_, ?_⟩
  · rw [List.length_append, hfields, store_length]
  · rw [List.drop_left' hfields, List.take_of_length_le (by rw [store_length])]
    apply load_store
    omega
  · simp only [encodeFrameHeader, headerOf, fields, List.append_assoc]

/-- Four bytes and whatever a header says of them. -/
theorem nextFrame_refused {maxPayloadBytes : ℕ} {front sum payloadSum payload : Bytes} (hfront : front.length = 16)
    (hsum : sum.length = 4) (hpayloadSum : payloadSum.length = 4)
    (h : (crc32c front).toNat = load sum → load ((front.drop 12).take 4) = payload.length ∧
      if payload = [] then load payloadSum ≠ 0 else (crc32c payload).toNat ≠ load payloadSum) :
    ∃ e, nextFrame maxPayloadBytes (front ++ (sum ++ (payloadSum ++ payload))) = .refused e := by
  have hheader : (front ++ (sum ++ payloadSum)).length = kFrameHeaderBytes := by
    simp only [List.length_append, hfront, hsum, hpayloadSum, kFrameHeaderBytes]
  have hsplit : front ++ (sum ++ (payloadSum ++ payload)) = (front ++ (sum ++ payloadSum)) ++ payload := by
    simp only [List.append_assoc]
  unfold nextFrame
  rw [hsplit, List.length_append, hheader, if_neg (by omega), List.take_left' hheader]
  cases hdecode : decodeFrameHeader (front ++ (sum ++ payloadSum)) maxPayloadBytes with
  | error e => exact ⟨e, rfl⟩
  | ok header =>
    have hread := decodeFrameHeader_ok hdecode
    have hchecksum := hread.checksum
    have hlength := hread.payloadLength
    have hcrc := hread.payloadCrc
    have htwenty : (front ++ sum).length = 20 := by rw [List.length_append, hfront, hsum]
    rw [List.take_left' hfront, List.drop_left' hfront, List.take_left' hsum] at hchecksum
    rw [List.drop_append_of_le_length (by omega), List.take_append_of_le_length (by rw [List.length_drop]; omega)]
      at hlength
    rw [← List.append_assoc, List.drop_left' htwenty, List.take_of_length_le (by omega)] at hcrc
    obtain ⟨hdeclared, hwrong⟩ := h hchecksum
    rw [hdeclared] at hlength
    dsimp only
    rw [hlength, if_neg (by omega), List.drop_left' hheader, List.take_length, hcrc]
    split at hwrong
    case isTrue hnil =>
      -- the header of an empty frame must not name a checksum
      rw [hnil] at hlength
      have hzero := hread.empty hlength
      exact absurd (hcrc.symm.trans hzero) hwrong
    case isFalse hne =>
      rw [if_pos ⟨hne, hwrong⟩]
      exact ⟨_, rfl⟩

theorem nextFrame_changed {type : FrameType} {flags maxPayloadBytes : ℕ} {payload encoded changed : Bytes}
    (h : encodeFrame type flags payload maxPayloadBytes = .ok encoded) (hchanged : OneByteChanged encoded changed)
    (max : ℕ) : ∃ e, nextFrame max changed = .refused e := by
  obtain ⟨front, hfront, hdeclared, hencoded⟩ := encodeFrame_parts h
  obtain ⟨i, b, hi, hb, rfl⟩ := hchanged
  let sum := store 4 (crc32c front).toNat
  let payloadSum := store 4 (if payload = [] then 0 else (crc32c payload).toNat)
  have hsum : sum.length = 4 := store_length _ _
  have hpayloadSum : payloadSum.length = 4 := store_length _ _
  have hheader := checksum_changed (load_crc32c front)
  have hlen : encoded.length = 24 + payload.length := by
    rw [hencoded]
    simp only [List.length_append, hfront, store_length]
    omega
  obtain h16 | h16 := Nat.lt_or_ge i 16
  · -- a field of the header
    have hsplit : encoded = [] ++ (front ++ (sum ++ (payloadSum ++ payload))) := hencoded
    obtain ⟨k, hk, hkb, hset⟩ := damage_inside hsplit (Nat.zero_le i) (by rw [List.length_nil]; omega) hb
    rw [hset, List.nil_append]
    exact nextFrame_refused (by rw [List.length_set, hfront]) hsum hpayloadSum fun h => absurd h (hheader.1 hk hkb)
  obtain h20 | h20 := Nat.lt_or_ge i 20
  · -- the checksum of the header
    have hsplit : encoded = front ++ (sum ++ (payloadSum ++ payload)) := hencoded
    obtain ⟨k, hk, hkb, hset⟩ := damage_inside hsplit (by omega) (by omega) hb
    rw [hset]
    exact nextFrame_refused hfront (by rw [List.length_set, hsum]) hpayloadSum fun h => absurd h (hheader.2 hk hkb)
  obtain h24 | h24 := Nat.lt_or_ge i 24
  · -- the checksum of the payload, which nothing else covers
    have hsplit : encoded = (front ++ sum) ++ (payloadSum ++ payload) := by rw [hencoded, List.append_assoc]
    obtain ⟨k, hk, hkb, hset⟩ := damage_inside hsplit (by rw [List.length_append]; omega)
      (by rw [List.length_append]; omega) hb
    rw [hset, List.append_assoc]
    refine nextFrame_refused hfront hsum (by rw [List.length_set, hpayloadSum]) fun _ => ⟨hdeclared, ?_⟩
    split
    case isTrue hnil =>
      have hzero : load payloadSum = 0 := by simp only [payloadSum, if_pos hnil, load_store (by decide : 0 < 256 ^ 4)]
      intro h
      exact set_ne hk hkb (load_injective (by rw [List.length_set]) (h.trans hzero.symm))
    case isFalse hne =>
      have hload : load payloadSum = (crc32c payload).toNat := by simp only [payloadSum, if_neg hne, load_crc32c]
      exact (checksum_changed hload).2 hk hkb
  · -- the payload
    have hsplit : encoded = (front ++ sum ++ payloadSum) ++ (payload ++ []) := by
      rw [hencoded, List.append_nil, List.append_assoc, List.append_assoc]
    obtain ⟨k, hk, hkb, hset⟩ := damage_inside hsplit (by simp only [List.length_append]; omega)
      (by simp only [List.length_append]; omega) hb
    have hne : payload ≠ [] := fun h => absurd hk (by rw [h]; exact Nat.not_lt_zero k)
    have hload : load payloadSum = (crc32c payload).toNat := by simp only [payloadSum, if_neg hne, load_crc32c]
    rw [hset, List.append_nil, List.append_assoc, List.append_assoc]
    refine nextFrame_refused hfront hsum hpayloadSum fun _ => ⟨by rw [List.length_set, hdeclared], ?_⟩
    rw [if_neg (by rw [List.set_eq_nil_iff]; exact hne)]
    exact (checksum_changed hload).1 hk hkb

namespace FrameDecoder

theorem feed_refused {d : FrameDecoder} {data : Bytes} {e : Error} (hoffset : d.offset = d.buffer.length)
    (hdata : data ≠ []) (h : nextFrame d.maxPayloadBytes data = .refused e) :
    ∃ e' d', d.feed data = (.error e', [], d') := by
  have hrest : (d.compact.buffer ++ data).drop d.compact.offset = data := by
    have hnone : d.compact.remaining = [] := by
      rw [remaining_compact, remaining, hoffset, List.drop_length]
    rw [List.drop_append_of_le_length (offset_compact (Nat.le_of_eq hoffset))]
    exact congrArg (· ++ data) hnone
  have hscan := scans_drain d.compact.maxPayloadBytes (d.compact.buffer ++ data) d.compact.offset
  rw [hrest] at hscan
  rw [← maxPayloadBytes_compact d] at h
  obtain ⟨hframes, houtcome⟩ := hscan.unique (.refused h)
  unfold feed
  rw [if_neg hdata]
  dsimp only
  split
  case h_1 => exact ⟨_, _, rfl⟩
  split
  case h_1 => exact ⟨_, _, rfl⟩
  cases hdrain : drain d.compact.maxPayloadBytes (d.compact.buffer ++ data) d.compact.offset with
  | mk status result =>
  rw [hdrain] at hframes houtcome
  dsimp only at hframes houtcome ⊢
  cases status with
  | ok => cases houtcome
  | error e' =>
    rw [hframes]
    exact ⟨_, _, rfl⟩

end FrameDecoder

end Wire

namespace SnapshotFile

theorem loadSlot_changed {maxBytes covered : ℕ} {payload changed : Bytes} {d : Disk} {slot : Slot}
    (hchanged : OneByteChanged (encodeSlot covered payload) changed) (hslot : d.slot slot = some changed) :
    loadSlot maxBytes d slot = none := by
  obtain ⟨i, b, hi, hb, rfl⟩ := hchanged
  unfold loadSlot
  rw [hslot]
  dsimp only
  split
  · rfl
  case h_2 c p hcheck => exact absurd hcheck (checkSlot_damaged hi hb _)

end SnapshotFile

theorem decodeArtifactMetadata_changed {m : ArtifactMetadata} {record changed : Bytes}
    (h : encodeArtifactMetadata m = .ok record) (hchanged : OneByteChanged record changed) :
    ∃ e, decodeArtifactMetadata changed = .error e := by
  obtain ⟨body, -, rfl⟩ := encodeArtifactMetadata_ok.mp h
  obtain ⟨i, b, hi, hb, rfl⟩ := hchanged
  have hfour : (ByteWriter.u32 (crc32c body).toNat).length = 4 := store_length _ _
  have hsum := checksum_changed (load_crc32c body)
  have hcut : ((body ++ ByteWriter.u32 (crc32c body).toNat).set i b).length - 4 = body.length := by
    rw [List.length_set, List.length_append, hfour]
    omega
  have hwrong : (crc32c (((body ++ ByteWriter.u32 (crc32c body).toNat).set i b).take body.length)).toNat ≠
      load (((body ++ ByteWriter.u32 (crc32c body).toNat).set i b).drop body.length) := by
    obtain hbody | hbody := Nat.lt_or_ge i body.length
    · obtain ⟨k, hk, hkb, hset⟩ := damage_inside (List.nil_append _).symm (Nat.zero_le i)
        (by rw [List.length_nil]; omega) hb
      rw [hset, List.nil_append, List.take_left' (by rw [List.length_set]), List.drop_left' (by rw [List.length_set])]
      exact hsum.1 hk hkb
    · have hsplit : body ++ ByteWriter.u32 (crc32c body).toNat = body ++ (ByteWriter.u32 (crc32c body).toNat ++ []) := by
        rw [List.append_nil]
      rw [List.length_append] at hi
      obtain ⟨k, hk, hkb, hset⟩ := damage_inside hsplit hbody hi hb
      rw [hset, List.append_nil, List.take_left, List.drop_left]
      exact hsum.2 hk hkb
  unfold decodeArtifactMetadata
  split
  · exact ⟨_, rfl⟩
  dsimp only
  rw [hcut, if_pos hwrong]
  exact ⟨_, rfl⟩

/-- A frame, a slot file and a metadata record are all refused with one byte changed, whatever their length. -/
theorem one_byte_changed_refused :
    (∀ type flags payload maxPayloadBytes encoded, Wire.encodeFrame type flags payload maxPayloadBytes = .ok encoded →
      ∀ changed, OneByteChanged encoded changed → ∀ d : Wire.FrameDecoder, d.offset = d.buffer.length →
        ∃ e d', d.feed changed = (.error e, [], d')) ∧
    (∀ maxBytes covered payload d d',
      Prog.Exec (fun _ => True) (SnapshotFile.write maxBytes covered payload) d (some (.ok ())) d' →
      ∃ slot content, d'.slot slot = some content ∧ content = SnapshotFile.encodeSlot covered payload ∧
        ∀ changed, OneByteChanged content changed → ∀ maxBytes',
          SnapshotFile.loadSlot maxBytes' (d'.setSlot slot (some changed)) slot = none) ∧
    ∀ m record, encodeArtifactMetadata m = .ok record → ∀ changed, OneByteChanged record changed →
      ∃ e, decodeArtifactMetadata changed = .error e := by
  refine ⟨?_, ?_, fun m record h changed => decodeArtifactMetadata_changed h⟩
  · intro type flags payload maxPayloadBytes encoded h changed hchanged d hoffset
    obtain ⟨e, hrefused⟩ := Wire.nextFrame_changed h hchanged d.maxPayloadBytes
    refine Wire.FrameDecoder.feed_refused hoffset ?_ hrefused
    obtain ⟨i, b, hi, -, rfl⟩ := hchanged
    rw [ne_eq, List.set_eq_nil_iff]
    exact fun hnil => absurd hi (by rw [hnil]; exact Nat.not_lt_zero i)
  · intro maxBytes covered payload d d' hexec
    have hwritten :=
      ((@SnapshotFile.steps_write maxBytes covered payload d (fun _ _ => True) fun _ _ => trivial).exec hexec).2 _ rfl rfl
    refine ⟨_, _, hwritten.2, rfl, fun changed hchanged maxBytes' => ?_⟩
    exact SnapshotFile.loadSlot_changed hchanged (by rw [Disk.slot_setSlot, if_pos rfl])

/-- A byte of a ping's payload, the first of a snapshot, and one inside an artifact's name. -/
theorem changed_bytes_refused :
    (∃ encoded e d', Wire.encodeFrame .ping 0 (ByteWriter.u64 7) 64 = .ok encoded ∧
      (⟨64, [], 0⟩ : Wire.FrameDecoder).feed (encoded.set 30 9) = (.error e, [], d')) ∧
    (∃ (d : Disk) (slot : Slot), d.slot slot = some (SnapshotFile.encodeSlot 10 [1, 2]) ∧
      SnapshotFile.loadSlot kMaxSnapshotBytes (d.setSlot slot (some ((SnapshotFile.encodeSlot 10 [1, 2]).set 0 0))) slot =
        none) ∧
    ∃ record e, encodeArtifactMetadata exampleMetadata = .ok record ∧
      decodeArtifactMetadata (record.set 6 98) = .error e := by
  obtain ⟨hframe, hslot, hmetadata⟩ := one_byte_changed_refused
  refine ⟨?_, ?_, ?_⟩
  · let encoded : Bytes := (Wire.encodeFrame .ping 0 (ByteWriter.u64 7) 64).toOption.getD []
    have hencoded : Wire.encodeFrame .ping 0 (ByteWriter.u64 7) 64 = .ok encoded := by decide +kernel
    have hchanged : OneByteChanged encoded (encoded.set 30 9) := ⟨30, 9, by decide, by decide, rfl⟩
    obtain ⟨e, d', hfed⟩ := hframe _ _ _ _ _ hencoded _ hchanged ⟨64, [], 0⟩ rfl
    exact ⟨encoded, e, d', hencoded, hfed⟩
  · obtain ⟨d', hwritten⟩ := SnapshotFile.exec_write_occupied
    obtain ⟨slot, content, hcontent, rfl, hrefused⟩ := hslot _ _ _ _ _ hwritten
    exact ⟨d', slot, hcontent, hrefused _ ⟨0, 0, by decide, by decide, rfl⟩ _⟩
  · obtain ⟨record, hrecord⟩ : ∃ record, encodeArtifactMetadata exampleMetadata = .ok record := ⟨_, rfl⟩
    have hbyte : 6 < ((encodeArtifactMetadata exampleMetadata).toOption.getD []).length ∧
        ((encodeArtifactMetadata exampleMetadata).toOption.getD [])[6]? ≠ some 98 := by decide
    rw [hrecord] at hbyte
    have hchanged : OneByteChanged record (record.set 6 98) := ⟨6, 98, hbyte.1, hbyte.2, rfl⟩
    obtain ⟨e, hrefused⟩ := hmetadata _ _ hrecord _ hchanged
    exact ⟨record, e, hrecord, hrefused⟩

end ConfigurationFabric
