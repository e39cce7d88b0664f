import ConfigurationFabric.Frames

/-! Decoding a stream of frames does not depend on how the stream is cut. -/

namespace ConfigurationFabric.Wire

open LittleEndian
open Chunked

/-! One frame. -/

/-- What the unconsumed bytes start with. -/
def nextFrame (maxPayloadBytes : ℕ) (bytes : Bytes) : Next Frame Error :=
  if bytes.length < kFrameHeaderBytes then .more
  else
    match decodeFrameHeader (bytes.take kFrameHeaderBytes) maxPayloadBytes with
    | .error e => .refused e
    | .ok header =>
      if bytes.length < kFrameHeaderBytes + header.payloadLength then .more
      else
        let payload := (bytes.drop kFrameHeaderBytes).take header.payloadLength
        if payload ≠ [] ∧ (crc32c payload).toNat ≠ header.payloadCrc then
          .refused ⟨.integrityFailure, "frame payload checksum does not match", frameTypeName header.type⟩
        else .item ⟨header, payload⟩ (kFrameHeaderBytes + header.payloadLength)

/-- What an accepted header says of the bytes it was read from. -/
structure HeaderRead (bytes : Bytes) (maxPayloadBytes : ℕ) (h : FrameHeader) : Prop where
  magic : load (bytes.take 4) = kFrameMagic
  checksum : (crc32c (bytes.take 16)).toNat = load ((bytes.drop 16).take 4)
  payloadLength : h.payloadLength = load ((bytes.drop 12).take 4)
  payloadCrc : h.payloadCrc = load ((bytes.drop 20).take 4)
  bounded : h.payloadLength ≤ maxPayloadBytes
  empty : h.payloadLength = 0 → h.payloadCrc = 0

theorem decodeFrameHeader_ok {bytes : Bytes} {maxPayloadBytes : ℕ} {h : FrameHeader}
    (hok : decodeFrameHeader bytes maxPayloadBytes = .ok h) : HeaderRead bytes maxPayloadBytes h := by
  unfold decodeFrameHeader at hok
  split at hok
  · cases hok
  split at hok
  · cases hok
  split at hok
  · cases hok
  case isFalse hmagic =>
  split at hok
  · cases hok
  case isFalse hchecksum =>
  dsimp only at hok
  split at hok
  · cases hok
  split at hok
  · cases hok
  split at hok
  · cases hok
  split at hok
  · cases hok
  split at hok
  · cases hok
  case isFalse hbounded =>
  split at hok
  · cases hok
  case isFalse hempty =>
  cases hok
  constructor
  · exact not_not.mp hmagic
  · exact not_not.mp hchecksum
  · rfl
  · rfl
  · exact not_lt.mp hbounded
  · intro hzero
    by_contra hne
    exact hempty ⟨hzero, hne⟩

theorem nextFrame_append {maxPayloadBytes : ℕ} {bytes : Bytes} (h : nextFrame maxPayloadBytes bytes ≠ .more)
    (following : Bytes) : nextFrame maxPayloadBytes (bytes ++ following) = nextFrame maxPayloadBytes bytes := by
  unfold nextFrame at h ⊢
  split at h
  · exact absurd rfl h
  case isFalse hheader =>
  rw [if_neg (by rw [List.length_append]; omega), List.take_append_of_le_length (by omega)]
  split at h
  case h_1 => rw [if_neg hheader]
  case h_2 =>
  split at h
  · exact absurd rfl h
  case isFalse htotal =>
  rw [if_neg hheader]
  dsimp only
  rw [if_neg (by rw [List.length_append]; omega), if_neg htotal, List.drop_append_of_le_length (by omega),
    List.take_append_of_le_length (by rw [List.length_drop]; omega)]

theorem nextFrame_item {maxPayloadBytes n : ℕ} {bytes : Bytes} {frame : Frame}
    (h : nextFrame maxPayloadBytes bytes = .item frame n) : n ≤ bytes.length := by
  unfold nextFrame at h
  split at h
  · cases h
  split at h
  · cases h
  split at h
  · cases h
  dsimp only at h
  split at h
  · cases h
  · cases h
    omega

theorem incremental_nextFrame (maxPayloadBytes : ℕ) : Incremental (nextFrame maxPayloadBytes) where
  takes := nextFrame_item
  item h cs := by rw [nextFrame_append (by simp [h]), h]
  refused h cs := by rw [nextFrame_append (by simp [h]), h]

/-- Less than one frame of the greatest size is left over. -/
theorem nextFrame_more {maxPayloadBytes : ℕ} {bytes : Bytes} (h : nextFrame maxPayloadBytes bytes = .more) :
    bytes.length < kFrameHeaderBytes + maxPayloadBytes := by
  unfold nextFrame at h
  split at h
  · omega
  split at h
  · cases h
  case h_2 header hdecode =>
  have hbounded := (decodeFrameHeader_ok hdecode).bounded
  split at h
  · omega
  dsimp only at h
  split at h <;> cases h

namespace FrameDecoder

/-! The buffer of the decoder. -/

/-- The outcome of draining or feeding, as a scan has it. -/
def outcome (status : Status) (rest : Bytes) : Except Error Bytes :=
  match status with
  | .ok () => .ok rest
  | .error e => .error e

theorem scans_drain (maxPayloadBytes : ℕ) (buffer : Bytes) (offset : ℕ) :
    Scans (nextFrame maxPayloadBytes) (buffer.drop offset) (drain maxPayloadBytes buffer offset).2.1
      (outcome (drain maxPayloadBytes buffer offset).1 (buffer.drop (drain maxPayloadBytes buffer offset).2.2)) := by
  fun_induction drain maxPayloadBytes buffer offset with
  | case1 offset available hshort =>
    apply Scans.more
    rw [nextFrame, List.length_drop, if_pos hshort]
  | case2 offset available hlong e hdecode =>
    apply Scans.refused
    rw [nextFrame, List.length_drop, if_neg hlong, hdecode]
  | case3 offset available hlong header hdecode total htotal =>
    apply Scans.more
    rw [nextFrame, List.length_drop, if_neg hlong, hdecode]
    exact if_pos htotal
  | case4 offset available hlong header hdecode total htotal payload hcrc =>
    apply Scans.refused
    rw [nextFrame, List.length_drop, if_neg hlong, hdecode]
    dsimp only
    rw [if_neg htotal, List.drop_drop, if_pos hcrc]
  | case5 offset available hlong header hdecode total htotal payload hcrc status frames rest hdrain ih =>
    rw [hdrain] at ih
    refine .item (n := total) ?_ ?_
    · rw [nextFrame, List.length_drop, if_neg hlong, hdecode]
      dsimp only
      rw [if_neg htotal, List.drop_drop, if_neg hcrc]
    · rw [List.drop_drop]
      exact ih

theorem drain_offset {maxPayloadBytes : ℕ} {buffer : Bytes} {offset : ℕ} (h : offset ≤ buffer.length) :
    (drain maxPayloadBytes buffer offset).2.2 ≤ buffer.length := by
  fun_induction drain maxPayloadBytes buffer offset with
  | case1 | case2 | case3 | case4 => exact h
  | case5 offset available hlong header hdecode total htotal payload hcrc status frames rest hdrain ih =>
    rw [hdrain] at ih
    exact ih (by omega)

theorem remaining_compact (d : FrameDecoder) : d.compact.remaining = d.remaining := by
  unfold compact remaining
  split
  case isTrue h => rw [h.2, List.drop_length, List.drop_nil]
  split
  · exact List.drop_zero
  · rfl

theorem offset_compact {d : FrameDecoder} (h : d.offset ≤ d.buffer.length) : d.compact.offset ≤ d.compact.buffer.length := by
  unfold compact
  split
  · exact Nat.zero_le _
  split
  · exact Nat.zero_le _
  · exact h

theorem length_compact (d : FrameDecoder) : d.compact.buffer.length ≤ d.buffer.length := by
  unfold compact
  split
  · exact Nat.zero_le _
  split
  · rw [List.length_drop]
    omega
  · exact Nat.le_refl _

theorem maxPayloadBytes_compact (d : FrameDecoder) : d.compact.maxPayloadBytes = d.maxPayloadBytes := by
  unfold compact
  split
  · rfl
  split <;> rfl

theorem checkedAdd_some {a b : ℕ} (h : a + b < 2 ^ 64) : checkedAdd a b = some (a + b) := by
  rw [checkedAdd, if_neg (by omega)]

/-- A feed scans what was left over and the new bytes; its last check never fails. -/
theorem feed_scans {d : FrameDecoder} {data : Bytes} (hmax : d.maxPayloadBytes < 2 ^ 32)
    (hoffset : d.offset ≤ d.buffer.length) (hdata : data ≠ []) (hsize : d.buffer.length + data.length < 2 ^ 64) :
    Scans (nextFrame d.maxPayloadBytes) (d.remaining ++ data) (d.feed data).2.1
        (outcome (d.feed data).1 (d.feed data).2.2.remaining) ∧
      (d.feed data).2.2.offset ≤ (d.feed data).2.2.buffer.length ∧
      (d.feed data).2.2.maxPayloadBytes = d.maxPayloadBytes ∧
      (d.feed data).2.2.buffer.length ≤ d.buffer.length + data.length := by
  have hlen := length_compact d
  have hsame := maxPayloadBytes_compact d
  have hoff := offset_compact hoffset
  have hrest : (d.compact.buffer ++ data).drop d.compact.offset = d.remaining ++ data := by
    rw [List.drop_append_of_le_length hoff]
    exact congrArg (· ++ data) (remaining_compact d)
  have hscan := scans_drain d.maxPayloadBytes (d.compact.buffer ++ data) d.compact.offset
  have hend := @drain_offset d.maxPayloadBytes (d.compact.buffer ++ data) d.compact.offset
    (by rw [List.length_append]; omega)
  rw [hrest] at hscan
  have hceiling : kFrameHeaderBytes + d.maxPayloadBytes < 2 ^ 64 := by
    have : kFrameHeaderBytes = 24 := rfl
    omega
  unfold feed
  rw [if_neg hdata]
  dsimp only
  rw [hsame, checkedAdd_some hceiling, checkedAdd_some (by omega)]
  dsimp only
  cases hdrain : drain d.maxPayloadBytes (d.compact.buffer ++ data) d.compact.offset with
  | mk status result =>
  obtain ⟨frames, offset⟩ := result
  rw [hdrain] at hscan hend
  dsimp only at hscan hend ⊢
  have hgrown : (d.compact.buffer ++ data).length ≤ d.buffer.length + data.length := by
    rw [List.length_append]
    omega
  cases status with
  | error e => exact ⟨hscan, hend, rfl, hgrown⟩
  | ok =>
    have hleft := nextFrame_more hscan.left
    rw [List.length_drop] at hleft
    dsimp only
    rw [if_neg (by omega)]
    exact ⟨hscan, hend, rfl, hgrown⟩

/-! Feeding piece by piece. -/

theorem feedAll_fed {d : FrameDecoder} {pieces : List Bytes} (hmax : d.maxPayloadBytes < 2 ^ 32)
    (hoffset : d.offset ≤ d.buffer.length) (hpieces : ∀ p ∈ pieces, p ≠ [])
    (hsize : d.buffer.length + pieces.flatten.length < 2 ^ 64) :
    Fed (nextFrame d.maxPayloadBytes) d.remaining pieces (d.feedAll pieces).2.1
      (outcome (d.feedAll pieces).1 (d.feedAll pieces).2.2.remaining) := by
  induction pieces generalizing d with
  | nil => exact .done
  | cons data rest ih =>
    obtain ⟨hdata, hrest⟩ := List.forall_mem_cons.mp hpieces
    rw [List.flatten_cons, List.length_append] at hsize
    obtain ⟨hscan, hoff, hsame, hlen⟩ := feed_scans hmax hoffset hdata (by omega)
    unfold feedAll
    cases hfeed : d.feed data with
    | mk status result =>
    obtain ⟨frames, d'⟩ := result
    rw [hfeed] at hscan hoff hsame hlen
    dsimp only at hscan hoff hsame hlen
    cases status with
    | error e => exact .stop hscan
    | ok =>
      have hnext := ih (d := d') (by omega) hoff hrest (by omega)
      rw [hsame] at hnext
      exact .step hscan hnext

theorem feed_whole {maxPayloadBytes : ℕ} (hmax : maxPayloadBytes < 2 ^ 32) {stream : Bytes}
    (hsize : stream.length < 2 ^ 64) :
    Scans (nextFrame maxPayloadBytes) stream ((⟨maxPayloadBytes, [], 0⟩ : FrameDecoder).feed stream).2.1
      (outcome ((⟨maxPayloadBytes, [], 0⟩ : FrameDecoder).feed stream).1
        ((⟨maxPayloadBytes, [], 0⟩ : FrameDecoder).feed stream).2.2.remaining) := by
  by_cases hstream : stream = []
  · rw [hstream]
    exact .more rfl
  · have hscan := (feed_scans (d := ⟨maxPayloadBytes, [], 0⟩) hmax (Nat.le_refl _) hstream (by simpa using hsize)).1
    exact hscan

theorem outcome_injective {status status' : Status} {rest rest' : Bytes} (h : outcome status rest = outcome status' rest') :
    status = status' ∧ (status = .ok () → rest = rest') := by
  cases status with
  | ok =>
    cases status' with
    | ok => exact ⟨rfl, fun _ => Except.ok.inj h⟩
    | error e => cases h
  | error e =>
    cases status' with
    | ok => cases h
    | error e' =>
      cases h
      exact ⟨rfl, fun h => nomatch h⟩

end FrameDecoder

/-! Frames that were encoded. -/

theorem unknownBits_zero {flags : ℕ} (h : unknownBits kFrameFlagKnownMask flags = 0) : flags < 2 ^ 16 := by
  have hle : flags &&& kFrameFlagKnownMask ≤ kFrameFlagKnownMask := Nat.and_le_right
  have hmask : kFrameFlagKnownMask = 3 := rfl
  unfold unknownBits at h
  omega

theorem length_encodeFrameHeader (h : FrameHeader) : (encodeFrameHeader h).length = kFrameHeaderBytes := by
  simp [encodeFrameHeader, kFrameHeaderBytes]

/-- The fields of a header, each at its place. -/
theorem decode_encodeFrameHeader {type : FrameType} {flags maxPayloadBytes : ℕ} {payload : Bytes}
    (hmax : maxPayloadBytes ≤ kAbsoluteMaxPayloadBytes) (hpayload : payload.length ≤ maxPayloadBytes)
    (hflags : unknownBits kFrameFlagKnownMask flags = 0) :
    decodeFrameHeader (encodeFrameHeader (headerOf type flags payload)) maxPayloadBytes =
      .ok (headerOf type flags payload) := by
  let m := store 4 kFrameMagic
  let v := store 2 kWireVersion
  let t := store 2 type.value
  let f := store 2 flags
  let z := store 2 0
  let n := store 4 payload.length
  let c := store 4 (crc32c (m ++ v ++ t ++ f ++ z ++ n)).toNat
  let p := store 4 (headerOf type flags payload).payloadCrc
  have hbytes : encodeFrameHeader (headerOf type flags payload) = m ++ v ++ t ++ f ++ z ++ n ++ c ++ p := rfl
  have hm : m.length = 4 := store_length _ _
  have hv : v.length = 2 := store_length _ _
  have ht : t.length = 2 := store_length _ _
  have hf : f.length = 2 := store_length _ _
  have hz : z.length = 2 := store_length _ _
  have hn : n.length = 4 := store_length _ _
  have hc : c.length = 4 := store_length _ _
  have hp : p.length = 4 := store_length _ _
  have hcrc := (crc32c (m ++ v ++ t ++ f ++ z ++ n)).isLt
  have hpcrc := (crc32c payload).isLt
  have habs : kAbsoluteMaxPayloadBytes = 16777216 := rfl
  have htype : type.value < 256 ^ 2 := by cases type <;> decide
  have lm : load m = kFrameMagic := load_store (by decide)
  have lv : load v = kWireVersion := load_store (by decide)
  have lt : load t = type.value := load_store htype
  have lf : load f = flags := load_store (unknownBits_zero hflags)
  have lz : load z = 0 := load_store (by decide)
  have ln : load n = payload.length := load_store (by omega)
  have lc : load c = (crc32c (m ++ v ++ t ++ f ++ z ++ n)).toNat := load_store (by omega)
  have lp : load p = (headerOf type flags payload).payloadCrc := by
    refine load_store ?_
    unfold headerOf
    dsimp only
    split <;> omega
  have hempty : ¬ (payload = [] ∧ ¬ (headerOf type flags payload).payloadCrc = 0) := by
    rintro ⟨hnil, hne⟩
    exact hne (if_pos hnil)
  have hof : FrameType.ofValue type.value = some type := by cases type <;> rfl
  simp only [List.append_assoc] at lc
  unfold decodeFrameHeader
  simp [hbytes, List.take_append, List.drop_append, List.take_of_length_le, List.drop_of_length_le, hm, hv, ht, hf,
    hz, hn, hc, hp, lm, lv, lt, lf, lz, ln, lc, lp, hof, hflags, kFrameHeaderBytes, Nat.not_lt.mpr hmax,
    Nat.not_lt.mpr hpayload]
  rw [if_neg hempty]
  rfl

theorem encodeFrame_ok {type : FrameType} {flags maxPayloadBytes : ℕ} {payload encoded : Bytes}
    (h : encodeFrame type flags payload maxPayloadBytes = .ok encoded) :
    maxPayloadBytes ≤ kAbsoluteMaxPayloadBytes ∧ payload.length ≤ maxPayloadBytes ∧
      unknownBits kFrameFlagKnownMask flags = 0 ∧ encoded = encodeFrameHeader (headerOf type flags payload) ++ payload := by
  unfold encodeFrame at h
  split at h
  · cases h
  split at h
  · cases h
  split at h
  · cases h
  case isFalse hmax hpayload hflags =>
  cases h
  exact ⟨not_lt.mp hmax, not_lt.mp hpayload, not_not.mp hflags, rfl⟩

theorem nextFrame_encodeFrame {type : FrameType} {flags maxPayloadBytes : ℕ} {payload encoded : Bytes}
    (h : encodeFrame type flags payload maxPayloadBytes = .ok encoded) :
    nextFrame maxPayloadBytes encoded = .item ⟨headerOf type flags payload, payload⟩ encoded.length := by
  obtain ⟨hmax, hpayload, hflags, rfl⟩ := encodeFrame_ok h
  have hlen := length_encodeFrameHeader (headerOf type flags payload)
  have hcrc : ¬ (payload ≠ [] ∧ (crc32c payload).toNat ≠ (headerOf type flags payload).payloadCrc) := by
    rintro ⟨hne, hcrc⟩
    exact hcrc (if_neg hne).symm
  have htake : payload.take (headerOf type flags payload).payloadLength = payload := List.take_length
  unfold nextFrame
  rw [List.length_append, hlen, if_neg (by omega), List.take_left' hlen, decode_encodeFrameHeader hmax hpayload hflags]
  dsimp only
  rw [if_neg (by simp [headerOf]), List.drop_left' hlen, htake, if_neg hcrc]
  rfl

/-- A message as it is given to `encodeFrame`. -/
structure Outgoing where
  type : FrameType
  flags : ℕ
  payload : Bytes

def Outgoing.frame (m : Outgoing) : Frame := ⟨headerOf m.type m.flags m.payload, m.payload⟩

def Outgoing.encode (maxPayloadBytes : ℕ) (m : Outgoing) : Result Bytes :=
  encodeFrame m.type m.flags m.payload maxPayloadBytes

theorem scans_encoded {maxPayloadBytes : ℕ} {messages : List Outgoing} {encoded : List Bytes}
    (h : List.Forall₂ (fun m bytes => m.encode maxPayloadBytes = .ok bytes) messages encoded) :
    Scans (nextFrame maxPayloadBytes) encoded.flatten (messages.map Outgoing.frame) (.ok []) := by
  induction h with
  | nil => exact .more rfl
  | @cons m bytes messages encoded hm _ ih =>
    have hitem := (incremental_nextFrame maxPayloadBytes).item (nextFrame_encodeFrame hm) encoded.flatten
    refine .item hitem ?_
    rw [List.flatten_cons, List.drop_left]
    exact ih

namespace FrameDecoder

/-! The last check of a feed. -/

theorem decodeFrameHeader_message {bytes : Bytes} {maxPayloadBytes : ℕ} {e : Error}
    (h : decodeFrameHeader bytes maxPayloadBytes = .error e) :
    e.message ≠ "decoder buffered more than one maximum frame" := by
  unfold decodeFrameHeader at h
  split at h
  · cases h
    simp
  split at h
  · cases h
    simp
  split at h
  · cases h
    simp
  split at h
  · cases h
    simp
  dsimp only at h
  split at h
  · cases h
    simp
  split at h
  · cases h
    simp
  split at h
  · cases h
    simp
  split at h
  · cases h
    simp
  split at h
  · cases h
    simp
  split at h
  · cases h
    simp
  · cases h

theorem drain_message {maxPayloadBytes : ℕ} {buffer : Bytes} {offset : ℕ} {e : Error}
    (h : (drain maxPayloadBytes buffer offset).1 = .error e) :
    e.message ≠ "decoder buffered more than one maximum frame" := by
  fun_induction drain maxPayloadBytes buffer offset with
  | case1 | case3 => cases h
  | case2 offset available hlong e' hdecode =>
    cases h
    exact decodeFrameHeader_message hdecode
  | case4 =>
    cases h
    simp
  | case5 offset available hlong header hdecode total htotal payload hcrc status frames rest hdrain ih =>
    rw [hdrain] at ih
    exact ih h

/-- The check that no more than one frame is buffered is never the one that fails. -/
theorem feed_message (d : FrameDecoder) (data : Bytes) {e : Error} (h : (d.feed data).1 = .error e) :
    e.message ≠ "decoder buffered more than one maximum frame" := by
  unfold feed at h
  split at h
  · cases h
  dsimp only at h
  split at h
  · cases h
    decide
  case h_2 ceiling hceiling =>
  split at h
  · cases h
    decide
  cases hdrain : drain d.compact.maxPayloadBytes (d.compact.buffer ++ data) d.compact.offset with
  | mk status result =>
  have hscan := scans_drain d.compact.maxPayloadBytes (d.compact.buffer ++ data) d.compact.offset
  have hmessage := @drain_message d.compact.maxPayloadBytes (d.compact.buffer ++ data) d.compact.offset
  rw [hdrain] at h hscan hmessage
  dsimp only at h hscan hmessage
  cases status with
  | error e' =>
    cases h
    exact hmessage rfl
  | ok =>
    have hleft := nextFrame_more hscan.left
    have hsum : ceiling = kFrameHeaderBytes + d.compact.maxPayloadBytes := by
      unfold checkedAdd at hceiling
      split at hceiling
      · cases hceiling
      · exact (Option.some.inj hceiling).symm
    rw [List.length_drop] at hleft
    dsimp only at h
    rw [if_neg (by omega)] at h
    cases h

/-- Wherever a stream is cut, the same frames come out, with the same status; what is left over is the same and less
than one frame; frames that were encoded come out as they went in. -/
theorem stream_segmentation {maxPayloadBytes : ℕ} (hmax : maxPayloadBytes < 2 ^ 32) :
    (∀ pieces : List Bytes, (∀ p ∈ pieces, p ≠ []) → pieces.flatten.length < 2 ^ 64 →
      let whole := (⟨maxPayloadBytes, [], 0⟩ : FrameDecoder).feed pieces.flatten
      let cut := (⟨maxPayloadBytes, [], 0⟩ : FrameDecoder).feedAll pieces
      cut.1 = whole.1 ∧ cut.2.1 = whole.2.1 ∧
        (whole.1 = .ok () → cut.2.2.remaining = whole.2.2.remaining ∧
          whole.2.2.remaining.length < kFrameHeaderBytes + maxPayloadBytes)) ∧
    (∀ (d : FrameDecoder) data e, (d.feed data).1 = .error e →
      e.message ≠ "decoder buffered more than one maximum frame") ∧
    ∀ messages encoded, List.Forall₂ (fun m bytes => Outgoing.encode maxPayloadBytes m = .ok bytes) messages encoded →
      encoded.flatten.length < 2 ^ 64 →
      ∃ d, (⟨maxPayloadBytes, [], 0⟩ : FrameDecoder).feed encoded.flatten = (.ok (), messages.map Outgoing.frame, d) ∧
        d.remaining = [] := by
  refine ⟨?_, fun d data _ h => d.feed_message data h, ?_⟩
  · intro pieces hpieces hsize
    have hwhole := feed_whole hmax hsize
    have hfed := feedAll_fed (d := ⟨maxPayloadBytes, [], 0⟩) hmax (Nat.le_refl _) hpieces (by simpa using hsize)
    have hcut := hfed.whole (incremental_nextFrame maxPayloadBytes) rfl
    obtain ⟨hframes, houtcome⟩ := hcut.unique hwhole
    obtain ⟨hstatus, hrest⟩ := outcome_injective houtcome
    refine ⟨hstatus, hframes, fun hok => ⟨hrest (hstatus.trans hok), ?_⟩⟩
    rw [hok] at hwhole
    exact nextFrame_more hwhole.left
  · intro messages encoded hencoded hsize
    have hwhole := feed_whole hmax hsize
    obtain ⟨hframes, houtcome⟩ := (scans_encoded hencoded).unique hwhole
    cases hfeed : (⟨maxPayloadBytes, [], 0⟩ : FrameDecoder).feed encoded.flatten with
    | mk status result =>
    obtain ⟨frames, d⟩ := result
    rw [hfeed] at hframes houtcome
    dsimp only at hframes houtcome
    cases status with
    | error e => cases houtcome
    | ok =>
      have hrest := (Except.ok.inj houtcome).symm
      exact ⟨d, by rw [hframes], hrest⟩

theorem ping_pong_decoded :
    64 < 2 ^ 32 ∧ ∃ encoded d, List.Forall₂ (fun m bytes => Outgoing.encode 64 m = .ok bytes)
      [⟨.ping, 0, []⟩, ⟨.pong, 0, []⟩] encoded ∧
      (⟨64, [], 0⟩ : FrameDecoder).feed encoded.flatten =
        (.ok (), [Outgoing.frame ⟨.ping, 0, []⟩, Outgoing.frame ⟨.pong, 0, []⟩], d) := by
  have hencoded : List.Forall₂ (fun m bytes => Outgoing.encode 64 m = .ok bytes) [⟨.ping, 0, []⟩, ⟨.pong, 0, []⟩]
      [encodeFrameHeader (headerOf .ping 0 []), encodeFrameHeader (headerOf .pong 0 [])] := by
    refine .cons ?_ (.cons ?_ .nil) <;>
      simp [Outgoing.encode, encodeFrame, unknownBits, kAbsoluteMaxPayloadBytes]
  obtain ⟨d, hfeed, _⟩ := (stream_segmentation (by decide : 64 < 2 ^ 32)).2.2 _ _ hencoded
    (by simp [length_encodeFrameHeader, kFrameHeaderBytes])
  exact ⟨by decide, _, d, hencoded, hfeed⟩

end FrameDecoder

end ConfigurationFabric.Wire
