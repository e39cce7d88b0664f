import ConfigurationFabric.Messages
import ConfigurationFabric.RecordFields

/-! The fields of messages, and what makes a message of them. -/

namespace ConfigurationFabric

open LittleEndian
open Reading
open ByteReader

/-! Fields. -/

theorem part_readEnum8 {α : Type} {ofValue : ℕ → Option α} {value : α → ℕ}
    (hvalue : ∀ v, ofValue (value v) = some v ∧ value v < 256) (hof : ∀ {n v}, ofValue n = some v → value v = n) :
    Part (readEnum8 ofValue) (fun _ => True) fun v => .ok (ByteWriter.u8 (value v)) := by
  intro bs v rest
  rw [readEnum8, bind_ok]
  constructor
  · rintro ⟨raw, bs', hraw, hv⟩
    cases hfound : ofValue raw with
    | none =>
      rw [hfound] at hv
      exact absurd hv fail_ne
    | some v' =>
      rw [hfound] at hv
      obtain ⟨rfl, rfl⟩ := pure_ok.mp hv
      obtain rfl := hof hfound
      exact ⟨trivial, ((part_u8 _ _ _).mp hraw).2⟩
  · rintro ⟨-, hout⟩
    refine ⟨value v, rest, (part_u8 _ _ _).mpr ⟨(hvalue v).2, hout⟩, ?_⟩
    rw [(hvalue v).1]
    rfl

theorem part_readErrorCode : Part readErrorCode (fun _ => True) fun c => .ok (ByteWriter.u16 c.value) := by
  intro bs v rest
  rw [readErrorCode, bind_ok]
  constructor
  · rintro ⟨raw, bs', hraw, hv⟩
    cases hfound : ErrorCode.ofValue raw with
    | none =>
      rw [hfound] at hv
      exact absurd hv fail_ne
    | some v' =>
      rw [hfound] at hv
      obtain ⟨rfl, rfl⟩ := pure_ok.mp hv
      obtain rfl := ErrorCode.value_of_ofValue hfound
      exact ⟨trivial, ((part_u16 _ _ _).mp hraw).2⟩
  · rintro ⟨-, hout⟩
    refine ⟨v.value, rest, (part_u16 _ _ _).mpr ⟨(ErrorCode.ofValue_value v).2, hout⟩, ?_⟩
    rw [(ErrorCode.ofValue_value v).1]
    rfl

theorem part_readState : Part readDeliveryState (fun _ => True) fun s => .ok (ByteWriter.u8 s.value) :=
  part_readEnum8 DeliveryState.ofValue_value DeliveryState.value_of_ofValue

theorem part_readClass : Part readTargetClass (fun _ => True) fun c => .ok (ByteWriter.u8 c.value) :=
  part_readEnum8 TargetClass.ofValue_value TargetClass.value_of_ofValue

theorem part_readGuarantee : Part readApplyGuarantee (fun _ => True) fun g => .ok (ByteWriter.u8 g.value) :=
  part_readEnum8 ApplyGuarantee.ofValue_value ApplyGuarantee.value_of_ofValue

theorem part_readRequirement :
    Part readGuaranteeRequirement (fun _ => True) fun r => .ok (ByteWriter.u8 r.value) :=
  part_readEnum8 GuaranteeRequirement.ofValue_value GuaranteeRequirement.value_of_ofValue

theorem part_readDirective : Part readRetryDirective (fun _ => True) fun d => .ok (ByteWriter.u8 d.value) :=
  part_readEnum8 RetryDirective.ofValue_value RetryDirective.value_of_ofValue

/-- The characters of the string are bytes. -/
def OfBytes (s : String) : Prop := textString (text s) = s

theorem text_textString (bytes : Bytes) : text (textString bytes) = bytes := by
  have hbyte (b : UInt8) : UInt8.ofNat (Char.ofNat b.toNat).toNat = b := by
    have hvalid : b.toNat.isValidChar := .inl (b.toNat_lt.trans (by decide))
    rw [Char.ofNat, dif_pos hvalid]
    change UInt8.ofNat b.toNat = b
    exact UInt8.ofNat_toNat
  rw [text, textString, String.toList_ofList, List.map_map]
  exact (List.map_congr_left fun b _ => hbyte b).trans (List.map_id _)

theorem part_readDetail : Part readDetail OfBytes writeDetail := by
  intro bs v rest
  rw [readDetail, bind_ok]
  constructor
  · rintro ⟨raw, bs', hraw, hv⟩
    obtain ⟨rfl, rfl⟩ := pure_ok.mp hv
    rw [OfBytes, writeDetail, text_textString]
    exact ⟨rfl, ((part_string _ _ _ _).mp hraw).2⟩
  · rintro ⟨hv, hout⟩
    exact ⟨text v, rest, (part_string _ _ _ _).mpr ⟨trivial, hout⟩, pure_ok.mpr ⟨hv, rfl⟩⟩

/-! Messages. -/

section Messages

variable {α : Type} {fields : ByteReader α} {check : α → Status} {P Q : α → Prop} {parts : α → List (Result Bytes)}

/-- A message whose fields are read exactly, with what is checked of it as a whole. -/
theorem message_canonical (h : Exact (fun _ => True) fields (fun _ => True) P parts) :
    Canonical (decodeMessage fields check) (fun m => P m ∧ check m = .ok ()) fun m => concat (parts m) := by
  intro bs v
  change _ ↔ _ ∧ concat (parts v) = .ok bs
  rw [decodeMessage, run'_ok, concat_eq_joined]
  constructor
  · rintro ⟨rest, hread⟩
    obtain ⟨m, bs₁, hm, hread⟩ := bind_ok.mp hread
    obtain ⟨⟨⟩, bs₂, hend, hread⟩ := bind_ok.mp hread
    obtain ⟨⟨⟩, bs₃, hcheck, hread⟩ := bind_ok.mp hread
    obtain ⟨rfl, rfl⟩ := pure_ok.mp hread
    obtain ⟨rfl, ⟨⟩⟩ := (requireEnd_ok _ _).mp hend
    obtain ⟨hpassed, -⟩ := lift_ok.mp hcheck
    obtain ⟨-, -, hP, out, hout, rfl⟩ := (h _ _ _).mp hm
    rw [List.append_nil]
    exact ⟨⟨hP, hpassed⟩, hout⟩
  · rintro ⟨⟨hP, hcheck⟩, hout⟩
    refine ⟨[], bind_ok.mpr ⟨v, [], (h _ _ _).mpr ⟨trivial, trivial, hP, bs, hout, by simp⟩, ?_⟩⟩
    refine bind_ok.mpr ⟨⟨⟩, [], (requireEnd_ok _ _).mpr ⟨rfl, rfl⟩, ?_⟩
    exact bind_ok.mpr ⟨⟨⟩, [], lift_ok.mpr ⟨hcheck, rfl⟩, pure_ok.mpr ⟨rfl, rfl⟩⟩

theorem concat_mem_ok {ps : List (Result Bytes)} {p : Result Bytes} {out : Bytes} (h : concat ps = .ok out)
    (hp : p ∈ ps) : ∃ front, p = .ok front := by
  rw [concat_eq_joined] at h
  induction ps generalizing out with
  | nil => cases hp
  | cons q qs ih =>
    obtain ⟨front, back, hq, hqs, -⟩ := joined_cons_ok.mp h
    obtain rfl | hp := List.mem_cons.mp hp
    · exact ⟨front, hq⟩
    · exact ih hqs hp

/-- A check before the encoding that the encoding makes again. -/
theorem guarded_ok {c : Status} {x : Result Bytes} (h : ∀ out, x = .ok out → c = .ok ()) (bs : Bytes) :
    (do c; x) = .ok bs ↔ x = .ok bs := by
  rw [Result.bind_eq_ok]
  constructor
  · rintro ⟨⟨⟩, -, hx⟩
    exact hx
  · exact fun hx => ⟨(), h _ hx, hx⟩

theorem detail_guarded {detail : String} {ps : List (Result Bytes)} (hmem : writeDetail detail ∈ ps) (bs : Bytes) :
    (do checkDetail detail; concat ps) = .ok bs ↔ concat ps = .ok bs := by
  refine guarded_ok (fun out hout => ?_) bs
  obtain ⟨front, hfront⟩ := concat_mem_ok hout hmem
  obtain ⟨hle, -⟩ := string_ok hfront
  rw [text, List.length_map, String.length_toList] at hle
  exact if_neg (not_lt.mpr hle)

/-- A bound that whatever can be encoded keeps to anyway. -/
theorem refused_ok {c : Prop} [Decidable c] {code : ErrorCode} {message detail : String} {x : Result Bytes}
    (h : ∀ out, x = .ok out → ¬ c) (bs : Bytes) : (do
      if c then .fail code message detail
      x : Result Bytes) = .ok bs ↔ x = .ok bs := by
  split
  case isTrue hc => exact iff_of_false (fun h => nomatch h) fun hout => h bs hout hc
  case isFalse => rfl

theorem bound_guarded {value : Bytes} {maxBytes : ℕ} {code : ErrorCode} {message detail : String}
    {ps : List (Result Bytes)} (hmem : ByteWriter.string value maxBytes ∈ ps) (bs : Bytes) : (do
      if value.length > maxBytes then .fail code message detail
      concat ps : Result Bytes) = .ok bs ↔ concat ps = .ok bs := by
  refine refused_ok (fun out hout => ?_) bs
  obtain ⟨front, hfront⟩ := concat_mem_ok hout hmem
  exact not_lt.mpr (string_ok hfront).1

theorem refusal_ok {c : Prop} [Decidable c] {code : ErrorCode} {message detail : String} {rest : Status} :
    (if c then .fail code message detail else rest) = .ok () ↔ ¬ c ∧ rest = .ok () := by
  split
  case isTrue h => exact iff_of_false (fun h => nomatch h) fun h' => h'.1 h
  case isFalse h => exact ⟨fun hrest => ⟨h, hrest⟩, fun h => h.2⟩

end Messages

end ConfigurationFabric
