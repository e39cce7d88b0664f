import ConfigurationFabric.PlanFields
import ConfigurationFabric.RecordFields

/-! The values of plan fields as the canonical text shows them, and that they are read back. -/

namespace ConfigurationFabric

open LittleEndian

/-! Numbers. -/

theorem checkedMul_ten {n : ℕ} : checkedMul n 10 = if n * 10 < 2 ^ 64 then some (n * 10) else none := by
  unfold checkedMul
  by_cases hn : n = 0
  · subst hn
    rfl
  have hiff : (n ≠ 0 ∧ 10 > (2 ^ 64 - 1) / n) ↔ ¬ n * 10 < 2 ^ 64 := by
    rw [and_iff_right hn, gt_iff_lt, Nat.div_lt_iff_lt_mul (Nat.pos_of_ne_zero hn)]
    omega
  by_cases hbig : n * 10 < 2 ^ 64
  · rw [if_neg (fun h => hiff.mp h hbig), if_pos hbig]
  · rw [if_pos (hiff.mpr hbig), if_neg hbig]

theorem checkedAdd_eq {a b : ℕ} (hb : b < 2 ^ 64) : checkedAdd a b = if a + b < 2 ^ 64 then some (a + b) else none := by
  unfold checkedAdd
  split_ifs <;> first | rfl | omega

namespace Plan

variable {what : String} {word value : Bytes} {n v : ℕ} {f : Field}

theorem digit_value {c : UInt8} (hc : Decimal.IsDigit c) : (c - 48).toNat = c.toNat - 48 ∧ c.toNat - 48 < 10 := by
  obtain ⟨hlow, hhigh⟩ := hc
  have hsub : (c - 48).toNat = c.toNat - 48 := UInt8.toNat_sub_of_le c 48 hlow
  have hhigh : c.toNat ≤ 57 := UInt8.le_iff_toNat_le.mp hhigh
  exact ⟨hsub, by omega⟩

/-- Digits are read as their number, as long as it has 64 bits. -/
theorem parseUnsignedFrom_ok (hv : v < 2 ^ 64) :
    parseUnsignedFrom what word v value = .ok n ↔
      (∀ c ∈ value, Decimal.IsDigit c) ∧ Decimal.value v value = n ∧ n < 2 ^ 64 := by
  induction value generalizing v with
  | nil =>
    constructor
    · intro h
      obtain rfl := Except.ok.inj h
      exact ⟨by simp, rfl, hv⟩
    · rintro ⟨-, rfl, -⟩
      rfl
  | cons c rest ih =>
    unfold parseUnsignedFrom
    by_cases hdigit : Decimal.IsDigit c
    · have hno : ¬ (c < 48 ∨ 57 < c) := by
        rw [not_or, UInt8.not_lt, UInt8.not_lt]
        exact hdigit
      obtain ⟨hsub, hten⟩ := digit_value hdigit
      have hle := Decimal.le_value (Decimal.next v c) rest
      rw [if_neg hno, checkedMul_ten, List.forall_mem_cons, and_iff_right hdigit]
      change _ ↔ _ ∧ Decimal.value (Decimal.next v c) rest = n ∧ _
      unfold Decimal.next at hle ⊢
      by_cases hmul : v * 10 < 2 ^ 64
      · rw [if_pos hmul]
        dsimp only
        rw [hsub, checkedAdd_eq (by omega)]
        by_cases hadd : v * 10 + (c.toNat - 48) < 2 ^ 64
        · rw [if_pos hadd]
          exact ih hadd
        · rw [if_neg hadd]
          refine iff_of_false (fun h => nomatch h) ?_
          rintro ⟨-, hvalue, hn⟩
          omega
      · rw [if_neg hmul]
        refine iff_of_false (fun h => nomatch h) ?_
        rintro ⟨-, hvalue, hn⟩
        omega
    · have hbad : c < 48 ∨ 57 < c := by
        by_contra hno
        rw [not_or, UInt8.not_lt, UInt8.not_lt] at hno
        exact hdigit hno
      rw [if_pos hbad]
      refine iff_of_false (fun h => nomatch h) ?_
      rintro ⟨hall, -⟩
      exact hdigit (hall c List.mem_cons_self)

theorem parseUnsigned_lt (h : parseUnsigned value what = .ok n) : n < 2 ^ 64 := by
  unfold parseUnsigned at h
  obtain ⟨-, h⟩ := guard_ok h
  exact ((parseUnsignedFrom_ok (by decide)).mp h).2.2

theorem parseUnsigned_digits (hn : n < 2 ^ 64) : parseUnsigned (Decimal.digits n) what = .ok n := by
  rw [parseUnsigned, if_neg Decimal.digits_ne_nil]
  exact (parseUnsignedFrom_ok (by decide)).mpr ⟨fun c hc => Decimal.isDigit_of_mem hc, Decimal.value_digits, hn⟩

/-! Digests. -/

theorem nibble_hexDigit : ∀ n < 16, nibble (hexDigit (UInt8.ofNat n)) = some (UInt8.ofNat n) := by
  decide

theorem joined_nibbles : ∀ n < 256, (((UInt8.ofNat n >>> 4) &&& 0x0F) <<< 4) ||| (UInt8.ofNat n &&& 0x0F) = UInt8.ofNat n := by
  decide +kernel

theorem nibble_low (b : UInt8) : nibble (hexDigit (b &&& 0x0F)) = some (b &&& 0x0F) := by
  rw [← UInt8.ofNat_toNat (x := b &&& 0x0F)]
  apply nibble_hexDigit
  rw [UInt8.toNat_and]
  exact Nat.lt_of_le_of_lt Nat.and_le_right (by decide)

theorem fromHex_toHex (bytes : Bytes) : fromHex (toHex bytes) = some bytes := by
  induction bytes with
  | nil => rfl
  | cons b bytes ih =>
    have hjoined := joined_nibbles b.toNat b.toNat_lt
    rw [UInt8.ofNat_toNat] at hjoined
    change fromHex (hexDigit ((b >>> 4) &&& 0x0F) :: hexDigit (b &&& 0x0F) :: toHex bytes) = _
    rw [fromHex, nibble_low, nibble_low, ih]
    exact congrArg (fun c => some (c :: bytes)) hjoined

theorem parse_hex (d : Digest) : Digest.parse d.hex = .ok d := by
  rw [Digest.parse, if_neg (not_not.mpr d.length_hex), Digest.hex, fromHex_toHex]
  exact dif_pos d.2

/-! What is shown of a field. -/

def Field.shown : Field → Bytes
  | .class v => text (targetClassName v)
  | .guarantee v => text (applyGuaranteeName v)
  | .configKey v => v
  | .artifact v => v
  | .revision v => text (toString v)
  | .generation v => text (toString v)
  | .schema v => v
  | .schemaVersion v => text (toString v)
  | .digest v => v.hex
  | .size v => text (toString v)
  | .requires v => text (guaranteeRequirementName v)
  | .mediaType v => v
  | .producer v => v
  | .source v => v
  | .endpoint v => v

/-- What stands in one line and has no blanks around it. -/
structure Clean (value : Bytes) : Prop where
  bare : Trimmed.Bare blank value
  line : 10 ∉ value

/-- A value that fits in a line and is read back whole. -/
structure Shown (value : Bytes) : Prop extends Clean value where
  ne_nil : value ≠ []
  length : value.length ≤ kMaxPlanSourcePathBytes

theorem clean_of_plain (h : ∀ c ∈ value, blank c = false ∧ c ≠ 10) : Clean value where
  bare := ⟨fun c hc => (h c (List.mem_of_mem_head? hc)).1, fun c hc => (h c (List.mem_of_mem_getLast? hc)).1⟩
  line hmem := (h 10 hmem).2 rfl

theorem plain_of_identifierByte {c : UInt8} (hc : identifierByte c = true) : blank c = false ∧ c ≠ 10 := by
  constructor
  · rw [Bool.eq_false_iff]
    intro hblank
    simp only [blank, Bool.or_eq_true, beq_iff_eq] at hblank
    obtain (rfl | rfl) | rfl := hblank <;> cases hc
  · rintro rfl
    cases hc

theorem shown_of_identifier (h : isValidIdentifier value = true) : Shown value := by
  simp only [isValidIdentifier, Bool.and_eq_true, Bool.not_eq_true', decide_eq_true_eq, List.all_eq_true] at h
  obtain ⟨⟨⟨hne, hlength⟩, -⟩, hbytes⟩ := h
  refine ⟨clean_of_plain fun c hc => plain_of_identifierByte (hbytes c hc), by simpa using hne, ?_⟩
  exact hlength.trans (by decide)

theorem shown_of_number (hn : n < 2 ^ 64) : Shown (text (toString n)) := by
  rw [text_toString]
  have hlength : (Decimal.digits n).length ≤ 20 :=
    Decimal.length_digits_le (by decide) (hn.trans (by decide))
  refine ⟨clean_of_plain fun c hc => plain_of_identifierByte ?_, Decimal.digits_ne_nil, hlength.trans (by decide)⟩
  obtain ⟨hlow, hhigh⟩ := Decimal.isDigit_of_mem hc
  simp [identifierByte, hlow, hhigh]

theorem shown_of_hex (d : Digest) : Shown d.hex := by
  have hlength := d.length_hex
  refine ⟨clean_of_plain fun c hc => plain_of_identifierByte (toHex_identifier hc).1, ?_, ?_⟩
  · exact List.ne_nil_of_length_pos (by omega)
  · rw [hlength]
    decide

theorem targetClass_read (c : TargetClass) :
    Shown (text (targetClassName c)) ∧ parseTargetClass (text (targetClassName c)) = some c := by
  cases c <;> exact ⟨⟨clean_of_plain (by decide +kernel), by decide, by decide⟩, by decide⟩

theorem applyGuarantee_read (g : ApplyGuarantee) :
    Shown (text (applyGuaranteeName g)) ∧ parseApplyGuarantee (text (applyGuaranteeName g)) = some g := by
  cases g <;> exact ⟨⟨clean_of_plain (by decide +kernel), by decide, by decide⟩, by decide⟩

theorem guaranteeRequirement_read (r : GuaranteeRequirement) :
    Shown (text (guaranteeRequirementName r)) ∧
      parseGuaranteeRequirement (text (guaranteeRequirementName r)) = some r := by
  cases r <;> exact ⟨⟨clean_of_plain (by decide +kernel), by decide, by decide⟩, by decide⟩

/-- A value that was read is shown so that it is read again. -/
theorem shown_of_read (h : f.Read value) (hclean : Clean value) (hne : f ≠ .producer []) :
    Shown f.shown ∧ f.Read f.shown := by
  have hidentifier {what : String} {v : Bytes} (hv : parseId what value = .ok v) :
      Shown v ∧ parseId what v = .ok v := by
    obtain ⟨rfl, hvalid⟩ := (parseId_ok_iff _ _ _).mp hv
    exact ⟨shown_of_identifier hvalid, hv⟩
  have hnumber {what : String} {v : ℕ} (hv : parseUnsigned value what = .ok v) :
      Shown (text (toString v)) ∧ parseUnsigned (text (toString v)) what = .ok v := by
    have hlt := parseUnsigned_lt hv
    refine ⟨shown_of_number hlt, ?_⟩
    rw [text_toString]
    exact parseUnsigned_digits hlt
  cases f with
  | «class» v => exact targetClass_read v
  | guarantee v => exact applyGuarantee_read v
  | requires v => exact guaranteeRequirement_read v
  | configKey v => exact hidentifier h
  | artifact v => exact hidentifier h
  | schema v => exact hidentifier h
  | revision v => exact hnumber h
  | generation v => exact hnumber h
  | size v => exact hnumber h
  | schemaVersion v =>
    obtain ⟨hshown, hread⟩ := hnumber h.1
    exact ⟨hshown, hread, h.2⟩
  | digest v => exact ⟨shown_of_hex v, parse_hex v⟩
  | mediaType v =>
    obtain ⟨rfl, hvalue, hlength⟩ := h
    exact ⟨⟨hclean, hvalue, hlength.trans (by decide)⟩, rfl, hvalue, hlength⟩
  | producer v =>
    obtain ⟨rfl, hlength⟩ := h
    exact ⟨⟨hclean, fun hv => hne (congrArg Field.producer hv), hlength.trans (by decide)⟩, rfl, hlength⟩
  | source v =>
    obtain ⟨rfl, hvalue, hlength⟩ := h
    exact ⟨⟨hclean, hvalue, hlength⟩, rfl, hvalue, hlength⟩
  | endpoint v =>
    obtain ⟨rfl, endpoint, hv, hset⟩ := h
    have hbounds := hv
    unfold parseEndpoint at hbounds
    obtain ⟨hvalue, hlength⟩ := not_or.mp (guard_ok hbounds).1
    have hlength : v.length ≤ 128 := Nat.not_lt.mp hlength
    exact ⟨⟨hclean, hvalue, hlength.trans (by decide)⟩, rfl, endpoint, hv, hset⟩

/-! Lines of a keyword and a value. -/

/-- A word that can stand before a value. -/
def IsKeyword (keyword : Bytes) : Prop :=
  keyword.head? ≠ none ∧ keyword.head? ≠ some 35 ∧ ∀ c ∈ keyword, c ≠ 32 ∧ blank c = false ∧ c ≠ 10

instance : DecidablePred IsKeyword := fun keyword =>
  @instDecidableAnd _ _ _ (@instDecidableAnd _ _ _ (List.decidableBAll _ keyword))

theorem isKeyword_keyword (f : Field) : IsKeyword f.keyword := by
  cases f <;> simp only [Field.keyword] <;> decide

def entry (keyword value : Bytes) : Bytes := keyword ++ 32 :: value

variable {keyword : Bytes}

theorem keywordOf_entry (hk : IsKeyword keyword) (value : Bytes) : keywordOf (entry keyword value) = keyword := by
  unfold keywordOf entry
  rw [List.takeWhile_append_of_pos fun c hc => decide_eq_true (hk.2.2 c hc).1, List.takeWhile_cons_of_neg (by decide),
    List.append_nil]

theorem valueOf_entry (hk : IsKeyword keyword) (hvalue : Trimmed.Bare blank value) :
    valueOf (entry keyword value) = value := by
  unfold valueOf entry
  rw [List.dropWhile_append_of_pos fun c hc => decide_eq_true (hk.2.2 c hc).1, List.dropWhile_cons_of_neg (by decide)]
  exact Trimmed.trim_of_bare hvalue

theorem isSignificant_entry (hk : IsKeyword keyword) : isSignificant (entry keyword value) = true := by
  obtain ⟨hhead, hcomment, -⟩ := hk
  cases keyword with
  | nil => exact absurd rfl hhead
  | cons c keyword => simpa [isSignificant, entry] using hcomment

theorem clean_entry (hk : IsKeyword keyword) (hvalue : Shown value) : Clean (entry keyword value) where
  bare := by
    obtain ⟨hhead, -, hbytes⟩ := hk
    constructor
    · intro c hc
      cases keyword with
      | nil => exact absurd rfl hhead
      | cons d keyword =>
        obtain rfl : d = c := Option.some.inj hc
        exact (hbytes d List.mem_cons_self).2.1
    · intro c hc
      have hlast : (entry keyword value).getLast? = value.getLast? := by
        rw [entry, List.getLast?_append_of_ne_nil _ (by simp), List.getLast?_cons_of_ne_nil hvalue.ne_nil]
      rw [hlast] at hc
      exact hvalue.bare.2 c hc
  line hmem := by
    obtain hmem | hmem := List.mem_append.mp hmem
    · exact (hk.2.2 10 hmem).2.2 rfl
    · obtain hmem | hmem := List.mem_cons.mp hmem
      · cases hmem
      · exact hvalue.line hmem

end Plan

end ConfigurationFabric
