import ConfigurationFabric.StateRoundTrip
import ConfigurationFabric.Library.Formats

/-! The fields of records and messages: each reader accepts exactly what its writer makes. -/

namespace ConfigurationFabric

open LittleEndian
open Reading
open ByteReader

variable {α : Type}

theorem DeliveryState.value_of_ofValue {n : ℕ} {s : DeliveryState} (h : ofValue n = some s) : s.value = n := by
  unfold ofValue at h
  split at h <;> cases h <;> rfl

theorem EvidenceKind.value_of_ofValue {n : ℕ} {k : EvidenceKind} (h : ofValue n = some k) : k.value = n := by
  unfold ofValue at h
  split at h <;> cases h <;> rfl

theorem RetryDirective.value_of_ofValue {n : ℕ} {d : RetryDirective} (h : ofValue n = some d) : d.value = n := by
  unfold ofValue at h
  split at h <;> cases h <;> rfl

theorem TargetClass.value_of_ofValue {n : ℕ} {c : TargetClass} (h : ofValue n = some c) : c.value = n := by
  unfold ofValue at h
  split at h <;> cases h <;> rfl

theorem ApplyGuarantee.value_of_ofValue {n : ℕ} {g : ApplyGuarantee} (h : ofValue n = some g) : g.value = n := by
  unfold ofValue at h
  split at h <;> cases h <;> rfl

theorem GuaranteeRequirement.value_of_ofValue {n : ℕ} {g : GuaranteeRequirement} (h : ofValue n = some g) :
    g.value = n := by
  unfold ofValue at h
  split at h <;> cases h <;> rfl

theorem ErrorCode.value_of_ofValue {n : ℕ} {c : ErrorCode} (h : ofValue n = some c) : c.value = n := by
  unfold ofValue at h
  split at h <;> cases h <;> rfl

theorem DeliveryState.value_eq_iff {n : ℕ} {s : DeliveryState} (h : ofValue n = some s) (t : DeliveryState) :
    t.value = n ↔ t = s := by
  constructor
  · rintro rfl
    exact Option.some.inj ((ofValue_value t).1.symm.trans h)
  · rintro rfl
    exact value_of_ofValue h

theorem ErrorCode.value_eq_iff {n : ℕ} {c : ErrorCode} (h : ofValue n = some c) (d : ErrorCode) :
    d.value = n ↔ d = c := by
  constructor
  · rintro rfl
    exact Option.some.inj ((ofValue_value d).1.symm.trans h)
  · rintro rfl
    exact value_of_ofValue h

theorem part_fixed (count : ℕ) : Part (fixed count) (fun v => v.length = count) fun v => .ok v := by
  intro bs v rest
  rw [fixed_ok]
  constructor
  · rintro ⟨hle, rfl, rfl⟩
    exact ⟨by simp [hle], _, rfl, (List.take_append_drop _ _).symm⟩
  · rintro ⟨rfl, _, ⟨⟩, rfl⟩
    exact ⟨by simp, List.take_left, List.drop_left⟩

theorem part_unsigned (width : ℕ) : Part (unsigned width) (· < 256 ^ width) fun n => .ok (store width n) := by
  intro bs n rest
  constructor
  · intro h
    obtain ⟨v, bs', hfixed, hload⟩ := bind_ok.mp h
    obtain ⟨rfl, rfl⟩ := pure_ok.mp hload
    obtain ⟨hlen, _, ⟨⟩, rfl⟩ := (part_fixed _ _ _ _).mp hfixed
    have hlt := load_lt v
    have hstore := store_load v
    rw [hlen] at hlt hstore
    exact ⟨hlt, _, rfl, by rw [hstore]⟩
  · rintro ⟨hlt, _, ⟨⟩, rfl⟩
    exact reads_unsigned hlt rest

theorem part_u8 : Part u8 (· < 2 ^ 8) fun n => .ok (ByteWriter.u8 n) := part_unsigned 1
theorem part_u16 : Part u16 (· < 2 ^ 16) fun n => .ok (ByteWriter.u16 n) := part_unsigned 2
theorem part_u32 : Part u32 (· < 2 ^ 32) fun n => .ok (ByteWriter.u32 n) := part_unsigned 4
theorem part_u64 : Part u64 (· < 2 ^ 64) fun n => .ok (ByteWriter.u64 n) := part_unsigned 8

theorem part_i64 : Part i64 (fun v => -2 ^ 63 ≤ v ∧ v < 2 ^ 63) fun v => .ok (ByteWriter.i64 v) := by
  intro bs v rest
  constructor
  · intro h
    obtain ⟨raw, bs', hraw, hv⟩ := bind_ok.mp h
    obtain ⟨rfl, rfl⟩ := pure_ok.mp hv
    obtain ⟨hlt, _, ⟨⟩, rfl⟩ := (part_u64 _ _ _).mp hraw
    have hback : ((if raw < 2 ^ 63 then (raw : ℤ) else (raw : ℤ) - 2 ^ 64) % 2 ^ 64).toNat = raw := by
      split <;> omega
    refine ⟨by split <;> omega, _, rfl, ?_⟩
    rw [ByteWriter.i64, hback]
    rfl
  · rintro ⟨⟨hlow, hhigh⟩, _, ⟨⟩, rfl⟩
    have hlt : (v % 2 ^ 64).toNat < 256 ^ 8 := by omega
    refine bind_ok.mpr ⟨_, rest, reads_unsigned hlt rest, pure_ok.mpr ⟨?_, rfl⟩⟩
    split <;> omega

theorem part_boolean : Part boolean (fun _ => True) fun v => .ok (ByteWriter.boolean v) := by
  intro bs v rest
  constructor
  · intro h
    obtain ⟨raw, bs', hraw, hv⟩ := bind_ok.mp h
    split at hv
    · obtain ⟨_, _, hfail, -⟩ := bind_ok.mp hv
      exact absurd hfail fail_ne
    case isFalse hle =>
      obtain ⟨rfl, rfl⟩ := pure_ok.mp hv
      obtain ⟨-, _, ⟨⟩, rfl⟩ := (part_u8 _ _ _).mp hraw
      refine ⟨trivial, _, rfl, ?_⟩
      obtain rfl | rfl : raw = 0 ∨ raw = 1 := by omega
      · rfl
      · rfl
  · rintro ⟨-, out, hout, rfl⟩
    exact reads_boolean v out hout rest

theorem part_fixedBytes (n : ℕ) : Part (fixedBytes n) (fun _ => True) fun v => .ok v.1 := by
  intro bs v rest
  constructor
  · intro h
    unfold fixedBytes at h
    split at h
    case isTrue hle =>
      obtain ⟨rfl, rfl⟩ := Prod.mk.inj (Except.ok.inj h)
      exact ⟨trivial, _, rfl, (List.take_append_drop _ _).symm⟩
    case isFalse => cases h
  · rintro ⟨-, out, hout, rfl⟩
    exact reads_fixedBytes v out hout rest

theorem part_digest : Part ByteReader.digest (fun _ => True) fun v => .ok v.1 := part_fixedBytes 32

theorem part_opaque128 : Part opaque128 (fun _ => True) fun v => .ok v.1 := part_fixedBytes 16

theorem string_ok {v out : Bytes} {maxBytes : ℕ} (h : ByteWriter.string v maxBytes = .ok out) :
    v.length ≤ maxBytes ∧ v.length ≤ kAbsoluteMaxFieldBytes ∧ out = ByteWriter.u32 v.length ++ v := by
  unfold ByteWriter.string at h
  split at h
  · cases h
  split at h
  · cases h
  · exact ⟨by omega, by omega, (Except.ok.inj h).symm⟩

theorem part_string (maxBytes : ℕ) :
    Part (string maxBytes) (fun _ => True) fun v => ByteWriter.string v maxBytes := by
  intro bs v rest
  constructor
  · intro h
    obtain ⟨length, bs', hlength, hv⟩ := bind_ok.mp h
    obtain ⟨-, _, ⟨⟩, rfl⟩ := (part_u32 _ _ _).mp hlength
    split at hv
    · obtain ⟨_, _, hfail, -⟩ := bind_ok.mp hv
      exact absurd hfail fail_ne
    case isFalse hbound =>
      obtain ⟨rfl, _, ⟨⟩, rfl⟩ := (part_fixed _ _ _ _).mp hv
      refine ⟨trivial, ByteWriter.u32 v.length ++ v, ?_, by rw [List.append_assoc]⟩
      change ByteWriter.string v maxBytes = _
      rw [ByteWriter.string, if_neg (by omega), if_neg (by omega)]
  · rintro ⟨-, out, hout, rfl⟩
    exact reads_string hout rest

theorem parseId_ok_iff (what : String) (raw v : Bytes) :
    parseId what raw = .ok v ↔ raw = v ∧ isValidIdentifier v = true := by
  unfold parseId
  split
  case isTrue hempty =>
    obtain rfl : raw = [] := by simpa using hempty
    constructor
    · intro h
      cases h
    · rintro ⟨rfl, h⟩
      cases h
  case isFalse =>
    split
    case isTrue hinvalid =>
      constructor
      · intro h
        cases h
      · rintro ⟨rfl, h⟩
        rw [h] at hinvalid
        cases hinvalid
    case isFalse hvalid =>
      constructor
      · rintro ⟨⟩
        exact ⟨rfl, by simpa using hvalid⟩
      · rintro ⟨rfl, -⟩
        rfl

theorem part_identifier (what : String) :
    Part (identifier (parseId what)) (fun v => isValidIdentifier v = true) encodeIdentifier := by
  intro bs v rest
  unfold identifier
  rw [bind_ok]
  constructor
  · rintro ⟨raw, bs', hraw, h⟩
    obtain ⟨hparse, rfl⟩ := lift_ok.mp h
    obtain ⟨rfl, hvalid⟩ := (parseId_ok_iff _ _ _).mp hparse
    exact ⟨hvalid, ((part_string _ _ _ _).mp hraw).2⟩
  · rintro ⟨hvalid, hout⟩
    exact ⟨v, rest, (part_string _ _ _ _).mpr ⟨trivial, hout⟩,
      lift_ok.mpr ⟨(parseId_ok_iff _ _ _).mpr ⟨rfl, hvalid⟩, rfl⟩⟩

theorem part_optional (what : String) :
    Part (optionalIdentifier (parseId what)) (fun v => v = [] ∨ isValidIdentifier v = true) encodeIdentifier := by
  intro bs v rest
  unfold optionalIdentifier
  rw [bind_ok]
  constructor
  · rintro ⟨raw, bs', hraw, h⟩
    have hout := ((part_string _ _ _ _).mp hraw).2
    split at h
    case isTrue hempty =>
      obtain ⟨rfl, rfl⟩ := pure_ok.mp h
      rw [hempty] at hout
      exact ⟨.inl rfl, hout⟩
    case isFalse =>
      obtain ⟨hparse, rfl⟩ := lift_ok.mp h
      obtain ⟨rfl, hvalid⟩ := (parseId_ok_iff _ _ _).mp hparse
      exact ⟨.inr hvalid, hout⟩
  · rintro ⟨hvalid, hout⟩
    refine ⟨v, rest, (part_string _ _ _ _).mpr ⟨trivial, hout⟩, ?_⟩
    split
    case isTrue hempty => exact pure_ok.mpr ⟨hempty.symm, rfl⟩
    case isFalse hne =>
      exact lift_ok.mpr ⟨(parseId_ok_iff _ _ _).mpr ⟨rfl, hvalid.resolve_left hne⟩, rfl⟩

theorem part_enumeration {ofValue : ℕ → Option α} {value : α → ℕ} (message : String)
    (hvalue : ∀ v, ofValue (value v) = some v ∧ value v < 256) (hof : ∀ {n v}, ofValue n = some v → value v = n) :
    Part (enumeration ofValue message) (fun _ => True) fun v => .ok (ByteWriter.u8 (value v)) := by
  intro bs v rest
  constructor
  · intro h
    obtain ⟨raw, bs', hraw, hv⟩ := bind_ok.mp h
    cases hfound : ofValue raw with
    | none =>
      rw [hfound] at hv
      exact absurd hv fail_ne
    | some v' =>
      rw [hfound] at hv
      obtain ⟨rfl, rfl⟩ := pure_ok.mp hv
      obtain rfl := hof hfound
      exact ⟨trivial, ((part_u8 _ _ _).mp hraw).2⟩
  · rintro ⟨-, out, hout, rfl⟩
    exact reads_enumeration message hvalue v out hout rest

/-- An error code as the records of the durable state hold it. -/
theorem exact_code {T : Bytes → Prop} {K P : α → Prop} {parts : α → List (Result Bytes)} {refuse : ByteReader α}
    {k : ErrorCode → ByteReader α} (g : α → ErrorCode) (hrefuse : ∀ bs p, refuse bs ≠ .ok p)
    (h : ∀ c, Exact T (k c) (fun v => K v ∧ g v = c) P parts) :
    Exact T (u16 >>= fun raw => match ErrorCode.ofValue raw with | none => refuse | some c => k c) K P
      fun v => .ok (ByteWriter.u16 (g v).value) :: parts v := by
  have hfield (raw : ℕ) : Exact T (match ErrorCode.ofValue raw with | none => refuse | some c => k c)
      (fun v => K v ∧ (g v).value = raw) P parts := by
    apply Exact.decoded (o := ErrorCode.ofValue raw)
    case hnone =>
      intro hc
      rw [hc]
      exact ⟨hrefuse, fun v hK => by rw [← hK.2, (ErrorCode.ofValue_value _).1] at hc; cases hc⟩
    intro c hc
    rw [hc]
    simp only [ErrorCode.value_eq_iff hc]
    exact h c
  apply (part_u16.cons (fun v => (g v).value) hfield).congr
  exact fun v _ => ⟨fun hP => ⟨(ErrorCode.ofValue_value (g v)).2, hP⟩, fun h => h.2⟩

theorem part_nonZero (message : String) :
    Part (nonZero message) (fun v => v ≠ 0 ∧ v < 2 ^ 64) fun v => .ok (ByteWriter.u64 v) := by
  intro bs v rest
  unfold nonZero
  rw [bind_ok]
  constructor
  · rintro ⟨raw, bs', hraw, hv⟩
    split at hv
    · obtain ⟨_, _, hfail, -⟩ := bind_ok.mp hv
      exact absurd hfail fail_ne
    case isFalse hne =>
      obtain ⟨rfl, rfl⟩ := pure_ok.mp hv
      obtain ⟨hlt, hout⟩ := (part_u64 _ _ _).mp hraw
      exact ⟨⟨hne, hlt⟩, hout⟩
  · rintro ⟨⟨hne, hlt⟩, hout⟩
    refine ⟨v, rest, (part_u64 _ _ _).mpr ⟨hlt, hout⟩, ?_⟩
    rw [if_neg hne]
    rfl

theorem exact_times {item : ByteReader α} {P : α → Prop} {write : α → Result Bytes} (h : Part item P write)
    (count : ℕ) :
    Exact (fun _ => True) (times count item) (fun _ => True) (fun vs => vs.length = count ∧ ∀ v ∈ vs, P v)
      fun vs => vs.map write := by
  induction count with
  | zero =>
    intro bs vs rest
    rw [times, pure_ok]
    constructor
    · rintro ⟨rfl, rfl⟩
      exact ⟨trivial, trivial, ⟨rfl, by simp⟩, [], rfl, rfl⟩
    · rintro ⟨-, -, ⟨hlen, -⟩, out, hout, rfl⟩
      obtain rfl := List.length_eq_zero_iff.mp hlen
      obtain rfl := Except.ok.inj hout
      exact ⟨rfl, rfl⟩
  | succ count ih =>
    intro bs vs rest
    rw [times]
    constructor
    · intro hok
      obtain ⟨v, bs', hv, hrest⟩ := bind_ok.mp hok
      obtain ⟨vs', bs'', hvs, hpure⟩ := bind_ok.mp hrest
      obtain ⟨rfl, rfl⟩ := pure_ok.mp hpure
      obtain ⟨hP, front, hfront, rfl⟩ := (h _ _ _).mp hv
      obtain ⟨-, -, ⟨rfl, hall⟩, back, hback, rfl⟩ := (ih _ _ _).mp hvs
      refine ⟨trivial, trivial, ⟨rfl, List.forall_mem_cons.mpr ⟨hP, hall⟩⟩, front ++ back, ?_, ?_⟩
      · exact joined_cons_ok.mpr ⟨front, back, hfront, hback, rfl⟩
      · rw [List.append_assoc]
    · rintro ⟨-, -, ⟨hlen, hall⟩, out, hout, rfl⟩
      obtain ⟨v, vs, rfl⟩ := List.exists_cons_of_length_eq_add_one hlen
      obtain ⟨hP, hall⟩ := List.forall_mem_cons.mp hall
      obtain ⟨front, back, hfront, hback, rfl⟩ := joined_cons_ok.mp hout
      rw [List.append_assoc]
      refine bind_ok.mpr ⟨v, back ++ rest, (h _ _ _).mpr ⟨hP, front, hfront, rfl⟩, ?_⟩
      refine bind_ok.mpr ⟨vs, rest, (ih _ _ _).mpr ⟨trivial, trivial, ⟨by simpa using hlen, hall⟩, back, hback, rfl⟩, ?_⟩
      rfl

/-- A counted collection of bounded length. -/
theorem exact_counted {γ : Type} {T : Bytes → Prop} {K P : α → Prop} {parts : α → List (Result Bytes)}
    {item : ByteReader γ} {R : γ → Prop} {write : γ → Result Bytes} {bound : ℕ} {refuse : ℕ → ByteReader PUnit}
    {k : List γ → ByteReader α} (g : α → List γ) (hitem : Part item R write) (hbound : bound < 2 ^ 32)
    (hrefuse : ∀ n bs p, refuse n bs ≠ .ok p) (h : ∀ vs, Exact T (k vs) (fun v => K v ∧ g v = vs) P parts) :
    Exact T (u32 >>= fun count => if count > bound then refuse count >>= fun _ => times count item >>= k
        else times count item >>= k) K (fun v => ((g v).length ≤ bound ∧ ∀ x ∈ g v, R x) ∧ P v)
      fun v => .ok (ByteWriter.u32 (g v).length) :: ((g v).map write ++ parts v) := by
  intro bs v rest
  rw [bind_ok]
  constructor
  · rintro ⟨count, bs', hcount, hv⟩
    obtain ⟨-, _, ⟨⟩, rfl⟩ := (part_u32 _ _ _).mp hcount
    split at hv
    · obtain ⟨_, _, hfail, -⟩ := bind_ok.mp hv
      exact absurd hfail (hrefuse _ _ _)
    case isFalse hle =>
      obtain ⟨vs, bs'', hvs, hrest⟩ := bind_ok.mp hv
      obtain ⟨-, -, ⟨rfl, hall⟩, front, hfront, rfl⟩ := (exact_times hitem _ _ _ _).mp hvs
      obtain ⟨hT, ⟨hK, rfl⟩, hP, back, hback, rfl⟩ := (h _ _ _ _).mp hrest
      refine ⟨hT, hK, ⟨⟨by omega, hall⟩, hP⟩, _, joined_cons_ok.mpr ⟨_, front ++ back, rfl, ?_, rfl⟩, by simp⟩
      exact joined_append_ok.mpr ⟨front, back, hfront, hback, rfl⟩
  · rintro ⟨hT, hK, ⟨⟨hle, hall⟩, hP⟩, out, hout, rfl⟩
    obtain ⟨_, items, ⟨⟩, hitems, rfl⟩ := joined_cons_ok.mp hout
    obtain ⟨front, back, hfront, hback, rfl⟩ := joined_append_ok.mp hitems
    refine ⟨(g v).length, front ++ (back ++ rest), (part_u32 _ _ _).mpr ⟨by omega, _, rfl, by simp⟩, ?_⟩
    rw [if_neg (by omega)]
    exact bind_ok.mpr ⟨g v, back ++ rest, (exact_times hitem _ _ _ _).mpr ⟨trivial, trivial, ⟨rfl, hall⟩, front, hfront, rfl⟩,
      (h _ _ _ _).mpr ⟨hT, ⟨hK, rfl⟩, hP, back, hback, rfl⟩⟩

theorem requireEnd_ok (bs : Bytes) (p : PUnit × Bytes) : requireEnd bs = .ok p ↔ bs = [] ∧ p = (⟨⟩, []) := by
  cases bs with
  | nil =>
    constructor
    · rintro ⟨⟩
      exact ⟨rfl, rfl⟩
    · rintro ⟨-, rfl⟩
      rfl
  | cons b bs =>
    constructor
    · intro h
      cases h
    · rintro ⟨h, -⟩
      cases h

theorem fail_refuses {code : ErrorCode} {message detail : String} (bs : Bytes) (p : α × Bytes) :
    (ByteReader.fail code message detail : ByteReader α) bs ≠ .ok p := by
  intro h
  cases h

theorem decode_exact {r : ByteReader α} {P : α → Prop} {parts : α → List (Result Bytes)}
    (h : Exact (· = []) r (fun _ => True) P parts) (bs : Bytes) (v : α) :
    r.run' bs = .ok v ↔ P v ∧ concat (parts v) = .ok bs := by
  rw [run'_ok, concat_eq_joined]
  constructor
  · rintro ⟨rest, hrest⟩
    obtain ⟨rfl, -, hP, out, hout, rfl⟩ := (h _ _ _).mp hrest
    rw [List.append_nil]
    exact ⟨hP, hout⟩
  · rintro ⟨hP, hout⟩
    exact ⟨[], (h _ _ _).mpr ⟨rfl, trivial, hP, bs, hout, by simp⟩⟩

end ConfigurationFabric
