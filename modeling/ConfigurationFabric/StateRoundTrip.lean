import ConfigurationFabric.StateSnapshot
import ConfigurationFabric.Library.Reading

namespace ConfigurationFabric

open LittleEndian
open Reading
open ByteReader

/-! Fields that are read back from what is written of them. -/

theorem concat_eq_joined (parts : List (Result Bytes)) : concat parts = joined parts := by
  induction parts with
  | nil => rfl
  | cons p ps ih =>
    change _ = (do let out ← p; let outs ← joined ps; return out ++ outs : Result Bytes)
    rw [← ih]
    cases p with
    | error e => rfl
    | ok out =>
      unfold concat
      rw [List.mapM_cons]
      cases ps.mapM id with
      | error e => simp [bind, Except.bind]
      | ok outs => simp [bind, Except.bind, pure, Except.pure]

theorem fail_ne {α : Type} {code : ErrorCode} {message detail : String} {bs rest : Bytes} {v : α} :
    (ByteReader.fail code message detail : ByteReader α) bs ≠ .ok (v, rest) := by
  intro h
  cases h

theorem fixed_ok {count : ℕ} {bs v rest : Bytes} :
    fixed count bs = .ok (v, rest) ↔ count ≤ bs.length ∧ bs.take count = v ∧ bs.drop count = rest := by
  unfold fixed
  rw [bind_ok]
  unfold need
  by_cases hc : count > bs.length
  · simp [hc]
  · rw [if_neg hc]
    constructor
    · rintro ⟨_, _, ⟨⟩, hv⟩
      obtain ⟨hv, hrest⟩ := Prod.mk.inj (Except.ok.inj hv)
      exact ⟨by omega, hv, hrest⟩
    · rintro ⟨-, rfl, rfl⟩
      exact ⟨(), bs, rfl, rfl⟩

theorem reads_fixed (v : Bytes) : Reads (fixed v.length) v v :=
  fun rest => fixed_ok.mpr ⟨by simp, List.take_left, List.drop_left⟩

theorem unsigned_ok {width n : ℕ} {bs rest : Bytes} (h : unsigned width bs = .ok (n, rest)) : n < 256 ^ width := by
  obtain ⟨v, bs', hfixed, hload⟩ := bind_ok.mp h
  obtain ⟨rfl, -⟩ := pure_ok.mp hload
  obtain ⟨hlen, rfl, -⟩ := fixed_ok.mp hfixed
  have hlt := load_lt (bs.take width)
  rwa [List.length_take, Nat.min_eq_left hlen] at hlt

theorem reads_unsigned {width n : ℕ} (h : n < 256 ^ width) : Reads (unsigned width) (store width n) n := by
  intro rest
  have hread := reads_fixed (store width n) rest
  rw [store_length] at hread
  refine bind_ok.mpr ⟨_, _, hread, ?_⟩
  rw [load_store h]
  rfl

theorem unsigned_back (width : ℕ) : ReadsBack (unsigned width) fun n => .ok (store width n) := by
  rintro bs n rest h out ⟨⟩
  exact reads_unsigned (unsigned_ok h)

theorem reads_fixedBytes {n : ℕ} (v : FixedBytes n) :
    ∀ out, (.ok v.1 : Result Bytes) = .ok out → Reads (fixedBytes n) out v := by
  obtain ⟨v, rfl⟩ := v
  rintro _ ⟨⟩ rest
  have hlen : v.length ≤ (v ++ rest).length := by simp
  unfold fixedBytes
  rw [dif_pos hlen]
  simp only [List.take_left, List.drop_left]

theorem i64_back : ReadsBack i64 fun v => .ok (ByteWriter.i64 v) := by
  rintro bs v rest h out ⟨⟩
  obtain ⟨raw, bs', hraw, hv⟩ := bind_ok.mp h
  obtain ⟨rfl, -⟩ := pure_ok.mp hv
  have hlt := unsigned_ok hraw
  have hstored : ByteWriter.i64 (if raw < 2 ^ 63 then (raw : ℤ) else (raw : ℤ) - 2 ^ 64) = store 8 raw := by
    unfold ByteWriter.i64
    congr 1
    split <;> omega
  rw [hstored]
  intro rest
  exact bind_ok.mpr ⟨raw, rest, reads_unsigned hlt rest, rfl⟩

theorem reads_boolean (v : Bool) :
    ∀ out, (.ok (ByteWriter.boolean v) : Result Bytes) = .ok out → Reads boolean out v := by
  rintro _ ⟨⟩ rest
  cases v with
  | false => rfl
  | true => rfl

theorem reads_string {value out : Bytes} {maxBytes : ℕ} (h : ByteWriter.string value maxBytes = .ok out) :
    Reads (string maxBytes) out value := by
  unfold ByteWriter.string at h
  split at h
  · cases h
  split at h
  · cases h
  case isFalse hmax habs =>
    obtain rfl := Except.ok.inj h
    have hlt : value.length < 256 ^ 4 := by
      have : kAbsoluteMaxFieldBytes = 1048576 := rfl
      omega
    intro rest
    rw [List.append_assoc]
    refine (bind_of_ok (reads_unsigned hlt (value ++ rest))).trans ?_
    rw [if_neg (by omega)]
    exact reads_fixed value rest

theorem parseId_ok {what : String} {raw v : Bytes} (h : parseId what raw = .ok v) : raw = v ∧ parseId what v = .ok v := by
  have hraw : raw = v := by
    unfold parseId at h
    split at h
    · cases h
    split at h
    · cases h
    · exact Except.ok.inj h
  exact ⟨hraw, hraw ▸ h⟩

theorem lift_ok {α : Type} {x : Result α} {bs rest : Bytes} {v : α} :
    (liftM x : ByteReader α) bs = .ok (v, rest) ↔ x = .ok v ∧ bs = rest := by
  change (Except.bind x fun a => .ok (a, bs) : Except Error (α × Bytes)) = _ ↔ _
  cases x with
  | error e => simp [Except.bind]
  | ok a => simp [Except.bind]

theorem optionalIdentifier_back (what : String) : ReadsBack (optionalIdentifier (parseId what)) encodeIdentifier := by
  intro bs v rest h out hout
  obtain ⟨raw, bs', -, hparse⟩ := bind_ok.mp h
  intro rest
  refine bind_ok.mpr ⟨v, rest, reads_string hout rest, ?_⟩
  split at hparse
  · obtain ⟨rfl, -⟩ := pure_ok.mp hparse
    rfl
  · obtain ⟨rfl, hv⟩ := parseId_ok (lift_ok.mp hparse).1
    split
    · exact pure_ok.mpr ⟨by simp_all, rfl⟩
    · exact lift_ok.mpr ⟨hv, rfl⟩

theorem reads_enumeration {α : Type} {ofValue : ℕ → Option α} {value : α → ℕ} (message : String)
    (h : ∀ v, ofValue (value v) = some v ∧ value v < 256) (v : α) :
    ∀ out, (.ok (ByteWriter.u8 (value v)) : Result Bytes) = .ok out → Reads (enumeration ofValue message) out v := by
  rintro _ ⟨⟩ rest
  obtain ⟨hof, hlt⟩ := h v
  refine bind_ok.mpr ⟨value v, rest, reads_unsigned (by omega) rest, ?_⟩
  simp only [hof]
  rfl

theorem reads_times {α : Type} {item : ByteReader α} {write : α → Result Bytes} {xs : List α}
    (h : ∀ x ∈ xs, ∀ out, write x = .ok out → Reads item out x) :
    Leads (times xs.length item) (xs.map write) (pure xs) := by
  induction xs with
  | nil => exact leads_refl _
  | cons x xs ih =>
    obtain ⟨hx, hxs⟩ := List.forall_mem_cons.mp h
    rw [List.length_cons, times, List.map_cons]
    apply Leads.cons hx
    have hrest := (ih hxs).append (f := fun ys => pure (x :: ys)) (leads_refl (pure (x :: xs)))
    rwa [List.append_nil] at hrest

/-! Values of enumerations. -/

theorem DeliveryState.ofValue_value (s : DeliveryState) : ofValue s.value = some s ∧ s.value < 256 := by
  cases s <;> exact ⟨rfl, by decide⟩

theorem EvidenceKind.ofValue_value (k : EvidenceKind) : ofValue k.value = some k ∧ k.value < 256 := by
  cases k <;> exact ⟨rfl, by decide⟩

theorem RetryDirective.ofValue_value (d : RetryDirective) : ofValue d.value = some d ∧ d.value < 256 := by
  cases d <;> exact ⟨rfl, by decide⟩

theorem TargetClass.ofValue_value (c : TargetClass) : ofValue c.value = some c ∧ c.value < 256 := by
  cases c <;> exact ⟨rfl, by decide⟩

theorem ApplyGuarantee.ofValue_value (g : ApplyGuarantee) : ofValue g.value = some g ∧ g.value < 256 := by
  cases g <;> exact ⟨rfl, by decide⟩

theorem GuaranteeRequirement.ofValue_value (g : GuaranteeRequirement) : ofValue g.value = some g ∧ g.value < 256 := by
  cases g <;> exact ⟨rfl, by decide⟩

theorem ErrorCode.ofValue_value (c : ErrorCode) : ofValue c.value = some c ∧ c.value < 256 ^ 2 := by
  cases c <;> exact ⟨rfl, by decide⟩

theorem run'_ok {α : Type} {r : ByteReader α} {bs : Bytes} {v : α} :
    r.run' bs = .ok v ↔ ∃ rest, r bs = .ok (v, rest) := by
  change (r bs).map Prod.fst = _ ↔ _
  cases r bs with
  | error e => simp [Except.map]
  | ok p =>
    obtain ⟨a, rest⟩ := p
    simp [Except.map]

end ConfigurationFabric
