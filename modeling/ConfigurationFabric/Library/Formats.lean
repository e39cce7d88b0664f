import ConfigurationFabric.Library.Reading

/-! Readers that accept exactly what is written, part by part. -/

namespace ConfigurationFabric.Reading

variable {β ε α γ : Type}

/-- The reader accepts a list exactly if it starts with what is written of a value with `P`, and `T` holds of what
follows. `K` is what is known of the value from the parts before. -/
def Exact (T : List β → Prop) (r : Reader β ε α) (K P : α → Prop) (parts : α → List (Except ε (List β))) : Prop :=
  ∀ bs v rest, r bs = .ok (v, rest) ↔
    T rest ∧ K v ∧ P v ∧ ∃ out, joined (parts v) = .ok out ∧ bs = out ++ rest

/-- One part of a record, whatever follows it. -/
abbrev Part (r : Reader β ε α) (P : α → Prop) (write : α → Except ε (List β)) : Prop :=
  ∀ bs v rest, r bs = .ok (v, rest) ↔ P v ∧ ∃ out, write v = .ok out ∧ bs = out ++ rest

variable {T : List β → Prop} {K P Q : α → Prop} {r : Reader β ε α} {parts : α → List (Except ε (List β))}

theorem Exact.congr (h : Exact T r K P parts) (hQ : ∀ v, K v → (Q v ↔ P v)) : Exact T r K Q parts := by
  intro bs v rest
  rw [h bs v rest]
  constructor
  · rintro ⟨hT, hK, hP, hout⟩
    exact ⟨hT, hK, (hQ v hK).mpr hP, hout⟩
  · rintro ⟨hT, hK, hP, hout⟩
    exact ⟨hT, hK, (hQ v hK).mp hP, hout⟩

/-- Nothing is left to read: the parts before, and `P`, determine the record. -/
theorem exact_pure {a : α} (h : ∀ v, K v ∧ P v ↔ v = a) :
    Exact (fun _ => True) (pure a : Reader β ε α) K P fun _ => [] := by
  intro bs v rest
  rw [pure_ok]
  constructor
  · rintro ⟨rfl, rfl⟩
    obtain ⟨hK, hP⟩ := (h a).mpr rfl
    exact ⟨trivial, hK, hP, [], rfl, rfl⟩
  · rintro ⟨-, hK, hP, _, ⟨⟩, rfl⟩
    exact ⟨((h v).mp ⟨hK, hP⟩).symm, rfl⟩

/-- A field `g` of the record that is read. -/
theorem Part.cons {q : Reader β ε γ} {R : γ → Prop} {w : γ → Except ε (List β)} {f : γ → Reader β ε α} (g : α → γ)
    (hq : Part q R w) (hf : ∀ a, Exact T (f a) (fun v => K v ∧ g v = a) P parts) :
    Exact T (q >>= f) K (fun v => R (g v) ∧ P v) fun v => w (g v) :: parts v := by
  intro bs v rest
  rw [bind_ok]
  constructor
  · rintro ⟨a, bs', ha, hv⟩
    obtain ⟨hR, front, hfront, rfl⟩ := (hq _ _ _).mp ha
    obtain ⟨hT, ⟨hK, rfl⟩, hP, back, hback, rfl⟩ := (hf a _ _ _).mp hv
    refine ⟨hT, hK, ⟨hR, hP⟩, front ++ back, joined_cons_ok.mpr ⟨front, back, hfront, hback, rfl⟩, ?_⟩
    rw [List.append_assoc]
  · rintro ⟨hT, hK, ⟨hR, hP⟩, out, hout, rfl⟩
    obtain ⟨front, back, hfront, hback, rfl⟩ := joined_cons_ok.mp hout
    rw [List.append_assoc]
    exact ⟨g v, back ++ rest, (hq _ _ _).mpr ⟨hR, front, hfront, rfl⟩,
      (hf (g v) _ _ _).mpr ⟨hT, ⟨hK, rfl⟩, hP, back, hback, rfl⟩⟩

theorem Part.plain {q : Reader β ε γ} {w : γ → Except ε (List β)} {f : γ → Reader β ε α} (g : α → γ)
    (hq : Part q (fun _ => True) w) (hf : ∀ a, Exact T (f a) (fun v => K v ∧ g v = a) P parts) :
    Exact T (q >>= f) K P fun v => w (g v) :: parts v :=
  (hq.cons g hf).congr fun _ _ => ⟨fun hP => ⟨trivial, hP⟩, fun h => h.2⟩

/-- A check between two fields, which refuses the record when `c` holds of what has been read. -/
theorem Exact.guard {c : Prop} [Decidable c] {refuse : Reader β ε PUnit} {C : α → Prop}
    (hrefuse : ∀ bs p, refuse bs ≠ .ok p) (hc : ∀ v, K v → (C v ↔ ¬ c)) (h : Exact T r K P parts) :
    Exact T (if c then refuse >>= fun _ => r else r) K (fun v => C v ∧ P v) parts := by
  intro bs v rest
  split
  case isTrue hyes =>
    constructor
    · intro hok
      obtain ⟨u, bs', hu, -⟩ := bind_ok.mp hok
      exact absurd hu (hrefuse _ _)
    · rintro ⟨-, hK, ⟨hC, -⟩, -⟩
      exact absurd hyes ((hc v hK).mp hC)
  case isFalse hno =>
    rw [h bs v rest]
    constructor
    · rintro ⟨hT, hK, hP, hout⟩
      exact ⟨hT, hK, ⟨(hc v hK).mpr hno, hP⟩, hout⟩
    · rintro ⟨hT, hK, ⟨-, hP⟩, hout⟩
      exact ⟨hT, hK, hP, hout⟩

/-- A field whose value is fixed, and refused otherwise. -/
theorem Part.constant [DecidableEq γ] {q : Reader β ε γ} {R : γ → Prop} {w : γ → Except ε (List β)} {c : γ}
    {refuse : γ → Reader β ε PUnit} (hq : Part q R w) (hc : R c) (hrefuse : ∀ a bs p, refuse a bs ≠ .ok p)
    (h : Exact T r K P parts) :
    Exact T (q >>= fun a => if a ≠ c then refuse a >>= fun _ => r else r) K P fun v => w c :: parts v := by
  intro bs v rest
  rw [bind_ok]
  constructor
  · rintro ⟨a, bs', ha, hv⟩
    obtain ⟨-, front, hfront, rfl⟩ := (hq _ _ _).mp ha
    split at hv
    · obtain ⟨_, _, hu, -⟩ := bind_ok.mp hv
      exact absurd hu (hrefuse _ _ _)
    case isFalse heq =>
      obtain rfl := not_ne_iff.mp heq
      obtain ⟨hT, hK, hP, back, hback, rfl⟩ := (h _ _ _).mp hv
      refine ⟨hT, hK, hP, front ++ back, joined_cons_ok.mpr ⟨front, back, hfront, hback, rfl⟩, ?_⟩
      rw [List.append_assoc]
  · rintro ⟨hT, hK, hP, out, hout, rfl⟩
    obtain ⟨front, back, hfront, hback, rfl⟩ := joined_cons_ok.mp hout
    refine ⟨c, back ++ rest, (hq _ _ _).mpr ⟨hc, front, hfront, by rw [List.append_assoc]⟩, ?_⟩
    rw [if_neg (by simp)]
    exact (h _ _ _).mpr ⟨hT, hK, hP, back, hback, rfl⟩

/-- A value that is looked up: where there is none, nothing is read and nothing can have been written. -/
theorem Exact.decoded {o : Option γ} (hnone : o = none → (∀ bs p, r bs ≠ .ok p) ∧ ∀ v, ¬ K v)
    (hsome : ∀ c, o = some c → Exact T r K P parts) : Exact T r K P parts := by
  cases ho : o with
  | some c => exact hsome c ho
  | none =>
    obtain ⟨hr, hK⟩ := hnone ho
    intro bs v rest
    constructor
    · exact fun h => absurd h (hr _ _)
    · exact fun h => absurd h.2.1 (hK v)

/-- A field that is parsed once more, where `c` asks for it. -/
theorem Exact.parsed {c : Prop} [Decidable c] {q : Reader β ε γ} {R : Prop} {C : α → Prop}
    (hq : ∀ bs p, q bs = .ok p → R ∧ p.2 = bs) (hR : R → ∀ bs, ∃ e, q bs = .ok (e, bs))
    (hc : ∀ v, K v → (C v ↔ (c → R))) (h : Exact T r K P parts) :
    Exact T (if c then q >>= fun _ => r else r) K (fun v => C v ∧ P v) parts := by
  intro bs v rest
  split
  case isTrue hyes =>
    rw [bind_ok]
    constructor
    · rintro ⟨e, bs', he, hv⟩
      obtain ⟨hholds, rfl⟩ := hq _ _ he
      obtain ⟨hT, hK, hP, hout⟩ := (h _ _ _).mp hv
      exact ⟨hT, hK, ⟨(hc v hK).mpr fun _ => hholds, hP⟩, hout⟩
    · rintro ⟨hT, hK, ⟨hC, hP⟩, hout⟩
      obtain ⟨e, he⟩ := hR ((hc v hK).mp hC hyes) bs
      exact ⟨e, bs, he, (h _ _ _).mpr ⟨hT, hK, hP, hout⟩⟩
  case isFalse hno =>
    rw [h bs v rest]
    constructor
    · rintro ⟨hT, hK, hP, hout⟩
      exact ⟨hT, hK, ⟨(hc v hK).mpr fun h => absurd h hno, hP⟩, hout⟩
    · rintro ⟨hT, hK, ⟨-, hP⟩, hout⟩
      exact ⟨hT, hK, hP, hout⟩

/-- Nothing may follow once the last part has been read. -/
theorem Exact.close {stop : Reader β ε PUnit} (hstop : ∀ bs p, stop bs = .ok p ↔ bs = [] ∧ p = (⟨⟩, []))
    (h : Exact (fun _ => True) r K P fun _ => []) : Exact (· = []) (stop >>= fun _ => r) K P fun _ => [] := by
  intro bs _ _
  rw [bind_ok]
  constructor
  · rintro ⟨u, bs', hu, hv⟩
    obtain ⟨rfl, ⟨⟩⟩ := (hstop _ _).mp hu
    obtain ⟨-, hK, hP, _, ⟨⟩, hrest⟩ := (h _ _ _).mp hv
    exact ⟨by simpa using hrest.symm, hK, hP, [], rfl, by simpa using hrest⟩
  · rintro ⟨rfl, hK, hP, _, ⟨⟩, rfl⟩
    exact ⟨⟨⟩, [], (hstop _ _).mpr ⟨rfl, rfl⟩, (h _ _ _).mpr ⟨trivial, hK, hP, [], rfl, rfl⟩⟩

theorem Exact.part {write : α → Except ε (List β)} (h : Exact (fun _ => True) r (fun _ => True) P parts)
    (hQ : ∀ v, Q v ↔ P v) (hwrite : ∀ v, write v = joined (parts v)) : Part r Q write := by
  intro bs v rest
  rw [h bs v rest, hQ, hwrite]
  simp

theorem Part.exact {write : α → Except ε (List β)} (h : Part r P write) :
    Exact (fun _ => True) r (fun _ => True) P fun v => [write v] := by
  intro bs v rest
  have hjoined (out : List β) : joined [write v] = .ok out ↔ write v = .ok out := by
    rw [joined_cons_ok]
    constructor
    · rintro ⟨_, _, hout, ⟨⟩, rfl⟩
      rw [hout, List.append_nil]
    · exact fun hout => ⟨out, [], hout, rfl, by rw [List.append_nil]⟩
  rw [h bs v rest]
  simp only [hjoined, true_and]

/-- What such a reader has returned can be written, and is read back from what is written. -/
theorem Part.came {write : α → Except ε (List β)} (h : Part r P write) {v : α} (hv : Came r v) :
    P v ∧ ∃ out, write v = .ok out := by
  obtain ⟨bs, rest, hv⟩ := hv
  obtain ⟨hP, out, hout, -⟩ := (h _ _ _).mp hv
  exact ⟨hP, out, hout⟩

theorem Part.reads {write : α → Except ε (List β)} (h : Part r P write) {v : α} (hP : P v) {out : List β}
    (hout : write v = .ok out) : Reads r out v :=
  fun _ => (h _ _ _).mpr ⟨hP, out, hout, rfl⟩

theorem Part.back {write : α → Except ε (List β)} (h : Part r P write) : ReadsBack r write :=
  fun _ _ _ hv _ hout => h.reads (h.came ⟨_, _, hv⟩).1 hout

/-- What a list starts with is read in one way only. -/
theorem Part.unique {write : α → Except ε (List β)} (h : Part r P write) {v v' : α} (hv : P v) (hv' : P v')
    {out out' rest rest' : List β} (hout : write v = .ok out) (hout' : write v' = .ok out')
    (heq : out ++ rest = out' ++ rest') : v = v' ∧ rest = rest' := by
  have hread := (h (out ++ rest) v rest).mpr ⟨hv, out, hout, rfl⟩
  have hread' := (h (out ++ rest) v' rest').mpr ⟨hv', out', hout', heq⟩
  cases hread.symm.trans hread'
  exact ⟨rfl, rfl⟩

/-- What is accepted is exactly what is written of the values with `P`. -/
def Canonical (decode : List β → Except ε α) (P : α → Prop) (encode : α → Except ε (List β)) : Prop :=
  ∀ bs v, decode bs = .ok v ↔ P v ∧ encode v = .ok bs

theorem Canonical.congr {decode : List β → Except ε α} {encode encode' : α → Except ε (List β)}
    (h : Canonical decode P encode) (hQ : ∀ v, Q v ↔ P v)
    (hencode : ∀ v, P v → ∀ bs, encode' v = .ok bs ↔ encode v = .ok bs) : Canonical decode Q encode' := by
  intro bs v
  rw [h bs v, hQ]
  exact and_congr_right fun hP => (hencode v hP bs).symm

end ConfigurationFabric.Reading
