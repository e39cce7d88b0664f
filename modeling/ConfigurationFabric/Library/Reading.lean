import Mathlib.Data.List.Basic

/-! Readers that take a value off the front of a list, and the lists they read back. -/

namespace ConfigurationFabric.Reading

variable {β ε α γ : Type}

abbrev Reader (β ε α : Type) := StateT (List β) (Except ε) α

theorem bind_ok {r : Reader β ε α} {f : α → Reader β ε γ} {bs rest : List β} {c : γ} :
    (r >>= f) bs = .ok (c, rest) ↔ ∃ a bs', r bs = .ok (a, bs') ∧ f a bs' = .ok (c, rest) := by
  change (Except.bind (r bs) fun p => f p.1 p.2) = _ ↔ _
  cases h : r bs with
  | error e => simp [Except.bind]
  | ok p =>
    obtain ⟨a, bs'⟩ := p
    simp [Except.bind]

theorem bind_of_ok {r : Reader β ε α} {f : α → Reader β ε γ} {bs bs' : List β} {a : α} (h : r bs = .ok (a, bs')) :
    (r >>= f) bs = f a bs' := by
  change (Except.bind (r bs) fun p => f p.1 p.2) = _
  rw [h]
  rfl

theorem pure_ok {a c : α} {bs rest : List β} :
    (pure a : Reader β ε α) bs = .ok (c, rest) ↔ a = c ∧ bs = rest := by
  change (Except.ok (a, bs) : Except ε (α × List β)) = _ ↔ _
  simp

/-- Whatever follows `front`, the reader takes exactly `front` and returns `v`. -/
def Reads (r : Reader β ε α) (front : List β) (v : α) : Prop := ∀ rest, r (front ++ rest) = .ok (v, rest)

/-- The reader only returns values it reads back from what `write` makes of them. -/
def ReadsBack (r : Reader β ε α) (write : α → Except ε (List β)) : Prop :=
  ∀ bs v rest, r bs = .ok (v, rest) → ∀ out, write v = .ok out → Reads r out v

/-- A value that the reader has returned for some list. -/
def Came (r : Reader β ε α) (v : α) : Prop := ∃ bs rest, r bs = .ok (v, rest)

theorem Came.back {r : Reader β ε α} {write : α → Except ε (List β)} (hr : ReadsBack r write) {v : α}
    (h : Came r v) : ∀ out, write v = .ok out → Reads r out v := by
  obtain ⟨bs, rest, h⟩ := h
  exact hr bs v rest h

/-! Lists written part by part, where any part may be refused. -/

def joined : List (Except ε (List β)) → Except ε (List β)
  | [] => .ok []
  | p :: ps => do
    let out ← p
    let outs ← joined ps
    return out ++ outs

theorem joined_cons_ok {p : Except ε (List β)} {ps : List (Except ε (List β))} {out : List β} :
    joined (p :: ps) = .ok out ↔ ∃ front back, p = .ok front ∧ joined ps = .ok back ∧ out = front ++ back := by
  change (do let out ← p; let outs ← joined ps; return out ++ outs : Except ε (List β)) = _ ↔ _
  cases p with
  | error e => simp [bind, Except.bind]
  | ok front =>
    cases joined ps with
    | error e => simp [bind, Except.bind]
    | ok back => simp [bind, Except.bind, pure, Except.pure, eq_comm]

theorem joined_append_ok {ps qs : List (Except ε (List β))} {out : List β} :
    joined (ps ++ qs) = .ok out ↔ ∃ front back, joined ps = .ok front ∧ joined qs = .ok back ∧ out = front ++ back := by
  induction ps generalizing out with
  | nil => simp [joined]
  | cons p ps ih =>
    simp only [List.cons_append, joined_cons_ok, ih]
    constructor
    · rintro ⟨f, _, hp, ⟨g, b, hps, hqs, rfl⟩, rfl⟩
      exact ⟨f ++ g, b, ⟨f, g, hp, hps, rfl⟩, hqs, by rw [List.append_assoc]⟩
    · rintro ⟨_, b, ⟨f, g, hp, hps, rfl⟩, hqs, rfl⟩
      exact ⟨f, g ++ b, hp, ⟨g, b, hps, hqs, rfl⟩, by rw [List.append_assoc]⟩

theorem joined_ok {ps : List (Except ε (List β))} (h : ∀ p ∈ ps, ∃ out, p = .ok out) : ∃ out, joined ps = .ok out := by
  induction ps with
  | nil => exact ⟨[], rfl⟩
  | cons p ps ih =>
    obtain ⟨⟨front, hfront⟩, hps⟩ := List.forall_mem_cons.mp h
    obtain ⟨back, hback⟩ := ih hps
    exact ⟨front ++ back, joined_cons_ok.mpr ⟨front, back, hfront, hback, rfl⟩⟩

/-- If the parts can be written, reading them leaves `k` to be read from what follows. -/
def Leads (r : Reader β ε α) (parts : List (Except ε (List β))) (k : Reader β ε α) : Prop :=
  ∀ out, joined parts = .ok out → ∀ rest, r (out ++ rest) = k rest

theorem leads_refl (k : Reader β ε α) : Leads k [] k := by
  rintro _ ⟨⟩ rest
  rfl

theorem Leads.cons {r : Reader β ε α} {f : α → Reader β ε γ} {k : Reader β ε γ} {p : Except ε (List β)}
    {ps : List (Except ε (List β))} {a : α} (hp : ∀ out, p = .ok out → Reads r out a)
    (hf : Leads (f a) ps k) : Leads (r >>= f) (p :: ps) k := by
  intro out hout rest
  obtain ⟨front, back, hfront, hback, rfl⟩ := joined_cons_ok.mp hout
  rw [List.append_assoc, bind_of_ok (hp front hfront _), hf back hback]

theorem Leads.append {r : Reader β ε α} {f : α → Reader β ε γ} {k : Reader β ε γ} {ps qs : List (Except ε (List β))}
    {a : α} (hp : Leads r ps (pure a)) (hf : Leads (f a) qs k) : Leads (r >>= f) (ps ++ qs) k := by
  intro out hout rest
  obtain ⟨front, back, hfront, hback, rfl⟩ := joined_append_ok.mp hout
  rw [List.append_assoc, bind_of_ok (hp front hfront _), hf back hback]

theorem Leads.whole {r k : Reader β ε α} {parts : List (Except ε (List β))} (h : Leads r parts k) {out : List β}
    (hout : joined parts = .ok out) : r out = k [] := by
  have hall := h out hout []
  rwa [List.append_nil] at hall

end ConfigurationFabric.Reading
