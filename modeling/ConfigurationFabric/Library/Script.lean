import Mathlib.Data.List.Basic

/-! Scripts read a record field by field and assign each field to a state as soon as it is read. -/

namespace ConfigurationFabric.Script

variable {σ β ε : Type}

abbrev Step (σ β ε : Type) := StateT β (Except ε) (σ → σ)

/-- The result, the state as the last assignment left it, and the input that was not read. -/
def run : List (Step σ β ε) → σ → β → Except ε Unit × σ × β
  | [], s, bs => (.ok (), s, bs)
  | step :: rest, s, bs =>
    match step bs with
    | .error e => (.error e, s, bs)
    | .ok (f, bs) => run rest (f s) bs

/-- The assignments of the fields in front of the first one that cannot be read. -/
def reached : List (Step σ β ε) → β → List (σ → σ)
  | [], _ => []
  | step :: rest, bs =>
    match step bs with
    | .error _ => []
    | .ok (f, bs) => f :: reached rest bs

/-- The step only assigns the part of the state that `p` shows. -/
def Fixes {π : Type} (step : Step σ β ε) (p : σ → π) : Prop :=
  ∀ bs f bs', step bs = .ok (f, bs') → ∀ s, p (f s) = p s → f s = s

def Keeps {π : Type} (step : Step σ β ε) (p : σ → π) : Prop :=
  ∀ bs f bs', step bs = .ok (f, bs') → ∀ s, p (f s) = p s

/-- No two steps assign the same part of the state. -/
inductive Separate : List (Step σ β ε) → Prop
  | nil : Separate []
  | cons {π : Type} {step : Step σ β ε} {rest : List (Step σ β ε)} (p : σ → π) (hfix : Fixes step p)
      (hkeep : ∀ later ∈ rest, Keeps later p) (hrest : Separate rest) : Separate (step :: rest)

theorem run_keeps {π : Type} {steps : List (Step σ β ε)} {p : σ → π} (h : ∀ step ∈ steps, Keeps step p)
    (s : σ) (bs : β) : p (run steps s bs).2.1 = p s := by
  induction steps generalizing s bs with
  | nil => rfl
  | cons step rest ih =>
    rw [run]
    split
    · rfl
    case h_2 f bs' hstep =>
      rw [ih (fun later hl => h later (List.mem_cons_of_mem _ hl))]
      exact h step List.mem_cons_self bs f bs' hstep s

/-- A run leaves the state as it was exactly when every assignment it reached does. -/
theorem run_unchanged_iff {steps : List (Step σ β ε)} (h : Separate steps) (s : σ) (bs : β) :
    (run steps s bs).2.1 = s ↔ ∀ f ∈ reached steps bs, f s = s := by
  induction h generalizing s bs with
  | nil => simp [run, reached]
  | @cons π step rest p hfix hkeep hrest ih =>
    rw [run, reached]
    split
    · simp
    case h_2 f bs' hstep =>
      simp only [List.forall_mem_cons]
      constructor
      · intro hrun
        have hp : p (f s) = p s := by rw [← run_keeps hkeep (f s) bs', hrun]
        have hf : f s = s := hfix bs f bs' hstep s hp
        rw [hf] at hrun
        exact ⟨hf, (ih s bs').mp hrun⟩
      · rintro ⟨hf, hreach⟩
        rw [hf]
        exact (ih s bs').mpr hreach

theorem run_preserves {P : σ → Prop} {steps : List (Step σ β ε)}
    (h : ∀ step ∈ steps, ∀ bs f bs', step bs = .ok (f, bs') → ∀ s, P s → P (f s)) {s : σ} (hs : P s) (bs : β) :
    P (run steps s bs).2.1 := by
  induction steps generalizing s bs with
  | nil => exact hs
  | cons step rest ih =>
    obtain ⟨hstep, hrest⟩ := List.forall_mem_cons.mp h
    rw [run]
    split
    · exact hs
    case h_2 f bs' hf => exact ih hrest (hstep bs f bs' hf s hs) bs'

theorem Separate.single (step : Step σ β ε) : Separate [step] :=
  .cons id (fun _ _ _ _ _ h => h) (by simp) .nil

end ConfigurationFabric.Script
