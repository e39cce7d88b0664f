import Mathlib.Data.Nat.Notation
import Mathlib.Logic.Relation

/-! Sequential programs over a shared state whose every update is a point at which the process may die. -/

namespace ConfigurationFabric.Program

inductive Prog (σ ι α : Type) : Type
  | ret (a : α)
  | get (k : σ → Prog σ ι α)
  | set (f : σ → σ) (k : Prog σ ι α)
  | input (k : ι → Prog σ ι α)

namespace Prog

variable {σ ι α β : Type}

def bind : Prog σ ι α → (α → Prog σ ι β) → Prog σ ι β
  | ret a, f => f a
  | get k, f => get fun s => (k s).bind f
  | set g k, f => set g (k.bind f)
  | input k, f => input fun i => (k i).bind f

instance : Monad (Prog σ ι) where
  pure := ret
  bind := bind

def read : Prog σ ι σ := get ret

def modify (f : σ → σ) : Prog σ ι Unit := set f (ret ())

def ask : Prog σ ι ι := input ret

/-- `Exec allowed p s r t`: from `s` the program reaches `t`, where it returned (`some`) or was cut (`none`). -/
inductive Exec (allowed : ι → Prop) : Prog σ ι α → σ → Option α → σ → Prop
  | cut (p : Prog σ ι α) (s : σ) : Exec allowed p s none s
  | ret (a : α) (s : σ) : Exec allowed (.ret a) s (some a) s
  | get {k : σ → Prog σ ι α} {s t : σ} {r : Option α} :
      Exec allowed (k s) s r t → Exec allowed (.get k) s r t
  | set {f : σ → σ} {k : Prog σ ι α} {s t : σ} {r : Option α} :
      Exec allowed k (f s) r t → Exec allowed (.set f k) s r t
  | input {k : ι → Prog σ ι α} {s t : σ} {r : Option α} {i : ι} :
      allowed i → Exec allowed (k i) s r t → Exec allowed (.input k) s r t

/-- Every update made by `p` from `s` is related by `R`, and what it returns satisfies `Q`. -/
def Steps (allowed : ι → Prop) (R : σ → σ → Prop) : Prog σ ι α → (α → σ → Prop) → σ → Prop
  | ret a, Q, s => Q a s
  | get k, Q, s => (k s).Steps allowed R Q s
  | set f k, Q, s => R s (f s) ∧ k.Steps allowed R Q (f s)
  | input k, Q, s => ∀ i, allowed i → (k i).Steps allowed R Q s

variable {allowed : ι → Prop} {R : σ → σ → Prop}

@[simp] theorem steps_bind (p : Prog σ ι α) (f : α → Prog σ ι β) (Q : β → σ → Prop) (s : σ) :
    (p >>= f).Steps allowed R Q s ↔ p.Steps allowed R (fun a => (f a).Steps allowed R Q) s := by
  change (p.bind f).Steps allowed R Q s ↔ _
  induction p generalizing s with
  | ret a => rfl
  | get k ih => exact ih s s
  | set g k ih => exact and_congr_right fun _ => ih (g s)
  | input k ih => exact forall_congr' fun i => imp_congr_right fun _ => ih i s

@[simp] theorem steps_pure (a : α) (Q : α → σ → Prop) (s : σ) :
    (pure a : Prog σ ι α).Steps allowed R Q s ↔ Q a s := Iff.rfl

@[simp] theorem steps_ask (Q : ι → σ → Prop) (s : σ) :
    (ask : Prog σ ι ι).Steps allowed R Q s ↔ ∀ i, allowed i → Q i s := Iff.rfl

@[simp] theorem steps_read (Q : σ → σ → Prop) (s : σ) :
    (read : Prog σ ι σ).Steps allowed R Q s ↔ Q s s := Iff.rfl

@[simp] theorem steps_modify (f : σ → σ) (Q : Unit → σ → Prop) (s : σ) :
    (modify f : Prog σ ι Unit).Steps allowed R Q s ↔ R s (f s) ∧ Q () (f s) := Iff.rfl

theorem Steps.mono {p : Prog σ ι α} {Q Q' : α → σ → Prop} {s : σ} (h : p.Steps allowed R Q s)
    (hq : ∀ a t, Q a t → Q' a t) : p.Steps allowed R Q' s := by
  induction p generalizing s with
  | ret a => exact hq a s h
  | get k ih => exact ih s h
  | set g k ih => exact ⟨h.1, ih h.2⟩
  | input k ih => exact fun i hi => ih i (h i hi)

theorem Steps.rel_mono {R' : σ → σ → Prop} {p : Prog σ ι α} {Q : α → σ → Prop} {s : σ}
    (h : p.Steps allowed R Q s) (hr : ∀ s t, R s t → R' s t) : p.Steps allowed R' Q s := by
  induction p generalizing s with
  | ret a => exact h
  | get k ih => exact ih s h
  | set g k ih => exact ⟨hr _ _ h.1, ih h.2⟩
  | input k ih => exact fun i hi => ih i (h i hi)

theorem Steps.keep {P : σ → Prop} {p : Prog σ ι α} {Q : α → σ → Prop} {s : σ} (h : p.Steps allowed R Q s)
    (hP : ∀ s t, R s t → P s → P t) (hs : P s) : p.Steps allowed R (fun a t => Q a t ∧ P t) s := by
  induction p generalizing s with
  | ret a => exact ⟨h, hs⟩
  | get k ih => exact ih s h hs
  | set g k ih => exact ⟨h.1, ih h.2 (hP _ _ h.1 hs)⟩
  | input k ih => exact fun i hi => ih i (h i hi) hs

/-- What every step preserves holds wherever the program comes to. -/
theorem Steps.visits {P : σ → Prop} {p : Prog σ ι α} {Q : α → σ → Prop} {s : σ} (h : p.Steps allowed R Q s)
    (hP : ∀ s t, R s t → P s → P t) (hs : P s) :
    p.Steps allowed (fun _ t => P t) (fun a t => Q a t ∧ P t) s := by
  induction p generalizing s with
  | ret a => exact ⟨h, hs⟩
  | get k ih => exact ih s h hs
  | set g k ih => exact ⟨hP _ _ h.1 hs, ih h.2 (hP _ _ h.1 hs)⟩
  | input k ih => exact fun i hi => ih i (h i hi) hs

theorem Steps.and {R' : σ → σ → Prop} {p : Prog σ ι α} {Q Q' : α → σ → Prop} {s : σ} (h : p.Steps allowed R Q s)
    (h' : p.Steps allowed R' Q' s) :
    p.Steps allowed (fun s t => R s t ∧ R' s t) (fun a t => Q a t ∧ Q' a t) s := by
  induction p generalizing s with
  | ret a => exact ⟨h, h'⟩
  | get k ih => exact ih s h h'
  | set g k ih => exact ⟨⟨h.1, h'.1⟩, ih h.2 h'.2⟩
  | input k ih => exact fun i hi => ih i (h i hi) (h' i hi)

/-- A program that keeps to `R` is a finite sequence of `R`-steps wherever it is cut. -/
theorem Steps.exec {p : Prog σ ι α} {Q : α → σ → Prop} {s t : σ} {r : Option α}
    (h : p.Steps allowed R Q s) (he : Exec allowed p s r t) :
    Relation.ReflTransGen R s t ∧ ∀ a, r = some a → Q a t := by
  induction he with
  | cut p s => exact ⟨.refl, by simp⟩
  | ret a s => exact ⟨.refl, fun b hb => Option.some.inj hb ▸ h⟩
  | get he ih => exact ih h
  | set he ih =>
    obtain ⟨hstep, hrest⟩ := h
    obtain ⟨hreach, hq⟩ := ih hrest
    exact ⟨.head hstep hreach, hq⟩
  | input hi he ih => exact ih (h _ hi)

theorem Exec.bind {p : Prog σ ι α} {f : α → Prog σ ι β} {s t u : σ} {a : α} {r : Option β}
    (hp : Exec allowed p s (some a) t) (hf : Exec allowed (f a) t r u) : Exec allowed (p >>= f) s r u := by
  change Exec allowed (p.bind f) s r u
  induction p generalizing s with
  | ret b => cases hp; exact hf
  | get k ih => cases hp with | get hp => exact .get (ih s hp)
  | set g k ih => cases hp with | set hp => exact .set (ih hp)
  | input k ih => cases hp with | input hi hp => exact .input hi (ih _ hp)

theorem Exec.mono {allowed' : ι → Prop} {p : Prog σ ι α} {s t : σ} {r : Option α} (h : Exec allowed p s r t)
    (ha : ∀ i, allowed i → allowed' i) : Exec allowed' p s r t := by
  induction h with
  | cut p s => exact .cut p s
  | ret a s => exact .ret a s
  | get _ ih => exact .get ih
  | set _ ih => exact .set ih
  | input hi _ ih => exact .input (ha _ hi) ih

/-- Every program comes to its end when its inputs arrive. -/
theorem Exec.complete {i : ι} (hi : allowed i) (p : Prog σ ι α) (s : σ) : ∃ a t, Exec allowed p s (some a) t := by
  induction p generalizing s with
  | ret a => exact ⟨a, s, .ret a s⟩
  | get k ih =>
    obtain ⟨a, t, h⟩ := ih s s
    exact ⟨a, t, .get h⟩
  | set f k ih =>
    obtain ⟨a, t, h⟩ := ih (f s)
    exact ⟨a, t, .set h⟩
  | input k ih =>
    obtain ⟨a, t, h⟩ := ih i s
    exact ⟨a, t, .input hi h⟩

/-- Runs `p` on the given inputs and cuts it after `n` updates, or where the inputs end. -/
def run : Prog σ ι α → List ι → ℕ → σ → Option α × σ
  | ret a, _, _, s => (some a, s)
  | get k, is, n, s => (k s).run is n s
  | set _ _, _, 0, s => (none, s)
  | set f k, is, n + 1, s => k.run is n (f s)
  | input _, [], _, s => (none, s)
  | input k, i :: is, n, s => (k i).run is n s

theorem exec_run (p : Prog σ ι α) {is : List ι} (his : ∀ i ∈ is, allowed i) (n : ℕ) (s : σ) :
    Exec allowed p s (p.run is n s).1 (p.run is n s).2 := by
  induction p generalizing is n s with
  | ret a => exact .ret a s
  | get k ih => exact .get (ih s his n s)
  | set f k ih =>
    cases n with
    | zero => exact .cut _ s
    | succ n => exact .set (ih his n (f s))
  | input k ih =>
    cases is with
    | nil => exact .cut _ s
    | cons i is =>
      obtain ⟨hi, his⟩ := List.forall_mem_cons.mp his
      exact .input hi (ih i his n s)

theorem exec_of_run {p : Prog σ ι α} (is : List ι) (n : ℕ) (his : ∀ i ∈ is, allowed i) {s t : σ} {r : Option α}
    (h : p.run is n s = (r, t)) : Exec allowed p s r t := by
  have he := exec_run p his n s
  rwa [h] at he

theorem exec_of_result {p : Prog σ ι α} (is : List ι) (n : ℕ) (his : ∀ i ∈ is, allowed i) {s : σ} {r : Option α}
    (h : (p.run is n s).1 = r) : ∃ t, Exec allowed p s r t := by
  have he := exec_run p his n s
  rw [h] at he
  exact ⟨_, he⟩

end Prog

end ConfigurationFabric.Program
