import Mathlib.Data.List.Basic

/-! Folds that may fail. -/

namespace ConfigurationFabric.PartialFold

variable {σ α ε : Type} {f : σ → α → Option σ} {l l' : List α} {s s' : σ}

theorem foldlM_cons_eq_some {a : α} :
    (a :: l).foldlM f s = some s' ↔ ∃ t, f s a = some t ∧ l.foldlM f t = some s' := by
  rw [List.foldlM_cons]
  exact Option.bind_eq_some_iff

theorem foldlM_append_eq_some : (l ++ l').foldlM f s = some s' ↔ ∃ t, l.foldlM f s = some t ∧ l'.foldlM f t = some s' := by
  rw [List.foldlM_append]
  exact Option.bind_eq_some_iff

theorem toOption_bind {α β : Type} (x : Except ε α) (f : α → Except ε β) :
    (x >>= f).toOption = x.toOption.bind fun a => (f a).toOption := by
  cases x <;> rfl

theorem toOption_eq_some {α : Type} {x : Except ε α} {a : α} : x.toOption = some a ↔ x = .ok a := by
  cases x with
  | error e => exact iff_of_false (fun h => nomatch h) (fun h => nomatch h)
  | ok b =>
    constructor
    · rintro ⟨⟩
      rfl
    · rintro ⟨⟩
      rfl

/-- A fold that stops at an error, without the error. -/
theorem toOption_foldlM (g : σ → α → Except ε σ) (l : List α) (s : σ) :
    (l.foldlM g s).toOption = l.foldlM (fun s a => (g s a).toOption) s := by
  induction l generalizing s with
  | nil => rfl
  | cons a l ih =>
    rw [List.foldlM_cons, List.foldlM_cons, toOption_bind]
    congr 1
    funext t
    exact ih t

/-- Elements that change nothing can be left out. -/
theorem foldlM_filter {p : α → Bool} (h : ∀ s a, p a = false → f s a = some s) (l : List α) (s : σ) :
    (l.filter p).foldlM f s = l.foldlM f s := by
  induction l generalizing s with
  | nil => rfl
  | cons a l ih =>
    cases ha : p a with
    | true =>
      rw [List.filter_cons_of_pos ha, List.foldlM_cons, List.foldlM_cons]
      congr 1
      funext t
      exact ih t
    | false =>
      rw [List.filter_cons_of_neg (by simp [ha]), List.foldlM_cons, h s a ha]
      exact ih s

/-- The order of elements that commute makes no difference. -/
theorem foldlM_perm (hperm : l.Perm l')
    (hcomm : ∀ a ∈ l, ∀ b ∈ l, ∀ s, (f s a).bind (f · b) = (f s b).bind (f · a)) (s : σ) :
    l.foldlM f s = l'.foldlM f s := by
  induction hperm generalizing s with
  | nil => rfl
  | cons a _ ih =>
    rw [List.foldlM_cons, List.foldlM_cons]
    congr 1
    funext t
    exact ih (fun b hb c hc => hcomm b (List.mem_cons_of_mem _ hb) c (List.mem_cons_of_mem _ hc)) t
  | swap a b l =>
    have hswap := hcomm a (by simp) b (by simp) s
    have hstep (x y : α) : (x :: y :: l).foldlM f s = ((f s x).bind (f · y)).bind (l.foldlM f ·) := by
      rw [List.foldlM_cons, Option.bind_assoc]
      rfl
    rw [hstep, hstep, hswap]
  | trans hfirst _ ih ih' =>
    rw [ih hcomm]
    exact ih' (fun a ha b hb => hcomm a (hfirst.mem_iff.mpr ha) b (hfirst.mem_iff.mpr hb)) s

/-- What every step keeps, a fold keeps. -/
theorem foldlM_keeps {P : σ → Prop} (hstep : ∀ s a s', a ∈ l → P s → f s a = some s' → P s') (hs : P s)
    (h : l.foldlM f s = some s') : P s' := by
  induction l generalizing s with
  | nil =>
    obtain rfl := Option.some.inj h
    exact hs
  | cons a l ih =>
    obtain ⟨t, ha, hrest⟩ := foldlM_cons_eq_some.mp h
    exact ih (fun s b s' hb => hstep s b s' (List.mem_cons_of_mem _ hb)) (hstep s a t List.mem_cons_self hs ha) hrest

end ConfigurationFabric.PartialFold
