import Mathlib.Data.List.Basic
import Mathlib.Logic.Relation

/-! Threads that share a state by critical sections, talk to the outside in between, and run in any order. -/

namespace ConfigurationFabric.Threads

/-- A critical section either looks at the shared state or writes it; a write names the copy the thread made it from.
Messages go out and come in outside of the critical sections. A thread that hangs has not come any further. -/
inductive Thread (σ ν ι μ ρ α : Type) : Type
  | ret (a : α)
  | look (k : σ → Thread σ ν ι μ ρ α)
  | write (copy : ν) (f : σ → σ) (k : σ → Thread σ ν ι μ ρ α)
  | emit (m : μ) (k : Thread σ ν ι μ ρ α)
  | receive (k : ρ → Thread σ ν ι μ ρ α)
  | input (k : ι → Thread σ ν ι μ ρ α)
  | hang

/-- What surrounds the threads: how messages leave and arrive, and what else it may decide, in the world it is in. -/
structure Outside (ε σ ι μ ρ : Type) where
  emit : μ → ε × σ → ε → Prop
  receive : ρ → ε × σ → ε → Prop
  input : ι → ε × σ → Prop

namespace Thread

variable {σ ν ι μ ρ α β : Type}

def bind : Thread σ ν ι μ ρ α → (α → Thread σ ν ι μ ρ β) → Thread σ ν ι μ ρ β
  | ret a, f => f a
  | look k, f => look fun s => (k s).bind f
  | write c g k, f => write c g fun s => (k s).bind f
  | emit m k, f => emit m (k.bind f)
  | receive k, f => receive fun r => (k r).bind f
  | input k, f => input fun i => (k i).bind f
  | hang, _ => hang

instance : Monad (Thread σ ν ι μ ρ) where
  pure := ret
  bind := bind

def view : Thread σ ν ι μ ρ σ := look ret

/-- Gives back what was there before. -/
def update (copy : ν) (f : σ → σ) : Thread σ ν ι μ ρ σ := write copy f ret

def send (m : μ) : Thread σ ν ι μ ρ Unit := emit m (ret ())

def hear : Thread σ ν ι μ ρ ρ := receive ret

def ask : Thread σ ν ι μ ρ ι := input ret

theorem bind_eq_ret {p : Thread σ ν ι μ ρ α} {f : α → Thread σ ν ι μ ρ β} {b : β} (h : p >>= f = ret b) :
    ∃ a, p = ret a := by
  cases p with
  | ret a => exact ⟨a, rfl⟩
  | _ => cases h

variable {ε : Type}

/-- One step of a thread; `c` is the copy a write is made from. -/
inductive Move (O : Outside ε σ ι μ ρ) : Thread σ ν ι μ ρ α → ε × σ → Option ν → Thread σ ν ι μ ρ α → ε × σ → Prop
  | look {k : σ → Thread σ ν ι μ ρ α} {w : ε × σ} : Move O (look k) w none (k w.2) w
  | write {c : ν} {f : σ → σ} {k : σ → Thread σ ν ι μ ρ α} {w : ε × σ} :
      Move O (write c f k) w (some c) (k w.2) (w.1, f w.2)
  | emit {m : μ} {k : Thread σ ν ι μ ρ α} {w : ε × σ} {e : ε} :
      O.emit m w e → Move O (emit m k) w none k (e, w.2)
  | receive {k : ρ → Thread σ ν ι μ ρ α} {w : ε × σ} {r : ρ} {e : ε} :
      O.receive r w e → Move O (receive k) w none (k r) (e, w.2)
  | input {k : ι → Thread σ ν ι μ ρ α} {w : ε × σ} {i : ι} : O.input i w → Move O (input k) w none (k i) w

/-- Whatever the other threads do within `rely`, every step of this one is within `G`, and it ends in `Q`. -/
def Steps (O : Outside ε σ ι μ ρ) (rely : ε × σ → ε × σ → Prop) (G : Option ν → ε × σ → ε × σ → Prop) :
    Thread σ ν ι μ ρ α → (α → ε × σ → Prop) → ε × σ → Prop
  | ret a, Q, w => Q a w
  | look k, Q, w => ∀ w', rely w w' → (k w'.2).Steps O rely G Q w'
  | write c f k, Q, w => ∀ w', rely w w' →
      G (some c) w' (w'.1, f w'.2) ∧ (k w'.2).Steps O rely G Q (w'.1, f w'.2)
  | emit m k, Q, w => ∀ w' e, rely w w' → O.emit m w' e →
      G none w' (e, w'.2) ∧ k.Steps O rely G Q (e, w'.2)
  | receive k, Q, w => ∀ w' r e, rely w w' → O.receive r w' e →
      G none w' (e, w'.2) ∧ (k r).Steps O rely G Q (e, w'.2)
  | input k, Q, w => ∀ w' i, rely w w' → O.input i w' → (k i).Steps O rely G Q w'
  | hang, _, _ => True

section Steps

variable {O : Outside ε σ ι μ ρ} {rely : ε × σ → ε × σ → Prop} {G : Option ν → ε × σ → ε × σ → Prop} {w : ε × σ}

@[simp] theorem steps_bind (p : Thread σ ν ι μ ρ α) (f : α → Thread σ ν ι μ ρ β) (Q : β → ε × σ → Prop) :
    (p >>= f).Steps O rely G Q w ↔ p.Steps O rely G (fun a => (f a).Steps O rely G Q) w := by
  change (p.bind f).Steps O rely G Q w ↔ _
  induction p generalizing w with
  | ret a => rfl
  | look k ih => exact forall_congr' fun w' => imp_congr_right fun _ => ih w'.2
  | write c g k ih => exact forall_congr' fun w' => imp_congr_right fun _ => and_congr_right fun _ => ih w'.2
  | emit m k ih =>
    exact forall_congr' fun w' => forall_congr' fun e => imp_congr_right fun _ => imp_congr_right fun _ =>
      and_congr_right fun _ => ih
  | receive k ih =>
    exact forall_congr' fun w' => forall_congr' fun r => forall_congr' fun e => imp_congr_right fun _ =>
      imp_congr_right fun _ => and_congr_right fun _ => ih r
  | input k ih =>
    exact forall_congr' fun w' => forall_congr' fun i => imp_congr_right fun _ => imp_congr_right fun _ => ih i
  | hang => rfl

@[simp] theorem steps_pure (a : α) (Q : α → ε × σ → Prop) :
    (pure a : Thread σ ν ι μ ρ α).Steps O rely G Q w ↔ Q a w := Iff.rfl

@[simp] theorem steps_view (Q : σ → ε × σ → Prop) :
    (view : Thread σ ν ι μ ρ σ).Steps O rely G Q w ↔ ∀ w', rely w w' → Q w'.2 w' := Iff.rfl

@[simp] theorem steps_update (c : ν) (f : σ → σ) (Q : σ → ε × σ → Prop) :
    (update c f : Thread σ ν ι μ ρ σ).Steps O rely G Q w ↔
      ∀ w', rely w w' → G (some c) w' (w'.1, f w'.2) ∧ Q w'.2 (w'.1, f w'.2) := Iff.rfl

@[simp] theorem steps_send (m : μ) (Q : Unit → ε × σ → Prop) :
    (send m : Thread σ ν ι μ ρ Unit).Steps O rely G Q w ↔
      ∀ w' e, rely w w' → O.emit m w' e → G none w' (e, w'.2) ∧ Q () (e, w'.2) := Iff.rfl

@[simp] theorem steps_hear (Q : ρ → ε × σ → Prop) :
    (hear : Thread σ ν ι μ ρ ρ).Steps O rely G Q w ↔
      ∀ w' r e, rely w w' → O.receive r w' e → G none w' (e, w'.2) ∧ Q r (e, w'.2) := Iff.rfl

@[simp] theorem steps_ask (Q : ι → ε × σ → Prop) :
    (ask : Thread σ ν ι μ ρ ι).Steps O rely G Q w ↔ ∀ w' i, rely w w' → O.input i w' → Q i w' := Iff.rfl

theorem Steps.mono {p : Thread σ ν ι μ ρ α} {Q Q' : α → ε × σ → Prop} (h : p.Steps O rely G Q w)
    (hq : ∀ a w', Q a w' → Q' a w') : p.Steps O rely G Q' w := by
  induction p generalizing w with
  | ret a => exact hq a w h
  | look k ih => exact fun w' hr => ih w'.2 (h w' hr)
  | write c g k ih => exact fun w' hr => ⟨(h w' hr).1, ih w'.2 (h w' hr).2⟩
  | emit m k ih => exact fun w' e hr he => ⟨(h w' e hr he).1, ih (h w' e hr he).2⟩
  | receive k ih => exact fun w' r e hr he => ⟨(h w' r e hr he).1, ih r (h w' r e hr he).2⟩
  | input k ih => exact fun w' i hr hi => ih i (h w' i hr hi)
  | hang => trivial

/-- What survives the others and every guaranteed step holds at the end, too. -/
theorem Steps.along {p : Thread σ ν ι μ ρ α} {Q : α → ε × σ → Prop} {G' : Option ν → ε × σ → ε × σ → Prop}
    {R : ε × σ → Prop} (h : p.Steps O rely G Q w) (hrely : ∀ w w', rely w w' → R w → R w')
    (hG : ∀ c w w', G c w w' → R w → G' c w w' ∧ R w') (hw : R w) :
    p.Steps O rely G' (fun a w' => Q a w' ∧ R w') w := by
  induction p generalizing w with
  | ret a => exact ⟨h, hw⟩
  | look k ih => exact fun w' hr => ih w'.2 (h w' hr) (hrely _ _ hr hw)
  | write c f k ih =>
    intro w' hr
    obtain ⟨hstep, hrest⟩ := h w' hr
    obtain ⟨hstep', hw'⟩ := hG _ _ _ hstep (hrely _ _ hr hw)
    exact ⟨hstep', ih w'.2 hrest hw'⟩
  | emit m k ih =>
    intro w' e hr he
    obtain ⟨hstep, hrest⟩ := h w' e hr he
    obtain ⟨hstep', hw'⟩ := hG _ _ _ hstep (hrely _ _ hr hw)
    exact ⟨hstep', ih hrest hw'⟩
  | receive k ih =>
    intro w' r e hr he
    obtain ⟨hstep, hrest⟩ := h w' r e hr he
    obtain ⟨hstep', hw'⟩ := hG _ _ _ hstep (hrely _ _ hr hw)
    exact ⟨hstep', ih r hrest hw'⟩
  | input k ih => exact fun w' i hr hi => ih i (h w' i hr hi) (hrely _ _ hr hw)
  | hang => trivial

/-- While `R` holds it keeps to the guarantee, and `R` holds where it ends. -/
def Within (O : Outside ε σ ι μ ρ) (rely : ε × σ → ε × σ → Prop) (G : Option ν → ε × σ → ε × σ → Prop)
    (R : ε × σ → Prop) (p : Thread σ ν ι μ ρ α) (T : α → Prop) : Prop :=
  ∀ w, R w → p.Steps O rely G (fun a w' => T a ∧ R w') w

section Within

variable {R : ε × σ → Prop} {p : Thread σ ν ι μ ρ α} {T : α → Prop}

theorem Within.bind {f : α → Thread σ ν ι μ ρ β} {U : β → Prop} (hp : Within O rely G R p T)
    (hf : ∀ a, T a → Within O rely G R (f a) U) : Within O rely G R (p >>= f) U := by
  intro w hw
  rw [steps_bind]
  exact (hp w hw).mono fun a w' h => hf a h.1 w' h.2

theorem Within.mono {U : α → Prop} (hp : Within O rely G R p T) (h : ∀ a, T a → U a) : Within O rely G R p U :=
  fun w hw => (hp w hw).mono fun a _ hT => ⟨h a hT.1, hT.2⟩

theorem within_pure {a : α} (h : T a) : Within O rely G R (pure a : Thread σ ν ι μ ρ α) T := fun _ hw => ⟨h, hw⟩

theorem Within.steps {Q : α → ε × σ → Prop} (h : Within O rely G R p T) (hw : R w) (hQ : ∀ a w', T a → R w' → Q a w') :
    p.Steps O rely G Q w := (h w hw).mono fun a w' hT => hQ a w' hT.1 hT.2

end Within

/-- A step from a state the others may have brought about. -/
theorem Steps.move {p p' : Thread σ ν ι μ ρ α} {Q : α → ε × σ → Prop} {c : Option ν} {w' w'' : ε × σ}
    (h : p.Steps O rely G Q w) (hrely : rely w w') (hG : ∀ w, G none w w) (hm : Move O p w' c p' w'') :
    G c w' w'' ∧ p'.Steps O rely G Q w'' := by
  cases hm with
  | look => exact ⟨hG _, h w' hrely⟩
  | write => exact h w' hrely
  | emit he => exact h w' _ hrely he
  | receive he => exact h w' _ _ hrely he
  | input hi => exact ⟨hG _, h w' _ hrely hi⟩

/-- One thread alone: a relation that every guaranteed step is within holds as far as it comes. -/
theorem Steps.reaches {p p' : Thread σ ν ι μ ρ α} {Q : α → ε × σ → Prop} {R : ε × σ → ε × σ → Prop} {w' : ε × σ}
    (h : p.Steps O rely G Q w) (hrely : ∀ w, rely w w) (hG : ∀ w, G none w w) (hrefl : ∀ w, R w w)
    (htrans : ∀ u v w, R u v → R v w → R u w) (hR : ∀ c w w', G c w w' → R w w')
    (hreach : Relation.ReflTransGen (fun x y => ∃ c, Move O x.1 x.2 c y.1 y.2) (p, w) (p', w')) :
    R w w' ∧ p'.Steps O rely G Q w' := by
  generalize hx : (p, w) = x at hreach
  generalize hy : (p', w') = y at hreach
  induction hreach generalizing p' w' with
  | refl =>
    obtain ⟨rfl, rfl⟩ := Prod.mk.inj (hx.trans hy.symm)
    exact ⟨hrefl _, h⟩
  | @tail y z _ hstep ih =>
    subst hy
    obtain ⟨hR', hsteps⟩ := ih rfl
    obtain ⟨c, hmove⟩ := hstep
    obtain ⟨hG', hsteps'⟩ := hsteps.move (hrely _) hG hmove
    exact ⟨htrans _ _ _ hR' (hR _ _ _ hG'), hsteps'⟩

/-- A thread that runs alone from `w` returns `a` in `w'`. -/
abbrev Ends (O : Outside ε σ ι μ ρ) (p : Thread σ ν ι μ ρ α) (w : ε × σ) (a : α) (w' : ε × σ) : Prop :=
  Relation.ReflTransGen (fun x y => ∃ c, Move O x.1 x.2 c y.1 y.2) (p, w) (.ret a, w')

theorem Steps.ends {p : Thread σ ν ι μ ρ α} {Q : α → ε × σ → Prop} {a : α} {w' : ε × σ}
    (h : p.Steps O Eq (fun _ _ _ => True) Q w) (hends : Ends O p w a w') : Q a w' := by
  have hreached : True ∧ (ret a : Thread σ ν ι μ ρ α).Steps O Eq (fun _ _ _ => True) Q w' :=
    h.reaches (fun _ => rfl) (fun _ => trivial) (fun _ => trivial) (fun _ _ _ _ _ => trivial) (fun _ _ _ _ => trivial)
      hends
  exact hreached.2

/-- One thread alone: what a guarantee says of every step, and what follows from it for the way as a whole. -/
theorem Steps.trail {p : Thread σ ν ι μ ρ α} {Q : α → ε × σ → Prop} {G' : Option ν → ε × σ → ε × σ → Prop}
    {R : ε × σ → ε × σ → Prop} {w₀ : ε × σ} (h : p.Steps O Eq G Q w) (hG : ∀ c w w', G c w w' → G' c w w')
    (hR : ∀ c w w', G c w w' → R w w') (htrans : ∀ u v w, R u v → R v w → R u w) (hw : R w₀ w) :
    p.Steps O Eq G' (fun a w' => Q a w' ∧ R w₀ w') w := by
  have hnext {c : Option ν} {w w' : ε × σ} (hw : R w₀ w) (hstep : G c w w') : G' c w w' ∧ R w₀ w' :=
    ⟨hG _ _ _ hstep, htrans _ _ _ hw (hR _ _ _ hstep)⟩
  induction p generalizing w with
  | ret a => exact ⟨h, hw⟩
  | look k ih =>
    rintro w' rfl
    exact ih _ (h w rfl) hw
  | write c f k ih =>
    rintro w' rfl
    obtain ⟨hstep, hrest⟩ := h w rfl
    obtain ⟨hstep', hw'⟩ := hnext hw hstep
    exact ⟨hstep', ih _ hrest hw'⟩
  | emit m k ih =>
    rintro w' e rfl he
    obtain ⟨hstep, hrest⟩ := h w e rfl he
    obtain ⟨hstep', hw'⟩ := hnext hw hstep
    exact ⟨hstep', ih hrest hw'⟩
  | receive k ih =>
    rintro w' r e rfl he
    obtain ⟨hstep, hrest⟩ := h w r e rfl he
    obtain ⟨hstep', hw'⟩ := hnext hw hstep
    exact ⟨hstep', ih r hrest hw'⟩
  | input k ih =>
    rintro w' i rfl hi
    exact ih i (h w i rfl hi) hw
  | hang => trivial

/-! Threads that keep to the shared state. -/

/-- It neither sends nor hears, and what it ends with satisfies `T`. -/
def Silent (T : α → Prop) : Thread σ ν ι μ ρ α → Prop
  | ret a => T a
  | look k => ∀ s, (k s).Silent T
  | write _ _ k => ∀ s, (k s).Silent T
  | emit _ _ | receive _ => False
  | input k => ∀ i, (k i).Silent T
  | hang => True

@[simp] theorem silent_bind (p : Thread σ ν ι μ ρ α) (f : α → Thread σ ν ι μ ρ β) (T : β → Prop) :
    (p >>= f).Silent T ↔ p.Silent fun a => (f a).Silent T := by
  change (p.bind f).Silent T ↔ _
  induction p with
  | ret a => rfl
  | look k ih => exact forall_congr' ih
  | write c g k ih => exact forall_congr' ih
  | emit m k ih => rfl
  | receive k ih => rfl
  | input k ih => exact forall_congr' ih
  | hang => rfl

@[simp] theorem silent_pure (a : α) (T : α → Prop) : (pure a : Thread σ ν ι μ ρ α).Silent T ↔ T a := Iff.rfl

@[simp] theorem silent_view (T : σ → Prop) : (view : Thread σ ν ι μ ρ σ).Silent T ↔ ∀ s, T s := Iff.rfl

@[simp] theorem silent_update (c : ν) (f : σ → σ) (T : σ → Prop) :
    (update c f : Thread σ ν ι μ ρ σ).Silent T ↔ ∀ s, T s := Iff.rfl

@[simp] theorem silent_ask (T : ι → Prop) : (ask : Thread σ ν ι μ ρ ι).Silent T ↔ ∀ i, T i := Iff.rfl

theorem Silent.mono {p : Thread σ ν ι μ ρ α} {T U : α → Prop} (h : p.Silent T) (hU : ∀ a, T a → U a) : p.Silent U := by
  induction p with
  | ret a => exact hU a h
  | look k ih => exact fun s => ih s (h s)
  | write c g k ih => exact fun s => ih s (h s)
  | emit m k ih => exact h
  | receive k ih => exact h
  | input k ih => exact fun i => ih i (h i)
  | hang => trivial

/-- Where nobody else has a part in the world around, a silent thread leaves it alone. -/
theorem Silent.steps {p : Thread σ ν ι μ ρ α} {T : α → Prop} {Q : α → ε × σ → Prop} (h : p.Silent T)
    (hrely : ∀ w w', rely w w' → w'.1 = w.1) (hG : ∀ c e s s', G c (e, s) (e, s'))
    (hQ : ∀ a s, T a → Q a (w.1, s)) : p.Steps O rely G Q w := by
  have hnext (w' : ε × σ) (hw' : rely w w') (a : α) (s : σ) (ha : T a) : Q a (w'.1, s) := by
    rw [hrely w w' hw']
    exact hQ a s ha
  induction p generalizing w with
  | ret a => exact hQ a w.2 h
  | look k ih =>
    intro w' hw'
    exact ih w'.2 (h w'.2) (hnext w' hw') fun w'' hw'' a s ha => by
      rw [hrely w' w'' hw'']
      exact hnext w' hw' a s ha
  | write c f k ih =>
    intro w' hw'
    refine ⟨hG _ _ _ _, ih w'.2 (h w'.2) (hnext w' hw') fun w'' hw'' a s ha => ?_⟩
    rw [hrely _ w'' hw'']
    exact hnext w' hw' a s ha
  | emit m k ih => exact h.elim
  | receive k ih => exact h.elim
  | input k ih =>
    intro w' i hw' _
    exact ih i (h i) (hnext w' hw') fun w'' hw'' a s ha => by
      rw [hrely w' w'' hw'']
      exact hnext w' hw' a s ha
  | hang => trivial

/-- All it sends satisfies `P`, as long as what it is given is allowed. -/
def Speaks (allowed : ι → Prop) (P : μ → Prop) (T : α → Prop) : Thread σ ν ι μ ρ α → Prop
  | ret a => T a
  | look k => ∀ s, (k s).Speaks allowed P T
  | write _ _ k => ∀ s, (k s).Speaks allowed P T
  | emit m k => P m ∧ k.Speaks allowed P T
  | receive k => ∀ r, (k r).Speaks allowed P T
  | input k => ∀ i, allowed i → (k i).Speaks allowed P T
  | hang => True

section Speaks

variable {allowed : ι → Prop} {P : μ → Prop}

@[simp] theorem speaks_bind (p : Thread σ ν ι μ ρ α) (f : α → Thread σ ν ι μ ρ β) (T : β → Prop) :
    (p >>= f).Speaks allowed P T ↔ p.Speaks allowed P fun a => (f a).Speaks allowed P T := by
  change (p.bind f).Speaks allowed P T ↔ _
  induction p with
  | ret a => rfl
  | look k ih => exact forall_congr' ih
  | write c g k ih => exact forall_congr' ih
  | emit m k ih => exact and_congr_right fun _ => ih
  | receive k ih => exact forall_congr' ih
  | input k ih => exact forall_congr' fun i => imp_congr_right fun _ => ih i
  | hang => rfl

@[simp] theorem speaks_pure (a : α) (T : α → Prop) : (pure a : Thread σ ν ι μ ρ α).Speaks allowed P T ↔ T a := Iff.rfl

@[simp] theorem speaks_view (T : σ → Prop) : (view : Thread σ ν ι μ ρ σ).Speaks allowed P T ↔ ∀ s, T s := Iff.rfl

@[simp] theorem speaks_send (m : μ) (T : Unit → Prop) :
    (send m : Thread σ ν ι μ ρ Unit).Speaks allowed P T ↔ P m ∧ T () := Iff.rfl

@[simp] theorem speaks_hear (T : ρ → Prop) : (hear : Thread σ ν ι μ ρ ρ).Speaks allowed P T ↔ ∀ r, T r := Iff.rfl

@[simp] theorem speaks_ask (T : ι → Prop) : (ask : Thread σ ν ι μ ρ ι).Speaks allowed P T ↔ ∀ i, allowed i → T i :=
  Iff.rfl

theorem Speaks.mono {p : Thread σ ν ι μ ρ α} {T U : α → Prop} (h : p.Speaks allowed P T) (hU : ∀ a, T a → U a) :
    p.Speaks allowed P U := by
  induction p with
  | ret a => exact hU a h
  | look k ih => exact fun s => ih s (h s)
  | write c g k ih => exact fun s => ih s (h s)
  | emit m k ih => exact ⟨h.1, ih h.2⟩
  | receive k ih => exact fun r => ih r (h r)
  | input k ih => exact fun i hi => ih i (h i hi)
  | hang => trivial

theorem Silent.speaks {p : Thread σ ν ι μ ρ α} {T : α → Prop} (h : p.Silent T) : p.Speaks allowed P T := by
  induction p with
  | ret a => exact h
  | look k ih => exact fun s => ih s (h s)
  | write c g k ih => exact fun s => ih s (h s)
  | emit m k ih => exact h.elim
  | receive k ih => exact h.elim
  | input k ih => exact fun i _ => ih i (h i)
  | hang => trivial

/-- The steps of a thread change the world around only as its messages and those it hears do. -/
theorem Speaks.reaches {p p' : Thread σ ν ι μ ρ α} {T : α → Prop} {w w' : ε × σ} (h : p.Speaks allowed P T)
    {R : ε → ε → Prop} (hrefl : ∀ e, R e e) (htrans : ∀ e e' e'', R e e' → R e' e'' → R e e'')
    (hinput : ∀ i w, O.input i w → allowed i) (hemit : ∀ m w e, P m → O.emit m w e → R w.1 e)
    (hreceive : ∀ r w e, O.receive r w e → R w.1 e)
    (hrun : Relation.ReflTransGen (fun x y => ∃ c, Move O x.1 x.2 c y.1 y.2) (p, w) (p', w')) :
    R w.1 w'.1 ∧ p'.Speaks allowed P T := by
  generalize hy : (p', w') = y at hrun
  induction hrun generalizing p' w' with
  | refl =>
    cases hy
    exact ⟨hrefl _, h⟩
  | @tail b _ _ hstep ih =>
    subst hy
    obtain ⟨q, v⟩ := b
    obtain ⟨hR, hq⟩ := ih rfl
    obtain ⟨c, hmove⟩ := hstep
    dsimp only at hmove
    cases hmove with
    | look => exact ⟨hR, hq _⟩
    | write => exact ⟨hR, hq _⟩
    | emit he => exact ⟨htrans _ _ _ hR (hemit _ _ _ hq.1 he), hq.2⟩
    | receive he => exact ⟨htrans _ _ _ hR (hreceive _ _ _ he), hq _⟩
    | input hi => exact ⟨hR, hq _ (hinput _ _ hi)⟩

end Speaks

/-! A thread alone, as long as a condition on where it stands holds at each of its steps. -/

def StepsWhile (O : Outside ε σ ι μ ρ) (G : Option ν → ε × σ → ε × σ → Prop)
    (C : Thread σ ν ι μ ρ α → ε × σ → Prop) : Thread σ ν ι μ ρ α → (α → ε × σ → Prop) → ε × σ → Prop
  | ret a, Q, w => Q a w
  | look k, Q, w => C (look k) w → (k w.2).StepsWhile O G C Q w
  | write c f k, Q, w => C (write c f k) w →
      G (some c) w (w.1, f w.2) ∧ (k w.2).StepsWhile O G C Q (w.1, f w.2)
  | emit m k, Q, w => C (emit m k) w → ∀ e, O.emit m w e → G none w (e, w.2) ∧ k.StepsWhile O G C Q (e, w.2)
  | receive k, Q, w => C (receive k) w → ∀ r e, O.receive r w e →
      G none w (e, w.2) ∧ (k r).StepsWhile O G C Q (e, w.2)
  | input k, Q, w => C (input k) w → ∀ i, O.input i w → (k i).StepsWhile O G C Q w
  | hang, _, _ => True

variable {C : Thread σ ν ι μ ρ α → ε × σ → Prop}

theorem stepsWhile_bind (p : Thread σ ν ι μ ρ α) (f : α → Thread σ ν ι μ ρ β) (Q : β → ε × σ → Prop)
    (C : Thread σ ν ι μ ρ β → ε × σ → Prop) :
    (p >>= f).StepsWhile O G C Q w ↔
      p.StepsWhile O G (fun q => C (q >>= f)) (fun a => (f a).StepsWhile O G C Q) w := by
  change (p.bind f).StepsWhile O G C Q w ↔ _
  induction p generalizing w with
  | ret a => rfl
  | look k ih => exact imp_congr_right fun _ => ih w.2
  | write c g k ih => exact imp_congr_right fun _ => and_congr_right fun _ => ih w.2
  | emit m k ih =>
    exact imp_congr_right fun _ => forall_congr' fun e => imp_congr_right fun _ => and_congr_right fun _ => ih
  | receive k ih =>
    exact imp_congr_right fun _ => forall_congr' fun r => forall_congr' fun e => imp_congr_right fun _ =>
      and_congr_right fun _ => ih r
  | input k ih => exact imp_congr_right fun _ => forall_congr' fun i => imp_congr_right fun _ => ih i
  | hang => rfl

theorem Steps.stepsWhile {p : Thread σ ν ι μ ρ α} {Q : α → ε × σ → Prop} (h : p.Steps O Eq G Q w) :
    p.StepsWhile O G C Q w := by
  induction p generalizing w with
  | ret a => exact h
  | look k ih => exact fun _ => ih _ (h w rfl)
  | write c f k ih => exact fun _ => ⟨(h w rfl).1, ih _ (h w rfl).2⟩
  | emit m k ih => exact fun _ e he => ⟨(h w e rfl he).1, ih (h w e rfl he).2⟩
  | receive k ih => exact fun _ r e he => ⟨(h w r e rfl he).1, ih r (h w r e rfl he).2⟩
  | input k ih => exact fun _ i hi => ih i (h w i rfl hi)
  | hang => trivial

theorem StepsWhile.mono {p : Thread σ ν ι μ ρ α} {Q Q' : α → ε × σ → Prop} (h : p.StepsWhile O G C Q w)
    (hq : ∀ a w', Q a w' → Q' a w') : p.StepsWhile O G C Q' w := by
  induction p generalizing w with
  | ret a => exact hq a w h
  | look k ih => exact fun hC => ih _ (h hC)
  | write c f k ih => exact fun hC => ⟨(h hC).1, ih _ (h hC).2⟩
  | emit m k ih => exact fun hC e he => ⟨(h hC e he).1, ih (h hC e he).2⟩
  | receive k ih => exact fun hC r e he => ⟨(h hC r e he).1, ih r (h hC r e he).2⟩
  | input k ih => exact fun hC i hi => ih i (h hC i hi)
  | hang => trivial

/-- The condition may be used from the first step on. -/
theorem stepsWhile_of_meets {p : Thread σ ν ι μ ρ α} {Q : α → ε × σ → Prop} (hp : ∀ a, p ≠ ret a)
    (h : C p w → p.StepsWhile O G C Q w) : p.StepsWhile O G C Q w := by
  cases p with
  | ret a => exact absurd rfl (hp a)
  | hang => trivial
  | _ => exact fun hC => h hC hC

theorem StepsWhile.move {p p' : Thread σ ν ι μ ρ α} {Q : α → ε × σ → Prop} {c : Option ν} {w' : ε × σ}
    (h : p.StepsWhile O G C Q w) (hC : C p w) (hG : ∀ w, G none w w) (hm : Move O p w c p' w') :
    G c w w' ∧ p'.StepsWhile O G C Q w' := by
  cases hm with
  | look => exact ⟨hG _, h hC⟩
  | write => exact h hC
  | emit he => exact h hC _ he
  | receive he => exact h hC _ _ he
  | input hi => exact ⟨hG _, h hC _ hi⟩

/-- One thread, while others change the world in between. -/
abbrev Amid (O : Outside ε σ ι μ ρ) (others : ε × σ → ε × σ → Prop) :
    Thread σ ν ι μ ρ α × (ε × σ) → Thread σ ν ι μ ρ α × (ε × σ) → Prop :=
  Relation.ReflTransGen fun x y => (∃ c, Move O x.1 x.2 c y.1 y.2) ∨ y.1 = x.1 ∧ others x.2 y.2

/-- What a thread guarantees amid others that keep to `rely`. -/
theorem Steps.amid {p p' : Thread σ ν ι μ ρ α} {Q : α → ε × σ → Prop} {I : ε × σ → Prop}
    {others : ε × σ → ε × σ → Prop} {w' : ε × σ} (h : p.Steps O rely G Q w) (hI : I w)
    (hrefl : ∀ w, I w → rely w w) (htrans : ∀ u v w, rely u v → rely v w → rely u w) (hidle : ∀ w, G none w w)
    (hothers : ∀ w w', I w → others w w' → rely w w' ∧ I w') (hkept : ∀ c w w', I w → G c w w' → I w')
    (hrun : Amid O others (p, w) (p', w')) : I w' ∧ ∃ w₀, rely w₀ w' ∧ p'.Steps O rely G Q w₀ := by
  generalize hx : (p, w) = x at hrun
  generalize hy : (p', w') = y at hrun
  induction hrun generalizing p' w' with
  | refl =>
    obtain ⟨rfl, rfl⟩ := Prod.mk.inj (hx.trans hy.symm)
    exact ⟨hI, _, hrefl _ hI, h⟩
  | @tail y z _ hstep ih =>
    subst hy
    obtain ⟨hI', w₀, hrely, hsteps⟩ := ih rfl
    obtain ⟨c, hmove⟩ | ⟨rfl, hother⟩ := hstep
    · obtain ⟨hG, hsteps'⟩ := hsteps.move hrely hidle hmove
      have hkept' := hkept _ _ _ hI' hG
      exact ⟨hkept', w', hrefl _ hkept', hsteps'⟩
    · obtain ⟨hrely', hI''⟩ := hothers _ _ hI' hother
      exact ⟨hI'', w₀, htrans _ _ _ hrely hrely', hsteps⟩

end Steps

end Thread

/-! Pools: any number of threads, each with the task it was started for. -/

section Pools

variable {σ ν ι μ ρ α ε τ : Type}

structure Pool (σ ν ι μ ρ α ε τ : Type) where
  world : ε × σ
  threads : List (τ × Thread σ ν ι μ ρ α)

/-! Each task may face an outside of its own. -/

namespace Crew

variable (O : τ → Outside ε σ ι μ ρ) (program : τ → Thread σ ν ι μ ρ α)
  (admits : Pool σ ν ι μ ρ α ε τ → τ → Prop) (meets : τ → Option ν → ε × σ → ε × σ → Prop)

/-- A task is started where it is admitted, some thread takes a step that meets the condition, or one that has ended
is joined. -/
inductive Step : Pool σ ν ι μ ρ α ε τ → Pool σ ν ι μ ρ α ε τ → Prop
  | spawn {P : Pool σ ν ι μ ρ α ε τ} {t : τ} :
      admits P t → Step P ⟨P.world, P.threads ++ [(t, program t)]⟩
  | move {w w' : ε × σ} {before after : List (τ × Thread σ ν ι μ ρ α)} {t : τ} {p p' : Thread σ ν ι μ ρ α}
      {c : Option ν} :
      Thread.Move (O t) p w c p' w' → meets t c w w' →
      Step ⟨w, before ++ (t, p) :: after⟩ ⟨w', before ++ (t, p') :: after⟩
  | join {w : ε × σ} {before after : List (τ × Thread σ ν ι μ ρ α)} {t : τ} {a : α} :
      Step ⟨w, before ++ (t, .ret a) :: after⟩ ⟨w, before ++ after⟩

abbrev Run : Pool σ ν ι μ ρ α ε τ → Pool σ ν ι μ ρ α ε τ → Prop := Relation.ReflTransGen (Step O program admits meets)

/-- What each task relies on and guarantees while the invariant `I` holds. `mates` says which tasks may run beside each
other. -/
structure Discipline where
  I : ε × σ → Prop
  mates : τ → τ → Prop
  rely : τ → ε × σ → ε × σ → Prop
  G : τ → Option ν → ε × σ → ε × σ → Prop
  Q : τ → α → ε × σ → Prop
  symm : ∀ {t u}, mates t u → mates u t
  refl : ∀ t w, I w → rely t w w
  trans : ∀ {t w w' w''}, rely t w w' → rely t w' w'' → rely t w w''
  idle : ∀ t w, G t none w w
  admitted : ∀ {P : Pool σ ν ι μ ρ α ε τ} {t}, admits P t → ∀ x ∈ P.threads, mates x.1 t
  relied : ∀ {t u c w w'}, I w → mates t u → meets t c w w' → G t c w w' → rely u w w'
  kept : ∀ {t c w w'}, I w → meets t c w w' → G t c w w' → I w'
  steps : ∀ {P : Pool σ ν ι μ ρ α ε τ} {t}, admits P t → I P.world →
    (program t).Steps (O t) (rely t) (G t) (Q t) P.world

namespace Discipline

variable {O : τ → Outside ε σ ι μ ρ} {program : τ → Thread σ ν ι μ ρ α} {admits : Pool σ ν ι μ ρ α ε τ → τ → Prop}
  {meets : τ → Option ν → ε × σ → ε × σ → Prop} (D : Discipline O program admits meets)

/-- Every thread of the pool is on a course that its task allows. -/
structure Keeps (P : Pool σ ν ι μ ρ α ε τ) : Prop where
  holds : D.I P.world
  apart : P.threads.Pairwise fun x y => D.mates x.1 y.1
  course : ∀ x ∈ P.threads, ∃ w, D.rely x.1 w P.world ∧ x.2.Steps (O x.1) (D.rely x.1) (D.G x.1) (D.Q x.1) w

variable {D}

theorem keeps_nil {w : ε × σ} (h : D.I w) : D.Keeps ⟨w, []⟩ where
  holds := h
  apart := List.Pairwise.nil
  course _ hx := absurd hx List.not_mem_nil

theorem Keeps.spawn {P : Pool σ ν ι μ ρ α ε τ} (h : D.Keeps P) {t : τ} (ht : admits P t) :
    D.Keeps ⟨P.world, P.threads ++ [(t, program t)]⟩ where
  holds := h.holds
  apart := by
    rw [List.pairwise_append]
    refine ⟨h.apart, List.pairwise_singleton _ _, fun x hx y hy => ?_⟩
    obtain rfl := List.mem_singleton.mp hy
    exact D.admitted ht x hx
  course x hx := by
    obtain hx | hx := List.mem_append.mp hx
    · exact h.course x hx
    · obtain rfl := List.mem_singleton.mp hx
      exact ⟨P.world, D.refl _ _ h.holds, D.steps ht h.holds⟩

theorem Keeps.move {w w' : ε × σ} {before after : List (τ × Thread σ ν ι μ ρ α)} {t : τ}
    {p p' : Thread σ ν ι μ ρ α} {c : Option ν} (h : D.Keeps ⟨w, before ++ (t, p) :: after⟩)
    (hmove : Thread.Move (O t) p w c p' w') (hmeets : meets t c w w') :
    D.G t c w w' ∧ p'.Steps (O t) (D.rely t) (D.G t) (D.Q t) w' ∧ D.Keeps ⟨w', before ++ (t, p') :: after⟩ := by
  obtain ⟨hbefore, hrest, hacross⟩ := List.pairwise_append.mp h.apart
  obtain ⟨hafter, hrest⟩ := List.pairwise_cons.mp hrest
  obtain ⟨w₀, hrely, hsteps⟩ := h.course (t, p) (by simp)
  obtain ⟨hG, hsteps'⟩ := hsteps.move hrely (D.idle t) hmove
  have hother (x : τ × Thread σ ν ι μ ρ α) (hx : x ∈ before ++ (t, p) :: after) (hmates : D.mates t x.1) :
      ∃ w, D.rely x.1 w w' ∧ x.2.Steps (O x.1) (D.rely x.1) (D.G x.1) (D.Q x.1) w := by
    obtain ⟨w₁, hrely₁, hsteps₁⟩ := h.course x hx
    exact ⟨w₁, D.trans hrely₁ (D.relied h.holds hmates hmeets hG), hsteps₁⟩
  refine ⟨hG, hsteps', D.kept h.holds hmeets hG, ?_, fun x hx => ?_⟩
  · rw [List.pairwise_append, List.pairwise_cons]
    refine ⟨hbefore, ⟨hafter, hrest⟩, fun x hx y hy => ?_⟩
    obtain rfl | hy := List.mem_cons.mp hy
    · exact hacross x hx (t, p) List.mem_cons_self
    · exact hacross x hx y (List.mem_cons_of_mem _ hy)
  · obtain hx | hx := List.mem_append.mp hx
    · exact hother x (by simp [hx]) (D.symm (hacross x hx (t, p) List.mem_cons_self))
    obtain rfl | hx := List.mem_cons.mp hx
    · exact ⟨w', D.refl _ _ (D.kept h.holds hmeets hG), hsteps'⟩
    · exact hother x (by simp [hx]) (hafter x hx)

theorem Keeps.join {w : ε × σ} {before after : List (τ × Thread σ ν ι μ ρ α)} {x : τ × Thread σ ν ι μ ρ α}
    (h : D.Keeps ⟨w, before ++ x :: after⟩) : D.Keeps ⟨w, before ++ after⟩ where
  holds := h.holds
  apart := h.apart.sublist ((List.sublist_cons_self x after).append_left before)
  course y hy := by
    apply h.course
    obtain hy | hy := List.mem_append.mp hy
    · exact List.mem_append_left _ hy
    · exact List.mem_append_right _ (List.mem_cons_of_mem _ hy)

/-- One step of a crew is one guaranteed step of its world, or none. -/
theorem Keeps.step {P P' : Pool σ ν ι μ ρ α ε τ} (h : D.Keeps P) (hstep : Step O program admits meets P P') :
    D.Keeps P' ∧ (P'.world = P.world ∨ ∃ t c, meets t c P.world P'.world ∧ D.G t c P.world P'.world) := by
  cases hstep with
  | spawn ht => exact ⟨h.spawn ht, .inl rfl⟩
  | move hmove hmeets =>
    obtain ⟨hG, -, hkeeps⟩ := h.move hmove hmeets
    exact ⟨hkeeps, .inr ⟨_, _, hmeets, hG⟩⟩
  | join => exact ⟨h.join, .inl rfl⟩

theorem Keeps.runs {P P' : Pool σ ν ι μ ρ α ε τ} (h : D.Keeps P) (hrun : Run O program admits meets P P') :
    D.Keeps P' := by
  induction hrun with
  | refl => exact h
  | tail _ hstep ih => exact (ih.step hstep).1

end Discipline

end Crew

namespace Pool

variable (O : Outside ε σ ι μ ρ) (program : τ → Thread σ ν ι μ ρ α)
  (admits : Pool σ ν ι μ ρ α ε τ → τ → Prop) (meets : τ → Option ν → ε × σ → ε × σ → Prop)

/-- A task is started where it is admitted, some thread takes a step that meets the condition, or one that has ended
is joined. -/
inductive Step : Pool σ ν ι μ ρ α ε τ → Pool σ ν ι μ ρ α ε τ → Prop
  | spawn {P : Pool σ ν ι μ ρ α ε τ} {t : τ} :
      admits P t → Step P ⟨P.world, P.threads ++ [(t, program t)]⟩
  | move {w w' : ε × σ} {before after : List (τ × Thread σ ν ι μ ρ α)} {t : τ} {p p' : Thread σ ν ι μ ρ α}
      {c : Option ν} :
      Thread.Move O p w c p' w' → meets t c w w' →
      Step ⟨w, before ++ (t, p) :: after⟩ ⟨w', before ++ (t, p') :: after⟩
  | join {w : ε × σ} {before after : List (τ × Thread σ ν ι μ ρ α)} {t : τ} {a : α} :
      Step ⟨w, before ++ (t, .ret a) :: after⟩ ⟨w, before ++ after⟩

abbrev Run : Pool σ ν ι μ ρ α ε τ → Pool σ ν ι μ ρ α ε τ → Prop := Relation.ReflTransGen (Step O program admits meets)

end Pool

/-- What each task relies on and guarantees while the invariant `I` holds. `mates` says which tasks may run beside each
other. -/
structure Discipline (O : Outside ε σ ι μ ρ) (program : τ → Thread σ ν ι μ ρ α)
    (admits : Pool σ ν ι μ ρ α ε τ → τ → Prop) (meets : τ → Option ν → ε × σ → ε × σ → Prop) where
  I : ε × σ → Prop
  mates : τ → τ → Prop
  rely : τ → ε × σ → ε × σ → Prop
  G : τ → Option ν → ε × σ → ε × σ → Prop
  Q : τ → α → ε × σ → Prop
  symm : ∀ {t u}, mates t u → mates u t
  refl : ∀ t w, I w → rely t w w
  trans : ∀ {t w w' w''}, rely t w w' → rely t w' w'' → rely t w w''
  idle : ∀ t w, G t none w w
  admitted : ∀ {P : Pool σ ν ι μ ρ α ε τ} {t}, admits P t → ∀ x ∈ P.threads, mates x.1 t
  relied : ∀ {t u c w w'}, I w → mates t u → meets t c w w' → G t c w w' → rely u w w'
  kept : ∀ {t c w w'}, I w → meets t c w w' → G t c w w' → I w'
  steps : ∀ {P : Pool σ ν ι μ ρ α ε τ} {t}, admits P t → I P.world →
    (program t).Steps O (rely t) (G t) (Q t) P.world

namespace Discipline

variable {O : Outside ε σ ι μ ρ} {program : τ → Thread σ ν ι μ ρ α} {admits : Pool σ ν ι μ ρ α ε τ → τ → Prop}
  {meets : τ → Option ν → ε × σ → ε × σ → Prop} (D : Discipline O program admits meets)

/-- Every thread of the pool is on a course that its task allows. -/
structure Keeps (P : Pool σ ν ι μ ρ α ε τ) : Prop where
  holds : D.I P.world
  apart : P.threads.Pairwise fun x y => D.mates x.1 y.1
  course : ∀ x ∈ P.threads, ∃ w, D.rely x.1 w P.world ∧ x.2.Steps O (D.rely x.1) (D.G x.1) (D.Q x.1) w

/-- A pool is a crew whose tasks face the same outside. -/
def crew : Crew.Discipline (fun _ : τ => O) program admits meets where
  I := D.I
  mates := D.mates
  rely := D.rely
  G := D.G
  Q := D.Q
  symm := D.symm
  refl := D.refl
  trans := D.trans
  idle := D.idle
  admitted := D.admitted
  relied := D.relied
  kept := D.kept
  steps := D.steps

variable {D}

theorem keeps_crew {P : Pool σ ν ι μ ρ α ε τ} : D.crew.Keeps P ↔ D.Keeps P :=
  ⟨fun h => ⟨h.holds, h.apart, h.course⟩, fun h => ⟨h.holds, h.apart, h.course⟩⟩

omit D in
theorem crew_step {P P' : Pool σ ν ι μ ρ α ε τ} (h : Pool.Step O program admits meets P P') :
    Crew.Step (fun _ : τ => O) program admits meets P P' := by
  cases h with
  | spawn ht => exact .spawn ht
  | move hmove hmeets => exact .move hmove hmeets
  | join => exact .join

theorem keeps_nil {w : ε × σ} (h : D.I w) : D.Keeps ⟨w, []⟩ := keeps_crew.mp (Crew.Discipline.keeps_nil h)

theorem Keeps.move {w w' : ε × σ} {before after : List (τ × Thread σ ν ι μ ρ α)} {t : τ}
    {p p' : Thread σ ν ι μ ρ α} {c : Option ν} (h : D.Keeps ⟨w, before ++ (t, p) :: after⟩)
    (hmove : Thread.Move O p w c p' w') (hmeets : meets t c w w') :
    D.G t c w w' ∧ p'.Steps O (D.rely t) (D.G t) (D.Q t) w' ∧ D.Keeps ⟨w', before ++ (t, p') :: after⟩ := by
  obtain ⟨hG, hsteps, hkeeps⟩ := (keeps_crew.mpr h).move hmove hmeets
  exact ⟨hG, hsteps, keeps_crew.mp hkeeps⟩

/-- One step of a pool is one guaranteed step of its world, or none. -/
theorem Keeps.step {P P' : Pool σ ν ι μ ρ α ε τ} (h : D.Keeps P) (hstep : Pool.Step O program admits meets P P') :
    D.Keeps P' ∧ (P'.world = P.world ∨ ∃ t c, meets t c P.world P'.world ∧ D.G t c P.world P'.world) := by
  obtain ⟨hkeeps, hworld⟩ := (keeps_crew.mpr h).step (crew_step hstep)
  exact ⟨keeps_crew.mp hkeeps, hworld⟩

theorem Keeps.runs {P P' : Pool σ ν ι μ ρ α ε τ} (h : D.Keeps P) (hrun : Pool.Run O program admits meets P P') :
    D.Keeps P' := by
  induction hrun with
  | refl => exact h
  | tail _ hstep ih => exact (ih.step hstep).1

/-- A relation that every guaranteed step is within holds from the start of a run to its end. -/
theorem Keeps.run {R : ε × σ → ε × σ → Prop} {P P' : Pool σ ν ι μ ρ α ε τ} (h : D.Keeps P)
    (hrun : Pool.Run O program admits meets P P') (hrefl : ∀ w, R w w) (htrans : ∀ u v w, R u v → R v w → R u w)
    (hR : ∀ t c w w', D.I w → meets t c w w' → D.G t c w w' → R w w') : R P.world P'.world := by
  induction hrun with
  | refl => exact hrefl _
  | tail hrun hstep ih =>
    have hkeeps : D.Keeps _ := h.runs hrun
    refine htrans _ _ _ ih ?_
    obtain heq | ⟨t, c, hmeets, hG⟩ := (hkeeps.step hstep).2
    · rw [heq]
      exact hrefl _
    · exact hR t c _ _ hkeeps.holds hmeets hG

end Discipline

/-! Runs by a schedule. -/

/-- One way in which the outside may go along; `i₀` is chosen, and `r₀` heard, where a script is silent. -/
structure Driver (O : Outside ε σ ι μ ρ) where
  file : μ → ε × σ → Option ε
  i₀ : ι
  r₀ : ε × σ → Option ρ
  hears : ρ → ε × σ → Option ε
  chooses : ι → ε × σ → Bool
  emits : ∀ m w e, file m w = some e → O.emit m w e
  receives : ∀ r w e, hears r w = some e → O.receive r w e
  inputs : ∀ i w, chooses i w = true → O.input i w

section Schedules

variable {O : Outside ε σ ι μ ρ} (D : Driver O)

/-- The next step, with choices and frames from the script. -/
def Thread.next : List (ι ⊕ ρ) → Thread σ ν ι μ ρ α → ε × σ →
    Option (Option ν × List (ι ⊕ ρ) × Thread σ ν ι μ ρ α × (ε × σ))
  | script, .look k, w => some (none, script, k w.2, w)
  | script, .write c f k, w => some (some c, script, k w.2, (w.1, f w.2))
  | script, .emit m k, w => (D.file m w).map fun e => (none, script, k, (e, w.2))
  | .inr r :: script, .receive k, w => (D.hears r w).map fun e => (none, script, k r, (e, w.2))
  | script, .receive k, w => (D.r₀ w).bind fun r => (D.hears r w).map fun e => (none, script, k r, (e, w.2))
  | .inl i :: script, .input k, w => if D.chooses i w then some (none, script, k i, w) else none
  | script, .input k, w => if D.chooses D.i₀ w then some (none, script, k D.i₀, w) else none
  | _, _, _ => none

/-- At most `n` steps that all pass the check. -/
def Thread.advance (check : Option ν → ε × σ → ε × σ → Bool) :
    ℕ → List (ι ⊕ ρ) → Thread σ ν ι μ ρ α → ε × σ → Option (Thread σ ν ι μ ρ α × (ε × σ))
  | 0, _, p, w => some (p, w)
  | _ + 1, _, .ret a, w => some (.ret a, w)
  | n + 1, script, p, w =>
    match p.next D script w with
    | none => none
    | some (c, script, p, w') => if check c w w' then advance check n script p w' else none

inductive Order (ι ρ τ : Type)
  | spawn (t : τ)
  | go (i : ℕ) (script : List (ι ⊕ ρ)) (n : ℕ)
  | join (i : ℕ)

variable (program : τ → Thread σ ν ι μ ρ α) (admits : Pool σ ν ι μ ρ α ε τ → τ → Prop)
  [∀ P t, Decidable (admits P t)] (check : τ → Option ν → ε × σ → ε × σ → Bool)

def Pool.follow : List (Order ι ρ τ) → Pool σ ν ι μ ρ α ε τ → Option (Pool σ ν ι μ ρ α ε τ)
  | [], P => some P
  | .spawn t :: orders, P =>
    if admits P t then follow orders ⟨P.world, P.threads ++ [(t, program t)]⟩ else none
  | .go i script n :: orders, P =>
    match P.threads.drop i with
    | [] => none
    | (t, p) :: after =>
      match p.advance D (check t) n script P.world with
      | none => none
      | some (p', w') => follow orders ⟨w', P.threads.take i ++ (t, p') :: after⟩
  | .join i :: orders, P =>
    match P.threads.drop i with
    | (_, .ret _) :: after => follow orders ⟨P.world, P.threads.take i ++ after⟩
    | _ => none

variable {D program admits check}

omit [∀ P t, Decidable (admits P t)]

theorem Thread.next_move {script script' : List (ι ⊕ ρ)} {p p' : Thread σ ν ι μ ρ α} {w w' : ε × σ} {c : Option ν}
    (h : p.next D script w = some (c, script', p', w')) : Thread.Move O p w c p' w' := by
  unfold Thread.next at h
  split at h
  · cases h
    exact .look
  · cases h
    exact .write
  · obtain ⟨e, he, heq⟩ := Option.map_eq_some_iff.mp h
    cases heq
    exact .emit (D.emits _ _ _ he)
  · obtain ⟨e, he, heq⟩ := Option.map_eq_some_iff.mp h
    cases heq
    exact .receive (D.receives _ _ _ he)
  · obtain ⟨r, -, h⟩ := Option.bind_eq_some_iff.mp h
    obtain ⟨e, he, heq⟩ := Option.map_eq_some_iff.mp h
    cases heq
    exact .receive (D.receives _ _ _ he)
  · split at h
    next hchooses =>
      cases h
      exact .input (D.inputs _ _ hchooses)
    · cases h
  · split at h
    next hchooses =>
      cases h
      exact .input (D.inputs _ _ hchooses)
    · cases h
  · cases h

/-- The steps of a thread that runs alone and passes the check. -/
abbrev Thread.Moves (O : Outside ε σ ι μ ρ) (check : Option ν → ε × σ → ε × σ → Bool) :
    Thread σ ν ι μ ρ α × (ε × σ) → Thread σ ν ι μ ρ α × (ε × σ) → Prop :=
  Relation.ReflTransGen fun x y => ∃ c, Thread.Move O x.1 x.2 c y.1 y.2 ∧ check c x.2 y.2 = true

theorem Thread.advance_moves {checks : Option ν → ε × σ → ε × σ → Bool} {n : ℕ} {script : List (ι ⊕ ρ)}
    {p p' : Thread σ ν ι μ ρ α} {w w' : ε × σ} (h : p.advance D checks n script w = some (p', w')) :
    Thread.Moves O checks (p, w) (p', w') := by
  fun_induction Thread.advance D checks n script p w with
  | case1 => cases h; exact .refl
  | case2 => cases h; exact .refl
  | case3 => cases h
  | case4 n script p w _ c script' p' w' hnext hcheck ih => exact .head ⟨c, Thread.next_move hnext, hcheck⟩ (ih h)
  | case5 => cases h

theorem Thread.advance_reaches {checks : Option ν → ε × σ → ε × σ → Bool} {n : ℕ} {script : List (ι ⊕ ρ)}
    {p p' : Thread σ ν ι μ ρ α} {w w' : ε × σ} (h : p.advance D checks n script w = some (p', w')) :
    Relation.ReflTransGen (fun x y => ∃ c, Thread.Move O x.1 x.2 c y.1 y.2) (p, w) (p', w') := by
  refine Relation.ReflTransGen.mono (fun x y hxy => ?_) _ _ (Thread.advance_moves h)
  obtain ⟨c, hmove, -⟩ := hxy
  exact ⟨c, hmove⟩

variable {meets : τ → Option ν → ε × σ → ε × σ → Prop} (hcheck : ∀ t c w w', check t c w w' = true → meets t c w w')

include hcheck

theorem Pool.run_of_moves {before after : List (τ × Thread σ ν ι μ ρ α)} {t : τ} {p p' : Thread σ ν ι μ ρ α}
    {w w' : ε × σ} (h : Thread.Moves O (check t) (p, w) (p', w')) :
    Pool.Run O program admits meets ⟨w, before ++ (t, p) :: after⟩ ⟨w', before ++ (t, p') :: after⟩ := by
  generalize hy : (p', w') = y at h
  induction h generalizing p' w' with
  | refl => cases hy; exact .refl
  | tail _ hstep ih =>
    subst hy
    obtain ⟨c, hmove, hchecked⟩ := hstep
    exact (ih rfl).tail (.move hmove (hcheck _ _ _ _ hchecked))

theorem Pool.follow_run [∀ P t, Decidable (admits P t)] {orders : List (Order ι ρ τ)} {P P' : Pool σ ν ι μ ρ α ε τ}
    (h : P.follow D program admits check orders = some P') : Pool.Run O program admits meets P P' := by
  fun_induction Pool.follow D program admits check orders P with
  | case1 => cases h; exact .refl
  | case2 t orders P ht ih => exact .head (.spawn ht) (ih h)
  | case3 => cases h
  | case4 => cases h
  | case5 => cases h
  | case6 i script n orders P t p after hdrop p' w' hadvance ih =>
    have hP : P = ⟨P.world, P.threads.take i ++ (t, p) :: after⟩ := by
      rw [← hdrop, List.take_append_drop]
    rw [hP]
    exact (Pool.run_of_moves hcheck (Thread.advance_moves hadvance)).trans (ih h)
  | case7 i orders P t a after hdrop ih =>
    have hP : P = ⟨P.world, P.threads.take i ++ (t, .ret a) :: after⟩ := by
      rw [← hdrop, List.take_append_drop]
    rw [hP]
    exact .head .join (ih h)
  | case8 => cases h

end Schedules

/-! A crew whose tasks run one after another. -/

def Crew.perform {O : τ → Outside ε σ ι μ ρ} (D : ∀ t, Driver (O t)) (program : τ → Thread σ ν ι μ ρ α)
    (admits : Pool σ ν ι μ ρ α ε τ → τ → Prop) [∀ P t, Decidable (admits P t)]
    (check : τ → Option ν → ε × σ → ε × σ → Bool) (n : ℕ) : List (τ × List (ι ⊕ ρ)) → ε × σ → Option (ε × σ)
  | [], w => some w
  | (t, script) :: tasks, w =>
    if admits ⟨w, []⟩ t then
      match (program t).advance (D t) (check t) n script w with
      | some (.ret _, w') => perform D program admits check n tasks w'
      | _ => none
    else none

theorem Crew.run_of_moves {O : τ → Outside ε σ ι μ ρ} {program : τ → Thread σ ν ι μ ρ α}
    {admits : Pool σ ν ι μ ρ α ε τ → τ → Prop} {check : τ → Option ν → ε × σ → ε × σ → Bool}
    {meets : τ → Option ν → ε × σ → ε × σ → Prop} (hcheck : ∀ t c w w', check t c w w' = true → meets t c w w') {t : τ}
    {p p' : Thread σ ν ι μ ρ α} {w w' : ε × σ} (h : Thread.Moves (O t) (check t) (p, w) (p', w')) :
    Crew.Run O program admits meets ⟨w, [(t, p)]⟩ ⟨w', [(t, p')]⟩ := by
  generalize hy : (p', w') = y at h
  induction h generalizing p' w' with
  | refl => cases hy; exact .refl
  | tail _ hstep ih =>
    subst hy
    obtain ⟨c, hmove, hchecked⟩ := hstep
    have hstep : Crew.Step O program admits meets ⟨_, [] ++ [(t, _)]⟩ ⟨w', [] ++ [(t, p')]⟩ :=
      .move hmove (hcheck _ _ _ _ hchecked)
    exact (ih rfl).tail hstep

theorem Crew.perform_run {O : τ → Outside ε σ ι μ ρ} {D : ∀ t, Driver (O t)} {program : τ → Thread σ ν ι μ ρ α}
    {admits : Pool σ ν ι μ ρ α ε τ → τ → Prop} [∀ P t, Decidable (admits P t)]
    {check : τ → Option ν → ε × σ → ε × σ → Bool} {meets : τ → Option ν → ε × σ → ε × σ → Prop}
    (hcheck : ∀ t c w w', check t c w w' = true → meets t c w w') {n : ℕ} {tasks : List (τ × List (ι ⊕ ρ))}
    {w w' : ε × σ} (h : Crew.perform D program admits check n tasks w = some w') :
    Crew.Run O program admits meets ⟨w, []⟩ ⟨w', []⟩ := by
  induction tasks generalizing w with
  | nil => cases h; exact .refl
  | cons task tasks ih =>
    obtain ⟨t, script⟩ := task
    rw [Crew.perform] at h
    split at h
    next hadmits =>
      split at h
      next a w₁ hadvance =>
        have hmoves : Crew.Run O program admits meets ⟨w, [(t, program t)]⟩ ⟨w₁, [(t, .ret a)]⟩ :=
          Crew.run_of_moves hcheck (Thread.advance_moves hadvance)
        have hjoin : Crew.Step O program admits meets ⟨w₁, [] ++ [(t, .ret a)]⟩ ⟨w₁, []⟩ := .join
        exact .head (.spawn hadmits) (hmoves.trans (.head hjoin (ih h)))
      · cases h
    · cases h

end Pools

end ConfigurationFabric.Threads
