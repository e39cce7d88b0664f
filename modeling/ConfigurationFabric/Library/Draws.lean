import ConfigurationFabric.Library.Threads

/-! Runs of one thread alone, with the choices that they draw on the way. -/

namespace ConfigurationFabric.Threads

variable {σ ν ι μ ρ α β ε : Type}

/-- The same outside, with these choices only. -/
def Outside.only (O : Outside ε σ ι μ ρ) (allowed : ι → Prop) : Outside ε σ ι μ ρ := { O with input i _ := allowed i }

namespace Thread

/-- A thread that runs alone from `w` and draws these choices returns `a` in `w'`. -/
inductive Draws (O : Outside ε σ ι μ ρ) : Thread σ ν ι μ ρ α → ε × σ → List ι → α → ε × σ → Prop
  | ret {a : α} {w : ε × σ} : Draws O (ret a) w [] a w
  | look {k : σ → Thread σ ν ι μ ρ α} {w w' : ε × σ} {is : List ι} {a : α} :
      Draws O (k w.2) w is a w' → Draws O (look k) w is a w'
  | write {c : ν} {f : σ → σ} {k : σ → Thread σ ν ι μ ρ α} {w w' : ε × σ} {is : List ι} {a : α} :
      Draws O (k w.2) (w.1, f w.2) is a w' → Draws O (write c f k) w is a w'
  | emit {m : μ} {k : Thread σ ν ι μ ρ α} {w w' : ε × σ} {e : ε} {is : List ι} {a : α} :
      O.emit m w e → Draws O k (e, w.2) is a w' → Draws O (emit m k) w is a w'
  | receive {k : ρ → Thread σ ν ι μ ρ α} {w w' : ε × σ} {r : ρ} {e : ε} {is : List ι} {a : α} :
      O.receive r w e → Draws O (k r) (e, w.2) is a w' → Draws O (receive k) w is a w'
  | input {k : ι → Thread σ ν ι μ ρ α} {w w' : ε × σ} {i : ι} {is : List ι} {a : α} :
      O.input i w → Draws O (k i) w is a w' → Draws O (input k) w (i :: is) a w'

variable {O : Outside ε σ ι μ ρ} {p : Thread σ ν ι μ ρ α} {f : α → Thread σ ν ι μ ρ β} {w w' w'' : ε × σ}
  {is is' : List ι} {a : α} {b : β}

theorem Draws.bind (hp : Draws O p w is a w') (hf : Draws O (f a) w' is' b w'') : Draws O (p >>= f) w (is ++ is') b w'' := by
  induction hp with
  | ret => exact hf
  | look _ ih => exact .look (ih hf)
  | write _ ih => exact .write (ih hf)
  | emit he _ ih => exact .emit he (ih hf)
  | receive he _ ih => exact .receive he (ih hf)
  | input hi _ ih => exact .input hi (ih hf)

theorem draws_bind (h : Draws O (p >>= f) w is b w'') :
    ∃ is₁ is₂ a w', is = is₁ ++ is₂ ∧ Draws O p w is₁ a w' ∧ Draws O (f a) w' is₂ b w'' := by
  change Draws O (p.bind f) w is b w'' at h
  induction p generalizing w is with
  | ret a => exact ⟨[], is, a, w, rfl, .ret, h⟩
  | look k ih =>
    cases h with
    | look h =>
      obtain ⟨is₁, is₂, a, w', rfl, hp, hf⟩ := ih _ h
      exact ⟨is₁, is₂, a, w', rfl, .look hp, hf⟩
  | write c g k ih =>
    cases h with
    | write h =>
      obtain ⟨is₁, is₂, a, w', rfl, hp, hf⟩ := ih _ h
      exact ⟨is₁, is₂, a, w', rfl, .write hp, hf⟩
  | emit m k ih =>
    cases h with
    | emit he h =>
      obtain ⟨is₁, is₂, a, w', rfl, hp, hf⟩ := ih h
      exact ⟨is₁, is₂, a, w', rfl, .emit he hp, hf⟩
  | receive k ih =>
    cases h with
    | receive he h =>
      obtain ⟨is₁, is₂, a, w', rfl, hp, hf⟩ := ih _ h
      exact ⟨is₁, is₂, a, w', rfl, .receive he hp, hf⟩
  | input k ih =>
    cases h with
    | input hi h =>
      obtain ⟨is₁, is₂, a, w', rfl, hp, hf⟩ := ih _ h
      exact ⟨_ :: is₁, is₂, a, w', rfl, .input hi hp, hf⟩
  | hang => cases h

theorem draws_pure (h : Draws O (pure b : Thread σ ν ι μ ρ β) w is a' w') : is = [] ∧ a' = b ∧ w' = w := by
  cases h with
  | ret => exact ⟨rfl, rfl, rfl⟩

theorem draws_ask {i : ι} (h : Draws O (ask : Thread σ ν ι μ ρ ι) w is i w') : is = [i] ∧ w' = w := by
  cases h with
  | input _ h =>
    cases h with
    | ret => exact ⟨rfl, rfl⟩

theorem draws_view {s : σ} (h : Draws O (view : Thread σ ν ι μ ρ σ) w is s w') : is = [] ∧ s = w.2 ∧ w' = w := by
  cases h with
  | look h =>
    cases h with
    | ret => exact ⟨rfl, rfl, rfl⟩

theorem draws_update {c : ν} {g : σ → σ} {s : σ} (h : Draws O (update c g : Thread σ ν ι μ ρ σ) w is s w') :
    is = [] ∧ s = w.2 ∧ w' = (w.1, g w.2) := by
  cases h with
  | write h =>
    cases h with
    | ret => exact ⟨rfl, rfl, rfl⟩

/-- What is true of every run on choices of one kind is true of a run that has drawn no others. -/
theorem Steps.draws {allowed : ι → Prop} {Q : α → ε × σ → Prop}
    (h : p.Steps (O.only allowed) Eq (fun _ _ _ => True) Q w) (hdraws : Draws O p w is a w')
    (hallowed : ∀ i ∈ is, allowed i) : Q a w' := by
  induction hdraws with
  | ret => exact h
  | look _ ih => exact ih (h _ rfl) hallowed
  | write _ ih => exact ih (h _ rfl).2 hallowed
  | emit he _ ih => exact ih (h _ _ rfl he).2 hallowed
  | receive he _ ih => exact ih (h _ _ _ rfl he).2 hallowed
  | input _ _ ih =>
    obtain ⟨hi, hrest⟩ := List.forall_mem_cons.mp hallowed
    exact ih (h _ _ rfl hi) hrest

/-- The run on these choices, of a thread that neither talks nor hangs. -/
def drawn : Thread σ ν ι μ ρ α → List ι → σ → Option (α × σ)
  | ret a, [], s => some (a, s)
  | look k, is, s => (k s).drawn is s
  | write _ f k, is, s => (k s).drawn is (f s)
  | input k, i :: is, s => (k i).drawn is s
  | _, _, _ => none

theorem draws_of_drawn {e : ε} {s s' : σ} (hinput : ∀ i w, O.input i w) (h : p.drawn is s = some (a, s')) :
    Draws O p (e, s) is a (e, s') := by
  induction p generalizing is s with
  | ret b =>
    cases is with
    | nil =>
      cases h
      exact .ret
    | cons => cases h
  | look k ih => exact .look (ih _ h)
  | write c f k ih => exact .write (ih _ h)
  | input k ih =>
    cases is with
    | nil => cases h
    | cons i is => exact .input (hinput i _) (ih i h)
  | emit | receive | hang => cases h

/-- It neither talks nor hangs. -/
def Closed : Thread σ ν ι μ ρ α → Prop
  | ret _ => True
  | look k => ∀ s, (k s).Closed
  | write _ _ k => ∀ s, (k s).Closed
  | input k => ∀ i, (k i).Closed
  | emit .. | receive .. | hang => False

theorem closed_pure (a : α) : (pure a : Thread σ ν ι μ ρ α).Closed := trivial

theorem closed_ask : (ask : Thread σ ν ι μ ρ ι).Closed := fun _ => trivial

theorem closed_view : (view : Thread σ ν ι μ ρ σ).Closed := fun _ => trivial

theorem closed_update (c : ν) (g : σ → σ) : (update c g : Thread σ ν ι μ ρ σ).Closed := fun _ => trivial

theorem closed_bind (hp : p.Closed) (hf : ∀ a, (f a).Closed) : (p >>= f).Closed := by
  change (p.bind f).Closed
  induction p with
  | ret a => exact hf a
  | look k ih => exact fun s => ih s (hp s)
  | write c g k ih => exact fun s => ih s (hp s)
  | input k ih => exact fun i => ih i (hp i)
  | emit | receive | hang => exact hp.elim

/-- It comes to its end on one and the same choice, made as often as it asks. -/
theorem Closed.draws (hp : p.Closed) {i : ι} (hi : ∀ w, O.input i w) (w : ε × σ) :
    ∃ is a w', Draws O p w is a w' ∧ ∀ j ∈ is, j = i := by
  induction p generalizing w with
  | ret a => exact ⟨[], a, w, .ret, fun _ hj => absurd hj List.not_mem_nil⟩
  | look k ih =>
    obtain ⟨is, a, w', hdraws, hsame⟩ := ih w.2 (hp w.2) w
    exact ⟨is, a, w', .look hdraws, hsame⟩
  | write c g k ih =>
    obtain ⟨is, a, w', hdraws, hsame⟩ := ih w.2 (hp w.2) (w.1, g w.2)
    exact ⟨is, a, w', .write hdraws, hsame⟩
  | input k ih =>
    obtain ⟨is, a, w', hdraws, hsame⟩ := ih i (hp i) w
    exact ⟨i :: is, a, w', .input (hi w) hdraws, List.forall_mem_cons.mpr ⟨rfl, hsame⟩⟩
  | emit | receive | hang => exact hp.elim

/-- A step in front of a run. -/
theorem Draws.head {p' : Thread σ ν ι μ ρ α} {c : Option ν} (hmove : Move O p w c p' w') (h : Draws O p' w' is a w'') :
    ∃ is', Draws O p w is' a w'' := by
  cases hmove with
  | look => exact ⟨_, .look h⟩
  | write => exact ⟨_, .write h⟩
  | emit he => exact ⟨_, .emit he h⟩
  | receive he => exact ⟨_, .receive he h⟩
  | input hi => exact ⟨_, .input hi h⟩

/-- A run is one that has drawn some choices. -/
theorem ends_iff_draws : Ends O p w a w' ↔ ∃ is, Draws O p w is a w' := by
  constructor
  · have hdraws (x : Thread σ ν ι μ ρ α × (ε × σ))
        (h : Relation.ReflTransGen (fun x y => ∃ c, Move O x.1 x.2 c y.1 y.2) x (.ret a, w')) :
        ∃ is, Draws O x.1 x.2 is a w' := by
      induction h using Relation.ReflTransGen.head_induction_on with
      | refl => exact ⟨[], .ret⟩
      | head hstep _ ih =>
        obtain ⟨c, hmove⟩ := hstep
        obtain ⟨is, hrest⟩ := ih
        exact hrest.head hmove
    exact hdraws (p, w)
  · rintro ⟨is, h⟩
    induction h with
    | ret => exact .refl
    | look _ ih => exact .head ⟨_, .look⟩ ih
    | write _ ih => exact .head ⟨_, .write⟩ ih
    | emit he _ ih => exact .head ⟨_, .emit he⟩ ih
    | receive he _ ih => exact .head ⟨_, .receive he⟩ ih
    | input hi _ ih => exact .head ⟨_, .input hi⟩ ih

end Thread

end ConfigurationFabric.Threads
