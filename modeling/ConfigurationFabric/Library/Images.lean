import ConfigurationFabric.Library.Threads

/-! A crew in a world of which only an image matters: its runs, seen through the image, are runs of a crew there. -/

namespace ConfigurationFabric.Threads

variable {σ ν ι μ ρ α ε ε' τ : Type}

def seen (f : ε' → ε) (w : ε' × σ) : ε × σ := (f w.1, w.2)

def Pool.image (f : ε' → ε) (P : Pool σ ν ι μ ρ α ε' τ) : Pool σ ν ι μ ρ α ε τ := ⟨seen f P.world, P.threads⟩

/-- Where `J` holds, what the one outside does is, in the image, what the other may do. A message has to be a `fit` one. -/
structure Outside.Shows (O' : Outside ε' σ ι μ ρ) (O : Outside ε σ ι μ ρ) (f : ε' → ε) (J : ε' → Prop)
    (fit : μ → ε × σ → Prop) : Prop where
  emit : ∀ {m w e}, J w.1 → fit m (seen f w) → O'.emit m w e → O.emit m (seen f w) (f e) ∧ J e
  receive : ∀ {r w e}, J w.1 → O'.receive r w e → O.receive r (seen f w) (f e) ∧ J e
  input : ∀ {i w}, O'.input i w → O.input i (seen f w)

section Images

variable {f : ε' → ε} {J : ε' → Prop}

theorem Thread.Move.image {O' : Outside ε' σ ι μ ρ} {O : Outside ε σ ι μ ρ} {fit : μ → ε × σ → Prop}
    {p p' : Thread σ ν ι μ ρ α} {c : Option ν} {w w' : ε' × σ} (hshows : O'.Shows O f J fit)
    (hfit : ∀ m k, p = .emit m k → fit m (seen f w)) (hJ : J w.1) (h : Thread.Move O' p w c p' w') :
    Thread.Move O p (seen f w) c p' (seen f w') ∧ J w'.1 := by
  cases h with
  | look => exact ⟨.look, hJ⟩
  | write => exact ⟨.write, hJ⟩
  | emit he =>
    obtain ⟨hemit, hJ'⟩ := hshows.emit hJ (hfit _ _ rfl) he
    exact ⟨.emit hemit, hJ'⟩
  | receive he =>
    obtain ⟨hreceive, hJ'⟩ := hshows.receive hJ he
    exact ⟨.receive hreceive, hJ'⟩
  | input hi => exact ⟨.input (hshows.input hi), hJ⟩

/-- A thread alone that sends nothing but what is fit. -/
theorem Thread.image_reaches {O' : Outside ε' σ ι μ ρ} {O : Outside ε σ ι μ ρ} (hshows : O'.Shows O f J fun _ _ => True)
    {x y : Thread σ ν ι μ ρ α × (ε' × σ)} (hJ : J x.2.1)
    (h : Relation.ReflTransGen (fun x y => ∃ c, Thread.Move O' x.1 x.2 c y.1 y.2) x y) :
    Relation.ReflTransGen (fun x y => ∃ c, Thread.Move O x.1 x.2 c y.1 y.2) (x.1, seen f x.2) (y.1, seen f y.2) ∧
      J y.2.1 := by
  induction h with
  | refl => exact ⟨.refl, hJ⟩
  | tail _ hstep ih =>
    obtain ⟨c, hmove⟩ := hstep
    obtain ⟨hmove', hJ'⟩ := hmove.image hshows (fun _ _ _ => trivial) ih.2
    exact ⟨ih.1.tail ⟨c, hmove'⟩, hJ'⟩

variable {O' : τ → Outside ε' σ ι μ ρ} {O : τ → Outside ε σ ι μ ρ} {program : τ → Thread σ ν ι μ ρ α}
  {admits : Pool σ ν ι μ ρ α ε τ → τ → Prop} {meets : τ → Option ν → ε × σ → ε × σ → Prop}
  {D : Crew.Discipline O program admits meets} {P P' : Pool σ ν ι μ ρ α ε' τ}

/-- The steps of a crew whose conditions are about the image. -/
abbrev Crew.Above (O' : τ → Outside ε' σ ι μ ρ) (program : τ → Thread σ ν ι μ ρ α) (f : ε' → ε)
    (admits : Pool σ ν ι μ ρ α ε τ → τ → Prop) (meets : τ → Option ν → ε × σ → ε × σ → Prop) :
    Pool σ ν ι μ ρ α ε' τ → Pool σ ν ι μ ρ α ε' τ → Prop :=
  Crew.Step O' program (fun P t => admits (P.image f) t) fun t c w w' => meets t c (seen f w) (seen f w')

/-- A discipline vouches for a message that it lets a task send. -/
def Crew.Discipline.Fit (D : Crew.Discipline O program admits meets) (t : τ) (m : μ) (w : ε × σ) : Prop :=
  D.I w ∧ ∀ e, (O t).emit m w e → D.G t none w (e, w.2)

theorem Crew.Discipline.Keeps.image_step
    (hshows : ∀ t, (O' t).Shows (O t) f J (D.Fit t)) (hP : D.Keeps (P.image f)) (hJ : J P.world.1)
    (hstep : Crew.Above O' program f admits meets P P') :
    Crew.Step O program admits meets (P.image f) (P'.image f) ∧ J P'.world.1 := by
  cases hstep with
  | spawn ht => exact ⟨.spawn ht, hJ⟩
  | @move w w' before after t p p' c hmove hmeets =>
    have hfit (m : μ) (k : Thread σ ν ι μ ρ α) (hp : p = .emit m k) : D.Fit t m (seen f w) := by
      subst hp
      obtain ⟨w₀, hrely, hsteps⟩ := hP.course (t, .emit m k) (List.mem_append_right _ List.mem_cons_self)
      exact ⟨hP.holds, fun e he => (hsteps _ e hrely he).1⟩
    obtain ⟨hmove', hJ'⟩ := hmove.image (hshows t) hfit hJ
    exact ⟨.move hmove' hmeets, hJ'⟩
  | join => exact ⟨.join, hJ⟩

/-- The run lemma. -/
theorem Crew.Discipline.Keeps.image_run
    (hshows : ∀ t, (O' t).Shows (O t) f J (D.Fit t)) (hP : D.Keeps (P.image f)) (hJ : J P.world.1)
    (hrun : Relation.ReflTransGen (Crew.Above O' program f admits meets) P P') :
    Crew.Run O program admits meets (P.image f) (P'.image f) ∧ J P'.world.1 := by
  induction hrun with
  | refl => exact ⟨.refl, hJ⟩
  | tail _ hstep ih =>
    obtain ⟨hstep', hJ'⟩ := Crew.Discipline.Keeps.image_step hshows (hP.runs ih.1) ih.2 hstep
    exact ⟨ih.1.tail hstep', hJ'⟩

end Images

end ConfigurationFabric.Threads
