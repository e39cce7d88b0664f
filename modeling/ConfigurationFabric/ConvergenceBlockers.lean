import ConfigurationFabric.ConvergenceCounts

/-! What stands between a lineage and its desired content. -/

namespace ConfigurationFabric

open LittleEndian

namespace Convergence

variable {s : ControllerState} {p : DistributorPolicy} {now : ℤ} {d : DeliveryRecord} {l : LineageConvergence}
  {fresh : Bool} {runtime : Option TargetRuntime}

/-! Sorted lists without repetitions. -/

section Unique

variable {α : Type} [DecidableEq α] {r : α → α → Prop}

theorem unique_eq_nil {l : List α} : unique l = [] ↔ l = [] := by
  rw [← List.head?_eq_none_iff, head?_unique, List.head?_eq_none_iff]

theorem unique_pairwise {l : List α} (hl : l.Pairwise fun a b => ¬ r b a) (htotal : ∀ a b, ¬ r a b → ¬ r b a → a = b)
    (htrans : ∀ a b c, r a b → ¬ r c b → r a c) : (unique l).Pairwise r := by
  induction l using unique.induct with
  | case1 => exact List.Pairwise.nil
  | case2 a => exact List.pairwise_singleton _ _
  | case3 b l ih =>
    rw [unique, if_pos rfl]
    exact ih (List.pairwise_cons.mp hl).2
  | case4 b b' l hne ih =>
    obtain ⟨hb, hrest⟩ := List.pairwise_cons.mp hl
    rw [unique, if_neg hne, List.pairwise_cons]
    refine ⟨fun x hx => ?_, ih hrest⟩
    have hfirst : r b b' := by
      by_contra hno
      exact hne (htotal b b' hno (hb b' List.mem_cons_self))
    obtain rfl | hx := List.mem_cons.mp (mem_unique.mp hx)
    · exact hfirst
    · exact htrans b b' x hfirst ((List.pairwise_cons.mp hrest).1 x hx)

end Unique

theorem sort_eq_nil {α : Type} {less : α → α → Bool} {l : List α} : sort less l = [] ↔ l = [] := by
  constructor
  · intro h
    have hlength := congrArg List.length h
    rw [sort, List.length_insertionSort] at hlength
    exact List.eq_nil_of_length_eq_zero hlength
  · rintro rfl
    rfl

theorem blockers_eq_nil : (arranged l).blockers = [] ↔ l.blockers = [] := unique_eq_nil.trans sort_eq_nil

theorem pending_eq_nil : (arranged l).pending = [] ↔ l.pending = [] := unique_eq_nil.trans sort_eq_nil

theorem blockers_increasing : (arranged l).blockers.Pairwise fun a b => a.value < b.value := by
  apply unique_pairwise ((blockers_pairwise l.blockers).imp fun h => not_lt.mpr h)
  · exact fun a b h h' => value_injective (le_antisymm (not_lt.mp h') (not_lt.mp h))
  · exact fun a b c h h' => h.trans_le (not_lt.mp h')

theorem pending_increasing : (arranged l).pending.Pairwise fun a b => a < b := by
  have hsorted : (sort (fun lhs rhs => lhs < rhs) l.pending).Pairwise fun a b => ¬ b < a := by
    have : Std.Total fun a b : Bytes => decide (b < a) = false := by
      constructor
      intro a b
      rw [decide_eq_false_iff_not, decide_eq_false_iff_not]
      by_contra hno
      rw [not_or, not_not, not_not] at hno
      exact Std.Irrefl.irrefl (r := ((· < ·) : Bytes → Bytes → Prop)) _ (IsTrans.trans _ _ _ hno.1 hno.2)
    have : IsTrans Bytes fun a b => decide (b < a) = false := by
      constructor
      intro a b c hab hbc
      rw [decide_eq_false_iff_not] at *
      intro hca
      by_cases hsame : a = b
      · exact hbc (hsame ▸ hca)
      · have hlt : a < b := by
          by_contra hno
          exact hsame (Std.Trichotomous.trichotomous (r := ((· < ·) : Bytes → Bytes → Prop)) _ _ hno hab)
        exact hbc (IsTrans.trans _ _ _ hca hlt)
    exact (List.pairwise_insertionSort _ l.pending).imp of_decide_eq_false
  apply unique_pairwise hsorted
  · exact fun a b h h' => Std.Trichotomous.trichotomous (r := ((· < ·) : Bytes → Bytes → Prop)) _ _ h h'
  · intro a b c h h'
    by_cases hsame : b = c
    · exact hsame ▸ h
    · have hlt : b < c := by
        by_contra hno
        exact hsame (Std.Trichotomous.trichotomous (r := ((· < ·) : Bytes → Bytes → Prop)) _ _ hno h')
      exact IsTrans.trans _ _ _ h hlt

/-! One entry. -/

theorem blockers_lineageBase : (lineageBase d runtime).blockers = [] := by
  cases runtime <;> rfl

theorem pending_lineageBase : (lineageBase d runtime).pending = [] := by
  cases runtime <;> rfl

theorem converged_lineageBase : (lineageBase d runtime).converged = false := by
  cases runtime <;> rfl

/-- Only an acknowledged delivery has converged, and only it adds no blocker. -/
theorem stateFindings_acknowledged (hl : l.converged = false) (hblockers : l.blockers = []) :
    ((stateFindings p d l).converged = true ↔ d.state = .acknowledged) ∧
      ((stateFindings p d l).blockers = [] ↔ d.state = .acknowledged) := by
  have hopen {x : LineageConvergence} (hx : x.converged = false) (hblocked : x.blockers ≠ [])
      (hne : d.state ≠ .acknowledged) : (x.converged = true ↔ d.state = .acknowledged) ∧
        (x.blockers = [] ↔ d.state = .acknowledged) :=
    ⟨iff_of_false (by rw [hx]; exact Bool.false_ne_true) hne, iff_of_false hblocked hne⟩
  unfold stateFindings
  split
  next h => exact ⟨iff_of_true rfl h, iff_of_true hblockers h⟩
  all_goals
    next h => exact hopen hl (List.append_ne_nil_of_right_ne_nil _ (List.cons_ne_nil _ _)) (by rw [h]; decide)

theorem pending_stateFindings (hl : l.pending = []) (hstate : d.state = .acknowledged) :
    (stateFindings p d l).pending = [] := by
  rw [stateFindings, hstate]
  exact hl

theorem converged_runtimeFindings : (runtimeFindings fresh d runtime l).converged = l.converged := by
  cases runtime with
  | none => rfl
  | some r =>
    simp only [runtimeFindings]
    split <;> split <;> split <;> rfl

/-- A target that is known, with no window open, and not ahead. -/
def Agrees (runtime : Option TargetRuntime) (d : DeliveryRecord) : Prop :=
  ∃ r, runtime = some r ∧ r.applyPrepared = false ∧ r.committedGeneration ≤ d.generation

theorem runtimeFindings_settled (hstate : isPendingState d.state = false) :
    ((runtimeFindings fresh d runtime l).blockers = [] ↔ l.blockers = [] ∧ Agrees runtime d) ∧
      (Agrees runtime d → runtimeFindings fresh d runtime l = l) := by
  cases runtime with
  | none =>
    have hunknown : ¬ Agrees none d := fun ⟨_, h, _⟩ => by cases h
    refine ⟨iff_of_false ?_ fun h => hunknown h.2, fun h => absurd h hunknown⟩
    exact List.append_ne_nil_of_right_ne_nil _ (List.cons_ne_nil _ _)
  | some r =>
    have hagrees : Agrees (some r) d ↔ r.applyPrepared = false ∧ r.committedGeneration ≤ d.generation := by
      simp [Agrees]
    rw [hagrees]
    simp only [runtimeFindings, hstate, Bool.and_false, Bool.false_eq_true, if_false]
    by_cases hwindow : r.applyPrepared = true
    · by_cases hahead : r.committedGeneration > d.generation <;>
        simp [hwindow, hahead, windowFinding, aheadFinding]
    · by_cases hahead : r.committedGeneration > d.generation
      · simp [hwindow, hahead, aheadFinding]
      · simp [hwindow, hahead, not_lt.mp hahead]

theorem runtimeFindings_blocked (h : l.blockers ≠ []) : (runtimeFindings fresh d runtime l).blockers ≠ [] := by
  cases runtime with
  | none => exact List.append_ne_nil_of_right_ne_nil _ (List.cons_ne_nil _ _)
  | some r =>
    simp only [runtimeFindings]
    split <;> split <;> split <;> simp [staleFinding, windowFinding, aheadFinding, h]

/-- The blockers of an entry, and what they leave to be done. -/
structure Explains (s : ControllerState) (d : DeliveryRecord) (l : LineageConvergence) : Prop where
  converged : l.converged = true ↔ d.state = .acknowledged
  clear : l.blockers = [] ↔ l.converged = true ∧ Agrees (s.findTarget d.target) d
  settled : l.blockers = [] → l.pending = []
  blockers : l.blockers.Pairwise fun a b => a.value < b.value
  pending : l.pending.Pairwise fun a b => a < b

theorem explains_buildLineage : Explains s d (buildLineage s p now d) := by
  have hbase : (lineageBase d (s.findTarget d.target)).converged = false := converged_lineageBase
  obtain ⟨hconverged, hblockers⟩ := stateFindings_acknowledged (p := p) (d := d) hbase blockers_lineageBase
  have hsame : (buildLineage s p now d).converged = true ↔ d.state = .acknowledged := by
    rw [← hconverged]
    exact Iff.of_eq (congrArg (· = true) converged_runtimeFindings)
  have hclear : (buildLineage s p now d).blockers = [] ↔ d.state = .acknowledged ∧ Agrees (s.findTarget d.target) d := by
    refine blockers_eq_nil.trans ?_
    by_cases hstate : d.state = .acknowledged
    · rw [(runtimeFindings_settled (by rw [hstate]; rfl)).1, hblockers]
    · exact iff_of_false (runtimeFindings_blocked fun h => hstate (hblockers.mp h)) fun h => hstate h.1
  refine ⟨hsame, hclear.trans (and_congr_left' hsame.symm), fun h => ?_, blockers_increasing, pending_increasing⟩
  obtain ⟨hstate, hagrees⟩ := hclear.mp h
  apply pending_eq_nil.mpr
  rw [(runtimeFindings_settled (by rw [hstate]; rfl)).2 hagrees]
  exact pending_stateFindings pending_lineageBase hstate

theorem current_buildLineage {r : TargetRuntime} (h : s.findTarget d.target = some r) :
    (buildLineage s p now d).currentGeneration = r.committedGeneration ∧
      (buildLineage s p now d).currentDigest = r.committedDigest := by
  have hstate (l : LineageConvergence) : (stateFindings p d l).currentGeneration = l.currentGeneration ∧
      (stateFindings p d l).currentDigest = l.currentDigest := by
    unfold stateFindings
    split <;> exact ⟨rfl, rfl⟩
  have hruntime (fresh : Bool) (l : LineageConvergence) :
      (runtimeFindings fresh d (some r) l).currentGeneration = l.currentGeneration ∧
        (runtimeFindings fresh d (some r) l).currentDigest = l.currentDigest := by
    simp only [runtimeFindings]
    split <;> split <;> split <;> exact ⟨rfl, rfl⟩
  obtain ⟨hgeneration, hdigest⟩ := hstate (lineageBase d (some r))
  rw [buildLineage, h]
  exact ⟨(hruntime _ _).1.trans hgeneration, (hruntime _ _).2.trans hdigest⟩

theorem entry_of_report (hl : l ∈ (buildConvergenceReport s p now).lineages) :
    ∃ e ∈ lineages s, ∃ d, desired e.2 = some d ∧ l = buildLineage s p now d := by
  rw [lineages_report, desiredDeliveries] at hl
  obtain ⟨d, hd, rfl⟩ := List.mem_map.mp hl
  obtain ⟨e, he, hdesired⟩ := List.mem_filterMap.mp hd
  exact ⟨e, he, d, hdesired, rfl⟩

/-- Every entry that has not converged names a blocker, and one that has converged names none where the target is known,
with no window open and at no newer generation. -/
theorem report_explains (s : ControllerState) (hs : s.Filed) (p : DistributorPolicy) (now : ℤ) (l : LineageConvergence)
    (hl : l ∈ (buildConvergenceReport s p now).lineages) :
    ∃ d, s.latestForLineage l.target l.key = some d ∧ Explains s d l := by
  obtain ⟨e, he, d, hd, rfl⟩ := entry_of_report hl
  obtain ⟨htarget, hkey⟩ := LineageKey.mk.inj (@entry_buildLineage s p now d).1
  rw [htarget, hkey]
  exact ⟨d, latest_of_desired hs he hd, explains_buildLineage⟩

theorem three_deliveries_explained :
    (buildConvergenceReport threeDeliveries {} 0).lineages.map (fun l => (l.converged, l.blockers)) =
      [(true, [.targetUnreachable]), (false, [.notYetDelivered, .targetUnreachable])] ∧
    ∀ l ∈ (buildConvergenceReport threeDeliveries {} 0).lineages,
      ∃ d, threeDeliveries.latestForLineage l.target l.key = some d ∧ Explains threeDeliveries d l := by
  have hfiled : threeDeliveries.Filed := by
    constructor
    · decide
    · decide
    · exact List.Pairwise.cons (by decide) (List.Pairwise.cons (by decide) (List.pairwise_singleton _ _))
  exact ⟨by decide, report_explains threeDeliveries hfiled {} 0⟩

end Convergence

end ConfigurationFabric
