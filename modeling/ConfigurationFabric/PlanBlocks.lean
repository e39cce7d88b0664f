import Mathlib.Data.Finset.Dedup
import Mathlib.Data.List.Forall2
import ConfigurationFabric.PlanFields

/-! The target blocks of a plan: each instruction comes from its own. -/

namespace ConfigurationFabric

open LittleEndian
open PartialFold

namespace Plan

/-- The target lines, each with the field lines after it. -/
def blocks : List Bytes → List (List Bytes)
  | [] => []
  | l :: ls => if keywordOf l = text "target" then (l :: ls.takeWhile isField) :: blocks ls else blocks ls

def readInto (i : DeploymentInstruction) (line : Bytes) : Option DeploymentInstruction :=
  (readField 0 (keywordOf line) (valueOf line)).toOption.map (·.assign i)

/-- What the lines of a block say, with defaults for what they do not. -/
def instructionOf : List Bytes → Option DeploymentInstruction
  | [] => none
  | line :: fields =>
    (parseTargetId (valueOf line)).toOption.bind fun target =>
      fields.foldlM readInto { DeploymentInstruction.empty with target }

/-- The block makes the instruction, and nothing else does. -/
structure Makes (block : List Bytes) (i : DeploymentInstruction) : Prop where
  instruction : instructionOf block = some i
  once : (block.map keywordOf).Nodup
  mandatory : ∀ field ∈ mandatory, text field ∈ block.map keywordOf
  kept : ∀ line ∈ block.tail, ∃ f, readField 0 (keywordOf line) (valueOf line) = .ok f ∧ f.assign i = i
  size : i.sizeBytes ≠ 0
  generation : i.generation ≠ 0
  digest : i.digest.isSet = true

/-- The block as far as it has been read. -/
structure Open (s : State) (block : List Bytes) : Prop where
  haveHeader : s.haveHeader = true
  instruction : instructionOf block = some s.current
  once : (block.map keywordOf).Nodup
  seen : s.seenFields = (block.map keywordOf).toFinset
  kept : ∀ line ∈ block.tail, ∃ f, readField 0 (keywordOf line) (valueOf line) = .ok f ∧ f.assign s.current = s.current

variable {s s' : State} {l : Bytes} {ls block : List Bytes}

theorem keyword_ne_plan (f : Field) : f.keyword ≠ text "cf-plan" := by
  cases f <;> simp only [Field.keyword] <;> decide

theorem open_target (hs : s.haveHeader = true) (hk : keywordOf l = text "target") {target : Bytes}
    (hv : parseTargetId (valueOf l) = .ok target) :
    Open { s with
      current := { DeploymentInstruction.empty with target }, seenFields := {text "target"}, inTarget := true } [l] where
  haveHeader := hs
  instruction := by
    rw [instructionOf, hv]
    rfl
  once := List.nodup_singleton _
  seen := by
    rw [List.map_cons, hk]
    rfl
  kept line hline := by cases hline

theorem instructionOf_append {i : DeploymentInstruction} (hblock : instructionOf block = some i) (l : Bytes) :
    instructionOf (block ++ [l]) = readInto i l := by
  cases block with
  | nil => cases hblock
  | cons line fields =>
    unfold instructionOf at hblock
    obtain ⟨target, htarget, hfields⟩ := Option.bind_eq_some_iff.mp hblock
    rw [List.cons_append, instructionOf, htarget, Option.bind_some, List.foldlM_append, hfields]
    exact (Option.bind_some _ _).trans (Option.bind_fun_some _)

theorem Open.field (h : Open s block) (hnew : keywordOf l ∉ s.seenFields) {f : Field}
    (hv : readField 0 (keywordOf l) (valueOf l) = .ok f) :
    Open { s with seenFields := insert (keywordOf l) s.seenFields, current := f.assign s.current } (block ++ [l]) where
  haveHeader := h.haveHeader
  instruction := by
    rw [instructionOf_append h.instruction, readInto, hv]
    rfl
  once := by
    rw [h.seen, List.mem_toFinset] at hnew
    rw [List.map_append, List.map_singleton, ← List.concat_eq_append]
    exact h.once.concat hnew
  seen := by
    ext keyword
    rw [Finset.mem_insert, h.seen, List.mem_toFinset, List.mem_toFinset, List.map_append, List.mem_append, or_comm,
      List.map_singleton, List.mem_singleton]
  kept line hline := by
    obtain ⟨hkeyword, -⟩ := readField_ok.mp hv
    have hne : block ≠ [] := by
      rintro rfl
      cases h.instruction
    rw [List.tail_append_of_ne_nil hne] at hline
    obtain hline | hline := List.mem_append.mp hline
    · obtain ⟨g, hg, hkept⟩ := h.kept line hline
      have hdiffer : g.keyword ≠ f.keyword := by
        rw [← (readField_ok.mp hg).1, ← hkeyword]
        rintro hsame
        refine hnew ?_
        rw [h.seen, List.mem_toFinset, ← hsame]
        exact List.mem_map.mpr ⟨line, List.mem_of_mem_tail hline, rfl⟩
      refine ⟨g, hg, ?_⟩
      change g.assign (f.assign s.current) = f.assign s.current
      rw [assign_comm hdiffer, hkept]
    · obtain rfl := List.mem_singleton.mp hline
      exact ⟨f, hv, assign_assign f s.current⟩

theorem Open.makes (h : Open s block) (hfinished : Finished s) : Makes block s.current where
  instruction := h.instruction
  once := h.once
  mandatory field hfield := by
    have hseen := hfinished.fields field hfield
    rwa [h.seen, List.mem_toFinset] at hseen
  kept := h.kept
  size := hfinished.size
  generation := hfinished.generation
  digest := hfinished.digest

/-- What is read from a line on up to the end of the plan, inside a block or not. -/
theorem run_blocks (hls : ∀ l ∈ ls, isSignificant l = true) (h : ls.foldlM advance s = some s')
    (hclosed : s'.inTarget = false) :
    (s.inTarget = false →
      ∃ made, List.Forall₂ Makes (blocks ls) made ∧ s'.plan.instructions = s.plan.instructions ++ made) ∧
    (∀ block, s.inTarget = true → Open s block →
      ∃ i made, Makes (block ++ ls.takeWhile isField) i ∧ List.Forall₂ Makes (blocks ls) made ∧
        s'.plan.instructions = s.plan.instructions ++ i :: made) := by
  induction ls generalizing s with
  | nil =>
    obtain rfl := Option.some.inj h
    refine ⟨fun _ => ⟨[], .nil, (List.append_nil _).symm⟩, fun block hin _ => ?_⟩
    rw [hclosed] at hin
    cases hin
  | cons l ls ih =>
    obtain ⟨hl, hls⟩ := List.forall_mem_cons.mp hls
    obtain ⟨t, ht, hrest⟩ := foldlM_cons_eq_some.mp h
    have ih := ih hls hrest
    have hother (hk : keywordOf l ≠ text "target") : blocks (l :: ls) = blocks ls := if_neg hk
    have hstop (hk : keywordOf l ∈ headerKeywords) : (l :: ls).takeWhile isField = [] := by
      refine List.takeWhile_cons_of_neg fun hfield => ?_
      exact (isField_iff.mp hfield).2 hk
    cases (advance_iff hl).mp ht with
    | header hs hk hv =>
      rw [hother (by rw [hk]; decide)]
      refine ⟨ih.1, fun block _ hopen => ?_⟩
      rw [hopen.haveHeader] at hs
      cases hs
    | setId hs hk hin hv =>
      rw [hother (by rw [hk]; decide)]
      refine ⟨ih.1, fun block hopen => ?_⟩
      rw [hopen] at hin
      cases hin
    | rolloutSet hs hk hin hv =>
      rw [hother (by rw [hk]; decide)]
      refine ⟨ih.1, fun block hopen => ?_⟩
      rw [hopen] at hin
      cases hin
    | target hs hk hended hset hcount hv =>
      rename_i ended target
      have hblocks : blocks (l :: ls) = (l :: ls.takeWhile isField) :: blocks ls := if_pos hk
      rw [hblocks, hstop (by rw [hk]; decide)]
      unfold Ended at hended
      constructor
      · intro hin
        rw [hin, if_neg Bool.false_ne_true] at hended
        subst hended
        obtain ⟨i, made, hi, hmade, hplan⟩ := ih.2 [l] rfl (open_target hs hk hv)
        exact ⟨i :: made, .cons hi hmade, hplan⟩
      · intro block hin hopen
        rw [if_pos hin] at hended
        obtain ⟨hfinished, rfl⟩ := hended
        obtain ⟨i, made, hi, hmade, hplan⟩ := ih.2 [l] rfl (open_target (s := pushed s) hs hk hv)
        refine ⟨s.current, i :: made, ?_, .cons hi hmade, ?_⟩
        · rw [List.append_nil]
          exact hopen.makes hfinished
        · rw [hplan]
          exact List.append_cons .. |>.symm
    | finish hs hk hin hfinished =>
      rw [hother (by rw [hk]; decide), hstop (by rw [hk]; decide)]
      refine ⟨fun hopen => absurd (hin.symm.trans hopen) (by decide), fun block _ hopen => ?_⟩
      obtain ⟨made, hmade, hplan⟩ := ih.1 rfl
      refine ⟨s.current, made, ?_, hmade, ?_⟩
      · rw [List.append_nil]
        exact hopen.makes hfinished
      · rw [hplan]
        exact List.append_cons .. |>.symm
    | field hs hk hin hnew hv =>
      rename_i f
      have hkeyword := (readField_ok.mp hv).1
      have hfield : isField l = true := isField_iff.mpr ⟨by rw [hkeyword]; exact keyword_ne_plan f, hk⟩
      have hne : keywordOf l ≠ text "target" := fun htarget => hk (by rw [htarget]; decide)
      rw [hother hne, List.takeWhile_cons_of_pos hfield]
      refine ⟨fun hopen => absurd (hin.symm.trans hopen) (by decide), fun block _ hopen => ?_⟩
      obtain ⟨i, made, hi, hmade, hplan⟩ := ih.2 (block ++ [l]) hin (hopen.field hnew hv)
      rw [List.append_assoc] at hi
      exact ⟨i, made, hi, hmade, hplan⟩

/-- The targets of the plan are the ones that have been seen, each once. -/
structure Distinct (s : State) : Prop where
  seen : ∀ i ∈ s.plan.instructions, i.target ∈ s.seenTargets
  nodup : (s.plan.instructions.map (·.target)).Nodup

theorem Distinct.pushed (h : Distinct s) (hfinished : Finished s) : Distinct (pushed s) where
  seen i hi := by
    obtain hi | hi := List.mem_append.mp hi
    · exact Finset.mem_insert_of_mem (h.seen i hi)
    · obtain rfl := List.mem_singleton.mp hi
      exact Finset.mem_insert_self _ _
  nodup := by
    change ((s.plan.instructions ++ [s.current]).map (·.target)).Nodup
    rw [List.map_append, List.map_singleton, ← List.concat_eq_append]
    refine h.nodup.concat fun hmem => ?_
    obtain ⟨i, hi, hsame⟩ := List.mem_map.mp hmem
    exact hfinished.target (hsame ▸ h.seen i hi)

theorem Distinct.turn (h : Distinct s) (ht : Turn s l s') : Distinct s' := by
  cases ht with
  | header => exact ⟨h.seen, h.nodup⟩
  | setId => exact ⟨h.seen, h.nodup⟩
  | rolloutSet => exact ⟨h.seen, h.nodup⟩
  | field => exact ⟨h.seen, h.nodup⟩
  | finish hs hk hin hfinished => exact ⟨(h.pushed hfinished).seen, (h.pushed hfinished).nodup⟩
  | target hs hk hended =>
    unfold Ended at hended
    split at hended
    · obtain ⟨hfinished, rfl⟩ := hended
      exact ⟨(h.pushed hfinished).seen, (h.pushed hfinished).nodup⟩
    · subst hended
      exact ⟨h.seen, h.nodup⟩

theorem significant_all {t : Bytes} : ∀ l ∈ significant t, isSignificant l = true := fun _ hl => List.of_mem_filter hl

theorem parse_blocks {t : Bytes} {name : String} {p : DeploymentPlan} (h : parseDeploymentPlan t name = .ok p) :
    List.Forall₂ Makes (blocks (significant t)) p.instructions := by
  obtain ⟨-, s, hs, hcomplete, rfl⟩ := parse_ok_iff.mp h
  obtain ⟨made, hmade, hplan⟩ := (run_blocks significant_all hs hcomplete.ended).1 rfl
  rw [hplan]
  exact hmade

theorem parse_distinct {t : Bytes} {name : String} {p : DeploymentPlan} (h : parseDeploymentPlan t name = .ok p) :
    (p.instructions.map (·.target)).Nodup := by
  obtain ⟨-, s, hs, -, rfl⟩ := parse_ok_iff.mp h
  have hstart : Distinct {} := ⟨by simp, List.nodup_nil⟩
  have hdistinct : Distinct s := by
    refine foldlM_keeps (fun s l s' hl hd ht => ?_) hstart hs
    exact hd.turn ((advance_iff (significant_all l hl)).mp ht)
  exact hdistinct.nodup

/-- A plan does not depend on the order of the fields in a block, on blank lines, comments or indentation; each of its
instructions is what its own block says, where all mandatory fields stand, and no two have one target. -/
theorem plan_blocks_isolated {t : Bytes} {name : String} {p : DeploymentPlan}
    (h : parseDeploymentPlan t name = .ok p) :
    (∀ t' name', Edited t t' → Within t' → parseDeploymentPlan t' name' = .ok p) ∧
    List.Forall₂ Makes (blocks (significant t)) p.instructions ∧ (p.instructions.map (·.target)).Nodup := by
  obtain ⟨-, hp⟩ := parse_ok_iff.mp h
  have hedits (t' : Bytes) (name' : String) (hedited : Edited t t') (hwithin' : Within t') :
      parseDeploymentPlan t' name' = .ok p :=
    parse_ok_iff.mpr ⟨hwithin', accepts_edited hedited hp⟩
  exact ⟨hedits, parse_blocks h, parse_distinct h⟩

def exampleFields : List String :=
  ["class network-device", "guarantee atomic-activate", "config-key k", "artifact a", "revision 1", "generation 1",
    "schema s", "schema-version 1", "digest 0000000000000000000000000000000000000000000000000000000000000001", "size 1",
    "requires require-atomic"]

def examplePlanText (fields : List String) : Bytes :=
  (["cf-plan 1", "set-id s", "target r"] ++ fields ++ ["end", ""] : List String).flatMap fun line => text line ++ [10]

/-- The fields of the one block the other way round. -/
theorem reversed_fields_read_the_same :
    ∃ p, parseDeploymentPlan (examplePlanText exampleFields) "plan" = .ok p ∧
      parseDeploymentPlan (examplePlanText exampleFields.reverse) "plan" = .ok p ∧
      List.Forall₂ Makes (blocks (significant (examplePlanText exampleFields))) p.instructions ∧
      (p.instructions.map (·.target)).Nodup := by
  have hsplit (fields : List String) (hfields : fields = exampleFields ∨ fields = exampleFields.reverse) :
      (examplePlanText fields).splitOn 10 =
        ["cf-plan 1", "set-id s", "target r"].map text ++ fields.map text ++ ["end", "", ""].map text := by
    obtain rfl | rfl := hfields <;> decide
  have hok : (parseDeploymentPlan (examplePlanText exampleFields) "plan").isOk = true := by decide +kernel
  have hok' : (parseDeploymentPlan (examplePlanText exampleFields.reverse) "plan").isOk = true := by decide +kernel
  have hedited : Edited (examplePlanText exampleFields) (examplePlanText exampleFields.reverse) := by
    unfold Edited
    rw [hsplit _ (.inl rfl), hsplit _ (.inr rfl)]
    refine .rel _ _ (.permute _ _ ((List.reverse_perm exampleFields).symm.map text) ?_)
    decide
  cases hp : parseDeploymentPlan (examplePlanText exampleFields) "plan" with
  | error e =>
    rw [hp] at hok
    cases hok
  | ok p =>
    cases hp' : parseDeploymentPlan (examplePlanText exampleFields.reverse) "plan" with
    | error e =>
      rw [hp'] at hok'
      cases hok'
    | ok p' =>
      obtain ⟨hsame, hblocks, hdistinct⟩ := plan_blocks_isolated hp
      have hreversed := hsame _ "plan" hedited (parse_ok_iff.mp hp').1
      rw [hp'] at hreversed
      exact ⟨p, rfl, hreversed, hblocks, hdistinct⟩

end Plan

end ConfigurationFabric
