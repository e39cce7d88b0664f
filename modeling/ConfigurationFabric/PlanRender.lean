import ConfigurationFabric.PlanHeader
import ConfigurationFabric.PlanValues
import ConfigurationFabric.Library.Delimited

/-! The canonical text of a plan: its lines, and that they are read as the plan they show. -/

namespace ConfigurationFabric

open LittleEndian
open PartialFold

namespace Plan

/-! The lines. -/

/-- The fields that the canonical text always has. -/
def alwaysOf (i : DeploymentInstruction) : List Field :=
  [.class i.targetClass, .guarantee i.declaredGuarantee, .configKey i.configKey, .artifact i.artifact,
    .revision i.revision, .generation i.generation, .schema i.schema, .schemaVersion i.schemaVersion, .digest i.digest,
    .size i.sizeBytes, .requires i.requirement, .mediaType i.mediaType]

def optionalOf (i : DeploymentInstruction) : List Field :=
  (if i.producer ≠ [] then [.producer i.producer] else []) ++
    ((if i.sourcePath ≠ [] then [.source i.sourcePath] else []) ++
      if i.endpoint ≠ [] then [.endpoint i.endpoint] else [])

def fieldsOf (i : DeploymentInstruction) : List Field := alwaysOf i ++ optionalOf i

/-- The lines of a block, with what stands before each field. -/
def blockLines (indent : Bytes) (i : DeploymentInstruction) : List Bytes :=
  entry (text "target") i.target :: ((fieldsOf i).map fun f => indent ++ entry f.keyword f.shown) ++ [text "end"]

def headerLines (p : DeploymentPlan) : List Bytes :=
  entry (text "cf-plan") (text (toString kDeploymentPlanFormatVersion)) :: entry (text "set-id") p.setId ::
    if p.rolloutSet ≠ [] then [entry (text "rollout-set") p.rolloutSet] else []

def planLines (indent : Bytes) (p : DeploymentPlan) : List Bytes :=
  headerLines p ++ p.instructions.flatMap (blockLines indent)

variable {s s' : State} {i : DeploymentInstruction} {p : DeploymentPlan} {f g : Field} {indent : Bytes}

theorem line_field {words : String} (keyword : Bytes) (hwords : text words = text "  " ++ keyword ++ [32])
    (value : Bytes) : line words value = text "  " ++ entry keyword value ++ [10] := by
  rw [line, hwords, entry]
  simp only [List.append_assoc, List.singleton_append]

theorem line_entry {words : String} (keyword : Bytes) (hwords : text words = keyword ++ [32]) (value : Bytes) :
    line words value = entry keyword value ++ [10] := by
  rw [line, hwords, entry]
  simp only [List.append_assoc, List.singleton_append]

theorem renderInstruction_eq (i : DeploymentInstruction) :
    renderInstruction i = (blockLines (text "  ") i).flatMap fun l => l ++ [10] := by
  have hend : text "end\n" = text "end" ++ [10] := by decide
  unfold renderInstruction
  rw [line_entry (text "target") (by decide), line_field (text "class") (by decide),
    line_field (text "guarantee") (by decide), line_field (text "config-key") (by decide),
    line_field (text "artifact") (by decide), line_field (text "revision") (by decide),
    line_field (text "generation") (by decide), line_field (text "schema") (by decide),
    line_field (text "schema-version") (by decide), line_field (text "digest") (by decide),
    line_field (text "size") (by decide), line_field (text "requires") (by decide),
    line_field (text "media-type") (by decide), line_field (text "producer") (by decide),
    line_field (text "source") (by decide), line_field (text "endpoint") (by decide), hend]
  unfold blockLines fieldsOf alwaysOf optionalOf
  split_ifs
  all_goals simp only [List.map_nil, List.map_cons, List.flatMap_cons, List.flatMap_nil, List.append_assoc, List.append_nil, List.nil_append, List.cons_append, Field.keyword, Field.shown]

theorem render_eq (p : DeploymentPlan) :
    renderDeploymentPlan p = (planLines (text "  ") p).flatMap fun l => l ++ [10] := by
  have hinstructions : p.instructions.flatMap renderInstruction =
      (p.instructions.flatMap (blockLines (text "  "))).flatMap fun l => l ++ [10] := by
    rw [funext renderInstruction_eq, List.flatMap_assoc]
  unfold renderDeploymentPlan
  rw [line_entry (text "cf-plan") (by decide), line_entry (text "set-id") (by decide),
    line_entry (text "rollout-set") (by decide), hinstructions]
  unfold planLines headerLines
  split_ifs
  all_goals simp only [List.flatMap_cons, List.append_assoc, List.append_nil, List.nil_append, List.cons_append]

/-! Plans whose canonical text can be read. -/

/-- What the parser lets through as an instruction. -/
structure InstructionSound (i : DeploymentInstruction) : Prop where
  target : isValidIdentifier i.target = true
  fields : ∀ f ∈ fieldsOf i, Shown f.shown ∧ f.Read f.shown
  size : i.sizeBytes ≠ 0
  generation : i.generation ≠ 0
  digest : i.digest.isSet = true

/-- What the parser lets through as a plan. -/
structure PlanSound (p : DeploymentPlan) : Prop where
  setId : isValidIdentifier p.setId = true
  rolloutSet : p.rolloutSet ≠ [] → isValidIdentifier p.rolloutSet = true
  instructions : ∀ i ∈ p.instructions, InstructionSound i
  distinct : (p.instructions.map (·.target)).Nodup
  some : p.instructions ≠ []
  count : p.instructions.length ≤ kMaxPlanTargets

theorem keyword_not_header (f : Field) : f.keyword ∉ headerKeywords := by
  cases f <;> simp only [Field.keyword] <;> decide

theorem length_keyword_le (f : Field) : f.keyword.length ≤ 14 := by
  cases f <;> simp only [Field.keyword] <;> decide

/-- A field line taken. -/
def took (s : State) (f : Field) : State :=
  { s with seenFields := insert f.keyword s.seenFields, current := f.assign s.current }

theorem run_fields {fs : List Field} (hfs : ∀ f ∈ fs, Shown f.shown ∧ f.Read f.shown)
    (hdistinct : (fs.map Field.keyword).Nodup) (hheader : s.haveHeader = true) (hin : s.inTarget = true)
    (hnew : ∀ f ∈ fs, f.keyword ∉ s.seenFields) :
    (fs.map fun f => entry f.keyword f.shown).foldlM advance s = some (fs.foldl took s) := by
  induction fs generalizing s with
  | nil => rfl
  | cons f fs ih =>
    obtain ⟨⟨hshown, hread⟩, hfs⟩ := List.forall_mem_cons.mp hfs
    obtain ⟨hf, hnew⟩ := List.forall_mem_cons.mp hnew
    obtain ⟨hother, hdistinct⟩ := List.nodup_cons.mp hdistinct
    have hkeyword := isKeyword_keyword f
    have hk := keywordOf_entry hkeyword f.shown
    have hv := valueOf_entry hkeyword hshown.bare
    have hturn : advance s (entry f.keyword f.shown) = some (took s f) := by
      rw [advance_iff (isSignificant_entry hkeyword)]
      have hfield : keywordOf (entry f.keyword f.shown) ∉ headerKeywords := by
        rw [hk]
        exact keyword_not_header f
      have hvalue : readField 0 (keywordOf (entry f.keyword f.shown)) (valueOf (entry f.keyword f.shown)) = .ok f := by
        rw [hk, hv]
        exact readField_of_read hread
      have hturned := Turn.field hheader hfield hin (by rwa [hk]) hvalue
      rwa [hk] at hturned
    rw [List.map_cons, List.foldlM_cons, hturn]
    refine ih hfs hdistinct hheader hin fun g hg => ?_
    rw [took, Finset.mem_insert, not_or]
    refine ⟨fun hsame => hother ?_, hnew g hg⟩
    rw [← hsame]
    exact List.mem_map.mpr ⟨g, hg, rfl⟩

theorem taken_fields (fs : List Field) (s : State) :
    (fs.foldl took s).current = fs.foldl (fun i f => f.assign i) s.current ∧
      (∀ keyword ∈ fs.map Field.keyword, keyword ∈ (fs.foldl took s).seenFields) ∧
      s.seenFields ⊆ (fs.foldl took s).seenFields ∧
      fs.foldl took s = { s with
        seenFields := (fs.foldl took s).seenFields, current := (fs.foldl took s).current } := by
  induction fs generalizing s with
  | nil => exact ⟨rfl, by simp, Finset.Subset.refl _, rfl⟩
  | cons f fs ih =>
    obtain ⟨hcurrent, hseen, hsubset, hrest⟩ := ih (took s f)
    refine ⟨hcurrent, ?_, (Finset.subset_insert _ _).trans hsubset, hrest⟩
    rw [List.map_cons]
    exact List.forall_mem_cons.mpr ⟨hsubset (Finset.mem_insert_self _ _), hseen⟩

theorem keywords_always (i : DeploymentInstruction) :
    (alwaysOf i).map Field.keyword =
      ["class", "guarantee", "config-key", "artifact", "revision", "generation", "schema", "schema-version", "digest",
        "size", "requires", "media-type"].map text := rfl

/-- All fields of the instruction, shown or not. -/
def allOf (i : DeploymentInstruction) : List Field :=
  alwaysOf i ++ [.producer i.producer, .source i.sourcePath, .endpoint i.endpoint]

theorem keywords_all_nodup (i : DeploymentInstruction) : ((allOf i).map Field.keyword).Nodup := by
  have hall : ((["class", "guarantee", "config-key", "artifact", "revision", "generation", "schema", "schema-version",
      "digest", "size", "requires", "media-type"] ++ ["producer", "source", "endpoint"]).map text).Nodup := by
    decide
  exact hall

theorem keywords_nodup (i : DeploymentInstruction) : ((fieldsOf i).map Field.keyword).Nodup := by
  refine (keywords_all_nodup i).sublist (List.Sublist.map _ ((List.Sublist.refl _).append ?_))
  unfold optionalOf
  split_ifs
  all_goals simp

theorem target_not_field (f : Field) : f.keyword ≠ text "target" := by
  cases f <;> simp only [Field.keyword] <;> decide

theorem assign_fields (i : DeploymentInstruction) :
    (fieldsOf i).foldl (fun i f => f.assign i) { DeploymentInstruction.empty with target := i.target } = i := by
  obtain ⟨target, targetClass, declaredGuarantee, configKey, artifact, revision, generation, schema, schemaVersion,
    digest, sizeBytes, requirement, mediaType, producer, sourcePath, endpoint⟩ := i
  unfold fieldsOf alwaysOf optionalOf
  split_ifs
  all_goals
    simp_all only [ne_eq, not_not, List.nil_append, List.append_nil, List.cons_append, List.foldl_cons, List.foldl_nil,
      Field.assign, DeploymentInstruction.empty]

theorem mandatory_fields (i : DeploymentInstruction) :
    ∀ field ∈ mandatory, text field = text "target" ∨ text field ∈ (fieldsOf i).map Field.keyword := by
  have hknown : ∀ field ∈ mandatory, text field = text "target" ∨ text field ∈
      ["class", "guarantee", "config-key", "artifact", "revision", "generation", "schema", "schema-version", "digest",
        "size", "requires", "media-type"].map text := by
    decide
  intro field hfield
  refine (hknown field hfield).imp id fun hmem => ?_
  rw [fieldsOf, List.map_append, keywords_always]
  exact List.mem_append_left _ hmem

/-- Between two blocks of the plan. -/
structure Between (s : State) (p : DeploymentPlan) (done : List DeploymentInstruction) : Prop where
  haveHeader : s.haveHeader = true
  haveSetId : s.haveSetId = true
  ended : s.inTarget = false
  plan : s.plan = { p with instructions := done }
  seen : ∀ target ∈ s.seenTargets, target ∈ done.map (·.target)

/-- The lines of one block put its instruction into the plan. -/
theorem run_block {done : List DeploymentInstruction} (h : Between s p done) (hi : InstructionSound i)
    (hnew : i.target ∉ done.map (·.target)) (hcount : done.length < kMaxPlanTargets) :
    ∃ s', (blockLines [] i).foldlM advance s = some s' ∧ Between s' p (done ++ [i]) := by
  have htargetKeyword : IsKeyword (text "target") := by decide
  have hshown := shown_of_identifier hi.target
  have hk := keywordOf_entry htargetKeyword i.target
  have hv := valueOf_entry htargetKeyword hshown.bare
  have hended : Ended s s := by
    rw [Ended, h.ended]
    rfl
  have hinstructions : s.plan.instructions.length < kMaxPlanTargets := by
    rw [h.plan]
    exact hcount
  have hparse : parseTargetId (valueOf (entry (text "target") i.target)) = .ok i.target := by
    rw [hv]
    exact (parseId_ok_iff _ _ _).mpr ⟨rfl, hi.target⟩
  have hopen := (advance_iff (isSignificant_entry htargetKeyword)).mpr
    (Turn.target h.haveHeader hk hended h.haveSetId hinstructions hparse)
  generalize hbegun : ({ s with
    current := { DeploymentInstruction.empty with target := i.target }
    seenFields := {text "target"}
    inTarget := true } : State) = begun at hopen
  have hfields := run_fields (s := begun) hi.fields (keywords_nodup i) (by rw [← hbegun]; exact h.haveHeader)
    (by rw [← hbegun]) fun f _ => by
      rw [← hbegun, Finset.mem_singleton]
      exact target_not_field f
  obtain ⟨hcurrent, hseen, hsubset, hsame⟩ := taken_fields (fieldsOf i) begun
  have hcurrent : ((fieldsOf i).foldl took begun).current = i := by
    rw [hcurrent, ← hbegun]
    exact assign_fields i
  generalize (fieldsOf i).foldl took begun = filled at hfields hcurrent hseen hsubset hsame
  have hplan : filled.plan = s.plan ∧ filled.seenTargets = s.seenTargets ∧ filled.inTarget = true ∧
      filled.haveHeader = true ∧ filled.haveSetId = true := by
    rw [hsame, ← hbegun]
    exact ⟨rfl, rfl, rfl, h.haveHeader, h.haveSetId⟩
  obtain ⟨hplan, htargets, hin, hheader, hset⟩ := hplan
  have hfinished : Finished filled := by
    refine ⟨fun field hfield => ?_, ?_, ?_, ?_, ?_⟩
    · obtain htarget | hmem := mandatory_fields i field hfield
      · rw [htarget]
        refine hsubset ?_
        rw [← hbegun]
        exact Finset.mem_singleton_self _
      · exact hseen _ hmem
    · rw [hcurrent]
      exact hi.size
    · rw [hcurrent]
      exact hi.digest
    · rw [hcurrent]
      exact hi.generation
    · rw [hcurrent, htargets]
      exact fun hmem => hnew (h.seen _ hmem)
  have hclose := (advance_iff (s := filled) (l := text "end") (by decide)).mpr
    (Turn.finish hheader (by decide) hin hfinished)
  refine ⟨{ pushed filled with inTarget := false }, ?_, hheader, hset, rfl, ?_, fun target htarget => ?_⟩
  · exact foldlM_cons_eq_some.mpr ⟨begun, hopen, foldlM_append_eq_some.mpr ⟨filled, hfields,
      foldlM_cons_eq_some.mpr ⟨_, hclose, rfl⟩⟩⟩
  · change { filled.plan with instructions := filled.plan.instructions ++ [filled.current] } = _
    rw [hplan, h.plan, hcurrent]
  · obtain rfl | htarget := Finset.mem_insert.mp htarget
    · rw [hcurrent, List.map_append]
      exact List.mem_append_right _ List.mem_cons_self
    · rw [htargets] at htarget
      rw [List.map_append]
      exact List.mem_append_left _ (h.seen target htarget)

theorem run_plan {is done : List DeploymentInstruction} (h : Between s p done) (his : ∀ i ∈ is, InstructionSound i)
    (hdistinct : ((done ++ is).map (·.target)).Nodup) (hcount : (done ++ is).length ≤ kMaxPlanTargets) :
    ∃ s', (is.flatMap (blockLines [])).foldlM advance s = some s' ∧ Between s' p (done ++ is) := by
  induction is generalizing s done with
  | nil => exact ⟨s, rfl, by rwa [List.append_nil]⟩
  | cons i is ih =>
    obtain ⟨hi, his⟩ := List.forall_mem_cons.mp his
    have hnew : i.target ∉ done.map (·.target) := by
      rw [List.map_append, List.nodup_append] at hdistinct
      exact fun hmem => hdistinct.2.2 _ hmem i.target List.mem_cons_self rfl
    have hroom : done.length < kMaxPlanTargets := by
      rw [List.length_append, List.length_cons] at hcount
      omega
    obtain ⟨t, ht, hbetween⟩ := run_block h hi hnew hroom
    rw [List.append_cons] at hdistinct hcount ⊢
    obtain ⟨s', hs', hlast⟩ := ih hbetween his hdistinct hcount
    exact ⟨s', foldlM_append_eq_some.mpr ⟨t, ht, hs'⟩, hlast⟩

/-- The state after the header lines. -/
def named (setId rolloutSet : Bytes) : State where
  plan := { setId, rolloutSet, instructions := [] }
  haveHeader := true
  haveSetId := true

/-- The header lines set the names of the plan. -/
theorem run_header (h : PlanSound p) : (headerLines p).foldlM advance {} = some (named p.setId p.rolloutSet) := by
  have hplanKeyword : IsKeyword (text "cf-plan") := by decide
  have hsetKeyword : IsKeyword (text "set-id") := by decide
  have hrolloutKeyword : IsKeyword (text "rollout-set") := by decide
  have hversion : Shown (text (toString kDeploymentPlanFormatVersion)) := shown_of_number (by decide)
  have hplan : advance {} (entry (text "cf-plan") (text (toString kDeploymentPlanFormatVersion))) =
      some { haveHeader := true } := by
    rw [advance_iff (isSignificant_entry hplanKeyword)]
    refine .header rfl (keywordOf_entry hplanKeyword _) ?_
    rw [valueOf_entry hplanKeyword hversion.bare, text_toString]
    exact parseUnsigned_digits (by decide)
  have hset : advance { haveHeader := true } (entry (text "set-id") p.setId) = some (named p.setId []) := by
    rw [advance_iff (isSignificant_entry hsetKeyword)]
    refine .setId rfl (keywordOf_entry hsetKeyword _) rfl ?_
    rw [valueOf_entry hsetKeyword (shown_of_identifier h.setId).bare]
    exact (parseId_ok_iff _ _ _).mpr ⟨rfl, h.setId⟩
  unfold headerLines
  refine foldlM_cons_eq_some.mpr ⟨_, hplan, foldlM_cons_eq_some.mpr ⟨_, hset, ?_⟩⟩
  by_cases hrollout : p.rolloutSet ≠ []
  · have hvalid := h.rolloutSet hrollout
    have hname : advance (named p.setId []) (entry (text "rollout-set") p.rolloutSet) =
        some (named p.setId p.rolloutSet) := by
      rw [advance_iff (isSignificant_entry hrolloutKeyword)]
      refine .rolloutSet rfl (keywordOf_entry hrolloutKeyword _) rfl ?_
      rw [valueOf_entry hrolloutKeyword (shown_of_identifier hvalid).bare]
      exact (parseId_ok_iff _ _ _).mpr ⟨rfl, hvalid⟩
    rw [if_pos hrollout]
    exact foldlM_cons_eq_some.mpr ⟨_, hname, rfl⟩
  · rw [if_neg hrollout, not_not.mp hrollout]
    rfl

/-- The canonical lines are read as the plan. -/
theorem accepts_planLines (h : PlanSound p) : Accepts (planLines [] p) p := by
  have hstart : Between (named p.setId p.rolloutSet) p [] := ⟨rfl, rfl, rfl, rfl, fun _ hmem => nomatch hmem⟩
  obtain ⟨s, hs, hbetween⟩ := run_plan hstart h.instructions (by simpa using h.distinct) (by simpa using h.count)
  have hplan : s.plan = p := hbetween.plan
  exact ⟨s, foldlM_append_eq_some.mpr ⟨_, run_header h, hs⟩,
    ⟨hbetween.haveHeader, hbetween.ended, hbetween.haveSetId, by rw [hplan]; exact h.some⟩, hplan⟩

/-! Texts of canonical lines. -/

theorem trimmed_cons {indent line : Bytes} {lines : List Bytes} (hindent : ∀ c ∈ indent, blank c = true) (hline : Clean line)
    (hsignificant : isSignificant line = true) : trimmed ((indent ++ line) :: lines) = line :: trimmed lines := by
  have htrim : trim (indent ++ line) = line := by
    have hpad := Trimmed.trim_pad (v := []) hindent (by simp) line
    rw [List.append_nil, Trimmed.trim_of_bare hline.bare] at hpad
    exact hpad
  rw [trimmed, List.map_cons, htrim, List.filter_cons_of_pos hsignificant]
  rfl

theorem trimmed_fields {fs : List Field} (hindent : ∀ c ∈ indent, blank c = true) (hfs : ∀ f ∈ fs, Shown f.shown) :
    trimmed (fs.map fun f => indent ++ entry f.keyword f.shown) = fs.map fun f => [] ++ entry f.keyword f.shown := by
  induction fs with
  | nil => rfl
  | cons f fs ih =>
    obtain ⟨hf, hfs⟩ := List.forall_mem_cons.mp hfs
    have hkeyword := isKeyword_keyword f
    rw [List.map_cons, trimmed_cons hindent (clean_entry hkeyword hf) (isSignificant_entry hkeyword), ih hfs]
    rfl

theorem trimmed_entry {keyword value : Bytes} {lines : List Bytes} (hk : IsKeyword keyword) (hvalue : Shown value) :
    trimmed (entry keyword value :: lines) = entry keyword value :: trimmed lines :=
  have hnone : ∀ c ∈ ([] : Bytes), blank c = true := fun _ hc => nomatch hc
  trimmed_cons hnone (clean_entry hk hvalue) (isSignificant_entry hk)

theorem trimmed_block (hindent : ∀ c ∈ indent, blank c = true) (hi : InstructionSound i) :
    trimmed (blockLines indent i) = blockLines [] i := by
  have hend : trimmed [text "end"] = [text "end"] := by decide
  unfold blockLines
  rw [List.cons_append, trimmed_entry (by decide) (shown_of_identifier hi.target), trimmed_append,
    trimmed_fields hindent fun f hf => (hi.fields f hf).1, hend]
  rfl

theorem trimmed_blocks {is : List DeploymentInstruction} (hindent : ∀ c ∈ indent, blank c = true)
    (his : ∀ i ∈ is, InstructionSound i) : trimmed (is.flatMap (blockLines indent)) = is.flatMap (blockLines []) := by
  induction is with
  | nil => rfl
  | cons i is ih =>
    obtain ⟨hi, his⟩ := List.forall_mem_cons.mp his
    rw [List.flatMap_cons, trimmed_append, trimmed_block hindent hi, ih his]
    rfl

theorem trimmed_header (h : PlanSound p) : trimmed (headerLines p) = headerLines p := by
  unfold headerLines
  rw [trimmed_entry (by decide) (shown_of_number (by decide)), trimmed_entry (by decide) (shown_of_identifier h.setId)]
  by_cases hrollout : p.rolloutSet ≠ []
  · rw [if_pos hrollout, trimmed_entry (by decide) (shown_of_identifier (h.rolloutSet hrollout))]
    rfl
  · rw [if_neg hrollout]
    rfl

theorem trimmed_planLines (hindent : ∀ c ∈ indent, blank c = true) (h : PlanSound p) :
    trimmed (planLines indent p) = planLines [] p := by
  unfold planLines
  rw [trimmed_append, trimmed_header h, trimmed_blocks hindent h.instructions]

/-- What holds of every line of a keyword and a value, indented or not, holds of every canonical line. -/
theorem forall_planLines {P : Bytes → Prop} (h : PlanSound p) (hend : P (text "end"))
    (hentry : ∀ keyword value, IsKeyword keyword → keyword.length ≤ 14 → Shown value →
      P (entry keyword value) ∧ P (indent ++ entry keyword value)) : ∀ l ∈ planLines indent p, P l := by
  intro l hl
  obtain hl | hl := List.mem_append.mp hl
  · unfold headerLines at hl
    obtain rfl | hl := List.mem_cons.mp hl
    · exact (hentry _ _ (by decide) (by decide) (shown_of_number (by decide))).1
    obtain rfl | hl := List.mem_cons.mp hl
    · exact (hentry _ _ (by decide) (by decide) (shown_of_identifier h.setId)).1
    split at hl
    case isFalse => cases hl
    case isTrue hrollout =>
      obtain rfl := List.mem_singleton.mp hl
      exact (hentry _ _ (by decide) (by decide) (shown_of_identifier (h.rolloutSet hrollout))).1
  · obtain ⟨i, hi, hl⟩ := List.mem_flatMap.mp hl
    have hsound := h.instructions i hi
    obtain hl | hl := List.mem_append.mp hl
    · obtain rfl | hl := List.mem_cons.mp hl
      · exact (hentry _ _ (by decide) (by decide) (shown_of_identifier hsound.target)).1
      · obtain ⟨f, hf, rfl⟩ := List.mem_map.mp hl
        exact (hentry _ _ (isKeyword_keyword f) (length_keyword_le f) (hsound.fields f hf).1).2
    · obtain rfl := List.mem_singleton.mp hl
      exact hend

/-- The text of the canonical lines with the given indentation. -/
def textOf (indent : Bytes) (p : DeploymentPlan) : Bytes := (planLines indent p).flatMap fun l => l ++ [10]

theorem splitOn_textOf (hindent : ∀ c ∈ indent, blank c = true) (h : PlanSound p) :
    (textOf indent p).splitOn 10 = planLines indent p ++ [[]] := by
  refine Delimited.splitOn_terminated ?_
  refine forall_planLines h (by decide) fun keyword value hk _ hvalue => ?_
  have hclean := clean_entry hk hvalue
  refine ⟨hclean.line, fun hmem => ?_⟩
  obtain hmem | hmem := List.mem_append.mp hmem
  · cases hindent 10 hmem
  · exact hclean.line hmem

/-- A canonical text is within the limits when its bytes and lines are. -/
theorem within_textOf (hindent : ∀ c ∈ indent, blank c = true) (hshort : indent.length ≤ 2) (h : PlanSound p) :
    Within (textOf indent p) ↔
      (textOf indent p).length ≤ kMaxPlanBytes ∧ (planLines indent p).length + 1 ≤ kMaxPlanTargets * 16 + 64 := by
  have hsplit := splitOn_textOf hindent h
  constructor
  · rintro ⟨hbytes, -, hlines⟩
    rw [hsplit, List.length_append] at hlines
    exact ⟨hbytes, hlines⟩
  · rintro ⟨hbytes, hlines⟩
    refine ⟨hbytes, ?_, ?_⟩
    · rw [hsplit]
      intro raw hraw
      obtain hraw | hraw := List.mem_append.mp hraw
      · refine forall_planLines (P := fun l => l.length ≤ kMaxPlanLineBytes) h (by decide) (fun keyword value _ hk hvalue => ?_) raw hraw
        have hlength := hvalue.length
        simp only [entry, List.length_append, List.length_cons, kMaxPlanSourcePathBytes, kMaxPlanLineBytes] at hlength ⊢
        omega
      · obtain rfl := List.mem_singleton.mp hraw
        exact Nat.zero_le _
    · rw [hsplit, List.length_append]
      exact hlines

/-- A canonical text is read as its plan when it is within the limits. -/
theorem parse_textOf (hindent : ∀ c ∈ indent, blank c = true) (h : PlanSound p) (name : String) :
    parseDeploymentPlan (textOf indent p) name = .ok p ↔ Within (textOf indent p) := by
  have hsignificant : significant (textOf indent p) = planLines [] p := by
    have hempty : trimmed [[]] = [] := rfl
    change trimmed ((textOf indent p).splitOn 10) = _
    rw [splitOn_textOf hindent h, trimmed_append, trimmed_planLines hindent h, hempty, List.append_nil]
  rw [parse_ok_iff, hsignificant, and_iff_left (accepts_planLines h)]

end Plan

end ConfigurationFabric
