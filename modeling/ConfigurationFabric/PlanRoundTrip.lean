import ConfigurationFabric.PlanRender

/-! The canonical text of a plan that was read, and when it is read as the same plan. -/

namespace ConfigurationFabric

open LittleEndian
open PartialFold

namespace Plan

variable {s s' : State} {i : DeploymentInstruction} {p : DeploymentPlan} {f g : Field} {l : Bytes} {ls block : List Bytes}

/-! What was read is sound. -/

/-- The field of the same keyword, as the instruction has it. -/
def Field.heldBy (i : DeploymentInstruction) : Field → Field
  | .class _ => .class i.targetClass
  | .guarantee _ => .guarantee i.declaredGuarantee
  | .configKey _ => .configKey i.configKey
  | .artifact _ => .artifact i.artifact
  | .revision _ => .revision i.revision
  | .generation _ => .generation i.generation
  | .schema _ => .schema i.schema
  | .schemaVersion _ => .schemaVersion i.schemaVersion
  | .digest _ => .digest i.digest
  | .size _ => .size i.sizeBytes
  | .requires _ => .requires i.requirement
  | .mediaType _ => .mediaType i.mediaType
  | .producer _ => .producer i.producer
  | .source _ => .source i.sourcePath
  | .endpoint _ => .endpoint i.endpoint

theorem heldBy_of_assign (h : f.assign i = i) : f.heldBy i = f := by
  cases f <;> (rw [← h]; rfl)

theorem heldBy_mem (f : Field) (i : DeploymentInstruction) : f.heldBy i ∈ allOf i := by
  cases f <;> simp [allOf, alwaysOf, Field.heldBy]

theorem keyword_heldBy (f : Field) (i : DeploymentInstruction) : (f.heldBy i).keyword = f.keyword := by
  cases f <;> rfl

theorem heldBy_congr (h : f.keyword = g.keyword) (i : DeploymentInstruction) : f.heldBy i = g.heldBy i := by
  refine List.inj_on_of_nodup_map (keywords_all_nodup i) (heldBy_mem f i) (heldBy_mem g i) ?_
  rw [keyword_heldBy, keyword_heldBy, h]

theorem heldBy_assign (h : f.keyword ≠ g.keyword) (i : DeploymentInstruction) : g.heldBy (f.assign i) = g.heldBy i := by
  cases f <;> cases g <;> first
    | rfl
    | exact absurd rfl h

theorem heldBy_fieldsOf : ∀ f ∈ fieldsOf i, f.heldBy i = f := by
  have halways : ∀ f ∈ alwaysOf i, f.heldBy i = f := by
    simp only [alwaysOf, List.forall_mem_cons]
    exact ⟨rfl, rfl, rfl, rfl, rfl, rfl, rfl, rfl, rfl, rfl, rfl, rfl, fun _ hf => nomatch hf⟩
  have hoptional : ∀ f ∈ optionalOf i, f.heldBy i = f := by
    unfold optionalOf
    split_ifs
    all_goals simp [Field.heldBy]
  exact List.forall_mem_append.mpr ⟨halways, hoptional⟩

theorem blocks_lines (hblock : block ∈ blocks ls) :
    (∃ first fields, block = first :: fields ∧ keywordOf first = text "target") ∧ ∀ l ∈ block, l ∈ ls := by
  induction ls with
  | nil => cases hblock
  | cons l ls ih =>
    unfold blocks at hblock
    have hlater (hblock : block ∈ blocks ls) :
        (∃ first fields, block = first :: fields ∧ keywordOf first = text "target") ∧ ∀ a ∈ block, a ∈ l :: ls :=
      ⟨(ih hblock).1, fun a ha => List.mem_cons_of_mem _ ((ih hblock).2 a ha)⟩
    split at hblock
    case isFalse => exact hlater hblock
    case isTrue hk =>
      obtain rfl | hblock := List.mem_cons.mp hblock
      · refine ⟨⟨l, _, rfl, hk⟩, List.forall_mem_cons.mpr ⟨List.mem_cons_self, fun a ha => ?_⟩⟩
        exact List.mem_cons_of_mem _ ((List.takeWhile_sublist _).mem ha)
      · exact hlater hblock

theorem clean_valueOf (hl : 10 ∉ l) : Clean (valueOf l) where
  bare := Trimmed.bare_trim
  line hmem := hl ((List.dropWhile_sublist _).mem ((List.drop_sublist _ _).mem (Trimmed.mem_of_mem_trim hmem)))

/-- A field that no line of the block reads keeps its default. -/
theorem heldBy_default {i₀ : DeploymentInstruction} {fields : List Bytes} (h : fields.foldlM readInto i₀ = some i)
    (hnone : ∀ l ∈ fields, keywordOf l ≠ f.keyword) : f.heldBy i = f.heldBy i₀ := by
  refine foldlM_keeps (P := fun i => f.heldBy i = f.heldBy i₀) (fun i l i' hl hi hread => ?_) rfl h
  obtain ⟨g, hg, rfl⟩ := Option.map_eq_some_iff.mp hread
  have hkeyword := (readField_ok.mp (toOption_eq_some.mp hg)).1
  have hne : g.keyword ≠ f.keyword := by
    rw [← hkeyword]
    exact hnone l hl
  rw [heldBy_assign hne, hi]

theorem empty_not_shown :
    Field.producer [] ∉ fieldsOf i ∧ Field.source [] ∉ fieldsOf i ∧ Field.endpoint [] ∉ fieldsOf i := by
  unfold fieldsOf alwaysOf optionalOf
  split_ifs
  all_goals simp_all [eq_comm (a := ([] : Bytes))]

/-- Of the fields that need not stand in a block, the canonical text shows a default only of the media type. -/
theorem default_mediaType (hf : f ∈ fieldsOf i) {target : TargetId}
    (hdefault : f.heldBy { DeploymentInstruction.empty with target } = f)
    (hoptional : ∀ field ∈ mandatory, text field ≠ f.keyword) : f = .mediaType DeploymentInstruction.empty.mediaType := by
  obtain ⟨hproducer, hsource, hendpoint⟩ := empty_not_shown (i := i)
  cases f with
  | «class» => exact absurd rfl (hoptional "class" (by decide))
  | guarantee => exact absurd rfl (hoptional "guarantee" (by decide))
  | configKey => exact absurd rfl (hoptional "config-key" (by decide))
  | artifact => exact absurd rfl (hoptional "artifact" (by decide))
  | revision => exact absurd rfl (hoptional "revision" (by decide))
  | generation => exact absurd rfl (hoptional "generation" (by decide))
  | schema => exact absurd rfl (hoptional "schema" (by decide))
  | schemaVersion => exact absurd rfl (hoptional "schema-version" (by decide))
  | digest => exact absurd rfl (hoptional "digest" (by decide))
  | size => exact absurd rfl (hoptional "size" (by decide))
  | requires => exact absurd rfl (hoptional "requires" (by decide))
  | mediaType => exact hdefault.symm
  | producer =>
    rw [← hdefault] at hf
    exact absurd hf hproducer
  | source =>
    rw [← hdefault] at hf
    exact absurd hf hsource
  | endpoint =>
    rw [← hdefault] at hf
    exact absurd hf hendpoint

/-- What the lines of a block made is sound. -/
theorem sound_of_makes (hblock : block ∈ blocks ls) (hlines : ∀ l ∈ ls, 10 ∉ l) (h : Makes block i) :
    InstructionSound i := by
  obtain ⟨⟨first, fields, rfl, hfirst⟩, hmem⟩ := blocks_lines hblock
  have hinstruction := h.instruction
  unfold instructionOf at hinstruction
  obtain ⟨target, htarget, hfields⟩ := Option.bind_eq_some_iff.mp hinstruction
  obtain ⟨-, hvalid⟩ := (parseId_ok_iff _ _ _).mp (toOption_eq_some.mp htarget)
  have hkept : i.target = target := by
    refine foldlM_keeps (P := fun i => i.target = target) (fun i l i' hl hi hread => ?_) rfl hfields
    obtain ⟨g, -, rfl⟩ := Option.map_eq_some_iff.mp hread
    rw [← hi]
    cases g <;> rfl
  refine ⟨by rwa [hkept], fun f hf => ?_, h.size, h.generation, h.digest⟩
  have hheld := heldBy_fieldsOf f hf
  have hproducer : f ≠ .producer [] := by
    rintro rfl
    exact empty_not_shown.1 hf
  by_cases hread : ∃ l ∈ fields, keywordOf l = f.keyword
  · obtain ⟨l, hl, hk⟩ := hread
    obtain ⟨g, hg, hassign⟩ := h.kept l hl
    obtain ⟨hkeyword, hvalue⟩ := readField_ok.mp hg
    -- the line read the field that the instruction has
    have hsame : g = f := by
      rw [← heldBy_of_assign hassign, ← hheld]
      exact heldBy_congr (hkeyword.symm.trans hk) i
    rw [hsame] at hvalue
    exact shown_of_read hvalue (clean_valueOf (hlines l (hmem l (List.mem_cons_of_mem _ hl)))) hproducer
  · push Not at hread
    have hdefault := heldBy_default hfields hread
    rw [hheld] at hdefault
    obtain rfl := default_mediaType hf hdefault.symm fun field hfield hsame => by
      obtain ⟨l, hl, hk⟩ := List.mem_map.mp (h.mandatory field hfield)
      obtain rfl | hl := List.mem_cons.mp hl
      · exact target_not_field f (by rw [← hsame, ← hk, hfirst])
      · exact hread l hl (hk.trans hsame)
    have hclean : Clean DeploymentInstruction.empty.mediaType := clean_of_plain (by decide +kernel)
    exact shown_of_read (f := .mediaType _) ⟨rfl, by decide, by decide⟩ hclean hproducer

/-- The names that have been read are identifiers, and there is room for the block that is open. -/
structure NamesSound (s : State) : Prop where
  setId : s.haveSetId = true → isValidIdentifier s.plan.setId = true
  rolloutSet : s.plan.rolloutSet ≠ [] → isValidIdentifier s.plan.rolloutSet = true
  count : s.plan.instructions.length ≤ kMaxPlanTargets
  room : s.inTarget = true → s.plan.instructions.length < kMaxPlanTargets

theorem NamesSound.turn (h : NamesSound s) (ht : Turn s l s') : NamesSound s' := by
  cases ht with
  | header => exact ⟨h.setId, h.rolloutSet, h.count, h.room⟩
  | setId _ _ _ hv => exact ⟨fun _ => ((parseId_ok_iff _ _ _).mp hv).2, h.rolloutSet, h.count, h.room⟩
  | rolloutSet _ _ _ hv => exact ⟨h.setId, fun _ => ((parseId_ok_iff _ _ _).mp hv).2, h.count, h.room⟩
  | field => exact ⟨h.setId, h.rolloutSet, h.count, h.room⟩
  | finish _ _ hin =>
    refine ⟨h.setId, h.rolloutSet, ?_, fun hno => nomatch hno⟩
    change (s.plan.instructions ++ [s.current]).length ≤ _
    rw [List.length_append]
    exact h.room hin
  | target _ _ hended hset hcount =>
    obtain ⟨hsetId, hrollout, hhave⟩ := hended.kept
    refine ⟨fun _ => ?_, fun hne => ?_, hcount.le, fun _ => hcount⟩
    · rw [hsetId]
      exact h.setId hset
    · change (State.plan _).rolloutSet ≠ [] at hne
      rw [hrollout] at hne ⊢
      exact h.rolloutSet hne

theorem significant_line {t : Bytes} : ∀ l ∈ significant t, 10 ∉ l := by
  intro l hl hmem
  obtain ⟨raw, hraw, rfl⟩ := List.mem_map.mp (List.mem_of_mem_filter hl)
  exact Delimited.not_mem_of_mem_splitOn t raw hraw (Trimmed.mem_of_mem_trim hmem)

theorem exists_makes {bs : List (List Bytes)} {is : List DeploymentInstruction} (h : List.Forall₂ Makes bs is) :
    ∀ i ∈ is, ∃ block ∈ bs, Makes block i := by
  induction h with
  | nil => exact fun i hi => nomatch hi
  | cons hmakes _ ih =>
    refine List.forall_mem_cons.mpr ⟨⟨_, List.mem_cons_self, hmakes⟩, fun i hi => ?_⟩
    obtain ⟨block, hblock, hi⟩ := ih i hi
    exact ⟨block, List.mem_cons_of_mem _ hblock, hi⟩

theorem sound_of_parse {t : Bytes} {name : String} (h : parseDeploymentPlan t name = .ok p) : PlanSound p := by
  have hmakes := parse_blocks h
  have hdistinct := parse_distinct h
  obtain ⟨-, s, hs, hcomplete, rfl⟩ := parse_ok_iff.mp h
  have hstart : NamesSound {} := ⟨by simp, by simp, Nat.zero_le _, by simp⟩
  have hnames : NamesSound s :=
    foldlM_keeps (fun s l s' hl hn ht => hn.turn ((advance_iff (significant_all l hl)).mp ht)) hstart hs
  refine ⟨hnames.setId hcomplete.haveSetId, hnames.rolloutSet, fun i hi => ?_, hdistinct, hcomplete.targets, hnames.count⟩
  obtain ⟨block, hblock, hi⟩ := exists_makes hmakes i hi
  exact sound_of_makes hblock significant_line hi

/-! How long the canonical text is. -/

def present (value : Bytes) (n : ℕ) : ℕ := if value ≠ [] then n else 0

/-- The bytes of the canonical text of a block: its words, then its values. -/
def instructionBytes (i : DeploymentInstruction) : ℕ :=
  222 + i.target.length + (targetClassName i.targetClass).length + (applyGuaranteeName i.declaredGuarantee).length +
    i.configKey.length + i.artifact.length + (Decimal.digits i.revision).length +
    (Decimal.digits i.generation).length + i.schema.length + (Decimal.digits i.schemaVersion).length +
    (Decimal.digits i.sizeBytes).length + (guaranteeRequirementName i.requirement).length + i.mediaType.length +
    present i.producer (12 + i.producer.length) + present i.sourcePath (10 + i.sourcePath.length) +
    present i.endpoint (12 + i.endpoint.length)

def canonicalBytes (p : DeploymentPlan) : ℕ :=
  18 + p.setId.length + present p.rolloutSet (13 + p.rolloutSet.length) + (p.instructions.map instructionBytes).sum

def instructionLines (i : DeploymentInstruction) : ℕ :=
  14 + present i.producer 1 + present i.sourcePath 1 + present i.endpoint 1

/-- The lines of the canonical text, with the empty one after its last line feed. -/
def canonicalLines (p : DeploymentPlan) : ℕ :=
  3 + present p.rolloutSet 1 + (p.instructions.map instructionLines).sum

theorem length_text (words : String) : (text words).length = words.length := by
  rw [text, List.length_map, String.length_toList]

theorem length_line (words : String) (value : Bytes) : (line words value).length = words.length + value.length + 1 := by
  rw [line, List.length_append, List.length_append, length_text]
  rfl

theorem length_renderInstruction (i : DeploymentInstruction) : (renderInstruction i).length = instructionBytes i := by
  have hhex := i.digest.length_hex
  have hwords : "target ".length = 7 ∧ "  class ".length = 8 ∧ "  guarantee ".length = 12 ∧
      "  config-key ".length = 13 ∧ "  artifact ".length = 11 ∧ "  revision ".length = 11 ∧
      "  generation ".length = 13 ∧ "  schema ".length = 9 ∧ "  schema-version ".length = 17 := by decide
  have hmore : "  digest ".length = 9 ∧ "  size ".length = 7 ∧ "  requires ".length = 11 ∧ "  media-type ".length = 13 ∧
      "  producer ".length = 11 ∧ "  source ".length = 9 ∧ "  endpoint ".length = 11 ∧ "end\n".length = 4 := by decide
  unfold renderInstruction instructionBytes present
  simp only [List.length_append, length_line, length_text, text_toString, hhex, apply_ite List.length, List.length_nil,
    hwords, hmore]
  split_ifs
  all_goals omega

theorem length_render (p : DeploymentPlan) : (renderDeploymentPlan p).length = canonicalBytes p := by
  have hwords : "cf-plan ".length = 8 ∧ "set-id ".length = 7 ∧ "rollout-set ".length = 12 := by decide
  have hversion : (text (toString kDeploymentPlanFormatVersion)).length = 1 := by decide
  have hinstructions : (p.instructions.flatMap renderInstruction).length = (p.instructions.map instructionBytes).sum := by
    rw [List.length_flatMap, funext length_renderInstruction]
  unfold renderDeploymentPlan canonicalBytes present
  simp only [List.length_append, length_line, hversion, hinstructions, apply_ite List.length, List.length_nil, hwords]
  split_ifs
  all_goals omega

theorem length_blockLines (indent : Bytes) (i : DeploymentInstruction) :
    (blockLines indent i).length = instructionLines i := by
  unfold blockLines fieldsOf alwaysOf optionalOf instructionLines present
  split_ifs
  all_goals simp

theorem length_planLines (indent : Bytes) (p : DeploymentPlan) : (planLines indent p).length + 1 = canonicalLines p := by
  have hblocks : (p.instructions.flatMap (blockLines indent)).length = (p.instructions.map instructionLines).sum := by
    rw [List.length_flatMap, funext (length_blockLines indent)]
  unfold planLines headerLines canonicalLines present
  rw [List.length_append, hblocks]
  split_ifs
  all_goals
    simp only [List.length_cons, List.length_nil]
    omega

/-- The canonical text of a sound plan is read exactly when it is within the limits. -/
theorem parse_render (h : PlanSound p) (name : String) :
    parseDeploymentPlan (renderDeploymentPlan p) name = .ok p ↔
      canonicalBytes p ≤ kMaxPlanBytes ∧ canonicalLines p ≤ kMaxPlanTargets * 16 + 64 := by
  have hindent : ∀ c ∈ text "  ", blank c = true := by decide +kernel
  have htext : renderDeploymentPlan p = textOf (text "  ") p := render_eq p
  rw [← length_render, ← length_planLines (text "  "), htext, parse_textOf hindent h,
    within_textOf hindent (by decide) h]

/-- A plan that was read is read again from its canonical text exactly when that text is within the limits. -/
theorem round_trip_iff {t : Bytes} {name : String} (h : parseDeploymentPlan t name = .ok p) (name' : String) :
    parseDeploymentPlan (renderDeploymentPlan p) name' = .ok p ↔
      canonicalBytes p ≤ kMaxPlanBytes ∧ canonicalLines p ≤ kMaxPlanTargets * 16 + 64 :=
  parse_render (sound_of_parse h) name'

theorem example_read_back :
    ∃ p, parseDeploymentPlan (examplePlanText exampleFields) "plan" = .ok p ∧
      parseDeploymentPlan (renderDeploymentPlan p) "rendered" = .ok p := by
  have hfits : (parseDeploymentPlan (examplePlanText exampleFields) "plan").toOption.map
      (fun p => (canonicalBytes p, canonicalLines p)) = some (316, 17) := by decide +kernel
  obtain ⟨p, hp, hfits⟩ := Option.map_eq_some_iff.mp hfits
  obtain ⟨hbytes, hlines⟩ := Prod.mk.inj hfits
  have hok := toOption_eq_some.mp hp
  exact ⟨p, hok, (round_trip_iff hok "rendered").mpr ⟨by rw [hbytes]; decide, by rw [hlines]; decide⟩⟩

/-! A plan that only its indentation makes too large. -/

theorem length_indented (indent : Bytes) (i : DeploymentInstruction) :
    ((blockLines indent i).flatMap fun l => l ++ [10]).length =
      ((blockLines [] i).flatMap fun l => l ++ [10]).length + indent.length * (fieldsOf i).length := by
  have hfields (bare : Bytes) (hbare : bare.length = 0) (fs : List Field) :
      ((fs.map fun f => indent ++ entry f.keyword f.shown).flatMap fun l => l ++ [10]).length =
        ((fs.map fun f => bare ++ entry f.keyword f.shown).flatMap fun l => l ++ [10]).length +
          indent.length * fs.length := by
    induction fs with
    | nil => rfl
    | cons f fs ih =>
      simp only [List.map_cons, List.flatMap_cons, List.length_append, List.length_cons, ih, hbare, Nat.mul_succ]
      omega
  have hmiddle := hfields [] rfl (fieldsOf i)
  unfold blockLines
  simp only [List.flatMap_append, List.flatMap_cons, List.length_append]
  omega

theorem length_textOf (indent : Bytes) (p : DeploymentPlan) :
    (textOf indent p).length =
      (textOf [] p).length + indent.length * (p.instructions.map fun i => (fieldsOf i).length).sum := by
  have hinstructions (is : List DeploymentInstruction) :
      ((is.flatMap (blockLines indent)).flatMap fun l => l ++ [10]).length =
        ((is.flatMap (blockLines [])).flatMap fun l => l ++ [10]).length +
          indent.length * (is.map fun i => (fieldsOf i).length).sum := by
    induction is with
    | nil => rfl
    | cons i is ih =>
      have hi := length_indented indent i
      simp only [List.flatMap_cons, List.flatMap_append, List.length_append, List.map_cons, List.sum_cons, Nat.mul_add]
      omega
  have hall := hinstructions p.instructions
  unfold textOf planLines
  simp only [List.flatMap_append, List.length_append]
  omega

def longInstruction (n : ℕ) : DeploymentInstruction where
  target := text "t" ++ toHex (store 2 n)
  configKey := List.replicate 81 107
  artifact := text "a"
  revision := 1
  generation := 1
  schema := text "s"
  schemaVersion := 1
  digest := .fill 32 1
  sizeBytes := 1
  producer := List.replicate 128 112
  sourcePath := List.replicate 512 115

/-- A plan of so many targets, each with long values. -/
def longPlan (count : ℕ) : DeploymentPlan where
  setId := text "s"
  rolloutSet := []
  instructions := (List.range count).map longInstruction

theorem length_longTarget (n : ℕ) : (longInstruction n).target.length = 5 := by
  rw [longInstruction, List.length_append, toHex_length, store_length]
  rfl

theorem sound_longInstruction (n : ℕ) : InstructionSound (longInstruction n) := by
  have hidentifier {what : String} {v : Bytes} (hv : isValidIdentifier v = true) : Shown v ∧ parseId what v = .ok v :=
    ⟨shown_of_identifier hv, (parseId_ok_iff _ _ _).mpr ⟨rfl, hv⟩⟩
  have hnumber (what : String) : Shown (text (toString 1)) ∧ parseUnsigned (text (toString 1)) what = .ok 1 := by
    refine ⟨shown_of_number (by decide), ?_⟩
    rw [text_toString]
    exact parseUnsigned_digits (by decide)
  have hne (m : ℕ) (c : UInt8) : List.replicate (m + 1) c ≠ [] := List.cons_ne_nil _ _
  have hdigest : (FixedBytes.fill 32 1).isSet = true := by decide
  refine ⟨?_, ?_, Nat.one_ne_zero, Nat.one_ne_zero, hdigest⟩
  · simp only [isValidIdentifier, Bool.and_eq_true, Bool.not_eq_true', decide_eq_true_eq, List.all_eq_true,
      length_longTarget]
    refine ⟨⟨⟨rfl, by decide⟩, rfl⟩, fun c hc => ?_⟩
    obtain hc | hc := List.mem_append.mp hc
    · obtain rfl := List.mem_singleton.mp hc
      decide
    · exact (toHex_identifier hc).1
  · change ∀ f ∈ fieldsOf (longInstruction 0), _
    simp only [fieldsOf, List.forall_mem_append, alwaysOf, List.forall_mem_cons]
    refine ⟨⟨targetClass_read _, applyGuarantee_read _, hidentifier (by decide +kernel), hidentifier (by decide),
      hnumber "revision", hnumber "generation", hidentifier (by decide),
      ⟨(hnumber "").1, (hnumber "schema-version").2, by decide⟩, ⟨shown_of_hex _, parse_hex _⟩, hnumber "size",
      guaranteeRequirement_read _, ?_, fun _ hf => absurd hf List.not_mem_nil⟩, ?_⟩
    · exact shown_of_read (f := .mediaType _) ⟨rfl, by decide, by decide⟩ (clean_of_plain (by decide +kernel)) (by simp)
    · have hplain (c : UInt8) (n : ℕ) (hc : blank c = false ∧ c ≠ 10) : Clean (List.replicate n c) :=
        clean_of_plain fun d hd => List.eq_of_mem_replicate hd ▸ hc
      have hoptional : optionalOf (longInstruction 0) =
          [.producer (List.replicate 128 112), .source (List.replicate 512 115)] := rfl
      rw [hoptional]
      simp only [List.forall_mem_cons]
      refine ⟨?_, ?_, fun _ hf => absurd hf List.not_mem_nil⟩
      · exact shown_of_read (f := .producer _) ⟨rfl, by rw [List.length_replicate]; decide⟩
          (hplain 112 128 (by decide)) fun h => hne 127 112 (Field.producer.inj h)
      · exact shown_of_read (f := .source _) ⟨rfl, hne 511 115, by rw [List.length_replicate]; decide⟩
          (hplain 115 512 (by decide)) fun h => by cases h

theorem sound_longPlan {count : ℕ} (hpos : 0 < count) (hcount : count ≤ kMaxPlanTargets) : PlanSound (longPlan count) where
  setId := by
    change isValidIdentifier (text "s") = true
    decide
  rolloutSet hne := absurd rfl hne
  instructions i hi := by
    obtain ⟨n, -, rfl⟩ := List.mem_map.mp hi
    exact sound_longInstruction n
  distinct := by
    rw [longPlan, List.map_map]
    refine List.nodup_range.map_on fun a ha b hb hsame => ?_
    have hbound (n : ℕ) (hn : n ∈ List.range count) : n < 256 ^ 2 :=
      ((List.mem_range.mp hn).trans_le hcount).trans (by decide)
    have hhex : toHex (store 2 a) = toHex (store 2 b) := List.append_cancel_left hsame
    have hstore : store 2 a = store 2 b := Option.some.inj (by rw [← fromHex_toHex, hhex, fromHex_toHex])
    rw [← load_store (hbound a ha), hstore, load_store (hbound b hb)]
  some hnil := by
    have hlength := congrArg List.length hnil
    rw [longPlan, List.length_map, List.length_range] at hlength
    exact hpos.ne' hlength
  count := by
    rw [longPlan, List.length_map, List.length_range]
    exact hcount

theorem sum_longPlan {get : DeploymentInstruction → ℕ} {k : ℕ} (h : ∀ n, get (longInstruction n) = k) (count : ℕ) :
    ((longPlan count).instructions.map get).sum = count * k := by
  have hconst : get ∘ longInstruction = fun _ => k := funext h
  rw [longPlan, List.map_map, hconst, List.map_const', List.length_range, List.sum_replicate_nat]

theorem bytes_longInstruction (n : ℕ) : instructionBytes (longInstruction n) = 1040 := by
  have hdigits : (Decimal.digits 1).length = 1 := by decide
  have hnames : (targetClassName .unspecified).length = 11 ∧ (applyGuaranteeName .atomicActivate).length = 15 ∧
      (guaranteeRequirementName .requireAtomic).length = 14 := by decide
  have htexts : (text "a").length = 1 ∧ (text "s").length = 1 ∧ (text "application/octet-stream").length = 24 := by decide
  have hpresent (m k : ℕ) (c : UInt8) : present (List.replicate (m + 1) c) k = k := if_pos (List.cons_ne_nil _ _)
  unfold instructionBytes
  rw [length_longTarget]
  simp only [longInstruction, hdigits, hnames, htexts, List.length_replicate, hpresent 127, hpresent 511]
  rfl

theorem lines_longInstruction (n : ℕ) : instructionLines (longInstruction n) = 16 := by
  have hpresent (m k : ℕ) (c : UInt8) : present (List.replicate (m + 1) c) k = k := if_pos (List.cons_ne_nil _ _)
  simp only [instructionLines, longInstruction, hpresent 127, hpresent 511]
  rfl

theorem fields_longInstruction (n : ℕ) : (fieldsOf (longInstruction n)).length = 14 := by
  have hlines := length_blockLines [] (longInstruction n)
  rw [lines_longInstruction] at hlines
  simpa [blockLines] using hlines

theorem length_longPlan (count : ℕ) :
    canonicalBytes (longPlan count) = 19 + count * 1040 ∧ canonicalLines (longPlan count) = 3 + count * 16 ∧
      (textOf [] (longPlan count)).length = 19 + count * 1012 := by
  have hset : (text "s").length = 1 := by decide
  have hindent : (text "  ").length = 2 := by decide
  have hbytes : canonicalBytes (longPlan count) = 19 + count * 1040 := by
    rw [canonicalBytes, sum_longPlan bytes_longInstruction]
    simp only [longPlan, hset, present, ne_eq, not_true_eq_false, if_false]
  have hlines : canonicalLines (longPlan count) = 3 + count * 16 := by
    rw [canonicalLines, sum_longPlan lines_longInstruction]
    rfl
  have hindented := length_textOf (text "  ") (longPlan count)
  have htext : renderDeploymentPlan (longPlan count) = textOf (text "  ") (longPlan count) := render_eq _
  rw [← htext, length_render, hbytes, sum_longPlan fields_longInstruction, hindent] at hindented
  exact ⟨hbytes, hlines, by omega⟩

/-- Without its indentation the text of this plan is read, with it the text is too large. -/
theorem long_plan_not_read_back :
    parseDeploymentPlan (textOf [] (longPlan 4096)) "plan" = .ok (longPlan 4096) ∧
      parseDeploymentPlan (renderDeploymentPlan (longPlan 4096)) "plan" =
        .fail .oversizePayload "deployment plan exceeds the accepted size" "plan" := by
  have hsound : PlanSound (longPlan 4096) := sound_longPlan (by decide) (by decide)
  obtain ⟨hbytes, hlines, hshort⟩ := length_longPlan 4096
  have hlimits : kMaxPlanBytes = 4194304 ∧ kMaxPlanTargets * 16 + 64 = 65600 := by decide
  constructor
  · rw [parse_textOf (by simp) hsound, within_textOf (by simp) (by decide) hsound, hshort, length_planLines, hlines,
      hlimits.1, hlimits.2]
    omega
  · have hlarge : (renderDeploymentPlan (longPlan 4096)).length > kMaxPlanBytes := by
      rw [length_render, hbytes, hlimits.1]
      omega
    exact if_pos hlarge

end Plan

end ConfigurationFabric
