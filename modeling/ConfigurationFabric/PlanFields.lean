import ConfigurationFabric.PlanLines

/-! The fields of a target block: which lines are fields, what is read off one, and that their order is free. -/

namespace ConfigurationFabric

open LittleEndian
open PartialFold

namespace Plan

def Field.keyword : Field → Bytes
  | .class _ => text "class"
  | .guarantee _ => text "guarantee"
  | .configKey _ => text "config-key"
  | .artifact _ => text "artifact"
  | .revision _ => text "revision"
  | .generation _ => text "generation"
  | .schema _ => text "schema"
  | .schemaVersion _ => text "schema-version"
  | .digest _ => text "digest"
  | .size _ => text "size"
  | .requires _ => text "requires"
  | .mediaType _ => text "media-type"
  | .producer _ => text "producer"
  | .source _ => text "source"
  | .endpoint _ => text "endpoint"

/-- The value of a line is read as the field. -/
def Field.Read (value : Bytes) : Field → Prop
  | .class v => parseTargetClass value = some v
  | .guarantee v => parseApplyGuarantee value = some v
  | .configKey v => parseConfigKey value = .ok v
  | .artifact v => parseArtifactId value = .ok v
  | .revision v => parseUnsigned value "revision" = .ok v
  | .generation v => parseUnsigned value "generation" = .ok v
  | .schema v => parseSchemaId value = .ok v
  | .schemaVersion v => parseUnsigned value "schema-version" = .ok v ∧ v ≤ 2 ^ 32 - 1
  | .digest v => Digest.parse value = .ok v
  | .size v => parseUnsigned value "size" = .ok v
  | .requires v => parseGuaranteeRequirement value = some v
  | .mediaType v => v = value ∧ value ≠ [] ∧ value.length ≤ kMaxMediaTypeBytes
  | .producer v => v = value ∧ value.length ≤ kMaxProducerBytes
  | .source v => v = value ∧ value ≠ [] ∧ value.length ≤ kMaxPlanSourcePathBytes
  | .endpoint v => v = value ∧ ∃ endpoint, parseEndpoint value = .ok endpoint ∧ endpoint.isSet = true

variable {s s' : State} {n : ℕ} {keyword value : Bytes} {f : Field}

theorem readField_of_read (h : f.Read value) : readField n f.keyword value = .ok f := by
  cases f with
  | «class» v =>
    have hv : parseTargetClass value = some v := h
    simp +decide only [readField, Field.keyword, if_true, if_false, hv]
  | guarantee v =>
    have hv : parseApplyGuarantee value = some v := h
    simp +decide only [readField, Field.keyword, if_true, if_false, hv]
  | requires v =>
    have hv : parseGuaranteeRequirement value = some v := h
    simp +decide only [readField, Field.keyword, if_true, if_false, hv]
  | configKey v =>
    have hv : parseConfigKey value = .ok v := h
    simp +decide only [readField, Field.keyword, if_true, if_false, hv]
    rfl
  | artifact v =>
    have hv : parseArtifactId value = .ok v := h
    simp +decide only [readField, Field.keyword, if_true, if_false, hv]
    rfl
  | schema v =>
    have hv : parseSchemaId value = .ok v := h
    simp +decide only [readField, Field.keyword, if_true, if_false, hv]
    rfl
  | digest v =>
    have hv : Digest.parse value = .ok v := h
    simp +decide only [readField, Field.keyword, if_true, if_false, hv]
    rfl
  | revision v =>
    have hv : parseUnsigned value "revision" = .ok v := h
    simp +decide only [readField, Field.keyword, if_true, if_false, hv]
    rfl
  | generation v =>
    have hv : parseUnsigned value "generation" = .ok v := h
    simp +decide only [readField, Field.keyword, if_true, if_false, hv]
    rfl
  | size v =>
    have hv : parseUnsigned value "size" = .ok v := h
    simp +decide only [readField, Field.keyword, if_true, if_false, hv]
    rfl
  | schemaVersion v =>
    obtain ⟨hv, hbound⟩ := h
    simp +decide only [readField, Field.keyword, if_true, if_false, hv]
    exact if_neg (Nat.not_lt.mpr hbound)
  | mediaType v =>
    obtain ⟨rfl, hne, hlen⟩ := h
    simp +decide only [readField, Field.keyword, if_true, if_false]
    exact if_neg (not_or.mpr ⟨hne, Nat.not_lt.mpr hlen⟩)
  | producer v =>
    obtain ⟨rfl, hlen⟩ := h
    simp +decide only [readField, Field.keyword, if_true, if_false]
    exact if_neg (Nat.not_lt.mpr hlen)
  | source v =>
    obtain ⟨rfl, hne, hlen⟩ := h
    simp +decide only [readField, Field.keyword, if_true, if_false]
    exact if_neg (not_or.mpr ⟨hne, Nat.not_lt.mpr hlen⟩)
  | endpoint v =>
    obtain ⟨rfl, endpoint, hv, hset⟩ := h
    simp +decide only [readField, Field.keyword, if_true, if_false, hv, hset]

theorem ite_ok {α : Type} {c : Prop} [Decidable c] {x y : Result α} {a : α} (h : (if c then x else y) = .ok a) :
    c ∧ x = .ok a ∨ ¬ c ∧ y = .ok a := by
  by_cases hc : c
  · rw [if_pos hc] at h
    exact .inl ⟨hc, h⟩
  · rw [if_neg hc] at h
    exact .inr ⟨hc, h⟩

theorem guard_ok {α : Type} {c : Prop} [Decidable c] {e : Error} {y : Result α} {a : α}
    (h : (if c then .error e else y) = .ok a) : ¬ c ∧ y = .ok a := by
  obtain ⟨-, h⟩ | h := ite_ok h
  · cases h
  · exact h

theorem read_of_readField (h : readField n keyword value = .ok f) : keyword = f.keyword ∧ f.Read value := by
  unfold readField at h
  obtain ⟨hk, h⟩ | ⟨-, h⟩ := ite_ok h
  · cases hv : parseTargetClass value with
    | none =>
      rw [hv] at h
      cases h
    | some v =>
      rw [hv] at h
      obtain rfl := Except.ok.inj h
      exact ⟨hk, hv⟩
  obtain ⟨hk, h⟩ | ⟨-, h⟩ := ite_ok h
  · cases hv : parseApplyGuarantee value with
    | none =>
      rw [hv] at h
      cases h
    | some v =>
      rw [hv] at h
      obtain rfl := Except.ok.inj h
      exact ⟨hk, hv⟩
  obtain ⟨hk, h⟩ | ⟨-, h⟩ := ite_ok h
  · obtain ⟨v, hv, rfl⟩ := Result.map_eq_ok.mp h
    exact ⟨hk, hv⟩
  obtain ⟨hk, h⟩ | ⟨-, h⟩ := ite_ok h
  · obtain ⟨v, hv, rfl⟩ := Result.map_eq_ok.mp h
    exact ⟨hk, hv⟩
  obtain ⟨hk, h⟩ | ⟨-, h⟩ := ite_ok h
  · obtain ⟨v, hv, rfl⟩ := Result.map_eq_ok.mp h
    exact ⟨hk, hv⟩
  obtain ⟨hk, h⟩ | ⟨-, h⟩ := ite_ok h
  · obtain ⟨v, hv, rfl⟩ := Result.map_eq_ok.mp h
    exact ⟨hk, hv⟩
  obtain ⟨hk, h⟩ | ⟨-, h⟩ := ite_ok h
  · obtain ⟨v, hv, rfl⟩ := Result.map_eq_ok.mp h
    exact ⟨hk, hv⟩
  obtain ⟨hk, h⟩ | ⟨-, h⟩ := ite_ok h
  · obtain ⟨v, hv, h⟩ := Result.bind_eq_ok.mp h
    obtain ⟨hbound, h⟩ := guard_ok h
    obtain rfl := Except.ok.inj h
    exact ⟨hk, hv, Nat.not_lt.mp hbound⟩
  obtain ⟨hk, h⟩ | ⟨-, h⟩ := ite_ok h
  · obtain ⟨v, hv, rfl⟩ := Result.map_eq_ok.mp h
    exact ⟨hk, hv⟩
  obtain ⟨hk, h⟩ | ⟨-, h⟩ := ite_ok h
  · obtain ⟨v, hv, rfl⟩ := Result.map_eq_ok.mp h
    exact ⟨hk, hv⟩
  obtain ⟨hk, h⟩ | ⟨-, h⟩ := ite_ok h
  · cases hv : parseGuaranteeRequirement value with
    | none =>
      rw [hv] at h
      cases h
    | some v =>
      rw [hv] at h
      obtain rfl := Except.ok.inj h
      exact ⟨hk, hv⟩
  obtain ⟨hk, h⟩ | ⟨-, h⟩ := ite_ok h
  · obtain ⟨hbad, h⟩ := guard_ok h
    obtain ⟨hne, hlen⟩ := not_or.mp hbad
    obtain rfl := Except.ok.inj h
    exact ⟨hk, rfl, hne, Nat.not_lt.mp hlen⟩
  obtain ⟨hk, h⟩ | ⟨-, h⟩ := ite_ok h
  · obtain ⟨hlen, h⟩ := guard_ok h
    obtain rfl := Except.ok.inj h
    exact ⟨hk, rfl, Nat.not_lt.mp hlen⟩
  obtain ⟨hk, h⟩ | ⟨-, h⟩ := ite_ok h
  · obtain ⟨hbad, h⟩ := guard_ok h
    obtain ⟨hne, hlen⟩ := not_or.mp hbad
    obtain rfl := Except.ok.inj h
    exact ⟨hk, rfl, hne, Nat.not_lt.mp hlen⟩
  obtain ⟨hk, h⟩ | ⟨-, h⟩ := ite_ok h
  · cases hv : parseEndpoint value with
    | error e =>
      rw [hv] at h
      cases h
    | ok endpoint =>
      rw [hv] at h
      obtain ⟨hset, h⟩ := guard_ok h
      obtain rfl := Except.ok.inj h
      exact ⟨hk, rfl, endpoint, hv, by simpa using hset⟩
  · cases h

theorem readField_ok : readField n keyword value = .ok f ↔ keyword = f.keyword ∧ f.Read value := by
  constructor
  · exact read_of_readField
  · rintro ⟨rfl, h⟩
    exact readField_of_read h

/-! The order of the fields. -/

/-- A line of a target block that is neither its first nor its last. -/
def isField (line : Bytes) : Bool := decide (keywordOf line ≠ text "cf-plan" ∧ keywordOf line ∉ headerKeywords)

theorem isField_iff {l : Bytes} : isField l = true ↔ keywordOf l ≠ text "cf-plan" ∧ keywordOf l ∉ headerKeywords :=
  decide_eq_true_iff

theorem assign_comm {f g : Field} (h : f.keyword ≠ g.keyword) (i : DeploymentInstruction) :
    f.assign (g.assign i) = g.assign (f.assign i) := by
  cases f <;> cases g <;> first
    | rfl
    | exact absurd rfl h

theorem assign_assign (f : Field) (i : DeploymentInstruction) : f.assign (f.assign i) = f.assign i := by
  cases f <;> rfl

theorem turn_of_field {l : Bytes} (hl : isField l = true) (h : Turn s l s') :
    s.haveHeader = true ∧ s.inTarget = true ∧ keywordOf l ∉ s.seenFields ∧ ∃ f : Field, keywordOf l = f.keyword ∧
      f.Read (valueOf l) ∧
      s' = { s with seenFields := insert (keywordOf l) s.seenFields, current := f.assign s.current } := by
  obtain ⟨hplan, hheader⟩ := isField_iff.mp hl
  cases h with
  | header hs hk => exact absurd hk hplan
  | setId hs hk => exact absurd (by rw [hk]; decide) hheader
  | rolloutSet hs hk => exact absurd (by rw [hk]; decide) hheader
  | target hs hk => exact absurd (by rw [hk]; decide) hheader
  | finish hs hk => exact absurd (by rw [hk]; decide) hheader
  | field hs hk hin hnew hv =>
    obtain ⟨hkeyword, hread⟩ := readField_ok.mp hv
    exact ⟨hs, hin, hnew, _, hkeyword, hread, rfl⟩

/-- Two field lines in the other order. -/
theorem advance_field_comm {a b : Bytes} (ha : isField a = true) (hb : isField b = true)
    (hsa : isSignificant a = true) (hsb : isSignificant b = true) (s : State) :
    (advance s a).bind (advance · b) = (advance s b).bind (advance · a) := by
  have hswap {a b : Bytes} (ha : isField a = true) (hb : isField b = true) (hsa : isSignificant a = true)
      (hsb : isSignificant b = true) {s' : State} (h : (advance s a).bind (advance · b) = some s') :
      (advance s b).bind (advance · a) = some s' := by
    obtain ⟨t, ht, hs'⟩ := Option.bind_eq_some_iff.mp h
    obtain ⟨hs, hin, hnew, f, hkf, hf, rfl⟩ := turn_of_field ha ((advance_iff hsa).mp ht)
    obtain ⟨-, -, hnew', g, hkg, hg, rfl⟩ := turn_of_field hb ((advance_iff hsb).mp hs')
    obtain ⟨hne, hnew'⟩ := not_or.mp (fun hmem => hnew' (Finset.mem_insert.mpr hmem))
    have hfirst : advance s b = some { s with
        seenFields := insert (keywordOf b) s.seenFields, current := g.assign s.current } :=
      (advance_iff hsb).mpr (.field hs (isField_iff.mp hb).2 hin hnew' (readField_ok.mpr ⟨hkg, hg⟩))
    rw [hfirst, Option.bind_some, advance_iff hsa]
    have hcomm : f.assign (g.assign s.current) = g.assign (f.assign s.current) :=
      assign_comm (fun hsame => hne (by rw [hkf, hkg, hsame])) _
    have hset : insert (keywordOf b) (insert (keywordOf a) s.seenFields) =
        insert (keywordOf a) (insert (keywordOf b) s.seenFields) := Finset.insert_comm _ _ _
    rw [← hcomm, hset]
    have hfree : keywordOf a ∉ insert (keywordOf b) s.seenFields := by
      rw [Finset.mem_insert, not_or]
      exact ⟨fun hsame => hne hsame.symm, hnew⟩
    exact Turn.field (s := { s with
      seenFields := insert (keywordOf b) s.seenFields, current := g.assign s.current })
      hs (isField_iff.mp ha).2 hin hfree (readField_ok.mpr ⟨hkf, hf⟩)
  apply Option.ext
  intro s'
  exact ⟨hswap ha hb hsa hsb, hswap hb ha hsb hsa⟩

theorem advance_perm {ls ls' : List Bytes} (hperm : ls.Perm ls')
    (hls : ∀ l ∈ ls, isField l = true ∧ isSignificant l = true) (s : State) :
    ls.foldlM advance s = ls'.foldlM advance s :=
  foldlM_perm hperm (fun a ha b hb => advance_field_comm (hls a ha).1 (hls b hb).1 (hls a ha).2 (hls b hb).2) s

/-! Edits of a text that leave its plan alone. -/

/-- Field lines in another order, a blank line or comment more, other blanks around a line. -/
inductive Edit : List Bytes → List Bytes → Prop
  | permute (before after : List Bytes) {fields fields' : List Bytes} (hperm : fields.Perm fields')
      (hfields : ∀ raw ∈ fields, isField (trim raw) = true ∧ isSignificant (trim raw) = true) :
      Edit (before ++ fields ++ after) (before ++ fields' ++ after)
  | insert (before after : List Bytes) {raw : Bytes} (hraw : isSignificant (trim raw) = false) :
      Edit (before ++ after) (before ++ raw :: after)
  | indent (before after : List Bytes) (raw : Bytes) {front back : Bytes} (hfront : ∀ c ∈ front, blank c = true)
      (hback : ∀ c ∈ back, blank c = true) :
      Edit (before ++ raw :: after) (before ++ (front ++ raw ++ back) :: after)

/-- Texts whose lines differ by edits made or taken back. -/
def Edited (t t' : Bytes) : Prop := Relation.EqvGen Edit (t.splitOn 10) (t'.splitOn 10)

def trimmed (raws : List Bytes) : List Bytes := (raws.map trim).filter isSignificant

theorem trimmed_append (raws raws' : List Bytes) : trimmed (raws ++ raws') = trimmed raws ++ trimmed raws' := by
  rw [trimmed, List.map_append, List.filter_append]
  rfl

theorem foldlM_edit {raws raws' : List Bytes} (h : Edit raws raws') (s : State) :
    (trimmed raws).foldlM advance s = (trimmed raws').foldlM advance s := by
  cases h with
  | permute before after hperm hfields =>
    rename_i fields fields'
    have hmiddle (s : State) : (trimmed fields).foldlM advance s = (trimmed fields').foldlM advance s := by
      refine advance_perm ((hperm.map trim).filter isSignificant) (fun l hl => ?_) s
      obtain ⟨raw, hraw, rfl⟩ := List.mem_map.mp (List.mem_of_mem_filter hl)
      exact hfields raw hraw
    simp only [trimmed_append, List.foldlM_append, hmiddle]
  | insert before after hraw =>
    have hnone (raw : Bytes) (hraw : isSignificant (trim raw) = false) : trimmed (raw :: after) = trimmed after :=
      List.filter_cons_of_neg (by simp [hraw])
    rw [trimmed_append, trimmed_append, hnone _ hraw]
  | indent before after raw hfront hback =>
    have htrim : trim _ = trim raw := Trimmed.trim_pad hfront hback raw
    rw [trimmed_append, trimmed_append, trimmed, trimmed, trimmed, List.map_cons, List.map_cons, htrim]

theorem accepts_edited {t t' : Bytes} (h : Edited t t') {p : DeploymentPlan} (hp : Accepts (significant t) p) :
    Accepts (significant t') p := by
  have hfold (raws raws' : List Bytes) (h : Relation.EqvGen Edit raws raws') (s : State) :
      (trimmed raws).foldlM advance s = (trimmed raws').foldlM advance s := by
    induction h with
    | rel _ _ h => exact foldlM_edit h s
    | refl => rfl
    | symm _ _ _ ih => exact ih.symm
    | trans _ _ _ _ _ ih ih' => exact ih.trans ih'
  obtain ⟨s, hs, hcomplete⟩ := hp
  exact ⟨s, (hfold _ _ h {}).symm.trans hs, hcomplete⟩

end Plan

end ConfigurationFabric
