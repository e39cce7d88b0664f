import ConfigurationFabric.PlanBlocks

/-! The header lines of a plan: where they can stand, and which of them count. -/

namespace ConfigurationFabric

open LittleEndian
open PartialFold

namespace Plan

/-- A set-id or rollout-set line. -/
def namesSet (line : Bytes) : Bool := decide (keywordOf line = text "set-id" ∨ keywordOf line = text "rollout-set")

/-- One line for the format and one for the set, at most one for the rollout, all before the first target line, and
nothing that a line says is overridden. -/
structure Disciplined (lines : List Bytes) (p : DeploymentPlan) : Prop where
  plan : (lines.countP fun l => keywordOf l = text "cf-plan") = 1
  setId : (lines.countP fun l => keywordOf l = text "set-id") = 1
  rolloutSet : (lines.countP fun l => keywordOf l = text "rollout-set") ≤ 1
  before : ∀ l ∈ lines.dropWhile fun l => keywordOf l ≠ text "target",
    keywordOf l ≠ text "cf-plan" ∧ namesSet l = false
  setIdKept : ∀ l ∈ lines, keywordOf l = text "set-id" → parseDeploymentSetId (valueOf l) = .ok p.setId
  rolloutSetKept : ∀ l ∈ lines, keywordOf l = text "rollout-set" → parseRolloutSetId (valueOf l) = .ok p.rolloutSet
  fieldsKept : List.Forall₂ (fun block i => ∀ l ∈ block.tail, ∃ f, readField 0 (keywordOf l) (valueOf l) = .ok f ∧
    f.assign i = i) (blocks lines) p.instructions

/-- No set-id or rollout-set line comes after an end line or after one of its own keyword. -/
def Orderly (lines : List Bytes) : Prop :=
  lines.Pairwise fun a b => namesSet b = true → keywordOf a ≠ text "end" ∧ keywordOf a ≠ keywordOf b

instance : DecidablePred Orderly := fun lines => inferInstanceAs (Decidable (lines.Pairwise _))

variable {s s' : State} {l : Bytes} {ls : List Bytes}

theorem namesSet_iff : namesSet l = true ↔ keywordOf l = text "set-id" ∨ keywordOf l = text "rollout-set" :=
  decide_eq_true_iff

theorem countP_le_one_iff {α : Type} {p : α → Bool} {l : List α} :
    l.countP p ≤ 1 ↔ l.Pairwise fun a b => p b = true → p a = false := by
  induction l with
  | nil => simp
  | cons a l ih =>
    rw [List.countP_cons, List.pairwise_cons, ← ih]
    cases ha : p a with
    | false => simp
    | true =>
      simp only [if_true]
      constructor
      · intro h
        have hzero : l.countP p = 0 := by omega
        refine ⟨fun b hb hpb => ?_, by omega⟩
        exact absurd hpb (List.countP_eq_zero.mp hzero b hb)
      · rintro ⟨hnone, -⟩
        have hzero : l.countP p = 0 := List.countP_eq_zero.mpr fun b hb hpb => nomatch hnone b hb hpb
        omega

/-- After the header, no line is a cf-plan line. -/
theorem Turn.headed (h : Turn s l s') (hs : s.haveHeader = true) :
    s'.haveHeader = true ∧ keywordOf l ≠ text "cf-plan" := by
  cases h with
  | header hno =>
    rw [hs] at hno
    cases hno
  | setId hs hk => exact ⟨hs, by rw [hk]; decide⟩
  | rolloutSet hs hk => exact ⟨hs, by rw [hk]; decide⟩
  | target _ hk hended =>
    refine ⟨?_, by rw [hk]; decide⟩
    unfold Ended at hended
    split at hended
    · obtain ⟨-, rfl⟩ := hended
      exact hs
    · rw [hended]
      exact hs
  | finish hs hk => exact ⟨hs, by rw [hk]; decide⟩
  | field hs hk hin hnew hv =>
    refine ⟨hs, ?_⟩
    rw [(readField_ok.mp hv).1]
    exact keyword_ne_plan _

theorem run_headed (hls : ∀ l ∈ ls, isSignificant l = true) (h : ls.foldlM advance s = some s')
    (hs : s.haveHeader = true) : ∀ l ∈ ls, keywordOf l ≠ text "cf-plan" := by
  induction ls generalizing s with
  | nil => exact fun l hl => nomatch hl
  | cons l ls ih =>
    obtain ⟨hl, hls⟩ := List.forall_mem_cons.mp hls
    obtain ⟨t, ht, hrest⟩ := foldlM_cons_eq_some.mp h
    obtain ⟨hheaded, hk⟩ := ((advance_iff hl).mp ht).headed hs
    exact List.forall_mem_cons.mpr ⟨hk, ih hls hrest hheaded⟩

/-- A text that is read to its end starts with the only cf-plan line. -/
theorem header_first (hls : ∀ l ∈ ls, isSignificant l = true) (h : ls.foldlM advance {} = some s')
    (hs' : s'.haveHeader = true) :
    ∃ first rest, ls = first :: rest ∧ keywordOf first = text "cf-plan" ∧
      rest.foldlM advance { haveHeader := true } = some s' := by
  cases ls with
  | nil =>
    obtain rfl := Option.some.inj h
    cases hs'
  | cons first rest =>
    obtain ⟨hfirst, -⟩ := List.forall_mem_cons.mp hls
    obtain ⟨t, ht, hrest⟩ := foldlM_cons_eq_some.mp h
    cases (advance_iff hfirst).mp ht with
    | header hs hk => exact ⟨first, rest, rfl, hk, hrest⟩
    | setId hs => cases hs
    | rolloutSet hs => cases hs
    | target hs => cases hs
    | finish hs => cases hs
    | field hs => cases hs

/-- Before the first target line there is nothing but the names of the sets. -/
theorem names_before_target (hls : ∀ l ∈ ls, isSignificant l = true) (h : ls.foldlM advance s = some s')
    (hs : s.haveHeader = true) (hin : s.inTarget = false) :
    ∀ l ∈ ls.takeWhile fun l => keywordOf l ≠ text "target", namesSet l = true := by
  induction ls generalizing s with
  | nil => exact fun l hl => nomatch hl
  | cons l ls ih =>
    obtain ⟨hl, hls⟩ := List.forall_mem_cons.mp hls
    obtain ⟨t, ht, hrest⟩ := foldlM_cons_eq_some.mp h
    have hnext (hk : keywordOf l ≠ text "target") (hname : namesSet l = true) (hheader : t.haveHeader = true)
        (hin : t.inTarget = false) : ∀ a ∈ (l :: ls).takeWhile fun l => keywordOf l ≠ text "target",
          namesSet a = true := by
      rw [List.takeWhile_cons_of_pos (by simpa using hk)]
      exact List.forall_mem_cons.mpr ⟨hname, ih hls hrest hheader hin⟩
    cases (advance_iff hl).mp ht with
    | header hno =>
      rw [hs] at hno
      cases hno
    | setId _ hk => exact hnext (by rw [hk]; decide) (namesSet_iff.mpr (.inl hk)) hs hin
    | rolloutSet _ hk => exact hnext (by rw [hk]; decide) (namesSet_iff.mpr (.inr hk)) hs hin
    | target _ hk =>
      rw [List.takeWhile_cons_of_neg (by simpa using hk)]
      exact fun l hl => nomatch hl
    | finish _ _ hno =>
      rw [hin] at hno
      cases hno
    | field _ _ hno =>
      rw [hin] at hno
      cases hno

/-- Inside a block no set is named; the block must have been ended first. -/
theorem names_after_end (hls : ∀ l ∈ ls, isSignificant l = true) (h : ls.foldlM advance s = some s')
    (hin : s.inTarget = true) (horderly : Orderly ls) : ∀ l ∈ ls, namesSet l = false := by
  induction ls generalizing s with
  | nil => exact fun l hl => nomatch hl
  | cons l ls ih =>
    obtain ⟨hl, hls⟩ := List.forall_mem_cons.mp hls
    obtain ⟨t, ht, hrest⟩ := foldlM_cons_eq_some.mp h
    obtain ⟨hlater, horderly⟩ := List.pairwise_cons.mp horderly
    have hplain (hk : keywordOf l ≠ text "set-id") (hk' : keywordOf l ≠ text "rollout-set") : namesSet l = false :=
      decide_eq_false (not_or.mpr ⟨hk, hk'⟩)
    refine List.forall_mem_cons.mpr ?_
    cases (advance_iff hl).mp ht with
    | header _ hk => exact ⟨hplain (by rw [hk]; decide) (by rw [hk]; decide), ih hls hrest hin horderly⟩
    | setId _ _ hno =>
      rw [hin] at hno
      cases hno
    | rolloutSet _ _ hno =>
      rw [hin] at hno
      cases hno
    | target _ hk => exact ⟨hplain (by rw [hk]; decide) (by rw [hk]; decide), ih hls hrest rfl horderly⟩
    | finish _ hk =>
      refine ⟨hplain (by rw [hk]; decide) (by rw [hk]; decide), fun b hb => ?_⟩
      exact Bool.eq_false_iff.mpr fun hname => (hlater b hb hname).1 hk
    | field _ hk =>
      simp only [headerKeywords, List.mem_cons, List.not_mem_nil, or_false, not_or] at hk
      exact ⟨hplain hk.1 hk.2.1, ih hls hrest hin horderly⟩

/-- What only lines of one keyword set is what the last of them says. -/
theorem last_kept {keyword : Bytes} {get : State → Bytes} {read : Bytes → Result Bytes}
    (hset : ∀ s l s', Turn s l s' → keywordOf l = keyword → read (valueOf l) = .ok (get s'))
    (hother : ∀ s l s', Turn s l s' → keywordOf l ≠ keyword → get s' = get s)
    (hls : ∀ l ∈ ls, isSignificant l = true) (honce : ls.Pairwise fun a b => keywordOf b = keyword → keywordOf a ≠ keyword)
    (h : ls.foldlM advance s = some s') : ∀ l ∈ ls, keywordOf l = keyword → read (valueOf l) = .ok (get s') := by
  induction ls generalizing s with
  | nil => exact fun l hl => nomatch hl
  | cons l ls ih =>
    obtain ⟨hl, hls⟩ := List.forall_mem_cons.mp hls
    obtain ⟨t, ht, hrest⟩ := foldlM_cons_eq_some.mp h
    obtain ⟨hlater, honce⟩ := List.pairwise_cons.mp honce
    refine List.forall_mem_cons.mpr ⟨fun hk => ?_, ih hls honce hrest⟩
    have hsame : get s' = get t := by
      refine foldlM_keeps (P := fun s => get s = get t) (fun s a s' ha hs hstep => ?_) rfl hrest
      rw [hother s a s' ((advance_iff (hls a ha)).mp hstep) fun hka => hlater a ha hka hk, hs]
    rw [hsame]
    exact hset s l t ((advance_iff hl).mp ht) hk

theorem Ended.kept {ended : State} (h : Ended s ended) :
    ended.plan.setId = s.plan.setId ∧ ended.plan.rolloutSet = s.plan.rolloutSet ∧ ended.haveSetId = s.haveSetId := by
  unfold Ended at h
  split at h
  · obtain ⟨-, rfl⟩ := h
    exact ⟨rfl, rfl, rfl⟩
  · subst h
    exact ⟨rfl, rfl, rfl⟩

theorem Turn.setId_of (h : Turn s l s') (hk : keywordOf l = text "set-id") :
    parseDeploymentSetId (valueOf l) = .ok s'.plan.setId := by
  cases h with
  | header _ hk' => exact absurd (hk.symm.trans hk') (by decide)
  | setId _ _ _ hv => exact hv
  | rolloutSet _ hk' => exact absurd (hk.symm.trans hk') (by decide)
  | target _ hk' => exact absurd (hk.symm.trans hk') (by decide)
  | finish _ hk' => exact absurd (hk.symm.trans hk') (by decide)
  | field _ hk' => exact absurd (by rw [hk]; decide) hk'

theorem Turn.rolloutSet_of (h : Turn s l s') (hk : keywordOf l = text "rollout-set") :
    parseRolloutSetId (valueOf l) = .ok s'.plan.rolloutSet := by
  cases h with
  | header _ hk' => exact absurd (hk.symm.trans hk') (by decide)
  | setId _ hk' => exact absurd (hk.symm.trans hk') (by decide)
  | rolloutSet _ _ _ hv => exact hv
  | target _ hk' => exact absurd (hk.symm.trans hk') (by decide)
  | finish _ hk' => exact absurd (hk.symm.trans hk') (by decide)
  | field _ hk' => exact absurd (by rw [hk]; decide) hk'

theorem Turn.setId_same (h : Turn s l s') (hk : keywordOf l ≠ text "set-id") :
    s'.plan.setId = s.plan.setId ∧ s'.haveSetId = s.haveSetId := by
  cases h with
  | setId _ hk' => exact absurd hk' hk
  | target _ _ hended => exact ⟨hended.kept.1, hended.kept.2.2⟩
  | _ => exact ⟨rfl, rfl⟩

theorem Turn.rolloutSet_same (h : Turn s l s') (hk : keywordOf l ≠ text "rollout-set") :
    s'.plan.rolloutSet = s.plan.rolloutSet := by
  cases h with
  | rolloutSet _ hk' => exact absurd hk' hk
  | target _ _ hended => exact hended.kept.2.1
  | _ => rfl

theorem exists_set_id (hls : ∀ l ∈ ls, isSignificant l = true) (h : ls.foldlM advance s = some s')
    (hs : s.haveSetId = false) (hs' : s'.haveSetId = true) : ∃ l ∈ ls, keywordOf l = text "set-id" := by
  by_contra hnone
  push Not at hnone
  have hsame : s'.haveSetId = false := by
    refine foldlM_keeps (P := fun s => s.haveSetId = false) (fun s l s' hl hs ht => ?_) hs h
    rw [(((advance_iff (hls l hl)).mp ht).setId_same (hnone l hl)).2, hs]
  rw [hs'] at hsame
  cases hsame

theorem Orderly.once (h : Orderly ls) {keyword : Bytes} (hk : keyword = text "set-id" ∨ keyword = text "rollout-set") :
    ls.Pairwise fun a b => keywordOf b = keyword → keywordOf a ≠ keyword := by
  refine h.imp fun {a b} hab hb ha => ?_
  exact (hab (namesSet_iff.mpr (hb ▸ hk))).2 (ha.trans hb.symm)

theorem Orderly.countP_le (h : Orderly ls) {keyword : Bytes}
    (hk : keyword = text "set-id" ∨ keyword = text "rollout-set") :
    (ls.countP fun l => keywordOf l = keyword) ≤ 1 := by
  rw [countP_le_one_iff]
  refine (h.once hk).imp fun {a b} hab hb => ?_
  exact decide_eq_false (hab (of_decide_eq_true hb))

/-- From the first target line on no set is named. -/
theorem names_from_target (hls : ∀ l ∈ ls, isSignificant l = true) (h : ls.foldlM advance s = some s')
    (horderly : Orderly ls) : ∀ l ∈ ls.dropWhile fun l => keywordOf l ≠ text "target", namesSet l = false := by
  have hsplit := List.takeWhile_append_dropWhile (p := fun l => decide (keywordOf l ≠ text "target")) (l := ls)
  have hhead := List.head?_dropWhile_not (fun l => decide (keywordOf l ≠ text "target")) ls
  generalize ls.dropWhile _ = back at hsplit hhead
  cases back with
  | nil => exact fun l hl => nomatch hl
  | cons l back =>
    have hk : keywordOf l = text "target" := by simpa using hhead
    rw [← hsplit] at h hls horderly
    obtain ⟨t, -, hback⟩ := foldlM_append_eq_some.mp h
    obtain ⟨u, hu, hrest⟩ := foldlM_cons_eq_some.mp hback
    have hlsBack (a : Bytes) (ha : a ∈ l :: back) : isSignificant a = true := hls a (List.mem_append_right _ ha)
    have hin : u.inTarget = true := by
      cases (advance_iff (hlsBack l List.mem_cons_self)).mp hu with
      | header _ hk' => exact absurd (hk.symm.trans hk') (by decide)
      | setId _ hk' => exact absurd (hk.symm.trans hk') (by decide)
      | rolloutSet _ hk' => exact absurd (hk.symm.trans hk') (by decide)
      | target => rfl
      | finish _ hk' => exact absurd (hk.symm.trans hk') (by decide)
      | field _ hk' => exact absurd (by rw [hk]; decide) hk'
    have horderlyBack := (List.pairwise_cons.mp (List.pairwise_append.mp horderly).2.1).2
    refine List.forall_mem_cons.mpr ⟨?_, ?_⟩
    · rw [namesSet, hk]
      decide
    · exact names_after_end (fun a ha => hlsBack a (List.mem_cons_of_mem _ ha)) hrest hin horderlyBack

/-- An accepted text has the one header that is asked for exactly when no set is named after an end line or again. -/
theorem header_discipline_iff {t : Bytes} {name : String} {p : DeploymentPlan}
    (h : parseDeploymentPlan t name = .ok p) : Disciplined (significant t) p ↔ Orderly (significant t) := by
  have hblocks := parse_blocks h
  obtain ⟨-, s, hs, hcomplete, rfl⟩ := parse_ok_iff.mp h
  have hsig : ∀ l ∈ significant t, isSignificant l = true := significant_all
  generalize significant t = ls at hs hsig hblocks
  obtain ⟨first, rest, rfl, hfirst, hrest⟩ := header_first hsig hs hcomplete.haveHeader
  obtain ⟨-, hrestSig⟩ := List.forall_mem_cons.mp hsig
  have hheaded := run_headed hrestSig hrest rfl
  have hnames := names_before_target hrestSig hrest rfl rfl
  have hdrop : (first :: rest).dropWhile (fun l => keywordOf l ≠ text "target") =
      rest.dropWhile fun l => keywordOf l ≠ text "target" := by
    refine List.dropWhile_cons_of_pos ?_
    rw [hfirst]
    decide
  constructor
  · intro hd
    have hbefore := hd.before
    rw [hdrop] at hbefore
    have hsetOnce := countP_le_one_iff.mp hd.setId.le
    have hrolloutOnce := countP_le_one_iff.mp hd.rolloutSet
    have honce := (hsetOnce.and hrolloutOnce).tail
    have hsplit := List.takeWhile_append_dropWhile (p := fun l => decide (keywordOf l ≠ text "target")) (l := rest)
    unfold Orderly
    refine List.pairwise_cons.mpr ⟨fun b _ hb => ?_, ?_⟩
    · rw [hfirst]
      obtain hb | hb := namesSet_iff.mp hb <;> rw [hb] <;> decide
    rw [← hsplit] at honce ⊢
    have hfront := (List.pairwise_append.mp honce).1
    refine List.pairwise_append.mpr ⟨?_, ?_, fun a _ b hb hname => ?_⟩
    · refine hfront.imp_of_mem fun {a b} ha hb hab hname => ?_
      obtain ⟨hset, hrollout⟩ := hab
      constructor
      · obtain ha | ha := namesSet_iff.mp (hnames a ha) <;> rw [ha] <;> decide
      · intro hsame
        obtain hb | hb := namesSet_iff.mp hname
        · exact of_decide_eq_false (hset (decide_eq_true hb)) (hsame.trans hb)
        · exact of_decide_eq_false (hrollout (decide_eq_true hb)) (hsame.trans hb)
    · refine List.pairwise_of_forall_mem_list fun a _ b hb hname => ?_
      rw [(hbefore b hb).2] at hname
      cases hname
    · rw [(hbefore b hb).2] at hname
      cases hname
  · intro horderly
    have hnamesAfter := names_from_target hsig hs horderly
    rw [hdrop] at hnamesAfter
    refine ⟨?_, ?_, horderly.countP_le (.inr rfl), ?_, ?_, ?_, hblocks.imp fun _ _ hmakes => hmakes.kept⟩
    · have hnone : (rest.countP fun l => keywordOf l = text "cf-plan") = 0 :=
        List.countP_eq_zero.mpr fun l hl hk => hheaded l hl (of_decide_eq_true hk)
      rw [List.countP_cons, hnone, if_pos (decide_eq_true hfirst)]
    · obtain ⟨l, hl, hk⟩ := exists_set_id hsig hs rfl hcomplete.haveSetId
      exact Nat.le_antisymm (horderly.countP_le (.inl rfl)) (List.countP_pos_iff.mpr ⟨l, hl, decide_eq_true hk⟩)
    · rw [hdrop]
      exact fun l hl => ⟨hheaded l ((List.dropWhile_sublist _).mem hl), hnamesAfter l hl⟩
    · exact last_kept (fun _ _ _ ht hk => ht.setId_of hk) (fun _ _ _ ht hk => (ht.setId_same hk).1) hsig
        (horderly.once (.inl rfl)) hs
    · exact last_kept (fun _ _ _ ht hk => ht.rolloutSet_of hk) (fun _ _ _ ht hk => ht.rolloutSet_same hk) hsig
        (horderly.once (.inr rfl)) hs

theorem example_disciplined :
    ∃ p, parseDeploymentPlan (examplePlanText exampleFields) "plan" = .ok p ∧
      Disciplined (significant (examplePlanText exampleFields)) p := by
  have hok : (parseDeploymentPlan (examplePlanText exampleFields) "plan").isOk = true := by decide +kernel
  cases hp : parseDeploymentPlan (examplePlanText exampleFields) "plan" with
  | error e =>
    rw [hp] at hok
    cases hok
  | ok p => exact ⟨p, rfl, (header_discipline_iff hp).mpr (by decide +kernel)⟩

/-- A second set-id after the last block takes the place of the first. -/
theorem set_renamed_after_end :
    ∃ p, parseDeploymentPlan (examplePlanText exampleFields ++ text "set-id other") "plan" = .ok p ∧
      p.setId = text "other" ∧ ¬ Disciplined (significant (examplePlanText exampleFields ++ text "set-id other")) p := by
  have hset : (parseDeploymentPlan (examplePlanText exampleFields ++ text "set-id other") "plan").toOption.map (·.setId) =
      some (text "other") := by decide +kernel
  have hcount : ((significant (examplePlanText exampleFields ++ text "set-id other")).countP fun l =>
      keywordOf l = text "set-id") = 2 := by decide +kernel
  obtain ⟨p, hp, hset⟩ := Option.map_eq_some_iff.mp hset
  refine ⟨p, toOption_eq_some.mp hp, hset, fun hd => ?_⟩
  have hone := hd.setId
  rw [hcount] at hone
  cases hone

end Plan

end ConfigurationFabric
