import ConfigurationFabric.Plan
import ConfigurationFabric.Library.PartialFold

/-! What a plan text comes down to: its lines that are neither blank nor comments, and one turn for each. -/

namespace ConfigurationFabric

open LittleEndian
open PartialFold

namespace Plan

/-- Neither blank nor a comment. -/
def isSignificant (line : Bytes) : Bool := !line.isEmpty && line.head? != some 35

/-- The trimmed lines that are neither blank nor comments. -/
def significant (text : Bytes) : List Bytes := ((text.splitOn 10).map trim).filter isSignificant

/-- The limits on the text as a whole. -/
structure Within (text : Bytes) : Prop where
  bytes : text.length ≤ kMaxPlanBytes
  lineBytes : ∀ raw ∈ text.splitOn 10, raw.length ≤ kMaxPlanLineBytes
  lines : (text.splitOn 10).length ≤ kMaxPlanTargets * 16 + 64

/-- One turn without its error. -/
def advance (s : State) (line : Bytes) : Option State := (step s ⟨0, line⟩).toOption

/-- What the parser asks for after the last line. -/
structure Complete (s : State) : Prop where
  haveHeader : s.haveHeader = true
  ended : s.inTarget = false
  haveSetId : s.haveSetId = true
  targets : s.plan.instructions ≠ []

/-- The lines read as the plan. -/
def Accepts (lines : List Bytes) (p : DeploymentPlan) : Prop :=
  ∃ s, lines.foldlM advance {} = some s ∧ Complete s ∧ s.plan = p

variable {s s' : State} {n : ℕ} {l keyword value : Bytes} {lines : List Bytes} {p : DeploymentPlan} {name : String}

theorem readLines_ok {raws : List Bytes} {out : List Line} (h : readLines n raws = .ok out) :
    (∀ raw ∈ raws, raw.length ≤ kMaxPlanLineBytes) ∧ (raws ≠ [] → n + raws.length ≤ kMaxPlanTargets * 16 + 64) ∧
      out.map Line.text = raws.map trim := by
  induction raws generalizing n out with
  | nil =>
    obtain rfl := Except.ok.inj h
    exact ⟨by simp, by simp, rfl⟩
  | cons raw raws ih =>
    unfold readLines at h
    split_ifs at h with hlength hcount
    · cases h
    · cases h
    obtain ⟨rest, hrest, hout⟩ := Result.bind_eq_ok.mp h
    obtain rfl := Except.ok.inj hout
    obtain ⟨hlengths, hcounts, htexts⟩ := ih hrest
    refine ⟨List.forall_mem_cons.mpr ⟨Nat.not_lt.mp hlength, hlengths⟩, fun _ => ?_, by simp [htexts]⟩
    rw [List.length_cons]
    by_cases hnil : raws = []
    · subst hnil
      exact Nat.not_lt.mp hcount
    · have hlast := hcounts hnil
      omega

theorem readLines_of_within {raws : List Bytes} (hlengths : ∀ raw ∈ raws, raw.length ≤ kMaxPlanLineBytes)
    (hcount : n + raws.length ≤ kMaxPlanTargets * 16 + 64) : ∃ out, readLines n raws = .ok out := by
  induction raws generalizing n with
  | nil => exact ⟨[], rfl⟩
  | cons raw raws ih =>
    obtain ⟨hlength, hlengths⟩ := List.forall_mem_cons.mp hlengths
    rw [List.length_cons] at hcount
    obtain ⟨out, hout⟩ := ih (n := n + 1) hlengths (by omega)
    unfold readLines
    rw [if_neg (Nat.not_lt.mpr hlength), if_neg (by omega), hout]
    exact ⟨_, rfl⟩

theorem toOption_ite {α : Type} {c : Prop} [Decidable c] {x x' y y' : Result α} (hx : x.toOption = x'.toOption)
    (hy : y.toOption = y'.toOption) : (if c then x else y).toOption = (if c then x' else y').toOption := by
  split
  · exact hx
  · exact hy

/-- The number of a line is only used in errors. -/
theorem toOption_readField : (readField n keyword value).toOption = (readField 0 keyword value).toOption := by
  unfold readField
  repeat' refine toOption_ite ?_ ?_
  all_goals try rfl
  · cases parseTargetClass value <;> rfl
  · cases parseApplyGuarantee value <;> rfl
  · cases parseUnsigned value "schema-version" with
    | error e => rfl
    | ok parsed => exact toOption_ite rfl rfl
  · cases parseGuaranteeRequirement value <;> rfl
  · cases parseEndpoint value with
    | error e => rfl
    | ok endpoint => exact toOption_ite rfl rfl

theorem toOption_finishTarget : (finishTarget n s).toOption = (finishTarget 0 s).toOption := by
  unfold finishTarget
  split
  · rfl
  · split_ifs <;> rfl

theorem toOption_onTarget : (onTarget n value s).toOption = (onTarget 0 value s).toOption := by
  unfold onTarget
  rw [toOption_bind, toOption_bind]
  have hended : (if s.inTarget = true then finishTarget n s else .ok s : Result State).toOption =
      (if s.inTarget = true then finishTarget 0 s else .ok s : Result State).toOption :=
    toOption_ite toOption_finishTarget rfl
  rw [hended]
  congr 1
  funext t
  exact toOption_ite rfl (toOption_ite rfl (toOption_ite rfl rfl))

theorem toOption_onEnd : (onEnd n s).toOption = (onEnd 0 s).toOption := by
  refine toOption_ite rfl ?_
  rw [toOption_bind, toOption_bind, toOption_finishTarget]

theorem toOption_onField : (onField n keyword value s).toOption = (onField 0 keyword value s).toOption := by
  refine toOption_ite rfl (toOption_ite rfl ?_)
  rw [toOption_bind, toOption_bind, toOption_readField]

theorem toOption_onHeader : (onHeader n keyword value s).toOption = (onHeader 0 keyword value s).toOption :=
  toOption_ite rfl rfl

theorem toOption_step (s : State) (line : Line) : (step s line).toOption = advance s line.text := by
  refine toOption_ite rfl (toOption_ite toOption_onHeader (toOption_ite ?_ (toOption_ite ?_ (toOption_ite ?_ ?_))))
  · exact toOption_ite rfl rfl
  · exact toOption_ite rfl rfl
  · exact toOption_onTarget
  · exact toOption_ite toOption_onEnd toOption_onField

theorem advance_insignificant (s : State) (l : Bytes) (h : isSignificant l = false) : advance s l = some s := by
  have hskip : l = [] ∨ l.head? = some 35 := or_iff_not_imp_left.mpr (by simpa [isSignificant] using h)
  rw [advance, step, if_pos hskip]
  rfl

theorem finish_ok : finish name s = .ok p ↔ Complete s ∧ s.plan = p := by
  unfold finish
  constructor
  · intro h
    split_ifs at h with hheader hended hset htargets
    · cases h
    · cases h
    · cases h
    · cases h
    · exact ⟨⟨by simpa using hheader, by simpa using hended, by simpa using hset, htargets⟩, Except.ok.inj h⟩
  · rintro ⟨⟨hheader, hended, hset, htargets⟩, rfl⟩
    rw [hheader, hended, hset, if_neg htargets]
    rfl

/-- A plan is read off the significant lines of a text within the limits. -/
theorem parse_ok_iff {t : Bytes} : parseDeploymentPlan t name = .ok p ↔ Within t ∧ Accepts (significant t) p := by
  have hfold {out : List Line} (hout : out.map Line.text = (t.splitOn 10).map trim) :
      (out.foldlM step {}).toOption = (significant t).foldlM advance {} := by
    rw [toOption_foldlM, significant, foldlM_filter advance_insignificant, ← hout, List.foldlM_map]
    congr 1
    funext s line
    exact toOption_step s line
  unfold parseDeploymentPlan
  constructor
  · intro h
    split_ifs at h with hbytes
    · cases h
    obtain ⟨out, hout, h⟩ := Result.bind_eq_ok.mp h
    obtain ⟨s, hs, hfinish⟩ := Result.bind_eq_ok.mp h
    obtain ⟨hlengths, hcount, htexts⟩ := readLines_ok hout
    have hlines := hcount (List.splitOn_ne_nil _ _)
    rw [Nat.zero_add] at hlines
    refine ⟨⟨Nat.not_lt.mp hbytes, hlengths, hlines⟩, s, ?_, finish_ok.mp hfinish⟩
    rw [← hfold htexts, hs]
    rfl
  · rintro ⟨⟨hbytes, hlengths, hlines⟩, s, hs, hfinish⟩
    obtain ⟨out, hout⟩ := readLines_of_within (n := 0) hlengths (by omega)
    obtain ⟨-, -, htexts⟩ := readLines_ok hout
    rw [← hfold htexts, toOption_eq_some] at hs
    rw [if_neg (Nat.not_lt.mpr hbytes)]
    exact Result.bind_eq_ok.mpr ⟨out, hout, Result.bind_eq_ok.mpr ⟨s, hs, finish_ok.mpr hfinish⟩⟩

/-! What one line can do. -/

/-- A block whose end is accepted. -/
structure Finished (s : State) : Prop where
  fields : ∀ field ∈ mandatory, text field ∈ s.seenFields
  size : s.current.sizeBytes ≠ 0
  digest : s.current.digest.isSet = true
  generation : s.current.generation ≠ 0
  target : s.current.target ∉ s.seenTargets

/-- The state with the current block in the plan. -/
def pushed (s : State) : State :=
  { s with
    seenTargets := insert s.current.target s.seenTargets
    plan := { s.plan with instructions := s.plan.instructions ++ [s.current] } }

/-- The state at a target line, which ends the block before it. -/
def Ended (s s' : State) : Prop := if s.inTarget then Finished s ∧ s' = pushed s else s' = s

def headerKeywords : List Bytes := [text "set-id", text "rollout-set", text "target", text "end"]

/-- What a significant line can do, by its keyword. -/
inductive Turn (s : State) (l : Bytes) : State → Prop
  | header (hs : s.haveHeader = false) (hk : keywordOf l = text "cf-plan")
      (hv : parseUnsigned (valueOf l) "plan format version" = .ok kDeploymentPlanFormatVersion) :
      Turn s l { s with haveHeader := true }
  | setId (hs : s.haveHeader = true) (hk : keywordOf l = text "set-id") (hin : s.inTarget = false) {setId : Bytes}
      (hv : parseDeploymentSetId (valueOf l) = .ok setId) :
      Turn s l { s with plan := { s.plan with setId }, haveSetId := true }
  | rolloutSet (hs : s.haveHeader = true) (hk : keywordOf l = text "rollout-set") (hin : s.inTarget = false)
      {rolloutSet : Bytes} (hv : parseRolloutSetId (valueOf l) = .ok rolloutSet) :
      Turn s l { s with plan := { s.plan with rolloutSet } }
  | target (hs : s.haveHeader = true) (hk : keywordOf l = text "target") {ended : State} (hended : Ended s ended)
      (hset : s.haveSetId = true) (hcount : ended.plan.instructions.length < kMaxPlanTargets) {target : Bytes}
      (hv : parseTargetId (valueOf l) = .ok target) :
      Turn s l { ended with
        current := { DeploymentInstruction.empty with target }, seenFields := {text "target"}, inTarget := true }
  | finish (hs : s.haveHeader = true) (hk : keywordOf l = text "end") (hin : s.inTarget = true) (hended : Finished s) :
      Turn s l { pushed s with inTarget := false }
  | field (hs : s.haveHeader = true) (hk : keywordOf l ∉ headerKeywords) (hin : s.inTarget = true)
      (hnew : keywordOf l ∉ s.seenFields) {f : Field} (hv : readField 0 (keywordOf l) (valueOf l) = .ok f) :
      Turn s l { s with seenFields := insert (keywordOf l) s.seenFields, current := f.assign s.current }

theorem finishTarget_ok : finishTarget n s = .ok s' ↔ Finished s ∧ s' = pushed s := by
  have hfields : (mandatory.find? fun field => decide (text field ∉ s.seenFields)) = none ↔
      ∀ field ∈ mandatory, text field ∈ s.seenFields := by
    rw [List.find?_eq_none]
    simp
  unfold finishTarget
  constructor
  · intro h
    split at h
    · cases h
    case h_2 hnone =>
    split_ifs at h with hsize hdigest hgeneration htarget
    · cases h
    · cases h
    · cases h
    · cases h
    · exact ⟨⟨hfields.mp hnone, hsize, by simpa using hdigest, hgeneration, htarget⟩, (Except.ok.inj h).symm⟩
  · rintro ⟨⟨hseen, hsize, hdigest, hgeneration, htarget⟩, rfl⟩
    rw [hfields.mpr hseen]
    dsimp only
    rw [if_neg hsize, hdigest, if_neg (by decide), if_neg hgeneration, if_neg htarget]
    rfl

theorem onHeader_ok : onHeader n keyword value s = .ok s' ↔
    keyword = text "cf-plan" ∧ parseUnsigned value "plan format version" = .ok kDeploymentPlanFormatVersion ∧
      s' = { s with haveHeader := true } := by
  unfold onHeader
  constructor
  · intro h
    split_ifs at h with hk
    · cases h
    obtain ⟨version, hversion, h⟩ := Result.bind_eq_ok.mp h
    split_ifs at h with hv
    · cases h
    · obtain rfl := not_not.mp hv
      exact ⟨not_not.mp hk, hversion, (Except.ok.inj h).symm⟩
  · rintro ⟨hk, hversion, rfl⟩
    rw [if_neg (not_not.mpr hk)]
    exact Result.bind_eq_ok.mpr ⟨_, hversion, if_neg (not_not.mpr rfl)⟩

theorem onSetId_ok : onSetId n value s = .ok s' ↔
    s.inTarget = false ∧ ∃ setId, parseDeploymentSetId value = .ok setId ∧
      s' = { s with plan := { s.plan with setId }, haveSetId := true } := by
  unfold onSetId
  constructor
  · intro h
    split_ifs at h with hin
    · cases h
    obtain ⟨setId, hv, h⟩ := Result.bind_eq_ok.mp h
    exact ⟨Bool.eq_false_iff.mpr hin, setId, hv, (Except.ok.inj h).symm⟩
  · rintro ⟨hin, setId, hv, rfl⟩
    rw [hin, if_neg Bool.false_ne_true]
    exact Result.bind_eq_ok.mpr ⟨setId, hv, rfl⟩

theorem onRolloutSet_ok : onRolloutSet n value s = .ok s' ↔
    s.inTarget = false ∧ ∃ rolloutSet, parseRolloutSetId value = .ok rolloutSet ∧
      s' = { s with plan := { s.plan with rolloutSet } } := by
  unfold onRolloutSet
  constructor
  · intro h
    split_ifs at h with hin
    · cases h
    obtain ⟨rolloutSet, hv, h⟩ := Result.bind_eq_ok.mp h
    exact ⟨Bool.eq_false_iff.mpr hin, rolloutSet, hv, (Except.ok.inj h).symm⟩
  · rintro ⟨hin, rolloutSet, hv, rfl⟩
    rw [hin, if_neg Bool.false_ne_true]
    exact Result.bind_eq_ok.mpr ⟨rolloutSet, hv, rfl⟩

theorem beginTarget_ok : beginTarget n value s = .ok s' ↔
    s.haveSetId = true ∧ s.plan.instructions.length < kMaxPlanTargets ∧
      ∃ target, parseTargetId value = .ok target ∧
        s' = { s with
          current := { DeploymentInstruction.empty with target }, seenFields := {text "target"}, inTarget := true } := by
  unfold beginTarget
  constructor
  · intro h
    split_ifs at h with hset hcount hvalue
    · cases h
    · cases h
    · cases h
    obtain ⟨target, hv, h⟩ := Result.bind_eq_ok.mp h
    exact ⟨by simpa using hset, Nat.not_le.mp hcount, target, hv, (Except.ok.inj h).symm⟩
  · rintro ⟨hset, hcount, target, hv, rfl⟩
    have hvalue : value ≠ [] := by
      rintro rfl
      cases hv
    rw [hset, if_neg (by decide), if_neg (Nat.not_le.mpr hcount), if_neg hvalue]
    exact Result.bind_eq_ok.mpr ⟨target, hv, rfl⟩

theorem ended_ok : (if s.inTarget = true then finishTarget n s else .ok s : Result State) = .ok s' ↔ Ended s s' := by
  unfold Ended
  cases s.inTarget with
  | true => exact finishTarget_ok
  | false =>
    rw [if_neg Bool.false_ne_true, if_neg Bool.false_ne_true]
    exact ⟨fun h => (Except.ok.inj h).symm, fun h => congrArg Except.ok h.symm⟩

theorem onEnd_ok : onEnd n s = .ok s' ↔
    s.inTarget = true ∧ Finished s ∧ s' = { pushed s with inTarget := false } := by
  unfold onEnd
  constructor
  · intro h
    split_ifs at h with hin
    · cases h
    obtain ⟨t, ht, h⟩ := Result.bind_eq_ok.mp h
    obtain ⟨hfinished, rfl⟩ := finishTarget_ok.mp ht
    exact ⟨by simpa using hin, hfinished, (Except.ok.inj h).symm⟩
  · rintro ⟨hin, hfinished, rfl⟩
    rw [hin, if_neg (by decide)]
    exact Result.bind_eq_ok.mpr ⟨_, finishTarget_ok.mpr ⟨hfinished, rfl⟩, rfl⟩

theorem onField_ok : onField n keyword value s = .ok s' ↔
    s.inTarget = true ∧ keyword ∉ s.seenFields ∧ ∃ f, readField n keyword value = .ok f ∧
      s' = { s with seenFields := insert keyword s.seenFields, current := f.assign s.current } := by
  unfold onField
  constructor
  · intro h
    split_ifs at h with hin hseen
    · cases h
    · cases h
    obtain ⟨f, hv, h⟩ := Result.bind_eq_ok.mp h
    exact ⟨by simpa using hin, hseen, f, hv, (Except.ok.inj h).symm⟩
  · rintro ⟨hin, hseen, f, hv, rfl⟩
    rw [hin, if_neg (by decide), if_neg hseen]
    exact Result.bind_eq_ok.mpr ⟨f, hv, rfl⟩

theorem turn_of_step {line : Line} (hl : isSignificant line.text = true) (hn : line.number = 0)
    (h : step s line = .ok s') : Turn s line.text s' := by
  have hskip : ¬ (line.text = [] ∨ line.text.head? = some 35) := by
    simpa [isSignificant] using hl
  unfold step at h
  rw [if_neg hskip, hn] at h
  dsimp only at h
  by_cases hheader : s.haveHeader = true
  · rw [hheader, if_neg (by decide)] at h
    by_cases hset : keywordOf line.text = text "set-id"
    · rw [if_pos hset] at h
      obtain ⟨hin, setId, hv, rfl⟩ := onSetId_ok.mp h
      exact .setId hheader hset hin hv
    rw [if_neg hset] at h
    by_cases hrollout : keywordOf line.text = text "rollout-set"
    · rw [if_pos hrollout] at h
      obtain ⟨hin, rolloutSet, hv, rfl⟩ := onRolloutSet_ok.mp h
      exact .rolloutSet hheader hrollout hin hv
    rw [if_neg hrollout] at h
    by_cases htarget : keywordOf line.text = text "target"
    · rw [if_pos htarget] at h
      obtain ⟨ended, hended, h⟩ := Result.bind_eq_ok.mp h
      obtain ⟨hset, hcount, target, hv, rfl⟩ := beginTarget_ok.mp h
      have hended := ended_ok.mp hended
      refine .target hheader htarget hended ?_ hcount hv
      unfold Ended at hended
      split at hended
      · obtain ⟨-, rfl⟩ := hended
        exact hset
      · rwa [← hended]
    rw [if_neg htarget] at h
    by_cases hend : keywordOf line.text = text "end"
    · rw [if_pos hend] at h
      obtain ⟨hin, hfinished, rfl⟩ := onEnd_ok.mp h
      exact .finish hheader hend hin hfinished
    rw [if_neg hend] at h
    obtain ⟨hin, hnew, f, hv, rfl⟩ := onField_ok.mp h
    refine .field hheader ?_ hin hnew hv
    simp only [headerKeywords, List.mem_cons, List.not_mem_nil, or_false, not_or]
    exact ⟨hset, hrollout, htarget, hend⟩
  · rw [Bool.not_eq_true] at hheader
    rw [hheader, if_pos (by decide)] at h
    obtain ⟨hk, hv, rfl⟩ := onHeader_ok.mp h
    exact .header hheader hk hv

theorem step_of_turn (hl : isSignificant l = true) (h : Turn s l s') : step s ⟨0, l⟩ = .ok s' := by
  have hskip : ¬ (l = [] ∨ l.head? = some 35) := by
    simpa [isSignificant] using hl
  unfold step
  rw [if_neg hskip]
  dsimp only
  have hread (hs : s.haveHeader = true) : ¬ (!s.haveHeader) = true := by simp [hs]
  cases h with
  | header hs hk hv =>
    rw [hs, if_pos (by decide)]
    exact onHeader_ok.mpr ⟨hk, hv, rfl⟩
  | setId hs hk hin hv =>
    rw [if_neg (hread hs), if_pos hk]
    exact onSetId_ok.mpr ⟨hin, _, hv, rfl⟩
  | rolloutSet hs hk hin hv =>
    rw [if_neg (hread hs), hk, if_neg (by decide), if_pos rfl]
    exact onRolloutSet_ok.mpr ⟨hin, _, hv, rfl⟩
  | target hs hk hended hset hcount hv =>
    rw [if_neg (hread hs), hk, if_neg (by decide), if_neg (by decide), if_pos rfl]
    refine Result.bind_eq_ok.mpr ⟨_, ended_ok.mpr hended, beginTarget_ok.mpr ⟨?_, hcount, _, hv, rfl⟩⟩
    unfold Ended at hended
    split at hended
    · obtain ⟨-, rfl⟩ := hended
      exact hset
    · rwa [hended]
  | finish hs hk hin hfinished =>
    rw [if_neg (hread hs), hk, if_neg (by decide), if_neg (by decide), if_neg (by decide),
      if_pos rfl]
    exact onEnd_ok.mpr ⟨hin, hfinished, rfl⟩
  | field hs hk hin hnew hv =>
    simp only [headerKeywords, List.mem_cons, List.not_mem_nil, or_false, not_or] at hk
    obtain ⟨hset, hrollout, htarget, hend⟩ := hk
    rw [if_neg (hread hs), if_neg hset, if_neg hrollout, if_neg htarget, if_neg hend]
    exact onField_ok.mpr ⟨hin, hnew, _, hv, rfl⟩

/-- A turn on a significant line, said once for every proof. -/
theorem advance_iff (hl : isSignificant l = true) : advance s l = some s' ↔ Turn s l s' := by
  rw [advance, toOption_eq_some]
  exact ⟨turn_of_step hl rfl, step_of_turn hl⟩

end Plan

end ConfigurationFabric
