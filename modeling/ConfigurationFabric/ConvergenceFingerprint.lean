import Mathlib.Data.Bool.AllAny
import ConfigurationFabric.ConvergenceClock
import ConfigurationFabric.Library.Delimited

/-! What of a convergence report its fingerprint covers. -/

namespace ConfigurationFabric

open LittleEndian

/-- No separator of the report's texts. -/
def Plain (c : UInt8) : Prop := c ≠ 32 ∧ c ≠ 10 ∧ c ≠ 59 ∧ c ≠ 124

instance : DecidablePred Plain := fun c => inferInstanceAs (Decidable (c ≠ 32 ∧ c ≠ 10 ∧ c ≠ 59 ∧ c ≠ 124))

theorem plain_of_digit {c : UInt8} (hc : Decimal.IsDigit c) : Plain c ∧ c ≠ 58 := by
  obtain ⟨hlow, hhigh⟩ := hc
  rw [UInt8.le_iff_toNat_le] at hlow hhigh
  have hne (n : ℕ) (hn : n < 48 ∨ 57 < n) (hn' : n < 256) : c ≠ UInt8.ofNat n := by
    intro h
    rw [h, UInt8.toNat_ofNat', Nat.mod_eq_of_lt hn'] at hlow hhigh
    change 48 ≤ n at hlow
    change n ≤ 57 at hhigh
    omega
  exact ⟨⟨hne 32 (by omega) (by omega), hne 10 (by omega) (by omega), hne 59 (by omega) (by omega),
    hne 124 (by omega) (by omega)⟩, hne 58 (by omega) (by omega)⟩

theorem plain_digits {n : ℕ} {c : UInt8} (hc : c ∈ Decimal.digits n) : Plain c ∧ c ≠ 58 :=
  plain_of_digit (Decimal.isDigit_of_mem hc)

theorem plain_of_byte {c : UInt8} (hc : identifierByte c = true) : Plain c := by
  refine ⟨?_, ?_, ?_, ?_⟩
  all_goals
    rintro rfl
    revert hc
    decide

theorem plain_of_identifier {bytes : Bytes} (h : isValidIdentifier bytes = true) {c : UInt8} (hc : c ∈ bytes) :
    Plain c := by
  simp only [isValidIdentifier, Bool.and_eq_true, List.all_eq_true] at h
  exact plain_of_byte (h.2 c hc)

def ConvergenceReport.Valid (r : ConvergenceReport) : Prop :=
  isValidIdentifier r.nodeId = true ∧
    ∀ l ∈ r.lineages, isValidIdentifier l.target = true ∧ isValidIdentifier l.key = true

namespace ConvergenceReport

variable {r r' : ConvergenceReport} {l l' : LineageConvergence}

/-! The hashed bytes. -/

/-- What is hashed of a lineage. The target and the key are one text, which both may have colons in. -/
structure HashedLineage where
  name : Bytes
  desiredGeneration : Generation
  currentGeneration : Generation
  state : DeliveryState
  converged : Bool

def hashed (l : LineageConvergence) : HashedLineage :=
  ⟨l.target ++ text ":" ++ l.key, l.desiredGeneration, l.currentGeneration, l.state, l.converged⟩

/-- The same hashed fields. -/
structure Hashed (r r' : ConvergenceReport) : Prop where
  nodeId : r.nodeId = r'.nodeId
  epoch : r.epoch = r'.epoch
  lineages : r.lineages.map hashed = r'.lineages.map hashed

def currentText (g : Generation) : Bytes := text (if g ≠ 0 then toString g else "-")

def flagText (b : Bool) : Bytes := text (if b then "1" else "0")

def hashedBody (l : HashedLineage) : Bytes :=
  l.name ++ 58 :: Decimal.digits l.desiredGeneration ++ 58 :: currentText l.currentGeneration ++
    58 :: text (deliveryStateName l.state) ++ 58 :: flagText l.converged

theorem lineageMaterial_eq (l : LineageConvergence) : lineageMaterial l = hashedBody (hashed l) ++ [59] := by
  have hcolon : text ":" = [58] := by decide
  have hsemicolon : text ";" = [59] := by decide
  rw [lineageMaterial, text_toString, hcolon, hsemicolon]
  simp only [hashedBody, hashed, currentText, flagText, hcolon, List.append_assoc, List.cons_append, List.nil_append]

theorem currentText_plain {g : Generation} {c : UInt8} (hc : c ∈ currentText g) : Plain c ∧ c ≠ 58 := by
  unfold currentText at hc
  split_ifs at hc with hg
  · rw [text_toString] at hc
    exact plain_digits hc
  · obtain rfl : c = 45 := List.mem_singleton.mp hc
    decide

theorem currentText_injective : Function.Injective currentText := by
  have hdash (g : ℕ) : Decimal.digits g ≠ text "-" := by
    intro h
    have hmem : (45 : UInt8) ∈ Decimal.digits g := by
      rw [h]
      exact List.mem_singleton.mpr rfl
    exact absurd (Decimal.isDigit_of_mem hmem) (by decide)
  intro a b h
  unfold currentText at h
  by_cases ha : a = 0
  · by_cases hb : b = 0
    · rw [ha, hb]
    · rw [if_neg (by simp [ha]), if_pos hb, text_toString] at h
      exact absurd h.symm (hdash b)
  · by_cases hb : b = 0
    · rw [if_pos ha, if_neg (by simp [hb]), text_toString] at h
      exact absurd h (hdash a)
    · rw [if_pos ha, if_pos hb, text_toString, text_toString] at h
      exact Decimal.digits_injective h

theorem stateName_plain (s : DeliveryState) : ∀ c ∈ text (deliveryStateName s), Plain c ∧ c ≠ 58 := by
  cases s <;> exact List.all_iff_forall_prop.mp (by decide)

theorem stateName_injective : Function.Injective fun s => text (deliveryStateName s) := by
  intro a b
  cases a <;> cases b <;> decide

theorem flagText_plain (b : Bool) : ∀ c ∈ flagText b, Plain c ∧ c ≠ 58 := by
  cases b <;> exact List.all_iff_forall_prop.mp (by decide)

theorem flagText_injective : Function.Injective flagText := by
  intro a b
  cases a <;> cases b <;> decide

/-- Read from the right: the fields after the name have no colon. -/
theorem hashedBody_injective : Function.Injective hashedBody := by
  intro a b h
  have hfree {x : Bytes} (hx : ∀ c ∈ x, Plain c ∧ c ≠ 58) : (58 : UInt8) ∉ x := fun hc => (hx 58 hc).2 rfl
  obtain ⟨h, hconverged⟩ := Delimited.suffix_inj (hfree (flagText_plain _)) (hfree (flagText_plain _)) h
  obtain ⟨h, hstate⟩ := Delimited.suffix_inj (hfree (stateName_plain _)) (hfree (stateName_plain _)) h
  obtain ⟨h, hcurrent⟩ := Delimited.suffix_inj (hfree fun c hc => currentText_plain hc)
    (hfree fun c hc => currentText_plain hc) h
  obtain ⟨hname, hdesired⟩ := Delimited.suffix_inj (hfree fun c hc => plain_digits hc)
    (hfree fun c hc => plain_digits hc) h
  cases a
  cases b
  simp only [HashedLineage.mk.injEq]
  exact ⟨hname, Decimal.digits_injective hdesired, currentText_injective hcurrent, stateName_injective hstate,
    flagText_injective hconverged⟩

theorem hashedBody_plain (ht : isValidIdentifier l.target = true) (hk : isValidIdentifier l.key = true) :
    (59 : UInt8) ∉ hashedBody (hashed l) := by
  have hsemicolon {x : Bytes} (hx : ∀ c ∈ x, Plain c ∧ c ≠ 58) : (59 : UInt8) ∉ x := fun hc => (hx 59 hc).1.2.2.1 rfl
  have hname {x : Bytes} (hx : isValidIdentifier x = true) : (59 : UInt8) ∉ x :=
    fun hc => (plain_of_identifier hx hc).2.2.1 rfl
  have hcolon : (59 : UInt8) ∉ text ":" := by decide
  simp only [hashedBody, hashed, List.mem_append, List.mem_cons, not_or]
  exact ⟨⟨⟨⟨⟨⟨hname ht, hcolon⟩, hname hk⟩, by decide, hsemicolon fun c hc => plain_digits hc⟩, by decide,
    hsemicolon fun c hc => currentText_plain hc⟩, by decide, hsemicolon (stateName_plain _)⟩, by decide,
    hsemicolon (flagText_plain _)⟩

/-- The hashed bytes are uniquely decodable. -/
theorem material_eq_iff (hr : r.Valid) (hr' : r'.Valid) : r.material = r'.material ↔ Hashed r r' := by
  have hmaterial (r : ConvergenceReport) : r.material = r.nodeId ++ (124 :: (Decimal.digits r.epoch ++
      124 :: (r.lineages.map hashed).flatMap fun l => hashedBody l ++ [59])) := by
    have hbar : text "|" = [124] := by decide
    rw [material, text_toString, hbar, List.flatMap_map, funext lineageMaterial_eq]
    simp only [List.append_assoc, List.cons_append, List.nil_append]
  have hlineages {r : ConvergenceReport} (hr : r.Valid) : ∀ l ∈ r.lineages.map hashed, (59 : UInt8) ∉ hashedBody l := by
    intro b hb
    obtain ⟨l, hl, rfl⟩ := List.mem_map.mp hb
    exact hashedBody_plain (hr.2 l hl).1 (hr.2 l hl).2
  constructor
  · intro h
    rw [hmaterial, hmaterial] at h
    have hnode {r : ConvergenceReport} (hr : r.Valid) : ∀ c ∈ r.nodeId, c ≠ 124 :=
      fun c hc => (plain_of_identifier hr.1 hc).2.2.2
    have hepoch (r : ConvergenceReport) : ∀ c ∈ Decimal.digits r.epoch, c ≠ 124 := fun c hc => (plain_digits hc).1.2.2.2
    obtain ⟨hnodeId, h⟩ := Delimited.append_inj (hnode hr) (hnode hr') (by simp) (by simp) h
    obtain ⟨hepoch, h⟩ := Delimited.append_inj (hepoch r) (hepoch r') (by simp) (by simp) (List.cons.inj h).2
    exact ⟨hnodeId, Decimal.digits_injective hepoch, List.map_injective_iff.mpr hashedBody_injective
      (Delimited.terminated_inj (hlineages hr) (hlineages hr') (List.cons.inj h).2)⟩
  · intro h
    rw [hmaterial, hmaterial, h.nodeId, h.epoch, h.lineages]

/-! The printed text. -/

/-- What is printed of a lineage. -/
structure PrintedLineage where
  target : TargetId
  key : ConfigKey
  desiredGeneration : Generation
  desiredDigest : Bytes
  currentGeneration : Generation
  currentDigest : Option Bytes
  state : DeliveryState
  guarantee : ApplyGuarantee
  requirement : GuaranteeRequirement
  converged : Bool
  currentReason : Bytes
  blockers : List BlockerKind
  pending : List Bytes

def printed (l : LineageConvergence) : PrintedLineage where
  target := l.target
  key := l.key
  desiredGeneration := l.desiredGeneration
  desiredDigest := shortDigest l.desiredDigest
  currentGeneration := l.currentGeneration
  currentDigest := if l.currentDigest.isSet then some (shortDigest l.currentDigest) else none
  state := l.state
  guarantee := l.guarantee
  requirement := l.requirement
  converged := l.converged
  currentReason := l.currentReason
  blockers := l.blockers
  pending := l.pending

def counts (r : ConvergenceReport) : List ℕ :=
  [r.lineageCount, r.convergedCount, r.pendingCount, r.divergedCount, r.blockedCount, r.retiredCount, r.rejectedCount]

/-- The part of the text below the header. -/
def listing (r : ConvergenceReport) : Bytes := r.lineages.flatMap LineageConvergence.render

/-- Reasons and pending items without line breaks. -/
def OneLine (r : ConvergenceReport) : Prop :=
  ∀ l ∈ r.lineages, (10 : UInt8) ∉ l.currentReason ∧ ∀ item ∈ l.pending, (10 : UInt8) ∉ item

def currentGenerationText (g : Generation) : Bytes := text (if g ≠ 0 then toString g else "none")

def digestText (d : Option Bytes) : Bytes := d.getD (text "none")

def outcomeText (b : Bool) : Bytes := text (if b then "converged" else "not-converged")

def summaryLabels : List Bytes :=
  [text " key=", text " desired-generation=", text " desired-digest=", text " current-generation=",
    text " current-digest=", text " state=", text " guarantee=", text " required=", text " outcome="]

def summaryWords (l : PrintedLineage) : List Bytes :=
  [l.key, Decimal.digits l.desiredGeneration, l.desiredDigest, currentGenerationText l.currentGeneration,
    digestText l.currentDigest, text (deliveryStateName l.state), text (applyGuaranteeName l.guarantee),
    text (guaranteeRequirementName l.requirement), outcomeText l.converged]

open LineageConvergence in
def printedText (l : PrintedLineage) : Bytes :=
  text "target=" ++ (l.target ++ (Delimited.labelled summaryLabels (summaryWords l) ++
    ([10] ++ (text "  reason: " ++ (l.currentReason ++ ([10] ++ (blockerLine l.blockers ++ pendingLines l.pending)))))))

theorem render_eq (l : LineageConvergence) : l.render = printedText (printed l) := by
  have hbreak : text "\n" = [10] := by decide
  have hdigest : (if l.currentDigest.isSet then shortDigest l.currentDigest else text "none") =
      digestText (if l.currentDigest.isSet then some (shortDigest l.currentDigest) else none) := by
    split_ifs <;> rfl
  unfold LineageConvergence.render LineageConvergence.summary printedText
  rw [text_toString, hdigest, hbreak]
  simp only [printed, summaryWords, summaryLabels, Delimited.labelled, currentGenerationText, outcomeText,
    List.zipWith_cons_cons, List.zipWith_nil_right, List.flatten_cons, List.flatten_nil, List.append_nil,
    List.append_assoc]
  rfl

theorem listing_eq (r : ConvergenceReport) : r.listing = (r.lineages.map printed).flatMap printedText := by
  rw [listing, List.flatMap_map, funext render_eq]

/-! Read back, where its free texts have no line breaks. -/

def Word (c : UInt8) : Prop := c ≠ 32 ∧ c ≠ 10

instance : DecidablePred Word := fun c => inferInstanceAs (Decidable (c ≠ 32 ∧ c ≠ 10))

theorem word_of_plain {c : UInt8} (h : Plain c) : Word c := ⟨h.1, h.2.1⟩

theorem shortDigest_word (d : Digest) : ∀ c ∈ shortDigest d, Word c := fun _ hc =>
  word_of_plain (plain_of_byte (toHex_identifier (List.mem_of_mem_take hc)).1)

theorem shortDigest_length (d : Digest) : (shortDigest d).length = 12 := by
  rw [shortDigest, List.length_take, d.length_hex]
  rfl

theorem digits_word (n : ℕ) : ∀ c ∈ Decimal.digits n, Word c := fun _ hc => word_of_plain (plain_digits hc).1

theorem currentGenerationText_word (g : Generation) : ∀ c ∈ currentGenerationText g, Word c := by
  unfold currentGenerationText
  split_ifs with hg
  · rw [text_toString]
    exact digits_word g
  · exact List.all_iff_forall_prop.mp (by decide)

theorem currentGenerationText_injective : Function.Injective currentGenerationText := by
  have hnone (g : ℕ) : Decimal.digits g ≠ text "none" := by
    intro h
    have hmem : (110 : UInt8) ∈ Decimal.digits g := by
      rw [h]
      decide
    exact absurd (Decimal.isDigit_of_mem hmem) (by decide)
  intro a b h
  unfold currentGenerationText at h
  by_cases ha : a = 0
  · by_cases hb : b = 0
    · rw [ha, hb]
    · rw [if_neg (by simp [ha]), if_pos hb, text_toString] at h
      exact absurd h.symm (hnone b)
  · by_cases hb : b = 0
    · rw [if_pos ha, if_neg (by simp [hb]), text_toString] at h
      exact absurd h (hnone a)
    · rw [if_pos ha, if_pos hb, text_toString, text_toString] at h
      exact Decimal.digits_injective h

theorem digestText_word (d : Digest) : ∀ c ∈ digestText (if d.isSet then some (shortDigest d) else none), Word c := by
  split_ifs
  · exact shortDigest_word d
  · exact List.all_iff_forall_prop.mp (by decide)

theorem digestText_inj {d d' : Digest}
    (h : digestText (if d.isSet then some (shortDigest d) else none) =
      digestText (if d'.isSet then some (shortDigest d') else none)) :
    (if d.isSet then some (shortDigest d) else none) = if d'.isSet then some (shortDigest d') else none := by
  have hlength (d : Digest) : shortDigest d ≠ text "none" := by
    intro h
    have := congrArg List.length h
    rw [shortDigest_length] at this
    revert this
    decide
  by_cases hd : d.isSet
  · by_cases hd' : d'.isSet
    · rw [if_pos hd, if_pos hd'] at h ⊢
      exact congrArg some h
    · rw [if_pos hd, if_neg hd'] at h
      exact absurd h (hlength d)
  · by_cases hd' : d'.isSet
    · rw [if_neg hd, if_pos hd'] at h
      exact absurd h.symm (hlength d')
    · rw [if_neg hd, if_neg hd']

theorem guaranteeName_word (g : ApplyGuarantee) : ∀ c ∈ text (applyGuaranteeName g), Word c := by
  cases g <;> exact List.all_iff_forall_prop.mp (by decide)

theorem guaranteeName_injective : Function.Injective fun g => text (applyGuaranteeName g) := by
  intro a b
  cases a <;> cases b <;> decide

theorem requirementName_word (g : GuaranteeRequirement) : ∀ c ∈ text (guaranteeRequirementName g), Word c := by
  cases g <;> exact List.all_iff_forall_prop.mp (by decide)

theorem requirementName_injective : Function.Injective fun g => text (guaranteeRequirementName g) := by
  intro a b
  cases a <;> cases b <;> decide

theorem outcomeText_word (b : Bool) : ∀ c ∈ outcomeText b, Word c := by
  cases b <;> exact List.all_iff_forall_prop.mp (by decide)

theorem outcomeText_injective : Function.Injective outcomeText := by
  intro a b
  cases a <;> cases b <;> decide

theorem summaryWords_word (hk : isValidIdentifier l.key = true) :
    ∀ w ∈ summaryWords (printed l), ∀ c ∈ w, Word c := by
  simp only [summaryWords, printed, List.forall_mem_cons]
  exact ⟨fun c hc => word_of_plain (plain_of_identifier hk hc), digits_word _, shortDigest_word _,
    currentGenerationText_word _, digestText_word _, fun c hc => word_of_plain (stateName_plain _ c hc).1,
    guaranteeName_word _, requirementName_word _, outcomeText_word _, fun w hw => absurd hw List.not_mem_nil⟩

theorem summaryLabels_break : ∀ label ∈ summaryLabels, label ≠ [] ∧ ∀ a ∈ label.head?, ¬ Word a := by
  decide +kernel

open LineageConvergence

/-- What follows the items of a list. -/
def Follows (x : Bytes) : Prop := ∀ a ∈ x.head?, a ≠ 32

theorem items_inj {items items' : List Bytes} {x y : Bytes} (hitems : ∀ item ∈ items, (10 : UInt8) ∉ item)
    (hitems' : ∀ item ∈ items', (10 : UInt8) ∉ item) (hx : Follows x) (hy : Follows y)
    (h : (items.flatMap fun item => text "    - " ++ (item ++ [10])) ++ x =
      (items'.flatMap fun item => text "    - " ++ (item ++ [10])) ++ y) : items = items' ∧ x = y := by
  have hfree {item : Bytes} (hitem : (10 : UInt8) ∉ item) : ∀ a ∈ item, a ≠ 10 := fun a ha hbreak => hitem (hbreak ▸ ha)
  induction items generalizing items' with
  | nil =>
    cases items' with
    | nil => exact ⟨rfl, h⟩
    | cons item' items' =>
      refine absurd rfl (hx 32 ?_)
      rw [show x = _ from h]
      rfl
  | cons item items ih =>
    obtain ⟨hitem, hitems⟩ := List.forall_mem_cons.mp hitems
    cases items' with
    | nil =>
      refine absurd rfl (hy 32 ?_)
      rw [show y = _ from h.symm]
      rfl
    | cons item' items' =>
      obtain ⟨hitem', hrest'⟩ := List.forall_mem_cons.mp hitems'
      simp only [List.flatMap_cons, List.append_assoc, List.append_cancel_left_eq] at h
      obtain ⟨rfl, htail⟩ := Delimited.append_inj (hfree hitem) (hfree hitem') (by simp) (by simp) h
      obtain ⟨rfl, hxy⟩ := ih hitems hrest' (List.append_cancel_left htail)
      exact ⟨rfl, hxy⟩

theorem pendingLines_inj {items items' : List Bytes} {x y : Bytes} (hitems : ∀ item ∈ items, (10 : UInt8) ∉ item)
    (hitems' : ∀ item ∈ items', (10 : UInt8) ∉ item) (hx : Follows x) (hy : Follows y)
    (h : pendingLines items ++ x = pendingLines items' ++ y) : items = items' ∧ x = y := by
  have hbreak : text "\n" = [10] := by decide
  unfold pendingLines at h
  rw [hbreak] at h
  by_cases hnil : items = []
  · by_cases hnil' : items' = []
    · rw [if_pos hnil, if_pos hnil'] at h
      exact ⟨hnil.trans hnil'.symm, h⟩
    · rw [if_pos hnil, if_neg hnil'] at h
      refine absurd rfl (hx 32 ?_)
      rw [show x = _ from h]
      rfl
  · by_cases hnil' : items' = []
    · rw [if_neg hnil, if_pos hnil'] at h
      refine absurd rfl (hy 32 ?_)
      rw [show y = _ from h.symm]
      rfl
    · rw [if_neg hnil, if_neg hnil'] at h
      simp only [List.append_assoc] at h
      exact items_inj hitems hitems' hx hy (List.append_cancel_left h)

/-- The third byte tells the lists apart. -/
theorem third_pendingLines (items : List Bytes) {x : Bytes} (hx : Follows x) :
    ∀ rest, pendingLines items ++ x ≠ 32 :: 32 :: 98 :: rest := by
  intro rest h
  unfold pendingLines at h
  split_ifs at h
  · refine absurd rfl (hx 32 ?_)
    rw [show x = _ from h]
    rfl
  · have hthird := congrArg (fun l => l[2]?) h
    exact absurd (Option.some.inj hthird) (by decide)

theorem notes_inj {bs bs' : List BlockerKind} {items items' : List Bytes} {x y : Bytes}
    (hitems : ∀ item ∈ items, (10 : UInt8) ∉ item) (hitems' : ∀ item ∈ items', (10 : UInt8) ∉ item) (hx : Follows x)
    (hy : Follows y) (h : blockerLine bs ++ (pendingLines items ++ x) = blockerLine bs' ++ (pendingLines items' ++ y)) :
    bs = bs' ∧ items = items' ∧ x = y := by
  have hline (bs : List BlockerKind) (hbs : bs ≠ []) (t : Bytes) : blockerLine bs ++ t =
      32 :: 32 :: 98 :: (text "lockers:" ++
        ((bs.flatMap fun b => (32 : UInt8) :: text (blockerKindName b)) ++ (10 : UInt8) :: t)) := by
    rw [blockerLine, if_neg hbs, List.append_assoc, List.append_assoc]
    rfl
  by_cases hbs : bs = []
  · by_cases hbs' : bs' = []
    · rw [hbs, hbs'] at h
      obtain ⟨hitems, hxy⟩ := pendingLines_inj hitems hitems' hx hy h
      exact ⟨hbs.trans hbs'.symm, hitems, hxy⟩
    · rw [hbs, hline bs' hbs'] at h
      exact absurd h (third_pendingLines items hx _)
  · by_cases hbs' : bs' = []
    · rw [hbs', hline bs hbs] at h
      exact absurd h.symm (third_pendingLines items' hy _)
    · rw [hline bs hbs, hline bs' hbs'] at h
      simp only [List.cons.injEq, true_and, List.append_cancel_left_eq] at h
      obtain ⟨hblockers, hrest⟩ := Delimited.line_inj Convergence.name_injective (by decide) Convergence.name_unbroken h
      obtain ⟨hitems, hxy⟩ := pendingLines_inj hitems hitems' hx hy hrest
      exact ⟨hblockers, hitems, hxy⟩

/-- One lineage is read back, and what follows it. -/
theorem printedText_inj {x y : Bytes} (ht : isValidIdentifier l.target = true) (hk : isValidIdentifier l.key = true)
    (ht' : isValidIdentifier l'.target = true) (hk' : isValidIdentifier l'.key = true)
    (hl : (10 : UInt8) ∉ l.currentReason ∧ ∀ item ∈ l.pending, (10 : UInt8) ∉ item)
    (hl' : (10 : UInt8) ∉ l'.currentReason ∧ ∀ item ∈ l'.pending, (10 : UInt8) ∉ item)
    (hx : Follows x) (hy : Follows y) (h : printedText (printed l) ++ x = printedText (printed l') ++ y) :
    printed l = printed l' ∧ x = y := by
  have hid {bytes : Bytes} (hb : isValidIdentifier bytes = true) : ∀ c ∈ bytes, Word c :=
    fun c hc => word_of_plain (plain_of_identifier hb hc)
  have hfree {bytes : Bytes} (hb : (10 : UInt8) ∉ bytes) : ∀ c ∈ bytes, c ≠ 10 := fun c hc hbreak => hb (hbreak ▸ hc)
  have hbreak (t : Bytes) : ∀ a ∈ ([10] ++ t).head?, ¬ Word a := by
    intro a ha
    obtain rfl : 10 = a := Option.some.inj ha
    decide
  have hlength (l : LineageConvergence) : (summaryWords (printed l)).length = summaryLabels.length := rfl
  simp only [printedText, List.append_assoc, List.append_cancel_left_eq] at h
  obtain ⟨htarget, hwords, h⟩ := Delimited.labelled_inj summaryLabels_break (hlength l) (hlength l') (hid ht) (hid ht')
    (summaryWords_word hk) (summaryWords_word hk') (hbreak _) (hbreak _) h
  simp only [List.append_cancel_left_eq] at h
  obtain ⟨hreason, h⟩ := Delimited.append_inj (hfree hl.1) (hfree hl'.1) (by simp) (by simp) h
  obtain ⟨hblockers, hpending, hxy⟩ := notes_inj hl.2 hl'.2 hx hy (List.append_cancel_left h)
  simp only [summaryWords, List.cons.injEq, and_true] at hwords
  obtain ⟨hkey, hdesired, hdigest, hcurrent, hcurrentDigest, hstate, hguarantee, hrequirement, hconverged⟩ := hwords
  refine ⟨?_, hxy⟩
  unfold printed
  simp only [PrintedLineage.mk.injEq]
  exact ⟨htarget, hkey, Decimal.digits_injective hdesired, hdigest, currentGenerationText_injective hcurrent,
    digestText_inj hcurrentDigest, stateName_injective hstate, guaranteeName_injective hguarantee,
    requirementName_injective hrequirement, outcomeText_injective hconverged, hreason, hblockers, hpending⟩

theorem listing_inj (hr : r.Valid) (hr' : r'.Valid) (hlines : r.OneLine) (hlines' : r'.OneLine)
    (h : r.listing = r'.listing) : r.lineages.map printed = r'.lineages.map printed := by
  have hfollows (ls : List LineageConvergence) : Follows ((ls.map printed).flatMap printedText) := by
    cases ls with
    | nil => exact fun a ha => absurd ha (by simp)
    | cons l ls =>
      rw [List.map_cons, List.flatMap_cons]
      intro a ha
      obtain rfl : 116 = a := Option.some.inj ha
      decide
  rw [listing_eq, listing_eq] at h
  obtain ⟨-, hvalid⟩ := hr
  obtain ⟨-, hvalid'⟩ := hr'
  unfold OneLine at hlines hlines'
  generalize r.lineages = ls at *
  generalize r'.lineages = ls' at *
  induction ls generalizing ls' with
  | nil =>
    cases ls' with
    | nil => rfl
    | cons l' ls' =>
      have hhead : none = some (116 : UInt8) := congrArg List.head? h
      cases hhead
  | cons l ls ih =>
    cases ls' with
    | nil =>
      have hhead : some (116 : UInt8) = none := congrArg List.head? h
      cases hhead
    | cons l' ls' =>
      obtain ⟨⟨ht, hk⟩, hvalid⟩ := List.forall_mem_cons.mp hvalid
      obtain ⟨⟨ht', hk'⟩, hvalid'⟩ := List.forall_mem_cons.mp hvalid'
      obtain ⟨hl, hlines⟩ := List.forall_mem_cons.mp hlines
      obtain ⟨hl', hlines'⟩ := List.forall_mem_cons.mp hlines'
      rw [List.map_cons, List.map_cons, List.flatMap_cons, List.flatMap_cons] at h
      obtain ⟨hprinted, hrest⟩ := printedText_inj ht hk ht' hk' hl hl' (hfollows ls) (hfollows ls') h
      rw [List.map_cons, List.map_cons, hprinted, ih hlines hvalid _ hlines' hvalid' hrest]

/-! The header. -/

def countLabels : List Bytes :=
  [text " converged=", text " pending=", text " diverged=", text " blocked=", text " retired=", text " rejected="]

def preamble (r : ConvergenceReport) : Bytes :=
  text "convergence node=" ++ (r.nodeId ++ (text " epoch=" ++ (text (toString r.epoch) ++
    (text " incarnation=" ++ ((toHex r.incarnation.1).take 8 ++ ([10] ++ text "lineages="))))))

def verdict (r : ConvergenceReport) : Bytes :=
  [10] ++ (text "state=" ++ (text (if r.converged then "converged" else "not-converged") ++ [10]))

theorem header_eq (r : ConvergenceReport) : r.header = r.preamble ++ (Decimal.digits r.lineageCount ++
    (Delimited.labelled countLabels (r.counts.tail.map Decimal.digits) ++ r.verdict)) := by
  have hbreak : text "\n" = [10] := by decide
  unfold header preamble verdict
  rw [hbreak]
  simp only [counts, countLabels, Delimited.labelled, List.tail_cons, List.map_cons, List.map_nil,
    List.zipWith_cons_cons, List.zipWith_nil_right, List.flatten_cons, List.flatten_nil, List.append_nil,
    List.append_assoc, text_toString]

theorem converged_of_counts (h : r.counts = r'.counts) : r.converged = r'.converged := by
  simp only [counts, List.cons.injEq, and_true] at h
  obtain ⟨-, -, hpending, hdiverged, hblocked, -, -⟩ := h
  rw [converged, converged, hpending, hdiverged, hblocked]

/-- The counts are read back, and what stands below them. -/
theorem render_eq_iff (hnode : r.nodeId = r'.nodeId) (hepoch : r.epoch = r'.epoch)
    (hincarnation : r.incarnation = r'.incarnation) :
    r.render = r'.render ↔ r.counts = r'.counts ∧ r.listing = r'.listing := by
  have hrender (r : ConvergenceReport) : r.render = r.preamble ++ (Decimal.digits r.lineageCount ++
      (Delimited.labelled countLabels (r.counts.tail.map Decimal.digits) ++ (r.verdict ++ r.listing))) := by
    rw [render, header_eq, listing]
    simp only [List.append_assoc]
  have hpreamble : r.preamble = r'.preamble := by
    unfold preamble
    rw [hnode, hepoch, hincarnation]
  constructor
  · intro h
    rw [hrender, hrender, hpreamble] at h
    have hwords (r : ConvergenceReport) : ∀ w ∈ r.counts.tail.map Decimal.digits, ∀ c ∈ w, Word c := by
      intro w hw
      obtain ⟨n, -, rfl⟩ := List.mem_map.mp hw
      exact digits_word n
    have hlength (r : ConvergenceReport) : (r.counts.tail.map Decimal.digits).length = countLabels.length := rfl
    have hbreak (r : ConvergenceReport) : ∀ a ∈ (r.verdict ++ r.listing).head?, ¬ Word a := by
      intro a ha
      obtain rfl : 10 = a := Option.some.inj ha
      decide
    obtain ⟨hlineages, hrest, h⟩ := Delimited.labelled_inj (by decide +kernel) (hlength r) (hlength r') (digits_word _)
      (digits_word _) (hwords r) (hwords r') (hbreak r) (hbreak r') (List.append_cancel_left h)
    have hcounts : r.counts = r'.counts := by
      have htail := List.map_injective_iff.mpr Decimal.digits_injective hrest
      have hhead := Decimal.digits_injective hlineages
      change r.lineageCount :: r.counts.tail = r'.lineageCount :: r'.counts.tail
      rw [hhead, htail]
    refine ⟨hcounts, ?_⟩
    rw [verdict, verdict, converged_of_counts hcounts] at h
    exact List.append_cancel_left h
  · rintro ⟨hcounts, hlisting⟩
    have hlineages : r.lineageCount = r'.lineageCount := List.head_eq_of_cons_eq hcounts
    rw [hrender, hrender, hpreamble, hlineages, hcounts, hlisting, verdict, verdict, converged_of_counts hcounts]

/-- Two reports with different texts are hashed differently. -/
def Covers (r r' : ConvergenceReport) : Prop := r.render ≠ r'.render → r.material ≠ r'.material

/-- The same printed fields. -/
def Printed (r r' : ConvergenceReport) : Prop :=
  r.counts = r'.counts ∧ r.lineages.map printed = r'.lineages.map printed

/-- Two reports with the same hashed fields are told apart when these decide all that is printed. Where no reason and
no pending item has a line break, that is when they decide every printed field. -/
theorem fingerprint_covers_iff (r r' : ConvergenceReport) (hr : r.Valid) (hr' : r'.Valid)
    (hincarnation : r.incarnation = r'.incarnation) :
    (Covers r r' ↔ (Hashed r r' → r.counts = r'.counts ∧ r.listing = r'.listing)) ∧
      ((Hashed r r' → Printed r r') → Covers r r') ∧
      (r.OneLine → r'.OneLine → (Covers r r' ↔ (Hashed r r' → Printed r r'))) := by
  have htext : Covers r r' ↔ (Hashed r r' → r.counts = r'.counts ∧ r.listing = r'.listing) := by
    constructor
    · intro h hhashed
      rw [← render_eq_iff hhashed.nodeId hhashed.epoch hincarnation]
      by_contra hrender
      exact h hrender ((material_eq_iff hr hr').mpr hhashed)
    · intro h hrender hmaterial
      have hhashed := (material_eq_iff hr hr').mp hmaterial
      exact hrender ((render_eq_iff hhashed.nodeId hhashed.epoch hincarnation).mpr (h hhashed))
  have henough (h : Hashed r r' → Printed r r') : Covers r r' := by
    rw [htext]
    intro hhashed
    obtain ⟨hcounts, hlineages⟩ := h hhashed
    rw [listing_eq, listing_eq, hlineages]
    exact ⟨hcounts, rfl⟩
  refine ⟨htext, henough, fun hlines hlines' => ⟨fun h hhashed => ?_, henough⟩⟩
  obtain ⟨hcounts, hlisting⟩ := htext.mp h hhashed
  exact ⟨hcounts, listing_inj hr hr' hlines hlines' hlisting⟩

def failedRecord (code : ErrorCode) : DeliveryRecord where
  id := text "d"
  target := text "t"
  key := text "k"
  generation := 1
  state := .failed
  lastError := code

/-- One delivery, which failed with `code`. -/
def refusedDelivery (code : ErrorCode) : ControllerState where
  nodeId := text "n"
  epoch := 1
  deliveries := [(text "d", failedRecord code)]

/-- A digest mismatch and an unavailable artifact give one fingerprint. -/
theorem refusals_not_covered :
    (buildConvergenceReport (refusedDelivery .digestMismatch) {} 0).Valid ∧
      (buildConvergenceReport (refusedDelivery .artifactUnavailable) {} 0).Valid ∧
      (buildConvergenceReport (refusedDelivery .digestMismatch) {} 0).incarnation =
        (buildConvergenceReport (refusedDelivery .artifactUnavailable) {} 0).incarnation ∧
      (buildConvergenceReport (refusedDelivery .digestMismatch) {} 0).render ≠
        (buildConvergenceReport (refusedDelivery .artifactUnavailable) {} 0).render ∧
      (buildConvergenceReport (refusedDelivery .digestMismatch) {} 0).material =
        (buildConvergenceReport (refusedDelivery .artifactUnavailable) {} 0).material := by
  refine ⟨⟨by decide, by decide⟩, ⟨by decide, by decide⟩, ?_, ?_, ?_⟩
  all_goals decide +kernel

def failedDelivery (g : Generation) : ControllerState :=
  { refusedDelivery .digestMismatch with deliveries := [(text "d", { failedRecord .digestMismatch with generation := g })] }

/-- The generation that is wanted is hashed. -/
theorem reports_of_two_generations_covered :
    (buildConvergenceReport (failedDelivery 1) {} 0).lineages.map (·.pending.length) ≠ [] ∧
      Covers (buildConvergenceReport (failedDelivery 1) {} 0) (buildConvergenceReport (failedDelivery 2) {} 0) := by
  refine ⟨by decide, ?_⟩
  have hlines (g : Generation) (h : g = 1 ∨ g = 2) : (buildConvergenceReport (failedDelivery g) {} 0).OneLine := by
    obtain rfl | rfl := h
    · unfold OneLine
      decide
    · unfold OneLine
      decide
  refine ((fingerprint_covers_iff _ _ ⟨by decide, by decide⟩ ⟨by decide, by decide⟩
    (by decide)).2.2 (hlines 1 (.inl rfl)) (hlines 2 (.inr rfl))).mpr fun h => ?_
  have hgenerations := congrArg (List.map (·.desiredGeneration)) h.lineages
  exact absurd hgenerations (by decide)

end ConvergenceReport

end ConfigurationFabric
