import ConfigurationFabric.ArtifactStore
import Mathlib.Algebra.BigOperators.Group.Finset.Basic
import Mathlib.Algebra.Order.BigOperators.Group.Finset
import Mathlib.Data.Finset.Card
import Mathlib.Logic.Relation

/-! The budgets of the artifact store while publishes run at the same time. -/

namespace ConfigurationFabric

open LittleEndian

namespace ArtifactStore

/-- Found room, and has yet to come back to the index. -/
def Stage.admitted : Stage → Bool
  | .preparing false | .moving _ | .describing _ | .indexing => true
  | _ => false

/-- The payload is in its place, and the index is still to learn of it. -/
def Stage.placed : Stage → Bool
  | .describing _ | .indexing => true
  | _ => false

/-- About to take the entry of a payload that is gone out of the index. -/
def Stage.dropping : Stage → Bool
  | .verifying _ (.dropping _) => true
  | _ => false

namespace Publishing

variable {o : Options} {outcome : Outcome} {s s' : Publishing} {m : Move}

/-- What may still come into the index, each content once. -/
def promised (s : Publishing) : Finset (Digest × ℕ) :=
  ((s.running.filter fun x => x.2.admitted && !s.store.contains x.1.actualDigest).map fun x =>
    (x.1.actualDigest, x.1.actualSize)).toFinset

/-- When a publish is admitted there is room beside all that is promised, and a payload is not taken away under a
publish of the same content. -/
def Careful (o : Options) (outcome : Outcome) (s : Publishing) (others : List (Publication × Stage)) (p : Publication) :
    Stage → Prop
  | .reserving => reserve o p s.store = .ok false → (p.actualDigest, p.actualSize) ∉ s.promised →
      s.store.index.length + s.promised.card < o.maxArtifacts ∧
        s.store.usedBytes + ∑ e ∈ s.promised, e.2 + p.actualSize ≤ o.maxTotalBytes
  | .withdrawing _ => outcome.status = .ok () → s.store.contains p.actualDigest = false ∧
      ∀ x ∈ others, x.2.placed → x.1.actualDigest ≠ p.actualDigest
  | .verifying _ (.quarantining _) | .verifying _ (.dropping _) =>
      ∀ x ∈ others, x.2.admitted → x.1.actualDigest ≠ p.actualDigest
  | _ => True

def CarefulMove (o : Options) (s : Publishing) : Move → Prop
  | .step i outcome => ∀ x ∈ s.running[i]?, s.Careful o outcome (s.running.eraseIdx i) x.1 x.2
  | _ => True

def Run (o : Options) : Publishing → Publishing → Prop := Relation.ReflTransGen fun s s' => ∃ m, s.next o m = some s'

def CarefulRun (o : Options) : Publishing → Publishing → Prop :=
  Relation.ReflTransGen fun s s' => ∃ m, s.CarefulMove o m ∧ s.next o m = some s'

/-- Both budgets are kept, and while nothing runs every entry of the index has its payload. -/
structure Sound (o : Options) (s : Publishing) : Prop where
  count : s.store.index.length ≤ o.maxArtifacts
  bytes : s.store.usedBytes ≤ o.maxTotalBytes
  payload : s.Quiet → ∀ digest, s.store.contains digest = true → s.store.payloads.find digest ≠ none

theorem mem_promised {e : Digest × ℕ} : e ∈ s.promised ↔
    ∃ x ∈ s.running, x.2.admitted = true ∧ s.store.contains x.1.actualDigest = false ∧
      (x.1.actualDigest, x.1.actualSize) = e := by
  simp [promised, and_assoc]

/-- What is promised fits. -/
structure Budgeted (o : Options) (s : Publishing) : Prop where
  count : s.store.index.length + s.promised.card ≤ o.maxArtifacts
  bytes : s.store.usedBytes + ∑ e ∈ s.promised, e.2 ≤ o.maxTotalBytes

/-- Payloads are where the index and the publishes that come back to it expect them. -/
structure Stocked (s : Publishing) : Prop where
  placed : ∀ x ∈ s.running, x.2.placed = true → s.store.payloads.find x.1.actualDigest ≠ none
  indexed : ∀ digest, s.store.contains digest = true → s.store.payloads.find digest ≠ none ∨
    ∃ x ∈ s.running, x.2.dropping = true ∧ x.1.actualDigest = digest

theorem Budgeted.sound (h : s.Budgeted o) (hstocked : s.Stocked) : s.Sound o where
  count := le_trans (Nat.le_add_right _ _) h.count
  bytes := le_trans (Nat.le_add_right _ _) h.bytes
  payload := by
    intro hquiet digest hdigest
    obtain hpayload | ⟨x, hx, hdropping, -⟩ := hstocked.indexed digest hdigest
    · exact hpayload
    · obtain ⟨status, hstatus⟩ := hquiet x hx
      rw [hstatus] at hdropping
      cases hdropping

theorem Sound.budgeted (h : s.Sound o) (hnone : s.running = []) : s.Budgeted o := by
  have hpromised : s.promised = ∅ := by rw [promised, hnone]; rfl
  constructor
  · rw [hpromised]
    exact h.count
  · rw [hpromised]
    exact h.bytes

theorem Sound.stocked (h : s.Sound o) (hnone : s.running = []) : s.Stocked := by
  have hempty (x : Publication × Stage) (hx : x ∈ s.running) : False := by
    rw [hnone] at hx
    cases hx
  constructor
  · exact fun x hx => absurd (hempty x hx) not_false
  · exact fun digest hdigest => .inl (h.payload (fun x hx => absurd (hempty x hx) not_false) digest hdigest)

/-! One step of one publish beside others. -/

section Steps

variable {store store' : ArtifactStore} {before after : List (Publication × Stage)} {p : Publication}
  {stage stage' : Stage}

theorem mem_beside {x y : Publication × Stage} : x ∈ before ++ y :: after ↔ x = y ∨ x ∈ before ++ after := by
  simp only [List.mem_append, List.mem_cons]
  tauto

/-- What is promised afterwards was promised before, or is promised by this step. -/
theorem mem_promised_step {e : Digest × ℕ} (he : e ∈ promised ⟨store', before ++ (p, stage') :: after⟩) :
    store'.contains e.1 = false ∧ (stage'.admitted = true ∧ (p.actualDigest, p.actualSize) = e ∨
      ∃ x ∈ before ++ after, x.2.admitted = true ∧ (x.1.actualDigest, x.1.actualSize) = e) := by
  obtain ⟨x, hx, hadmitted, hfree, rfl⟩ := mem_promised.mp he
  refine ⟨hfree, ?_⟩
  obtain rfl | hx := mem_beside.mp hx
  · exact .inl ⟨hadmitted, rfl⟩
  · exact .inr ⟨x, hx, hadmitted, rfl⟩

theorem promised_beside {x : Publication × Stage} (hx : x ∈ before ++ after) (hadmitted : x.2.admitted = true)
    (hfree : store.contains x.1.actualDigest = false) :
    (x.1.actualDigest, x.1.actualSize) ∈ promised ⟨store, before ++ (p, stage) :: after⟩ :=
  mem_promised.mpr ⟨x, mem_beside.mpr (.inr hx), hadmitted, hfree, rfl⟩

/-- A step that promises nothing. -/
theorem Budgeted.keep (h : Budgeted o ⟨store, before ++ (p, stage) :: after⟩) (hindex : store'.index = store.index)
    (hused : store'.usedBytes = store.usedBytes) (hadmitted : stage'.admitted = true → stage.admitted = true) :
    Budgeted o ⟨store', before ++ (p, stage') :: after⟩ := by
  have hsubset : promised ⟨store', before ++ (p, stage') :: after⟩ ⊆ promised ⟨store, before ++ (p, stage) :: after⟩ := by
    intro e he
    obtain ⟨hfree, hfrom⟩ := mem_promised_step he
    rw [contains, hindex] at hfree
    obtain ⟨hadm, rfl⟩ | ⟨x, hx, hadm, rfl⟩ := hfrom
    · exact mem_promised.mpr ⟨(p, stage), mem_beside.mpr (.inl rfl), hadmitted hadm, hfree, rfl⟩
    · exact promised_beside hx hadm hfree
  constructor
  · change store'.index.length + _ ≤ _
    rw [hindex]
    exact le_trans (Nat.add_le_add_left (Finset.card_le_card hsubset) _) h.count
  · change store'.usedBytes + _ ≤ _
    rw [hused]
    exact le_trans (Nat.add_le_add_left (Finset.sum_le_sum_of_subset hsubset) _) h.bytes

theorem Budgeted.admit (h : Budgeted o ⟨store, before ++ (p, stage) :: after⟩)
    (hroom : (p.actualDigest, p.actualSize) ∉ promised ⟨store, before ++ (p, stage) :: after⟩ →
      store.index.length + (promised ⟨store, before ++ (p, stage) :: after⟩).card < o.maxArtifacts ∧
        store.usedBytes + ∑ e ∈ promised ⟨store, before ++ (p, stage) :: after⟩, e.2 + p.actualSize ≤
          o.maxTotalBytes) : Budgeted o ⟨store, before ++ (p, stage') :: after⟩ := by
  have hsubset : promised ⟨store, before ++ (p, stage') :: after⟩ ⊆
      insert (p.actualDigest, p.actualSize) (promised ⟨store, before ++ (p, stage) :: after⟩) := by
    intro e he
    obtain ⟨hfree, hfrom⟩ := mem_promised_step he
    obtain ⟨-, rfl⟩ | ⟨x, hx, hadm, rfl⟩ := hfrom
    · exact Finset.mem_insert_self ..
    · exact Finset.mem_insert_of_mem (promised_beside hx hadm hfree)
  have hcard := Finset.card_le_card hsubset
  have hsum := Finset.sum_le_sum_of_subset (f := fun e : Digest × ℕ => e.2) hsubset
  have hcount : store.index.length + _ ≤ _ := h.count
  have hbytes : store.usedBytes + _ ≤ _ := h.bytes
  by_cases hold : (p.actualDigest, p.actualSize) ∈ promised ⟨store, before ++ (p, stage) :: after⟩
  · rw [Finset.insert_eq_of_mem hold] at hcard hsum
    exact ⟨le_trans (Nat.add_le_add_left hcard _) hcount, le_trans (Nat.add_le_add_left hsum _) hbytes⟩
  · obtain ⟨hcountRoom, hbytesRoom⟩ := hroom hold
    rw [Finset.card_insert_of_notMem hold] at hcard
    rw [Finset.sum_insert hold] at hsum
    dsimp only at hsum
    constructor
    · change store.index.length + _ ≤ _
      omega
    · change store.usedBytes + _ ≤ _
      omega

/-- The promise of a publish that comes back is what it takes of the budgets. -/
theorem Budgeted.insert (h : Budgeted o ⟨store, before ++ (p, stage) :: after⟩) (hadmitted : stage.admitted = true)
    (hfree : store.contains p.actualDigest = false)
    (hindex : store'.index = store.index.insert p.actualDigest p.stored)
    (hused : store'.usedBytes = (store.usedBytes + p.actualSize) % 2 ^ 64) (hdone : stage'.admitted = false) :
    Budgeted o ⟨store', before ++ (p, stage') :: after⟩ := by
  have hmem : (p.actualDigest, p.actualSize) ∈ promised ⟨store, before ++ (p, stage) :: after⟩ :=
    mem_promised.mpr ⟨(p, stage), mem_beside.mpr (.inl rfl), hadmitted, hfree, rfl⟩
  have hsubset : promised ⟨store', before ++ (p, stage') :: after⟩ ⊆
      (promised ⟨store, before ++ (p, stage) :: after⟩).erase (p.actualDigest, p.actualSize) := by
    intro e he
    obtain ⟨hfree', hfrom⟩ := mem_promised_step he
    rw [contains, hindex, SortedMap.find_insert] at hfree'
    split at hfree'
    · cases hfree'
    next hne =>
      obtain ⟨hadm, -⟩ | ⟨x, hx, hadm, rfl⟩ := hfrom
      · rw [hdone] at hadm
        cases hadm
      · refine Finset.mem_erase.mpr ⟨?_, promised_beside hx hadm hfree'⟩
        exact fun heq => hne (Prod.mk.inj heq).1
  have hcard := Finset.card_le_card hsubset
  have hsum := Finset.sum_le_sum_of_subset (f := fun e : Digest × ℕ => e.2) hsubset
  rw [Finset.card_erase_of_mem hmem] at hcard
  have hpos := Finset.card_pos.mpr ⟨_, hmem⟩
  have hwhole := Finset.add_sum_erase _ (fun e : Digest × ℕ => e.2) hmem
  dsimp only at hwhole
  have hcount : store.index.length + _ ≤ _ := h.count
  have hbytes : store.usedBytes + _ ≤ _ := h.bytes
  have hlength : store'.index.length = store.index.length + 1 := by
    rw [hindex]
    apply SortedMap.length_insert
    exact SortedMap.ne_of_find_none (Option.not_isSome_iff_eq_none.mp (Bool.eq_false_iff.mp hfree))
  have hmod := Nat.mod_le (store.usedBytes + p.actualSize) (2 ^ 64)
  constructor
  · change store'.index.length + _ ≤ _
    omega
  · change store'.usedBytes + _ ≤ _
    omega

/-- An entry goes; what is promised of other contents stays as it was. -/
theorem Budgeted.drop (h : Budgeted o ⟨store, before ++ (p, stage) :: after⟩)
    (hindex : store'.index = store.index.erase p.actualDigest) (hused : store'.usedBytes ≤ store.usedBytes)
    (hdone : stage'.admitted = false)
    (hothers : ∀ x ∈ before ++ after, x.2.admitted = true → x.1.actualDigest ≠ p.actualDigest) :
    Budgeted o ⟨store', before ++ (p, stage') :: after⟩ := by
  have hsubset : promised ⟨store', before ++ (p, stage') :: after⟩ ⊆ promised ⟨store, before ++ (p, stage) :: after⟩ := by
    intro e he
    obtain ⟨hfree, hfrom⟩ := mem_promised_step he
    obtain ⟨hadm, -⟩ | ⟨x, hx, hadm, rfl⟩ := hfrom
    · rw [hdone] at hadm
      cases hadm
    · rw [contains, hindex, SortedMap.find_erase, if_neg (hothers x hx hadm)] at hfree
      exact promised_beside hx hadm hfree
  have hcard := Finset.card_le_card hsubset
  have hsum := Finset.sum_le_sum_of_subset (f := fun e : Digest × ℕ => e.2) hsubset
  have hcount : store.index.length + _ ≤ _ := h.count
  have hbytes : store.usedBytes + _ ≤ _ := h.bytes
  have hlength : store'.index.length ≤ store.index.length := by
    rw [hindex, SortedMap.erase]
    exact List.length_filter_le ..
  constructor
  · change store'.index.length + _ ≤ _
    omega
  · change store'.usedBytes + _ ≤ _
    omega

theorem publishStep_verifying (o : Options) (outcome : Outcome) (p : Publication) (encoded : Bytes) (stage : Verifying)
    (store : ArtifactStore) :
    (publishStep o outcome p (.verifying encoded stage) store).2 = (verifyStep o outcome p.actualDigest stage store).2 ∧
      (publishStep o outcome p (.verifying encoded stage) store).1.admitted = false ∧
      (publishStep o outcome p (.verifying encoded stage) store).1.placed = false ∧
      ∀ e, (verifyStep o outcome p.actualDigest stage store).1 = .dropping e →
        (publishStep o outcome p (.verifying encoded stage) store).1 = .verifying encoded (.dropping e) := by
  rw [publishStep]
  obtain ⟨stage', store'⟩ := verifyStep o outcome p.actualDigest stage store
  cases stage' with
  | verified status => cases status <;> exact ⟨rfl, rfl, rfl, fun e h => nomatch h⟩
  | dropping e => exact ⟨rfl, rfl, rfl, fun e' h => by cases h; rfl⟩
  | _ => exact ⟨rfl, rfl, rfl, fun e h => nomatch h⟩

theorem Budgeted.step (h : Budgeted o ⟨store, before ++ (p, stage) :: after⟩)
    (hcareful : Careful o outcome ⟨store, before ++ (p, stage) :: after⟩ (before ++ after) p stage) :
    Budgeted o ⟨(publishStep o outcome p stage store).2,
      before ++ (p, (publishStep o outcome p stage store).1) :: after⟩ := by
  cases stage with
  | reserving =>
    rw [publishStep]
    cases hreserve : reserve o p store with
    | error e => exact h.keep rfl rfl fun h => nomatch h
    | ok alreadyPresent =>
      cases alreadyPresent with
      | true => exact h.keep rfl rfl fun h => nomatch h
      | false => exact h.admit (hcareful hreserve)
  | preparing alreadyPresent =>
    rw [publishStep]
    split
    · exact h.keep rfl rfl fun h => nomatch h
    split
    · exact h.keep rfl rfl fun h => nomatch h
    · cases alreadyPresent with
      | true => exact h.keep rfl rfl fun h => nomatch h
      | false => exact h.keep rfl rfl fun _ => rfl
  | moving encoded =>
    rw [publishStep]
    split
    · exact h.keep rfl rfl fun h => nomatch h
    · exact h.keep rfl rfl fun _ => rfl
  | describing encoded =>
    rw [publishStep]
    obtain ⟨hindex, hused, -⟩ := writeMetadata_same outcome p.actualDigest encoded store
    split
    · exact h.keep hindex hused fun h => nomatch h
    · exact h.keep hindex hused fun _ => rfl
  | withdrawing e =>
    rw [publishStep]
    split <;> exact h.keep rfl rfl fun h => nomatch h
  | indexing =>
    rw [publishStep]
    split
    · exact h.keep rfl rfl fun h => nomatch h
    next hfree => exact h.insert rfl (Bool.eq_false_iff.mpr hfree) rfl rfl rfl
  | verifying encoded stage =>
    obtain ⟨hstore, hadmitted, -, -⟩ := publishStep_verifying o outcome p encoded stage store
    have hdone : ∀ {b : Prop}, (publishStep o outcome p (.verifying encoded stage) store).1.admitted = true → b := by
      intro b hadmits
      rw [hadmitted] at hadmits
      cases hadmits
    obtain ⟨hsame, -, -⟩ | ⟨e, -, -, -, hmoved⟩ | ⟨e, usedBytes, rfl, hused, herased⟩ :=
      verifyStep_cases o outcome p.actualDigest stage store
    · rw [hstore, hsame]
      exact h.keep rfl rfl hdone
    · rw [hstore, hmoved]
      exact h.keep rfl rfl hdone
    · rw [hstore, herased]
      exact h.drop rfl hused hadmitted hcareful
  | looking encoded =>
    rw [publishStep]
    split <;> exact h.keep rfl rfl fun h => nomatch h
  | restoring encoded =>
    rw [publishStep]
    obtain ⟨hindex, hused, -⟩ := writeMetadata_same outcome p.actualDigest encoded store
    exact h.keep hindex hused fun h => nomatch h
  | done status => exact h

theorem admitted_of_placed (h : stage.placed = true) : stage.admitted = true := by
  cases stage with
  | describing | indexing => rfl
  | _ => cases h

/-- A step that takes neither a payload nor an entry away. -/
theorem Stocked.grow (h : Stocked ⟨store, before ++ (p, stage) :: after⟩) (hindex : store'.index = store.index)
    (hpayloads : ∀ digest, store.payloads.find digest ≠ none → store'.payloads.find digest ≠ none)
    (hplaced : stage'.placed = true → store'.payloads.find p.actualDigest ≠ none)
    (hdropping : stage.dropping = true → store.contains p.actualDigest = false) :
    Stocked ⟨store', before ++ (p, stage') :: after⟩ := by
  constructor
  · intro x hx hx'
    obtain rfl | hx := mem_beside.mp hx
    · exact hplaced hx'
    · exact hpayloads _ (h.placed x (mem_beside.mpr (.inr hx)) hx')
  · intro digest hdigest
    have hcontains : store.contains digest = true := by
      rw [contains, ← hindex]
      exact hdigest
    obtain hpayload | ⟨x, hx, hx', rfl⟩ := h.indexed digest hcontains
    · exact .inl (hpayloads _ hpayload)
    obtain rfl | hx := mem_beside.mp hx
    · rw [hdropping hx'] at hcontains
      cases hcontains
    · exact .inr ⟨x, mem_beside.mpr (.inr hx), hx', rfl⟩

/-- A payload goes that no publish counts on, and that the index does not know or is about to forget. -/
theorem Stocked.take (h : Stocked ⟨store, before ++ (p, stage) :: after⟩) (hstage : stage.dropping = false)
    (hdone : stage'.placed = false)
    (hothers : ∀ x ∈ before ++ after, x.2.placed = true → x.1.actualDigest ≠ p.actualDigest)
    (hindexed : store.contains p.actualDigest = true → stage'.dropping = true) :
    Stocked ⟨{ store with payloads := store.payloads.erase p.actualDigest }, before ++ (p, stage') :: after⟩ := by
  constructor
  · intro x hx hx'
    change (store.payloads.erase p.actualDigest).find _ ≠ none
    obtain rfl | hx := mem_beside.mp hx
    · rw [hdone] at hx'
      cases hx'
    · rw [SortedMap.find_erase, if_neg (hothers x hx hx')]
      exact h.placed x (mem_beside.mpr (.inr hx)) hx'
  · intro digest hdigest
    change (store.payloads.erase p.actualDigest).find _ ≠ none ∨ _
    rw [SortedMap.find_erase]
    by_cases heq : digest = p.actualDigest
    · subst heq
      exact .inr ⟨(p, stage'), mem_beside.mpr (.inl rfl), hindexed hdigest, rfl⟩
    · rw [if_neg heq]
      obtain hpayload | ⟨x, hx, hx', rfl⟩ := h.indexed digest hdigest
      · exact .inl hpayload
      obtain rfl | hx := mem_beside.mp hx
      · rw [hstage] at hx'
        cases hx'
      · exact .inr ⟨x, mem_beside.mpr (.inr hx), hx', rfl⟩

theorem Stocked.insert (h : Stocked ⟨store, before ++ (p, stage) :: after⟩) (hplaced : stage.placed = true)
    (hpayloads : store'.payloads = store.payloads)
    (hindex : store'.index = store.index.insert p.actualDigest p.stored) (hdone : stage'.placed = false) :
    Stocked ⟨store', before ++ (p, stage') :: after⟩ := by
  constructor
  · intro x hx hx'
    change store'.payloads.find _ ≠ none
    rw [hpayloads]
    obtain rfl | hx := mem_beside.mp hx
    · rw [hdone] at hx'
      cases hx'
    · exact h.placed x (mem_beside.mpr (.inr hx)) hx'
  · intro digest hdigest
    change store'.contains digest = true at hdigest
    change store'.payloads.find _ ≠ none ∨ _
    rw [contains, hindex, SortedMap.find_insert] at hdigest
    rw [hpayloads]
    split at hdigest
    next heq =>
      subst heq
      exact .inl (h.placed (p, stage) (mem_beside.mpr (.inl rfl)) hplaced)
    · obtain hpayload | ⟨x, hx, hx', rfl⟩ := h.indexed digest hdigest
      · exact .inl hpayload
      obtain rfl | hx := mem_beside.mp hx
      · cases stage with
        | describing | indexing => cases hx'
        | _ => cases hplaced
      · exact .inr ⟨x, mem_beside.mpr (.inr hx), hx', rfl⟩

theorem Stocked.drop (h : Stocked ⟨store, before ++ (p, stage) :: after⟩) (hpayloads : store'.payloads = store.payloads)
    (hindex : store'.index = store.index.erase p.actualDigest) (hdone : stage'.placed = false) :
    Stocked ⟨store', before ++ (p, stage') :: after⟩ := by
  constructor
  · intro x hx hx'
    change store'.payloads.find _ ≠ none
    rw [hpayloads]
    obtain rfl | hx := mem_beside.mp hx
    · rw [hdone] at hx'
      cases hx'
    · exact h.placed x (mem_beside.mpr (.inr hx)) hx'
  · intro digest hdigest
    change store'.contains digest = true at hdigest
    change store'.payloads.find _ ≠ none ∨ _
    rw [contains, hindex, SortedMap.find_erase] at hdigest
    rw [hpayloads]
    split at hdigest
    · cases hdigest
    next hne =>
      obtain hpayload | ⟨x, hx, hx', rfl⟩ := h.indexed digest hdigest
      · exact .inl hpayload
      obtain rfl | hx := mem_beside.mp hx
      · exact absurd rfl hne
      · exact .inr ⟨x, mem_beside.mpr (.inr hx), hx', rfl⟩

theorem Stocked.step (h : Stocked ⟨store, before ++ (p, stage) :: after⟩)
    (hcareful : Careful o outcome ⟨store, before ++ (p, stage) :: after⟩ (before ++ after) p stage) :
    Stocked ⟨(publishStep o outcome p stage store).2,
      before ++ (p, (publishStep o outcome p stage store).1) :: after⟩ := by
  have hkeep {stage' : Stage} (hplaced : stage'.placed = false) (hdropping : stage.dropping = false) :
      Stocked ⟨store, before ++ (p, stage') :: after⟩ := by
    refine h.grow rfl (fun _ h => h) (fun h => ?_) fun h => ?_
    · rw [hplaced] at h
      cases h
    · rw [hdropping] at h
      cases h
  cases stage with
  | reserving =>
    rw [publishStep]
    split <;> exact hkeep rfl rfl
  | preparing alreadyPresent =>
    rw [publishStep]
    split
    · exact hkeep rfl rfl
    split
    · exact hkeep rfl rfl
    · cases alreadyPresent <;> exact hkeep rfl rfl
  | moving encoded =>
    rw [publishStep]
    split
    · exact hkeep rfl rfl
    · have hfound (digest : Digest) : (store.payloads.insert p.actualDigest p.staged).find digest =
          if digest = p.actualDigest then some p.staged else store.payloads.find digest := SortedMap.find_insert ..
      refine h.grow rfl (fun digest hdigest => ?_) (fun _ => ?_) fun h => nomatch h
      · change (store.payloads.insert p.actualDigest p.staged).find digest ≠ none
        rw [hfound]
        split
        · exact Option.some_ne_none _
        · exact hdigest
      · change (store.payloads.insert p.actualDigest p.staged).find p.actualDigest ≠ none
        rw [hfound, if_pos rfl]
        exact Option.some_ne_none _
  | describing encoded =>
    rw [publishStep]
    obtain ⟨hindex, -, hpayloads⟩ := writeMetadata_same outcome p.actualDigest encoded store
    have hplaced := h.placed (p, .describing encoded) (mem_beside.mpr (.inl rfl)) rfl
    split
    all_goals
      refine h.grow hindex (fun digest hdigest => ?_) (fun _ => ?_) fun h => nomatch h
      · rw [hpayloads]
        exact hdigest
      · rw [hpayloads]
        exact hplaced
  | withdrawing e =>
    rw [publishStep]
    cases hstatus : outcome.status with
    | error e => exact hkeep rfl rfl
    | ok =>
      obtain ⟨hfree, hothers⟩ := hcareful hstatus
      refine h.take rfl rfl hothers fun hcontains => ?_
      rw [hfree] at hcontains
      cases hcontains
  | indexing =>
    rw [publishStep]
    split
    · exact hkeep rfl rfl
    · exact h.insert rfl rfl rfl rfl
  | verifying encoded stage =>
    obtain ⟨hstore, -, hplaced, hdropping⟩ := publishStep_verifying o outcome p encoded stage store
    obtain ⟨hsame, hfree, -⟩ | ⟨e, rfl, hnext, -, hmoved⟩ | ⟨e, usedBytes, rfl, -, herased⟩ :=
      verifyStep_cases o outcome p.actualDigest stage store
    · rw [hstore, hsame]
      refine h.grow rfl (fun _ h => h) (fun h => ?_) fun h => ?_
      · rw [hplaced] at h
        cases h
      · cases stage with
        | dropping e => exact hfree ⟨e, rfl⟩
        | _ => cases h
    · rw [hstore, hmoved]
      refine h.take rfl hplaced (fun x hx hx' => hcareful x hx (admitted_of_placed hx')) fun _ => ?_
      rw [hdropping e hnext]
      rfl
    · rw [hstore, herased]
      exact h.drop rfl rfl hplaced
  | looking encoded =>
    rw [publishStep]
    split <;> exact hkeep rfl rfl
  | restoring encoded =>
    rw [publishStep]
    obtain ⟨hindex, -, hpayloads⟩ := writeMetadata_same outcome p.actualDigest encoded store
    refine h.grow hindex (fun digest hdigest => ?_) (fun h => nomatch h) fun h => nomatch h
    rw [hpayloads]
    exact hdigest
  | done status => exact h

end Steps

/-! Runs. -/

theorem next_step {i : ℕ} (h : s.next o (.step i outcome) = some s') :
    ∃ before p stage after, s = ⟨s.store, before ++ (p, stage) :: after⟩ ∧ s.running[i]? = some (p, stage) ∧
      s.running.eraseIdx i = before ++ after ∧
      s' = ⟨(publishStep o outcome p stage s.store).2,
        before ++ (p, (publishStep o outcome p stage s.store).1) :: after⟩ := by
  rw [next] at h
  split at h
  · cases h
  next p stage hget =>
    obtain ⟨hlt, hat⟩ := List.getElem?_eq_some_iff.mp hget
    refine ⟨s.running.take i, p, stage, s.running.drop (i + 1), ?_, hget, List.eraseIdx_eq_take_drop_succ .., ?_⟩
    · rw [← hat, ← List.drop_eq_getElem_cons hlt, List.take_append_drop]
    · have hs' := Option.some.inj h
      rw [← hs', List.set_eq_take_append_cons_drop, if_pos hlt]

theorem Budgeted.next (h : s.Budgeted o) (hcareful : s.CarefulMove o m) (hnext : s.next o m = some s') :
    s'.Budgeted o := by
  have hfewer (running : List (Publication × Stage)) (hrunning : ∀ x ∈ running, x.2.admitted = true → x ∈ s.running) :
      Budgeted o ⟨s.store, running⟩ := by
    have hsubset : promised ⟨s.store, running⟩ ⊆ s.promised := by
      intro e he
      obtain ⟨x, hx, hadmitted, hfree, rfl⟩ := mem_promised.mp he
      exact mem_promised.mpr ⟨x, hrunning x hx hadmitted, hadmitted, hfree, rfl⟩
    constructor
    · exact le_trans (Nat.add_le_add_left (Finset.card_le_card hsubset) _) h.count
    · exact le_trans (Nat.add_le_add_left (Finset.sum_le_sum_of_subset hsubset) _) h.bytes
  cases m with
  | publish p =>
    obtain rfl := Option.some.inj hnext
    refine hfewer _ fun x hx hadmitted => ?_
    obtain hx | hx := List.mem_append.mp hx
    · exact hx
    · obtain rfl := List.mem_singleton.mp hx
      cases hadmitted
  | step i outcome =>
    obtain ⟨before, p, stage, after, hs, hget, hothers, rfl⟩ := next_step hnext
    have hstep := hcareful _ hget
    rw [hothers] at hstep
    rw [hs] at h hstep
    exact h.step hstep
  | leave i =>
    rw [Publishing.next] at hnext
    split at hnext
    · obtain rfl := Option.some.inj hnext
      exact hfewer _ fun x hx _ => List.mem_of_mem_eraseIdx hx
    · cases hnext

theorem Stocked.next (h : s.Stocked) (hcareful : s.CarefulMove o m) (hnext : s.next o m = some s') : s'.Stocked := by
  cases m with
  | publish p =>
    obtain rfl := Option.some.inj hnext
    constructor
    · intro x hx hplaced
      obtain hx | hx := List.mem_append.mp hx
      · exact h.placed x hx hplaced
      · obtain rfl := List.mem_singleton.mp hx
        cases hplaced
    · intro digest hdigest
      obtain hpayload | ⟨x, hx, hdropping⟩ := h.indexed digest hdigest
      · exact .inl hpayload
      · exact .inr ⟨x, List.mem_append_left _ hx, hdropping⟩
  | step i outcome =>
    obtain ⟨before, p, stage, after, hs, hget, hothers, rfl⟩ := next_step hnext
    have hstep := hcareful _ hget
    rw [hothers] at hstep
    rw [hs] at h hstep
    exact h.step hstep
  | leave i =>
    rw [Publishing.next] at hnext
    split at hnext
    next p status hget =>
      obtain rfl := Option.some.inj hnext
      constructor
      · exact fun x hx hplaced => h.placed x (List.mem_of_mem_eraseIdx hx) hplaced
      · intro digest hdigest
        obtain hpayload | ⟨x, hx, hdropping, hsame⟩ := h.indexed digest hdigest
        · exact .inl hpayload
        · refine .inr ⟨x, ?_, hdropping, hsame⟩
          obtain ⟨j, hj⟩ := List.mem_iff_getElem?.mp hx
          refine List.mem_eraseIdx_iff_getElem?.mpr ⟨j, ?_, hj⟩
          rintro rfl
          obtain rfl := Option.some.inj (hj.symm.trans hget)
          cases hdropping
    · cases hnext

/-- Publishes that are careful keep the budgets, and leave every entry its payload. -/
theorem publishes_sound (hsound : s.Sound o) (hnone : s.running = []) (hrun : CarefulRun o s s') : s'.Sound o := by
  have hkept : s'.Budgeted o ∧ s'.Stocked := by
    induction hrun with
    | refl => exact ⟨hsound.budgeted hnone, hsound.stocked hnone⟩
    | tail _ hstep ih =>
      obtain ⟨m, hcareful, hnext⟩ := hstep
      exact ⟨ih.1.next hcareful hnext, ih.2.next hcareful hnext⟩
  exact hkept.1.sound hkept.2

/-! Runs on fixed inputs. -/

instance (s : Publishing) (others : List (Publication × Stage)) (p : Publication) :
    (stage : Stage) → Decidable (s.Careful o outcome others p stage)
  | .reserving => inferInstanceAs (Decidable (_ → _ → _ ∧ _))
  | .withdrawing _ => inferInstanceAs (Decidable (_ → _ ∧ _))
  | .verifying _ (.quarantining _) => inferInstanceAs (Decidable (∀ x ∈ others, _ → _ ≠ _))
  | .verifying _ (.dropping _) => inferInstanceAs (Decidable (∀ x ∈ others, _ → _ ≠ _))
  | .verifying _ .opening | .verifying _ (.reading _) | .verifying _ (.verified _) => .isTrue trivial
  | .preparing _ | .moving _ | .describing _ | .indexing | .looking _ | .restoring _ | .done _ => .isTrue trivial

instance (s : Publishing) : (m : Move) → Decidable (s.CarefulMove o m)
  | .step i outcome => inferInstanceAs (Decidable (∀ x ∈ s.running[i]?, s.Careful o outcome (s.running.eraseIdx i) x.1 x.2))
  | .publish _ | .leave _ => .isTrue trivial

def play (o : Options) (moves : List Move) (s : Publishing) : Option Publishing :=
  moves.foldlM (fun s m => s.next o m) s

def playCarefully (o : Options) (moves : List Move) (s : Publishing) : Option Publishing :=
  moves.foldlM (fun s m => if s.CarefulMove o m then s.next o m else none) s

theorem run_of_play {moves : List Move} (h : s.play o moves = some s') : s.Run o s' := by
  induction moves generalizing s with
  | nil =>
    obtain rfl := Option.some.inj h
    exact .refl
  | cons m moves ih =>
    obtain ⟨s₁, hnext, hrest⟩ := Option.bind_eq_some_iff.mp h
    exact .head ⟨m, hnext⟩ (ih hrest)

theorem carefulRun_of_play {moves : List Move} (h : s.playCarefully o moves = some s') : s.CarefulRun o s' := by
  induction moves generalizing s with
  | nil =>
    obtain rfl := Option.some.inj h
    exact .refl
  | cons m moves ih =>
    obtain ⟨s₁, hnext, hrest⟩ := Option.bind_eq_some_iff.mp h
    obtain ⟨hcareful, hnext⟩ := Option.ite_none_right_eq_some.mp hnext
    exact .head ⟨m, hcareful, hnext⟩ (ih hrest)

def publication (content : Bytes) : Publication where
  metadata := { id := text "a", schema := text "s", digest := .ofContent content, sizeBytes := content.length }
  staged := content
  actualDigest := .ofContent content
  actualSize := content.length

def failing : Outcome := { status := .fail .ioFailure "failed to write complete file" }

/-- Both are admitted before either comes back to the index. -/
def twoContents : List Move :=
  [.publish (publication [1]), .publish (publication [2]), .step 0 {}, .step 1 {}, .step 0 {}, .step 0 {}, .step 0 {},
    .step 0 {}, .step 1 {}, .step 1 {}, .step 1 {}, .step 1 {}, .leave 1, .leave 0]

/-- The second of two publishes of one content cannot write its metadata, and takes the payload of the first away. -/
def oneContent : List Move :=
  [.publish (publication [1]), .publish (publication [1]), .step 0 {}, .step 1 {}, .step 0 {}, .step 0 {}, .step 0 {},
    .step 0 {}, .step 1 {}, .step 1 {}, .step 1 failing, .step 1 {}, .leave 1, .leave 0]

theorem run_to (moves : List Move) {check : Publishing → Prop} [DecidablePred check]
    (h : (s.play o moves).any fun s => decide (check s)) : ∃ s', s.Run o s' ∧ check s' := by
  obtain ⟨s', hplay, hcheck⟩ := (Option.any_eq_true _ _).mp h
  exact ⟨s', run_of_play hplay, of_decide_eq_true hcheck⟩

theorem publishes_overrun :
    (∃ s, Run { maxArtifacts := 1 } ⟨{}, []⟩ s ∧ s.store.index.length = 2) ∧
      (∃ s, Run { maxTotalBytes := 1 } ⟨{}, []⟩ s ∧ s.store.usedBytes = 2) ∧
      ∃ s, Run {} ⟨{}, []⟩ s ∧ s.Quiet ∧ s.store.contains (.ofContent [1]) = true ∧
        s.store.payloads.find (.ofContent [1]) = none := by
  refine ⟨run_to twoContents (by decide +kernel), run_to twoContents (by decide +kernel), ?_⟩
  obtain ⟨s, hrun, hnone, hcontains, hpayload⟩ : ∃ s, Run {} ⟨{}, []⟩ s ∧ s.running.length = 0 ∧
      s.store.contains (.ofContent [1]) = true ∧ (s.store.payloads.find (.ofContent [1])).isNone = true :=
    run_to oneContent (by decide +kernel)
  refine ⟨s, hrun, fun x hx => ?_, hcontains, Option.isNone_iff_eq_none.mp hpayload⟩
  rw [List.length_eq_zero_iff.mp hnone] at hx
  cases hx

/-- The same publishes, where there is room for both. -/
theorem two_contents_sound : ∃ s, CarefulRun { maxArtifacts := 2, maxTotalBytes := 2 } ⟨{}, []⟩ s ∧
    s.store.index.length = 2 ∧ s.Sound { maxArtifacts := 2, maxTotalBytes := 2 } := by
  have hplay : (playCarefully { maxArtifacts := 2, maxTotalBytes := 2 } twoContents ⟨{}, []⟩).any fun s =>
      decide (s.store.index.length = 2) := by decide +kernel
  obtain ⟨s, hs, hlength⟩ := (Option.any_eq_true _ _).mp hplay
  have hrun := carefulRun_of_play hs
  have hempty : Sound { maxArtifacts := 2, maxTotalBytes := 2 } ⟨{}, []⟩ := by
    refine ⟨Nat.zero_le _, Nat.zero_le _, fun _ digest h => ?_⟩
    cases h
  exact ⟨s, hrun, of_decide_eq_true hlength, publishes_sound hempty rfl hrun⟩

end Publishing

end ArtifactStore

end ConfigurationFabric
