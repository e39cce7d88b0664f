import ConfigurationFabric.ConvergenceClock
import ConfigurationFabric.DistributorSteps
import ConfigurationFabric.Library.Grouping

/-! The lineages of a convergence report and its counts. -/

namespace ConfigurationFabric

open LittleEndian

namespace LineageKey

theorem lt_iff (a b : LineageKey) : a < b ↔ a.target < b.target ∨ a.target = b.target ∧ a.key < b.key := Iff.rfl

instance : IsTrans LineageKey (· < ·) := by
  constructor
  intro a b c hab hbc
  rw [lt_iff] at *
  obtain hab | ⟨hab, hab'⟩ := hab
  · obtain hbc | ⟨hbc, -⟩ := hbc
    · exact .inl (IsTrans.trans _ _ _ hab hbc)
    · exact .inl (hbc ▸ hab)
  · obtain hbc | ⟨hbc, hbc'⟩ := hbc
    · exact .inl (hab ▸ hbc)
    · exact .inr ⟨hab.trans hbc, IsTrans.trans _ _ _ hab' hbc'⟩

instance : Std.Irrefl (α := LineageKey) (· < ·) := by
  constructor
  rintro a (h | ⟨-, h⟩)
  · exact Std.Irrefl.irrefl (r := ((· < ·) : Bytes → Bytes → Prop)) _ h
  · exact Std.Irrefl.irrefl (r := ((· < ·) : Bytes → Bytes → Prop)) _ h

instance : Std.Trichotomous (α := LineageKey) (· < ·) := by
  constructor
  intro a b hab hba
  rw [lt_iff, not_or, not_and] at hab hba
  have htarget : a.target = b.target :=
    Std.Trichotomous.trichotomous (r := ((· < ·) : Bytes → Bytes → Prop)) _ _ hab.1 hba.1
  have hkey : a.key = b.key := Std.Trichotomous.trichotomous (r := ((· < ·) : Bytes → Bytes → Prop)) _ _
    (hab.2 htarget) (hba.2 htarget.symm)
  cases a
  cases b
  exact congrArg₂ LineageKey.mk htarget hkey

end LineageKey

namespace Convergence

variable {s : ControllerState} {p : DistributorPolicy} {now : ℤ} {d d' : DeliveryRecord} {records : List DeliveryRecord}

/-- What the store holds. -/
def stored (s : ControllerState) : List DeliveryRecord := s.deliveries.map (·.2)

theorem lineages_eq (s : ControllerState) : lineages s = SortedMap.group DeliveryRecord.lineage (stored s) := by
  rw [SortedMap.group, stored, List.foldl_map]
  rfl

theorem find_lineages (k : LineageKey) : (lineages s).find k =
    if (stored s).filter (fun d => d.lineage = k) = [] then none else some ((stored s).filter fun d => d.lineage = k) := by
  rw [lineages_eq]
  exact SortedMap.find_group

/-! The newest record. -/

theorem older_iff : older d d' = true ↔ d.generation < d'.generation ∨ d.generation = d'.generation ∧ d.id < d'.id := by
  rw [older]
  by_cases h : d.generation = d'.generation
  · simp [h]
  · simp [h]

theorem not_older_iff : older d d' = false ↔
    d'.generation ≤ d.generation ∧ (d.generation = d'.generation → ¬ d.id < d'.id) := by
  rw [← Bool.not_eq_true, older_iff, not_or, not_lt, not_and]

theorem not_older_self (d : DeliveryRecord) : older d d = false :=
  not_older_iff.mpr ⟨le_rfl, fun _ => Std.Irrefl.irrefl (r := ((· < ·) : Bytes → Bytes → Prop)) _⟩

theorem not_older_of_older (h : older d d' = true) : older d' d = false := by
  rw [not_older_iff]
  obtain hlt | ⟨heq, hlt⟩ := older_iff.mp h
  · exact ⟨hlt.le, fun heq => absurd heq.symm hlt.ne⟩
  · exact ⟨heq.le, fun _ hlt' =>
      Std.Irrefl.irrefl (r := ((· < ·) : Bytes → Bytes → Prop)) _ (IsTrans.trans _ _ _ hlt hlt')⟩

theorem not_older_trans {a b c : DeliveryRecord} (hab : older b a = false) (hbc : older c b = false) :
    older c a = false := by
  rw [not_older_iff] at *
  refine ⟨hab.1.trans hbc.1, fun heq hlt => ?_⟩
  have hgenerations : c.generation = b.generation := le_antisymm (heq ▸ hab.1) hbc.1
  have hid := hab.2 (hgenerations.symm.trans heq)
  have hid' := hbc.2 hgenerations
  by_cases hsame : b.id = c.id
  · exact hid (hsame ▸ hlt)
  · have hbc' : b.id < c.id := by
      by_contra hno
      exact hsame (Std.Trichotomous.trichotomous (r := ((· < ·) : Bytes → Bytes → Prop)) _ _ hno hid')
    exact hid (IsTrans.trans _ _ _ hbc' hlt)

/-- The record that no other is newer than. -/
structure Newest (records : List DeliveryRecord) (d : DeliveryRecord) : Prop where
  mem : d ∈ records
  last : ∀ r ∈ records, older d r = false

theorem Newest.unique (hids : ∀ a ∈ records, ∀ b ∈ records, a.id = b.id → a = b) (h : Newest records d)
    (h' : Newest records d') : d = d' := by
  obtain ⟨hle, hid⟩ := not_older_iff.mp (h.last d' h'.mem)
  obtain ⟨hle', hid'⟩ := not_older_iff.mp (h'.last d h.mem)
  have hgenerations : d.generation = d'.generation := le_antisymm hle' hle
  exact hids d h.mem d' h'.mem (Std.Trichotomous.trichotomous (r := ((· < ·) : Bytes → Bytes → Prop)) _ _
    (hid hgenerations) (hid' hgenerations.symm))

theorem sort_pairwise (records : List DeliveryRecord) :
    (sort older records).Pairwise fun a b => older b a = false := by
  have : Std.Total fun a b : DeliveryRecord => older b a = false := by
    constructor
    intro a b
    by_cases h : older b a = true
    · exact .inr (not_older_of_older h)
    · exact .inl (Bool.eq_false_of_not_eq_true h)
  have : IsTrans DeliveryRecord fun a b => older b a = false := ⟨fun _ _ _ => not_older_trans⟩
  exact List.pairwise_insertionSort _ records

theorem newest_desired (h : desired records = some d) : Newest records d := by
  obtain ⟨front, hfront⟩ := List.getLast?_eq_some_iff.mp h
  have hsorted := sort_pairwise records
  rw [hfront, List.pairwise_append] at hsorted
  have hmem (r : DeliveryRecord) : r ∈ records ↔ r ∈ front ∨ r = d := by
    rw [← @mem_sort _ older, hfront, List.mem_append, List.mem_singleton]
  refine ⟨(hmem d).mpr (.inr rfl), fun r hr => ?_⟩
  obtain hr | rfl := (hmem r).mp hr
  · exact hsorted.2.2 r hr d (List.mem_singleton_self d)
  · exact not_older_self r

theorem desired_eq_none : desired records = none ↔ records = [] := by
  rw [desired, List.getLast?_eq_none_iff]
  constructor
  · intro h
    have hlength := congrArg List.length h
    rw [sort, List.length_insertionSort] at hlength
    exact List.eq_nil_of_length_eq_zero hlength
  · rintro rfl
    rfl

/-- One step of the scheduler's choice. -/
def newer (newest : Option DeliveryRecord) (record : DeliveryRecord) : Option DeliveryRecord :=
  match newest with
  | none => some record
  | some n =>
    if record.generation > n.generation ∨ record.generation = n.generation ∧ n.id < record.id then some record else some n

theorem latestForLineage_eq (target : TargetId) (key : ConfigKey) : s.latestForLineage target key =
    ((stored s).filter fun d => d.lineage = ⟨target, key⟩).foldl newer none := by
  rw [List.foldl_filter, stored, List.foldl_map]
  refine congrArg (fun f => s.deliveries.foldl f none) (funext₂ fun newest e => ?_)
  by_cases h : e.2.lineage = ⟨target, key⟩
  · obtain ⟨htarget, hkey⟩ := LineageKey.mk.inj h
    simp only [h, htarget, hkey]
    cases newest <;> simp [newer]
  · have hother : e.2.target ≠ target ∨ e.2.key ≠ key := by
      by_contra hsame
      rw [not_or, not_not, not_not] at hsame
      exact h (congrArg₂ LineageKey.mk hsame.1 hsame.2)
    simp [h, hother]

theorem newest_newer (records : List DeliveryRecord) :
    (records = [] ∧ records.foldl newer none = none) ∨ ∃ d, records.foldl newer none = some d ∧ Newest records d := by
  induction records using List.reverseRecOn with
  | nil => exact .inl ⟨rfl, rfl⟩
  | append_singleton records r ih =>
    right
    rw [List.foldl_append, List.foldl_cons, List.foldl_nil]
    obtain ⟨rfl, hnone⟩ | ⟨d, hsome, hnewest⟩ := ih
    · refine ⟨r, by rw [hnone]; rfl, List.mem_singleton_self r, fun x hx => ?_⟩
      obtain rfl := List.mem_singleton.mp hx
      exact not_older_self x
    · rw [hsome, newer]
      have hcondition : (r.generation > d.generation ∨ r.generation = d.generation ∧ d.id < r.id) ↔ older d r = true := by
        rw [older_iff, eq_comm (a := r.generation)]
      by_cases hnewer : older d r = true
      · rw [if_pos (hcondition.mpr hnewer)]
        refine ⟨r, rfl, by simp, fun x hx => ?_⟩
        obtain hx | hx := List.mem_append.mp hx
        · exact not_older_trans (hnewest.last x hx) (not_older_of_older hnewer)
        · obtain rfl := List.mem_singleton.mp hx
          exact not_older_self x
      · rw [if_neg (fun h => hnewer (hcondition.mp h))]
        refine ⟨d, rfl, List.mem_append_left _ hnewest.mem, fun x hx => ?_⟩
        obtain hx | hx := List.mem_append.mp hx
        · exact hnewest.last x hx
        · obtain rfl := List.mem_singleton.mp hx
          exact Bool.eq_false_of_not_eq_true hnewer

/-! The entries. -/

def entryKey (l : LineageConvergence) : LineageKey := ⟨l.target, l.key⟩

theorem entry_buildLineage (d : DeliveryRecord) : entryKey (buildLineage s p now d) = d.lineage ∧
    (buildLineage s p now d).desiredGeneration = d.generation ∧ (buildLineage s p now d).desiredDigest = d.digest ∧
    (buildLineage s p now d).state = d.state := by
  have hbase (runtime : Option TargetRuntime) : entryKey (lineageBase d runtime) = d.lineage ∧
      (lineageBase d runtime).desiredGeneration = d.generation ∧ (lineageBase d runtime).desiredDigest = d.digest ∧
      (lineageBase d runtime).state = d.state := by
    cases runtime <;> exact ⟨rfl, rfl, rfl, rfl⟩
  have hstate (l : LineageConvergence) : entryKey (stateFindings p d l) = entryKey l ∧
      (stateFindings p d l).desiredGeneration = l.desiredGeneration ∧
      (stateFindings p d l).desiredDigest = l.desiredDigest ∧ (stateFindings p d l).state = l.state := by
    unfold stateFindings
    split <;> exact ⟨rfl, rfl, rfl, rfl⟩
  have hruntime (fresh : Bool) (runtime : Option TargetRuntime) (l : LineageConvergence) :
      entryKey (runtimeFindings fresh d runtime l) = entryKey l ∧
      (runtimeFindings fresh d runtime l).desiredGeneration = l.desiredGeneration ∧
      (runtimeFindings fresh d runtime l).desiredDigest = l.desiredDigest ∧
      (runtimeFindings fresh d runtime l).state = l.state := by
    cases runtime with
    | none => exact ⟨rfl, rfl, rfl, rfl⟩
    | some r =>
      simp only [runtimeFindings]
      split <;> split <;> split <;> exact ⟨rfl, rfl, rfl, rfl⟩
  obtain ⟨hkey, hgeneration, hdigest, hd⟩ := hbase (s.findTarget d.target)
  obtain ⟨hkey', hgeneration', hdigest', hd'⟩ := hstate (lineageBase d (s.findTarget d.target))
  obtain ⟨hkey'', hgeneration'', hdigest'', hd''⟩ :=
    hruntime (freshFor s p now d) (s.findTarget d.target) (stateFindings p d (lineageBase d (s.findTarget d.target)))
  exact ⟨hkey''.trans (hkey'.trans hkey), hgeneration''.trans (hgeneration'.trans hgeneration),
    hdigest''.trans (hdigest'.trans hdigest), hd''.trans (hd'.trans hd)⟩

theorem sorted_lineages (s : ControllerState) : SortedMap.Sorted (lineages s) := by
  rw [lineages_eq]
  exact SortedMap.sorted_group

/-- A lineage has its records, and at least one. -/
theorem records_of_mem {e : LineageKey × List DeliveryRecord} (he : e ∈ lineages s) :
    (stored s).filter (fun d => d.lineage = e.1) = e.2 ∧ e.2 ≠ [] := by
  have hfind : (lineages s).find e.1 = some e.2 := SortedMap.find_of_mem (sorted_lineages s) he
  rw [find_lineages] at hfind
  split at hfind
  · cases hfind
  next hsome =>
    rw [← Option.some.inj hfind]
    exact ⟨rfl, hsome⟩

/-- The desired record of a lineage is one of its records. -/
theorem lineage_of_desired {e : LineageKey × List DeliveryRecord} (he : e ∈ lineages s) (hd : desired e.2 = some d) :
    d.lineage = e.1 ∧ d ∈ stored s := by
  have hmem := (newest_desired hd).mem
  rw [← (records_of_mem he).1, List.mem_filter] at hmem
  exact ⟨of_decide_eq_true hmem.2, hmem.1⟩

theorem desired_of_mem {e : LineageKey × List DeliveryRecord} (he : e ∈ lineages s) : ∃ d, desired e.2 = some d :=
  Option.ne_none_iff_exists'.mp fun hnone => (records_of_mem he).2 (desired_eq_none.mp hnone)

/-- The entries stand in the order of the lineages. -/
theorem keys_desiredDeliveries : (desiredDeliveries s).map (·.lineage) = (lineages s).map (·.1) := by
  have hkeys (es : List (LineageKey × List DeliveryRecord)) (hes : ∀ e ∈ es, e ∈ lineages s) :
      (es.filterMap fun e => desired e.2).map (·.lineage) = es.map (·.1) := by
    induction es with
    | nil => rfl
    | cons e es ih =>
      obtain ⟨he, hrest⟩ := List.forall_mem_cons.mp hes
      obtain ⟨d, hd⟩ := desired_of_mem he
      rw [List.filterMap_cons_some (f := fun e : LineageKey × List DeliveryRecord => desired e.2) hd, List.map_cons,
        List.map_cons, ih hrest, (lineage_of_desired he hd).1]
  exact hkeys _ fun _ h => h

theorem keys_report : (buildConvergenceReport s p now).lineages.map entryKey = (lineages s).map (·.1) := by
  rw [lineages_report, List.map_map, ← keys_desiredDeliveries]
  exact List.map_congr_left fun d _ => (entry_buildLineage d).1

theorem stored_ids (hs : s.Filed) : ∀ a ∈ stored s, ∀ b ∈ stored s, a.id = b.id → a = b := by
  intro a ha b hb hid
  obtain ⟨e, he, rfl⟩ := List.mem_map.mp ha
  obtain ⟨e', he', rfl⟩ := List.mem_map.mp hb
  have hfind := SortedMap.find_of_mem hs.sorted (k := e.1) (v := e.2) he
  have hfind' := SortedMap.find_of_mem hs.sorted (k := e'.1) (v := e'.2) he'
  rw [hs.deliveries e he, hs.deliveries e' he'] at hid
  rw [hid, hfind'] at hfind
  exact (Option.some.inj hfind).symm

/-- The report and the scheduler choose the same record. -/
theorem latest_of_desired (hs : s.Filed) {e : LineageKey × List DeliveryRecord} (he : e ∈ lineages s)
    (hd : desired e.2 = some d) : s.latestForLineage d.target d.key = some d := by
  have hrecords : (stored s).filter (fun r => r.lineage = ⟨d.target, d.key⟩) = e.2 := by
    rw [← (records_of_mem he).1, ← (lineage_of_desired he hd).1]
    rfl
  rw [latestForLineage_eq, hrecords]
  obtain ⟨hnil, -⟩ | ⟨d', hd', hnewest⟩ := newest_newer e.2
  · rw [hnil] at hd
    cases hd
  · have hmem (r : DeliveryRecord) (hr : r ∈ e.2) : r ∈ stored s := by
      rw [← hrecords] at hr
      exact List.mem_of_mem_filter hr
    rw [hd', hnewest.unique (fun a ha b hb => stored_ids hs a (hmem a ha) b (hmem b hb)) (newest_desired hd)]

/-! The counts. -/

/-- Every entry is counted once. -/
structure Tallied (r : ConvergenceReport) : Prop where
  total : r.convergedCount + r.pendingCount + r.divergedCount + r.blockedCount = r.lineageCount
  entries : r.lineageCount = r.lineages.length
  converged : r.convergedCount = r.lineages.countP (·.converged)

theorem Tallied.count {r : ConvergenceReport} (h : Tallied r) (l : LineageConvergence) : Tallied (count r l) := by
  obtain ⟨htotal, hentries, hconverged⟩ := h
  unfold Convergence.count
  split_ifs with hl
  all_goals
    constructor
    · dsimp only
      omega
    · simp [hentries]
    · simp [hconverged, hl]

theorem Tallied.addLineage {r : ConvergenceReport} (h : Tallied r) (records : List DeliveryRecord) :
    Tallied (addLineage s p now r records) := by
  unfold Convergence.addLineage
  split
  · exact h
  · apply Tallied.count
    exact ⟨h.total, h.entries, h.converged⟩

theorem tallied_report : Tallied (buildConvergenceReport s p now) := by
  have hfold (es : List (LineageKey × List DeliveryRecord)) (r : ConvergenceReport) (hr : Tallied r) :
      Tallied (es.foldl (fun r e => addLineage s p now r e.2) r) := by
    induction es generalizing r with
    | nil => exact hr
    | cons e es ih => exact ih _ (hr.addLineage e.2)
  exact hfold _ _ ⟨rfl, rfl, rfl⟩

theorem Tallied.converged_iff {r : ConvergenceReport} (h : Tallied r) :
    r.converged = true ↔ ∀ l ∈ r.lineages, l.converged = true := by
  obtain ⟨htotal, hentries, hconverged⟩ := h
  have hall : r.lineages.countP (·.converged) = r.lineages.length ↔ ∀ l ∈ r.lineages, l.converged = true :=
    List.countP_eq_length
  rw [← hall, ConvergenceReport.converged]
  simp only [Bool.and_eq_true, beq_iff_eq]
  omega

theorem retired_count (r : ConvergenceReport) (l : LineageConvergence) : (count r l).retiredCount = r.retiredCount := by
  unfold count
  split_ifs <;> rfl

theorem retired_report :
    (buildConvergenceReport s p now).retiredCount = (stored s).countP (·.state == .retired) := by
  have hadd (r : ConvergenceReport) (records : List DeliveryRecord) : (addLineage s p now r records).retiredCount =
      r.retiredCount + records.countP (·.state == .retired) := by
    unfold addLineage
    split
    next hnone =>
      rw [desired_eq_none.mp hnone]
      rfl
    · rw [retired_count]
  have hfold (es : List (LineageKey × List DeliveryRecord)) (r : ConvergenceReport) :
      (es.foldl (fun r e => addLineage s p now r e.2) r).retiredCount =
        r.retiredCount + (es.flatMap (·.2)).countP (·.state == .retired) := by
    induction es generalizing r with
    | nil => rfl
    | cons e es ih =>
      rw [List.foldl_cons, ih, hadd, List.flatMap_cons, List.countP_append, Nat.add_assoc]
  have hperm : ((lineages s).flatMap (·.2)).Perm (stored s) := by
    rw [lineages_eq]
    exact SortedMap.group_perm
  rw [buildConvergenceReport, hfold, hperm.countP_eq]
  exact Nat.zero_add _

/-- What a report says about the lineages of a state. -/
structure Partitions (s : ControllerState) (p : DistributorPolicy) (now : ℤ) (r : ConvergenceReport) : Prop where
  increasing : r.lineages.Pairwise fun a b => entryKey a < entryKey b
  complete : ∀ k, (∃ l ∈ r.lineages, entryKey l = k) ↔ ∃ d ∈ stored s, d.lineage = k
  desired : ∀ l ∈ r.lineages, ∃ d, s.latestForLineage l.target l.key = some d ∧ l = buildLineage s p now d ∧
    l.desiredGeneration = d.generation ∧ l.desiredDigest = d.digest ∧ l.state = d.state
  total : r.convergedCount + r.pendingCount + r.divergedCount + r.blockedCount = r.lineageCount
  entries : r.lineageCount = r.lineages.length
  converged : r.converged = true ↔ ∀ l ∈ r.lineages, l.converged = true
  retired : r.retiredCount = (stored s).countP (·.state == .retired)

/-- The counts of a report partition its lineages. -/
theorem report_partitions (s : ControllerState) (hs : s.Filed) (p : DistributorPolicy) (now : ℤ) :
    Partitions s p now (buildConvergenceReport s p now) where
  increasing := by
    have hkeys : ((buildConvergenceReport s p now).lineages.map entryKey).Pairwise (· < ·) := by
      rw [keys_report]
      exact List.pairwise_map.mpr (sorted_lineages s)
    exact List.pairwise_map.mp hkeys
  complete k := by
    have hmem : (∃ l ∈ (buildConvergenceReport s p now).lineages, entryKey l = k) ↔
        k ∈ (buildConvergenceReport s p now).lineages.map entryKey := List.mem_map.symm
    rw [hmem, keys_report, lineages_eq]
    exact SortedMap.mem_keys_group
  desired l hl := by
    rw [lineages_report, desiredDeliveries] at hl
    obtain ⟨d, hd, rfl⟩ := List.mem_map.mp hl
    obtain ⟨e, he, hdesired⟩ := List.mem_filterMap.mp hd
    obtain ⟨hkey, hrest⟩ := @entry_buildLineage s p now d
    obtain ⟨htarget, hkey⟩ := LineageKey.mk.inj hkey
    refine ⟨d, ?_, rfl, hrest⟩
    rw [htarget, hkey]
    exact latest_of_desired hs he hdesired
  total := tallied_report.total
  entries := tallied_report.entries
  converged := tallied_report.converged_iff
  retired := retired_report

/-- Two generations of one key, and another key, on one target. -/
def threeDeliveries : ControllerState where
  deliveries := [
    (text "a", { id := text "a", target := text "t", key := text "k", generation := 2, state := .acknowledged }),
    (text "b", { id := text "b", target := text "t", key := text "k", generation := 1, state := .retired }),
    (text "c", { id := text "c", target := text "t", key := text "l", generation := 1 })]

theorem three_deliveries_partitioned : Partitions threeDeliveries {} 0 (buildConvergenceReport threeDeliveries {} 0) ∧
    (buildConvergenceReport threeDeliveries {} 0).lineageCount = 2 := by
  have hfiled : threeDeliveries.Filed := by
    constructor
    · decide
    · decide
    · exact List.Pairwise.cons (by decide) (List.Pairwise.cons (by decide) (List.pairwise_singleton _ _))
  exact ⟨report_partitions threeDeliveries hfiled {} 0, by decide⟩

end Convergence

end ConfigurationFabric
