import ConfigurationFabric.StoreCrash

/-! Two slots, of which a write leaves the newer one alone. -/

namespace ConfigurationFabric.SnapshotFile

open LittleEndian
open Program

variable {maxBytes covered : ℕ} {payload : Bytes} {d d' : Disk} {l : Loaded}

theorem writeTarget_ne (h : load maxBytes d = .ok l) : writeTarget maxBytes d ≠ l.slot := by
  unfold writeTarget
  rw [h]
  cases hslot : l.slot with
  | a => simp [hslot]
  | b => simp [hslot]

/-- A slot is loaded when it covers more than whatever else is valid. -/
theorem load_newest {slot : Slot} (h : loadSlot maxBytes d slot = some l)
    (hnewest : ∀ slot' l', slot' ≠ slot → loadSlot maxBytes d slot' = some l' → l'.coveredSequence < l.coveredSequence) :
    load maxBytes d = .ok l := by
  cases slot with
  | a =>
    cases hb : loadSlot maxBytes d .b with
    | none => simp [load, h, hb, newer]
    | some l' =>
      have hlt := hnewest .b l' (by decide) hb
      simp [load, h, hb, newer, Nat.not_lt.mpr hlt.le]
  | b =>
    cases ha : loadSlot maxBytes d .a with
    | none => simp [load, h, ha, newer]
    | some l' =>
      have hlt := hnewest .a l' (by decide) ha
      simp [load, h, ha, newer, hlt]

theorem load_error {e : Error} (h : load maxBytes d = .error e) (slot : Slot) : loadSlot maxBytes d slot = none := by
  unfold load at h
  cases ha : loadSlot maxBytes d .a with
  | none =>
    cases hb : loadSlot maxBytes d .b with
    | none => cases slot <;> assumption
    | some b => simp [ha, hb, newer] at h
  | some a =>
    cases hb : loadSlot maxBytes d .b with
    | none => simp [ha, hb, newer] at h
    | some b =>
      by_cases hlt : b.coveredSequence > a.coveredSequence
      · simp [ha, hb, newer, hlt] at h
      · simp [ha, hb, newer, hlt] at h

/-- Without the slot that is not loaded, the snapshot is the same. -/
theorem load_lost {slot : Slot} (hother : ∀ l, load maxBytes d = .ok l → slot ≠ l.slot)
    (hlost : loadSlot maxBytes d' slot = none)
    (hkept : ∀ slot', slot' ≠ slot → loadSlot maxBytes d' slot' = loadSlot maxBytes d slot') :
    load maxBytes d' = load maxBytes d := by
  cases hload : load maxBytes d with
  | ok l =>
    have hl : loadSlot maxBytes d' l.slot = some l := by
      rw [hkept l.slot (hother l hload).symm]
      exact load_slot hload
    apply load_newest hl
    intro slot' l' hne hl'
    have hslot : slot' = slot := by
      have hslot := hother l hload
      revert hne hslot
      cases slot' <;> cases slot <;> cases l.slot <;> decide
    rw [hslot, hlost] at hl'
    cases hl'
  | error e =>
    have hnone (slot' : Slot) : loadSlot maxBytes d' slot' = none := by
      by_cases h : slot' = slot
      · rw [h, hlost]
      · rw [hkept slot' h, load_error hload]
    rw [← hload, load, load, hnone .a, hnone .b, load_error hload, load_error hload]

theorem loadSlot_setSlot_invalid {slot : Slot} {bytes : Bytes} (h : ∀ x, checkSlot maxBytes bytes ≠ .ok x) :
    loadSlot maxBytes (d.setSlot slot (some bytes)) slot = none := by
  unfold loadSlot
  rw [Disk.slot_setSlot, if_pos rfl]
  dsimp only
  split
  · rfl
  case h_2 covered payload hcheck => exact absurd hcheck (h _)

theorem loadSlot_setSlot_ne {slot slot' : Slot} {content : Option Bytes} (h : slot' ≠ slot) :
    loadSlot maxBytes (d.setSlot slot content) slot' = loadSlot maxBytes d slot' := by
  rw [loadSlot, Disk.slot_setSlot, if_neg h]
  rfl

theorem loadSlot_of_slot_eq {slot : Slot} (h : d'.slot slot = d.slot slot) :
    loadSlot maxBytes d' slot = loadSlot maxBytes d slot := by
  rw [loadSlot, h]
  rfl

/-- All that a write does to the directory, and what it has left there when it succeeds. -/
theorem steps_write {R : Disk → Disk → Prop}
    (hR : ∀ t content, R t (t.setSlot (writeTarget maxBytes d) content)) :
    (write maxBytes covered payload).Steps (fun _ => True) R
      (fun status t => status = .ok () → payload.length ≤ maxBytes ∧
        t.slot (writeTarget maxBytes d) = some (encodeSlot covered payload)) d := by
  have hwritten (t : Disk) : (t.setSlot (writeTarget maxBytes d) (some (encodeSlot covered payload))).slot
      (writeTarget maxBytes d) = some (encodeSlot covered payload) := by rw [Disk.slot_setSlot, if_pos rfl]
  unfold write
  split
  · intro h
    cases h
  case isFalse hsize =>
  have hlen := Nat.not_lt.mp hsize
  simp only [Prog.steps_bind, Prog.steps_read, writeFileAtomic]
  refine steps_succeeds ?_ fun _ h => by cases h
  simp only [Bool.not_true, Bool.false_eq_true, if_false, Prog.steps_bind, Prog.steps_ask]
  intro io _
  split
  · intro h
    cases h
  simp only [Prog.steps_bind]
  refine steps_flushJournal ?_ fun _ e h => by cases h
  simp only [Prog.steps_bind]
  refine steps_succeeds ⟨hR _ _, fun _ => ⟨hlen, hwritten d⟩⟩ fun _ => ?_
  simp only [Bool.false_eq_true, if_false, Prog.steps_bind]
  refine steps_succeeds ?_ fun _ => ?_
  · simp only [if_true, Prog.steps_bind, Prog.steps_modify]
    refine ⟨hR _ _, ?_⟩
    exact steps_succeeds ⟨hR _ _, fun _ => ⟨hlen, hwritten _⟩⟩ fun _ h => by cases h
  · simp only [Bool.false_eq_true, if_false, Prog.steps_bind]
    exact steps_succeeds ⟨hR _ _, fun _ => ⟨hlen, hwritten _⟩⟩ fun _ h => by cases h

/-- Wherever a write is cut off, only its target slot is touched. -/
theorem write_slot {r : Option Status} (h : Prog.Exec (fun _ => True) (write maxBytes covered payload) d r d')
    {slot : Slot} (hslot : slot ≠ writeTarget maxBytes d) : d'.slot slot = d.slot slot := by
  have hframe : ∀ (t : Disk) content, (t.setSlot (writeTarget maxBytes d) content).slot slot = t.slot slot := by
    intro t content
    rw [Disk.slot_setSlot, if_neg hslot]
  have hsteps := ((@steps_write maxBytes covered payload d (fun s t => t.slot slot = s.slot slot) hframe).exec h).1
  clear h
  induction hsteps with
  | refl => rfl
  | tail _ hstep ih => exact hstep.trans ih

theorem load_completed (hcovered : covered < 2 ^ 64) (hsize : maxBytes < 2 ^ 32)
    (h : Prog.Exec (fun _ => True) (write maxBytes covered payload) d (some (.ok ())) d')
    (hnewest : ∀ slot l, loadSlot maxBytes d slot = some l → l.coveredSequence < covered) :
    load maxBytes d' = .ok ⟨covered, payload, writeTarget maxBytes d⟩ := by
  obtain ⟨hlen, hcontent⟩ :=
    ((@steps_write maxBytes covered payload d (fun _ _ => True) fun _ _ => trivial).exec h).2 _ rfl rfl
  have hcheck := checkSlot_encodeSlot hcovered hlen (lt_of_le_of_lt hlen hsize)
  have hnew : loadSlot maxBytes d' (writeTarget maxBytes d) = some ⟨covered, payload, writeTarget maxBytes d⟩ := by
    rw [loadSlot, hcontent]
    dsimp only
    rw [hcheck]
  apply load_newest hnew
  intro slot l hne hl
  rw [loadSlot_of_slot_eq (write_slot h hne)] at hl
  exact hnewest slot l hl

/-- Wherever a write ends or is cut off, the slot in use is as it was; whatever is no snapshot in the other slot leaves
the load as it was; and a completed write of the newest snapshot is what is loaded. -/
theorem slots_alternate {maxBytes covered : ℕ} {payload : Bytes} {d d' : Disk} {r : Option Status}
    (hcovered : covered < 2 ^ 64) (hsize : maxBytes < 2 ^ 32)
    (h : Prog.Exec (fun _ => True) (write maxBytes covered payload) d r d') :
    (∀ l, load maxBytes d = .ok l → d'.slot l.slot = d.slot l.slot) ∧
      (∀ slot bytes, (∀ l, load maxBytes d = .ok l → slot ≠ l.slot) → (∀ x, checkSlot maxBytes bytes ≠ .ok x) →
        load maxBytes (d.setSlot slot (some bytes)) = load maxBytes d) ∧
      (r = some (.ok ()) → (∀ slot l, loadSlot maxBytes d slot = some l → l.coveredSequence < covered) →
        ∃ slot, load maxBytes d' = .ok ⟨covered, payload, slot⟩) := by
  refine ⟨?_, ?_, ?_⟩
  · intro l hl
    exact write_slot h (writeTarget_ne hl).symm
  · intro slot bytes hother hinvalid
    exact load_lost hother (loadSlot_setSlot_invalid hinvalid) fun _ hne => loadSlot_setSlot_ne hne
  · rintro rfl hnewest
    exact ⟨_, load_completed hcovered hsize h hnewest⟩

/-- Slot `a` holds a snapshot, slot `b` the front of one. -/
def occupied : Disk := (({} : Disk).setSlot .a (some (encodeSlot 5 [7]))).setSlot .b (some ((encodeSlot 4 [6]).take 9))

theorem exec_write_occupied :
    ∃ d', Prog.Exec (fun _ => True) (write kMaxSnapshotBytes 10 [1, 2]) occupied (some (.ok ())) d' := by
  have hsound : Sound .done := rfl
  obtain ⟨status, d', h⟩ := Prog.Exec.complete hsound (write kMaxSnapshotBytes 10 [1, 2]) occupied
  have hok : status = .ok () :=
    ((@DurableStore.steps_writeSnapshot (fun _ _ => True) occupied 10 [1, 2] (fun status _ => status = .ok ())
      (fun hlarge => absurd hlarge (by decide)) (fun _ => trivial) fun _ => rfl).exec h).2 _ rfl
  rw [hok] at h
  exact ⟨d', h.mono fun _ _ => trivial⟩

theorem occupied_slot_alternates :
    load kMaxSnapshotBytes occupied = .ok ⟨5, [7], .a⟩ ∧
    load kMaxSnapshotBytes (occupied.setSlot .b (some [0])) = .ok ⟨5, [7], .a⟩ ∧
    ∃ d', Prog.Exec (fun _ => True) (write kMaxSnapshotBytes 10 [1, 2]) occupied (some (.ok ())) d' ∧
      d'.slot .a = some (encodeSlot 5 [7]) ∧ ∃ slot, load kMaxSnapshotBytes d' = .ok ⟨10, [1, 2], slot⟩ := by
  have hload : load kMaxSnapshotBytes occupied = .ok ⟨5, [7], .a⟩ := by decide +kernel
  obtain ⟨d', hany⟩ := exec_write_occupied
  obtain ⟨hkept, hlost, hnewest⟩ := slots_alternate (by decide) (by decide) hany
  have hinvalid : ∀ x, checkSlot kMaxSnapshotBytes [0] ≠ .ok x := fun x h => by cases h
  refine ⟨hload, ?_, d', hany, hkept _ hload, hnewest rfl fun slot l hl => ?_⟩
  · rw [hlost .b [0] (fun l hl => ?_) hinvalid, hload]
    cases hload.symm.trans hl
    decide
  · cases slot with
    | a =>
      have ha : loadSlot kMaxSnapshotBytes occupied .a = some ⟨5, [7], .a⟩ := by decide +kernel
      cases ha.symm.trans hl
      decide
    | b =>
      have hb : loadSlot kMaxSnapshotBytes occupied .b = none := by decide
      cases hb.symm.trans hl

end ConfigurationFabric.SnapshotFile
