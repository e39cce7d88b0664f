import Mathlib.Data.List.Basic
import Mathlib.Order.Defs.Unbundled

/-! Finite maps kept as lists of entries in increasing key order. -/

namespace ConfigurationFabric

abbrev SortedMap (κ α : Type) := List (κ × α)

namespace SortedMap

variable {κ α : Type} [DecidableEq κ] [LT κ] [DecidableRel (fun a b : κ => a < b)]

def find (m : SortedMap κ α) (k : κ) : Option α := List.lookup k m

def insert (m : SortedMap κ α) (k : κ) (v : α) : SortedMap κ α :=
  match m with
  | [] => [(k, v)]
  | e :: m => if k = e.1 then (k, v) :: m else if k < e.1 then (k, v) :: e :: m else e :: insert m k v

def erase (m : SortedMap κ α) (k : κ) : SortedMap κ α := List.filter (fun e => decide (e.1 ≠ k)) m

omit [LT κ] [DecidableRel (fun a b : κ => a < b)] in
@[simp] theorem find_nil (k : κ) : find ([] : SortedMap κ α) k = none := rfl

omit [LT κ] [DecidableRel (fun a b : κ => a < b)] in
theorem find_cons (e : κ × α) (m : SortedMap κ α) (k : κ) :
    find (e :: m) k = if k = e.1 then some e.2 else find m k := by
  obtain ⟨k', v⟩ := e
  rw [find, find, List.lookup_cons]
  by_cases h : k = k'
  · simp [h]
  · simp [h, beq_eq_false_iff_ne.mpr h]

omit [LT κ] [DecidableRel (fun a b : κ => a < b)] in
theorem find_map {β : Type} (m : SortedMap κ α) (f : α → β) (k : κ) :
    find (m.map fun e => (e.1, f e.2)) k = (find m k).map f := by
  induction m with
  | nil => rfl
  | cons e m ih =>
    rw [List.map_cons, find_cons, find_cons, ih]
    split <;> rfl

theorem find_insert (m : SortedMap κ α) (k k' : κ) (v : α) :
    find (insert m k v) k' = if k' = k then some v else find m k' := by
  induction m with
  | nil => simp [insert, find_cons]
  | cons e m ih =>
    rw [insert]
    split
    case isTrue h => by_cases hk : k' = k <;> simp_all [find_cons]
    case isFalse h =>
      split
      · simp [find_cons]
      · rw [find_cons, ih, find_cons]
        by_cases hk : k' = e.1
        · simp only [hk, if_true]
          rw [if_neg (fun hc => h hc.symm)]
        · simp [hk]

omit [LT κ] [DecidableRel (fun a b : κ => a < b)] in
theorem find_erase (m : SortedMap κ α) (k k' : κ) :
    find (erase m k) k' = if k' = k then none else find m k' := by
  induction m with
  | nil => simp [erase]
  | cons e m ih =>
    rw [erase] at ih ⊢
    by_cases he : e.1 = k
    · rw [List.filter_cons_of_neg (by simp [he]), ih, find_cons, he]
      by_cases hk : k' = k <;> simp [hk]
    · rw [List.filter_cons_of_pos (by simp [he]), find_cons, ih, find_cons]
      by_cases hk : k' = e.1
      · simp only [hk, if_true]
        rw [if_neg he]
      · simp [hk]

omit [LT κ] [DecidableRel (fun a b : κ => a < b)] in
theorem find_mem {m : SortedMap κ α} {k : κ} {v : α} (h : find m k = some v) : (k, v) ∈ m := by
  induction m with
  | nil => simp at h
  | cons e m ih =>
    rw [find_cons] at h
    split at h
    case isTrue hk => obtain rfl := Option.some.inj h; simp [hk]
    case isFalse hk => exact List.mem_cons_of_mem _ (ih h)

omit [LT κ] [DecidableRel (fun a b : κ => a < b)] in
theorem ne_of_find_none {m : SortedMap κ α} {k : κ} (h : find m k = none) : ∀ e ∈ m, e.1 ≠ k := by
  intro e he heq
  have hne := List.lookup_eq_none_iff.mp h e he
  rw [heq] at hne
  simp at hne

theorem mem_insert {m : SortedMap κ α} {k : κ} {v : α} {e : κ × α} (h : e ∈ insert m k v) :
    e = (k, v) ∨ e ∈ m := by
  induction m with
  | nil => simpa [insert] using h
  | cons d m ih =>
    rw [insert] at h
    split at h
    · obtain rfl | h := List.mem_cons.mp h
      · exact .inl rfl
      · exact .inr (List.mem_cons_of_mem _ h)
    split at h
    · exact List.mem_cons.mp h
    · obtain rfl | h := List.mem_cons.mp h
      · exact .inr List.mem_cons_self
      · exact (ih h).imp id (List.mem_cons_of_mem _)

omit [LT κ] [DecidableRel (fun a b : κ => a < b)] in
theorem mem_erase {m : SortedMap κ α} {k : κ} {e : κ × α} (h : e ∈ erase m k) : e ∈ m ∧ e.1 ≠ k := by
  simpa [erase] using h

theorem length_insert {m : SortedMap κ α} {k : κ} (h : ∀ e ∈ m, e.1 ≠ k) (v : α) :
    (insert m k v).length = m.length + 1 := by
  induction m with
  | nil => rfl
  | cons e m ih =>
    obtain ⟨he, hm⟩ := List.forall_mem_cons.mp h
    rw [insert, if_neg he.symm]
    split
    · rfl
    · rw [List.length_cons, ih hm, List.length_cons]

/-- The keys strictly increase. -/
def Sorted (m : SortedMap κ α) : Prop := m.Pairwise fun a b => a.1 < b.1

theorem sorted_insert [IsTrans κ (· < ·)] [Std.Trichotomous (α := κ) (· < ·)] {m : SortedMap κ α} (h : Sorted m)
    (k : κ) (v : α) : Sorted (insert m k v) := by
  induction m with
  | nil => exact List.pairwise_singleton _ _
  | cons e m ih =>
    obtain ⟨hle, hm⟩ := List.pairwise_cons.mp h
    rw [insert]
    split
    case isTrue hk => exact List.pairwise_cons.mpr ⟨fun d hd => hk ▸ hle d hd, hm⟩
    case isFalse hk =>
      split
      case isTrue hlt =>
        refine List.pairwise_cons.mpr ⟨fun d hd => ?_, h⟩
        obtain rfl | hd := List.mem_cons.mp hd
        · exact hlt
        · exact IsTrans.trans _ _ _ hlt (hle d hd)
      case isFalse hlt =>
        refine List.pairwise_cons.mpr ⟨fun d hd => ?_, ih hm⟩
        obtain rfl | hd := mem_insert hd
        · by_contra hno
          exact hk (Std.Trichotomous.trichotomous (r := ((· < ·) : κ → κ → Prop)) k e.1 hlt hno)
        · exact hle d hd

omit [DecidableRel (fun a b : κ => a < b)] in
theorem sorted_erase {m : SortedMap κ α} (h : Sorted m) (k : κ) : Sorted (erase m k) := h.filter _

omit [DecidableRel (fun a b : κ => a < b)] in
theorem find_of_mem [Std.Irrefl (α := κ) (· < ·)] {m : SortedMap κ α} (h : Sorted m) {k : κ} {v : α}
    (hmem : (k, v) ∈ m) : find m k = some v := by
  induction m with
  | nil => cases hmem
  | cons e m ih =>
    obtain ⟨hle, hm⟩ := List.pairwise_cons.mp h
    rw [find_cons]
    obtain rfl | hmem := List.mem_cons.mp hmem
    · simp
    · have hne : k ≠ e.1 := by
        rintro rfl
        exact Std.Irrefl.irrefl (r := ((· < ·) : κ → κ → Prop)) e.1 (hle (e.1, v) hmem)
      rw [if_neg hne, ih hm hmem]

theorem insert_insert [Std.Irrefl (α := κ) (· < ·)] (m : SortedMap κ α) (k : κ) (v v' : α) :
    insert (insert m k v) k v' = insert m k v' := by
  induction m with
  | nil => simp [insert]
  | cons e m ih =>
    rw [insert, insert]
    by_cases hk : k = e.1
    · rw [if_pos hk, if_pos hk, insert, if_pos rfl]
    · rw [if_neg hk, if_neg hk]
      by_cases hlt : k < e.1
      · rw [if_pos hlt, if_pos hlt, insert, if_pos rfl]
      · rw [if_neg hlt, if_neg hlt, insert, if_neg hk, if_neg hlt, ih]

/-- Under a key that is known an insertion only changes the value. -/
theorem insert_known [Std.Irrefl (α := κ) (· < ·)] [IsTrans κ (· < ·)] {m : SortedMap κ α} (h : Sorted m) {k : κ} {v₀ : α}
    (hk : find m k = some v₀) (v : α) : insert m k v = m.map fun e => (e.1, if e.1 = k then v else e.2) := by
  induction m with
  | nil => simp at hk
  | cons e m ih =>
    obtain ⟨hle, hm⟩ := List.pairwise_cons.mp h
    rw [insert, List.map_cons]
    by_cases he : k = e.1
    · have hrest : m.map (fun e => (e.1, if e.1 = k then v else e.2)) = m := by
        conv_rhs => rw [← List.map_id m]
        refine List.map_congr_left fun d hd => ?_
        have hne : d.1 ≠ k := fun hdk => Std.Irrefl.irrefl (r := ((· < ·) : κ → κ → Prop)) k (by
          have hlt := hle d hd
          rwa [hdk, ← he] at hlt)
        simp [hne]
      rw [if_pos he, hrest, if_pos he.symm, he]
    · rw [find_cons, if_neg he] at hk
      have hlt : ¬ k < e.1 := fun hlt => Std.Irrefl.irrefl (r := ((· < ·) : κ → κ → Prop)) k
        (IsTrans.trans _ _ _ hlt (hle (k, v₀) (find_mem hk)))
      rw [if_neg he, if_neg hlt, ih hm hk, if_neg (fun hek => he hek.symm)]

/-- A predicate on the entries that sees neither the new one nor the one it replaces. -/
theorem filter_insert {m : SortedMap κ α} {k : κ} {v : α} {q : κ × α → Bool} (hnew : q (k, v) = false)
    (hold : ∀ e ∈ m, e.1 = k → q e = false) : (insert m k v).filter q = m.filter q := by
  induction m with
  | nil => simp [insert, hnew]
  | cons e m ih =>
    obtain ⟨he, hm⟩ := List.forall_mem_cons.mp hold
    rw [insert]
    by_cases hk : k = e.1
    · rw [if_pos hk, List.filter_cons_of_neg (by simp [hnew]), List.filter_cons_of_neg (by simp [he hk.symm])]
    · rw [if_neg hk]
      split
      · rw [List.filter_cons_of_neg (by simp [hnew])]
      · rw [List.filter_cons, List.filter_cons, ih hm]

omit [DecidableEq κ] [DecidableRel (fun a b : κ => a < b)] in
theorem keys_nodup [Std.Irrefl (α := κ) (· < ·)] {m : SortedMap κ α} (h : Sorted m) : (m.map (·.1)).Nodup := by
  rw [List.Nodup, List.pairwise_map]
  refine h.imp fun hlt heq => ?_
  rw [heq] at hlt
  exact Std.Irrefl.irrefl (r := ((· < ·) : κ → κ → Prop)) _ hlt

end SortedMap

end ConfigurationFabric
