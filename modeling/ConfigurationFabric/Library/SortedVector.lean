import Mathlib.Data.List.InsertIdx
import Mathlib.Data.List.TakeWhile
import ConfigurationFabric.Library.SortedMap

/-! Vectors kept in the order of a key and searched by halving. -/

namespace ConfigurationFabric.SortedVector

section LowerBound

variable {α : Type}

/-- `std::lower_bound` from `first` on, over `count` elements. -/
def lowerBoundFrom (below : α → Bool) (l : List α) (first count : ℕ) : ℕ :=
  if count = 0 then first
  else
    let step := count / 2
    if l[first + step]?.any below then lowerBoundFrom below l (first + step + 1) (count - (step + 1))
    else lowerBoundFrom below l first step
termination_by count
decreasing_by all_goals omega

def lowerBound (below : α → Bool) (l : List α) : ℕ := lowerBoundFrom below l 0 l.length

theorem lowerBoundFrom_eq {below : α → Bool} {front back : List α} (hfront : ∀ a ∈ front, below a = true)
    (hback : ∀ a ∈ back, below a = false) {first count : ℕ} (hfirst : first ≤ front.length)
    (hlast : front.length ≤ first + count) (hcount : first + count ≤ (front ++ back).length) :
    lowerBoundFrom below (front ++ back) first count = front.length := by
  fun_induction lowerBoundFrom below (front ++ back) first count with
  | case1 first => omega
  | case2 first count hpos step hbelow ih =>
    have hlt : first + step < front.length := by
      by_contra hle
      rw [List.getElem?_append_right (by omega), Option.any_eq_true] at hbelow
      obtain ⟨a, ha, hbelow⟩ := hbelow
      rw [hback a (List.mem_of_getElem? ha)] at hbelow
      cases hbelow
    exact ih (by omega) (by omega) (by omega)
  | case3 first count hpos step hbelow ih =>
    have hle : front.length ≤ first + step := by
      by_contra hlt
      rw [List.getElem?_append_left (by omega), List.getElem?_eq_getElem (by omega)] at hbelow
      exact hbelow (hfront _ (List.getElem_mem _))
    exact ih hfirst hle (by omega)

theorem lowerBound_eq {below : α → Bool} {front back : List α} (hfront : ∀ a ∈ front, below a = true)
    (hback : ∀ a ∈ back, below a = false) : lowerBound below (front ++ back) = front.length :=
  lowerBoundFrom_eq hfront hback (Nat.zero_le _) (by rw [List.length_append]; omega) (Nat.zero_add _).le

end LowerBound

variable {α κ : Type} [DecidableEq κ] [LT κ] [DecidableRel (fun a b : κ => a < b)] {key : α → κ} {l : List α} {k : κ}
  {a b : α}

def position (key : α → κ) (l : List α) (k : κ) : ℕ := lowerBound (fun a => decide (key a < k)) l

def find (key : α → κ) (l : List α) (k : κ) : Option α :=
  match l[position key l k]? with
  | none => none
  | some a => if key a = k then some a else none

def insert (key : α → κ) (l : List α) (a : α) : List α := l.insertIdx (position key l (key a)) a

def erase (key : α → κ) (l : List α) (k : κ) : List α := l.eraseIdx (position key l k)

/-- The keys strictly increase. -/
def Sorted (key : α → κ) (l : List α) : Prop := l.Pairwise fun a b => key a < key b

theorem insertIdx_split (front back : List α) (a : α) : (front ++ back).insertIdx front.length a = front ++ a :: back := by
  induction front with
  | nil => exact List.insertIdx_zero
  | cons b front ih =>
    rw [List.cons_append, List.length_cons, List.insertIdx_succ_cons, ih]
    rfl

/-- What is found stands where the search stops, and is what an erasure takes out. -/
theorem split_of_find (h : find key l k = some a) :
    key a = k ∧ ∃ front back, l = front ++ a :: back ∧ erase key l k = front ++ back := by
  unfold find at h
  split at h
  · cases h
  case h_2 b hb =>
  split at h
  case isFalse => cases h
  case isTrue hk =>
  obtain rfl := Option.some.inj h
  obtain ⟨hlt, hget⟩ := List.getElem?_eq_some_iff.mp hb
  refine ⟨hk, l.take (position key l k), l.drop (position key l k + 1), ?_, List.eraseIdx_eq_take_drop_succ l _⟩
  rw [← hget, ← List.drop_eq_getElem_cons hlt, List.take_append_drop]

theorem perm_erase (h : find key l k = some a) : l.Perm (a :: erase key l k) := by
  obtain ⟨-, front, back, hl, herase⟩ := split_of_find h
  rw [herase]
  conv_lhs => rw [hl]
  exact List.perm_middle

omit [DecidableEq κ] in
theorem sorted_erase (h : Sorted key l) (k : κ) : Sorted key (erase key l k) := h.sublist (List.eraseIdx_sublist _ _)

section Search

variable [IsTrans κ (· < ·)]

omit [DecidableEq κ] in
/-- The search stops between the smaller keys and the others. -/
theorem exists_split (h : Sorted key l) (k : κ) : ∃ front back, l = front ++ back ∧ (∀ a ∈ front, key a < k) ∧
    (∀ a ∈ back, ¬ key a < k) ∧ position key l k = front.length := by
  have hsplit : ∃ front back, l = front ++ back ∧ (∀ a ∈ front, key a < k) ∧ ∀ a ∈ back, ¬ key a < k := by
    induction l with
    | nil => exact ⟨[], [], rfl, by simp, by simp⟩
    | cons a l ih =>
      obtain ⟨hle, hl⟩ := List.pairwise_cons.mp h
      by_cases ha : key a < k
      · obtain ⟨front, back, rfl, hfront, hback⟩ := ih hl
        exact ⟨a :: front, back, rfl, List.forall_mem_cons.mpr ⟨ha, hfront⟩, hback⟩
      · refine ⟨[], a :: l, rfl, by simp, List.forall_mem_cons.mpr ⟨ha, fun b hb hlt => ?_⟩⟩
        exact ha (IsTrans.trans _ _ _ (hle b hb) hlt)
  obtain ⟨front, back, rfl, hfront, hback⟩ := hsplit
  refine ⟨front, back, rfl, hfront, hback, lowerBound_eq ?_ ?_⟩
  · exact fun a ha => decide_eq_true (hfront a ha)
  · exact fun a ha => decide_eq_false (hback a ha)

theorem find_eq_some [Std.Irrefl (α := κ) (· < ·)] (h : Sorted key l) : find key l k = some a ↔ a ∈ l ∧ key a = k := by
  constructor
  · intro hfind
    obtain ⟨hk, front, back, rfl, -⟩ := split_of_find hfind
    exact ⟨List.mem_append_right _ List.mem_cons_self, hk⟩
  · rintro ⟨ha, rfl⟩
    obtain ⟨front, back, rfl, hfront, hback, hposition⟩ := exists_split h (key a)
    have hirrefl : ¬ key a < key a := Std.Irrefl.irrefl (r := ((· < ·) : κ → κ → Prop)) _
    have hmem : a ∈ back := (List.mem_append.mp ha).resolve_left fun hin => hirrefl (hfront a hin)
    cases back with
    | nil => cases hmem
    | cons b back =>
      obtain rfl | hrest := List.mem_cons.mp hmem
      · rw [find, hposition, List.getElem?_append_right (Nat.le_refl _), Nat.sub_self]
        exact if_pos rfl
      · have hsorted := (List.pairwise_append.mp h).2.1
        exact absurd ((List.pairwise_cons.mp hsorted).1 a hrest) (hback b List.mem_cons_self)

theorem find_eq_none [Std.Irrefl (α := κ) (· < ·)] (h : Sorted key l) : find key l k = none ↔ ∀ a ∈ l, key a ≠ k := by
  rw [Option.eq_none_iff_forall_ne_some]
  constructor
  · intro hnone a ha hk
    exact hnone a ((find_eq_some h).mpr ⟨ha, hk⟩)
  · intro hne a hfind
    obtain ⟨ha, hk⟩ := (find_eq_some h).mp hfind
    exact hne a ha hk

omit [DecidableEq κ] in
theorem perm_insert (h : Sorted key l) (a : α) : (insert key l a).Perm (a :: l) := by
  obtain ⟨front, back, rfl, -, -, hposition⟩ := exists_split h (key a)
  rw [insert, hposition, insertIdx_split]
  exact List.perm_middle

omit [DecidableEq κ] in
theorem sorted_insert [Std.Trichotomous (α := κ) (· < ·)] (h : Sorted key l) (hnew : ∀ b ∈ l, key b ≠ key a) :
    Sorted key (insert key l a) := by
  obtain ⟨front, back, rfl, hfront, hback, hposition⟩ := exists_split h (key a)
  rw [insert, hposition, insertIdx_split]
  obtain ⟨hsmaller, hlarger, hcross⟩ := List.pairwise_append.mp h
  have hafter : ∀ b ∈ back, key a < key b := by
    intro b hb
    by_contra hno
    exact hnew b (List.mem_append_right _ hb)
      (Std.Trichotomous.trichotomous (r := ((· < ·) : κ → κ → Prop)) _ _ (hback b hb) hno)
  refine List.pairwise_append.mpr ⟨hsmaller, List.pairwise_cons.mpr ⟨hafter, hlarger⟩, fun b hb c hc => ?_⟩
  obtain rfl | hc := List.mem_cons.mp hc
  · exact hfront b hb
  · exact hcross b hb c hc

end Search

/-! The vector as a map. -/

def entries (key : α → κ) (l : List α) : SortedMap κ α := l.map fun a => (key a, a)

omit [DecidableEq κ] [DecidableRel (fun a b : κ => a < b)] in
theorem sorted_entries : SortedMap.Sorted (entries key l) ↔ Sorted key l := List.pairwise_map

variable [IsTrans κ (· < ·)] [Std.Irrefl (α := κ) (· < ·)]

theorem find_entries (h : Sorted key l) (k : κ) : (entries key l).find k = find key l k := by
  apply Option.ext
  intro a
  rw [find_eq_some h]
  constructor
  · intro hfind
    obtain ⟨b, hb, hentry⟩ := List.mem_map.mp (SortedMap.find_mem hfind)
    obtain ⟨rfl, rfl⟩ := Prod.mk.inj hentry
    exact ⟨hb, rfl⟩
  · rintro ⟨ha, rfl⟩
    exact SortedMap.find_of_mem (sorted_entries.mpr h) (List.mem_map.mpr ⟨a, ha, rfl⟩)

theorem entries_insert [Std.Trichotomous (α := κ) (· < ·)] (h : Sorted key l) (hnew : ∀ b ∈ l, key b ≠ key a) :
    entries key (insert key l a) = (entries key l).insert (key a) a := by
  obtain ⟨front, back, rfl, hfront, hback, hposition⟩ := exists_split h (key a)
  rw [insert, hposition, insertIdx_split]
  clear hposition h
  unfold entries
  induction front with
  | nil =>
    cases back with
    | nil => rfl
    | cons b back =>
      have hne : key a ≠ key b := (hnew b List.mem_cons_self).symm
      have hlt : key a < key b := by
        by_contra hno
        exact hne (Std.Trichotomous.trichotomous (r := ((· < ·) : κ → κ → Prop)) _ _ hno (hback b List.mem_cons_self))
      simp only [List.nil_append, List.map_cons]
      rw [SortedMap.insert, if_neg hne, if_pos hlt]
  | cons b front ih =>
    obtain ⟨hb, hfront⟩ := List.forall_mem_cons.mp hfront
    obtain ⟨hne, hnew⟩ := List.forall_mem_cons.mp hnew
    have hlt : ¬ key a < key b := fun hlt =>
      Std.Irrefl.irrefl (r := ((· < ·) : κ → κ → Prop)) _ (IsTrans.trans _ _ _ hb hlt)
    simp only [List.cons_append, List.map_cons]
    rw [SortedMap.insert, if_neg hne.symm, if_neg hlt, ih hnew hfront]

omit [IsTrans κ (· < ·)] in
theorem entries_erase (h : Sorted key l) (hfind : find key l k = some a) :
    entries key (erase key l k) = (entries key l).erase k := by
  obtain ⟨rfl, front, back, rfl, herase⟩ := split_of_find hfind
  obtain ⟨-, hback, hcross⟩ := List.pairwise_append.mp h
  have hirrefl (c : α) : ¬ key c < key c := Std.Irrefl.irrefl (r := ((· < ·) : κ → κ → Prop)) _
  have hkeep (m : List α) (hm : ∀ b ∈ m, key b ≠ key a) : (entries key m).erase (key a) = entries key m := by
    refine List.filter_eq_self.mpr fun e he => decide_eq_true ?_
    obtain ⟨b, hb, rfl⟩ := List.mem_map.mp he
    exact hm b hb
  have hfront := hkeep front fun b hb hsame => hirrefl a (by
    have hlt := hcross b hb a List.mem_cons_self
    rwa [hsame] at hlt)
  have hrest := hkeep back fun b hb hsame => hirrefl a (by
    have hlt := (List.pairwise_cons.mp hback).1 b hb
    rwa [hsame] at hlt)
  unfold entries SortedMap.erase at hfront hrest ⊢
  rw [herase, List.map_append, List.map_append, List.map_cons, List.filter_append, hfront,
    List.filter_cons_of_neg (by simp), hrest]

end ConfigurationFabric.SortedVector
