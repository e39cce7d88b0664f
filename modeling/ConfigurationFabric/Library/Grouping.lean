import Mathlib.Data.List.Induction
import ConfigurationFabric.Library.SortedMap

/-! Elements gathered by a key. -/

namespace ConfigurationFabric.SortedMap

variable {κ α : Type} [DecidableEq κ] [LT κ] [DecidableRel (fun a b : κ => a < b)]

/-- Under each key its elements, in the order in which they come. -/
def group (key : α → κ) (l : List α) : SortedMap κ (List α) :=
  l.foldl (fun m a => insert m (key a) ((find m (key a)).getD [] ++ [a])) []

variable {key : α → κ} {l : List α} {k : κ}

@[simp] theorem group_nil : group key [] = [] := rfl

theorem group_concat (l : List α) (a : α) :
    group key (l ++ [a]) = insert (group key l) (key a) ((find (group key l) (key a)).getD [] ++ [a]) := by
  rw [group, List.foldl_append]
  rfl

theorem find_group : find (group key l) k =
    if l.filter (fun a => key a = k) = [] then none else some (l.filter fun a => key a = k) := by
  induction l using List.reverseRecOn with
  | nil => rfl
  | append_singleton l a ih =>
    rw [group_concat, find_insert, List.filter_append]
    by_cases hk : k = key a
    · subst hk
      rw [if_pos rfl, ih]
      by_cases hnil : l.filter (fun b => key b = key a) = [] <;> simp [hnil]
    · have hne : ¬ key a = k := fun h => hk h.symm
      rw [if_neg hk, ih, List.filter_cons_of_neg (by simp [hne]), List.filter_nil, List.append_nil]

theorem mem_keys_group : k ∈ (group key l).map (·.1) ↔ ∃ a ∈ l, key a = k := by
  have hfind : k ∈ (group key l).map (·.1) ↔ find (group key l) k ≠ none := by
    constructor
    · intro hk hnone
      obtain ⟨e, he, rfl⟩ := List.mem_map.mp hk
      exact ne_of_find_none hnone e he rfl
    · intro hsome
      obtain ⟨v, hv⟩ := Option.ne_none_iff_exists'.mp hsome
      exact List.mem_map_of_mem (find_mem hv)
  rw [hfind, find_group]
  by_cases hnil : l.filter (fun a => key a = k) = []
  · simpa [hnil] using List.filter_eq_nil_iff.mp hnil
  · obtain ⟨a, ha⟩ := List.exists_mem_of_ne_nil _ hnil
    obtain ⟨hmem, hkey⟩ := List.mem_filter.mp ha
    rw [if_neg hnil]
    exact iff_of_true (Option.some_ne_none _) ⟨a, hmem, of_decide_eq_true hkey⟩

section Ordered

variable [IsTrans κ (· < ·)]

theorem sorted_group [Std.Trichotomous (α := κ) (· < ·)] : Sorted (group key l) := by
  induction l using List.reverseRecOn with
  | nil => exact List.Pairwise.nil
  | append_singleton l a ih =>
    rw [group_concat]
    exact sorted_insert ih _ _

variable [Std.Irrefl (α := κ) (· < ·)]

/-- An element put to the others of its key. -/
theorem flatMap_insert_perm {m : SortedMap κ (List α)} (h : Sorted m) (k : κ) (a : α) :
    ((insert m k ((find m k).getD [] ++ [a])).flatMap (·.2)).Perm (m.flatMap (·.2) ++ [a]) := by
  induction m with
  | nil => exact List.Perm.refl _
  | cons e m ih =>
    obtain ⟨hle, hm⟩ := List.pairwise_cons.mp h
    rw [find_cons, insert]
    by_cases hk : k = e.1
    · rw [if_pos hk, if_pos hk]
      simp only [Option.getD_some, List.flatMap_cons, List.append_assoc]
      exact List.Perm.append_left _ List.perm_append_comm
    · rw [if_neg hk, if_neg hk]
      by_cases hlt : k < e.1
      · have hnone : find m k = none := by
          by_contra hsome
          obtain ⟨v, hv⟩ := Option.ne_none_iff_exists'.mp hsome
          exact Std.Irrefl.irrefl (r := ((· < ·) : κ → κ → Prop)) k
            (IsTrans.trans _ _ _ hlt (hle (k, v) (find_mem hv)))
        rw [if_pos hlt, hnone]
        simp only [Option.getD_none, List.nil_append, List.flatMap_cons]
        exact (List.perm_append_singleton a _).symm
      · rw [if_neg hlt, List.flatMap_cons, List.flatMap_cons, List.append_assoc]
        exact (ih hm).append_left _

theorem group_perm [Std.Trichotomous (α := κ) (· < ·)] : ((group key l).flatMap (·.2)).Perm l := by
  induction l using List.reverseRecOn with
  | nil => exact List.Perm.refl _
  | append_singleton l a ih =>
    rw [group_concat]
    exact (flatMap_insert_perm sorted_group _ a).trans (ih.append_right [a])

end Ordered

end ConfigurationFabric.SortedMap
