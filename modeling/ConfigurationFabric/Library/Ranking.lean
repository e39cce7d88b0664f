import Mathlib.Data.List.Sort

/-! What stands behind the first entries of a list that is sorted by falling key, and counts of what is left. -/

namespace ConfigurationFabric.Ranking

variable {α : Type} (key : α → ℤ) {l : List α} {n : ℕ} {x : α}

/-- Behind the first `n` of a list sorted by falling key stands nothing that fewer than `n` others reach. -/
theorem mem_drop_mergeSort (hx : x ∈ (l.mergeSort fun a b => key b ≤ key a).drop n) :
    n < l.countP fun y => decide (key x ≤ key y) := by
  have hsorted : (l.mergeSort fun a b => key b ≤ key a).Pairwise fun a b => decide (key b ≤ key a) = true :=
    List.pairwise_mergeSort (fun a b c hab hbc => by simp at hab hbc ⊢; omega) (fun a b => by simp; omega) l
  have hlength : n < (l.mergeSort fun a b => key b ≤ key a).length := by
    by_contra hshort
    rw [List.drop_eq_nil_of_le (Nat.le_of_not_lt hshort)] at hx
    cases hx
  rw [← (List.mergeSort_perm l fun a b => decide (key b ≤ key a)).countP_eq]
  rw [← List.take_append_drop n (l.mergeSort fun a b => key b ≤ key a)] at hsorted ⊢
  have hbefore := (List.pairwise_append.mp hsorted).2.2
  have hall : ((l.mergeSort fun a b => key b ≤ key a).take n).countP (fun y => decide (key x ≤ key y)) = n := by
    rw [List.countP_eq_length.mpr fun y hy => hbefore y hy x hx, List.length_take]
    omega
  have hself : 0 < ((l.mergeSort fun a b => key b ≤ key a).drop n).countP (fun y => decide (key x ≤ key y)) :=
    List.countP_pos_iff.mpr ⟨x, hx, by simp⟩
  rw [List.countP_append, hall]
  omega

theorem countP_erase_ge {p : α → Bool} [BEq α] [LawfulBEq α] (l : List α) (x : α) :
    l.countP p ≤ (l.erase x).countP p + 1 := by
  by_cases hx : x ∈ l
  · rw [(List.perm_cons_erase hx).countP_eq, List.countP_cons]
    split
    · omega
    · omega
  · rw [List.erase_of_not_mem hx]
    omega

theorem countP_erase_neg {p : α → Bool} [BEq α] [LawfulBEq α] (l : List α) (hx : p x = false) :
    (l.erase x).countP p = l.countP p := by
  by_cases hmem : x ∈ l
  · rw [(List.perm_cons_erase hmem).countP_eq p, List.countP_cons_of_neg (by simp [hx])]
  · rw [List.erase_of_not_mem hmem]

end ConfigurationFabric.Ranking
