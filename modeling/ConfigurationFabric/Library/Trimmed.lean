import Mathlib.Data.List.DropRight

/-! Words without blanks at either end. -/

namespace ConfigurationFabric.Trimmed

variable {α : Type} {blank : α → Bool} {l u v : List α}

def trim (blank : α → Bool) (l : List α) : List α := (l.dropWhile blank).rdropWhile blank

/-- No blank at either end. -/
def Bare (blank : α → Bool) (l : List α) : Prop :=
  (∀ a ∈ l.head?, blank a = false) ∧ ∀ a ∈ l.getLast?, blank a = false

theorem trim_of_bare (h : Bare blank l) : trim blank l = l := by
  obtain ⟨hhead, hlast⟩ := h
  have hfront : l.dropWhile blank = l := by
    cases l with
    | nil => rfl
    | cons a l => exact List.dropWhile_cons_of_neg (by simp [hhead a rfl])
  rw [trim, hfront, List.rdropWhile_eq_self_iff]
  intro hne
  rw [hlast _ (List.getLast?_eq_getLast_of_ne_nil hne)]
  exact Bool.false_ne_true

theorem rdropWhile_append (hv : ∀ a ∈ v, blank a = true) (l : List α) :
    (l ++ v).rdropWhile blank = l.rdropWhile blank := by
  rw [List.rdropWhile, List.reverse_append, List.dropWhile_append_of_pos (by simpa using hv)]
  rfl

/-- Blanks around a word make no difference. -/
theorem trim_pad (hu : ∀ a ∈ u, blank a = true) (hv : ∀ a ∈ v, blank a = true) (l : List α) :
    trim blank (u ++ l ++ v) = trim blank l := by
  unfold trim
  rw [List.append_assoc, List.dropWhile_append_of_pos hu, List.dropWhile_append]
  split
  case isTrue hempty =>
    rw [List.isEmpty_iff.mp hempty, List.dropWhile_eq_nil_iff.mpr hv]
  case isFalse => exact rdropWhile_append hv _

theorem sublist_trim : (trim blank l).Sublist l :=
  (List.rdropWhile_prefix blank _).sublist.trans (List.dropWhile_sublist _)

theorem mem_of_mem_trim {a : α} (h : a ∈ trim blank l) : a ∈ l := sublist_trim.mem h

theorem bare_trim : Bare blank (trim blank l) := by
  constructor
  · intro a ha
    unfold trim at ha
    obtain ⟨rest, hrest⟩ := List.rdropWhile_prefix blank (l.dropWhile blank)
    cases hfront : (l.dropWhile blank).rdropWhile blank with
    | nil =>
      rw [hfront] at ha
      cases ha
    | cons b front =>
      rw [hfront] at ha hrest
      obtain rfl : b = a := Option.some.inj ha
      have hhead := List.head?_dropWhile_not blank l
      rw [← hrest] at hhead
      exact hhead
  · intro a ha
    obtain ⟨hne, rfl⟩ := List.mem_getLast?_eq_getLast ha
    exact Bool.eq_false_iff.mpr (List.rdropWhile_last_not _ _ hne)

end ConfigurationFabric.Trimmed
