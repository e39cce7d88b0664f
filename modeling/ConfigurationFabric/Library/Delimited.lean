import Mathlib.Data.List.Basic
import Mathlib.Logic.Function.Basic

/-! Words between separators. -/

namespace ConfigurationFabric.Delimited

variable {α β : Type}

/-- Two words that end at the first symbol outside `P` are the same, and so is what follows. -/
theorem append_inj {P : α → Prop} {u v x y : List α} (hu : ∀ a ∈ u, P a) (hv : ∀ a ∈ v, P a)
    (hx : ∀ a ∈ x.head?, ¬ P a) (hy : ∀ a ∈ y.head?, ¬ P a) (h : u ++ x = v ++ y) : u = v ∧ x = y := by
  induction u generalizing v with
  | nil =>
    cases v with
    | nil => exact ⟨rfl, h⟩
    | cons b v =>
      obtain rfl : x = b :: v ++ y := h
      exact absurd (hv b List.mem_cons_self) (hx b rfl)
  | cons a u ih =>
    obtain ⟨ha, hu⟩ := List.forall_mem_cons.mp hu
    cases v with
    | nil =>
      obtain rfl : a :: u ++ x = y := h
      exact absurd ha (hy a rfl)
    | cons b v =>
      obtain ⟨rfl, htail⟩ := List.cons.inj h
      obtain ⟨rfl, hxy⟩ := ih hu (List.forall_mem_cons.mp hv).2 htail
      exact ⟨rfl, hxy⟩

/-- A line of words, each after a separator, up to its end. -/
theorem line_inj {word : β → List α} {sep stop : α} (hinj : Function.Injective word) (hne : sep ≠ stop)
    (hword : ∀ b, ∀ a ∈ word b, a ≠ sep ∧ a ≠ stop) {bs bs' : List β} {t t' : List α}
    (h : bs.flatMap (fun b => sep :: word b) ++ stop :: t = bs'.flatMap (fun b => sep :: word b) ++ stop :: t') :
    bs = bs' ∧ t = t' := by
  induction bs generalizing bs' with
  | nil =>
    cases bs' with
    | nil => exact ⟨rfl, (List.cons.inj h).2⟩
    | cons b bs' => exact absurd (List.cons.inj h).1.symm hne
  | cons b bs ih =>
    cases bs' with
    | nil => exact absurd (List.cons.inj h).1 hne
    | cons b' bs' =>
      simp only [List.flatMap_cons, List.append_assoc, List.cons_append] at h
      have hnext (cs : List β) (t : List α) :
          ∀ a ∈ (cs.flatMap (fun b => sep :: word b) ++ stop :: t).head?, ¬ (a ≠ sep ∧ a ≠ stop) := by
        cases cs <;> simp
      obtain ⟨hb, htail⟩ := append_inj (hword b) (hword b') (hnext bs t) (hnext bs' t') (List.cons.inj h).2
      obtain ⟨rfl, ht⟩ := ih htail
      exact ⟨by rw [hinj hb], ht⟩

/-- The last word after a separator, and all that stands before it. -/
theorem suffix_inj {sep : α} {u v w w' : List α} (hw : sep ∉ w) (hw' : sep ∉ w')
    (h : u ++ sep :: w = v ++ sep :: w') : u = v ∧ w = w' := by
  have hreversed : w.reverse ++ sep :: u.reverse = w'.reverse ++ sep :: v.reverse := by
    simpa using congrArg List.reverse h
  have hfree (x : List α) (hx : sep ∉ x) : ∀ a ∈ x.reverse, a ≠ sep := by
    intro a ha hsep
    rw [hsep, List.mem_reverse] at ha
    exact hx ha
  obtain ⟨hword, hrest⟩ := append_inj (hfree w hw) (hfree w' hw') (by simp) (by simp) hreversed
  exact ⟨List.reverse_injective (List.cons.inj hrest).2, List.reverse_injective hword⟩

/-- Pieces that each end at a symbol they do not contain. -/
theorem terminated_inj {f g : β → List α} {stop : α} {bs bs' : List β} (hbs : ∀ b ∈ bs, stop ∉ f b)
    (hbs' : ∀ b ∈ bs', stop ∉ g b)
    (h : bs.flatMap (fun b => f b ++ [stop]) = bs'.flatMap (fun b => g b ++ [stop])) : bs.map f = bs'.map g := by
  induction bs generalizing bs' with
  | nil =>
    cases bs' with
    | nil => rfl
    | cons b bs' => simp at h
  | cons b bs ih =>
    cases bs' with
    | nil => simp at h
    | cons b' bs' =>
      obtain ⟨hb, hbs⟩ := List.forall_mem_cons.mp hbs
      obtain ⟨hb', hbs'⟩ := List.forall_mem_cons.mp hbs'
      simp only [List.flatMap_cons, List.append_assoc, List.singleton_append] at h
      have hfree (x : List α) (hx : stop ∉ x) : ∀ a ∈ x, a ≠ stop := fun a ha hstop => hx (hstop ▸ ha)
      obtain ⟨hpiece, hrest⟩ := append_inj (hfree _ hb) (hfree _ hb') (by simp) (by simp) h
      rw [List.map_cons, List.map_cons, hpiece, ih hbs hbs' (List.cons.inj hrest).2]

/-- Pieces that each end at a symbol they do not contain are cut apart there. -/
theorem splitOn_terminated [BEq α] [LawfulBEq α] {stop : α} {ls : List (List α)} (hls : ∀ l ∈ ls, stop ∉ l) :
    (ls.flatMap fun l => l ++ [stop]).splitOn stop = ls ++ [[]] := by
  induction ls with
  | nil => exact List.splitOn_nil stop
  | cons l ls ih =>
    obtain ⟨hl, hls⟩ := List.forall_mem_cons.mp hls
    rw [List.flatMap_cons, List.append_assoc, List.singleton_append, List.splitOn_append_cons_self_of_not_mem hl, ih hls]
    rfl

/-- No piece has the symbol where it was cut. -/
theorem not_mem_of_mem_splitOn [BEq α] [LawfulBEq α] {stop : α} (l : List α) : ∀ w ∈ l.splitOn stop, stop ∉ w := by
  induction l with
  | nil => simp
  | cons a l ih =>
    rw [List.splitOn_cons_eq_if_modifyHead]
    cases hsplit : l.splitOn stop with
    | nil => exact absurd hsplit (List.splitOn_ne_nil _ _)
    | cons first rest =>
      rw [hsplit] at ih
      obtain ⟨hfirst, hrest⟩ := List.forall_mem_cons.mp ih
      by_cases ha : a = stop
      · rw [if_pos (beq_iff_eq.mpr ha)]
        exact List.forall_mem_cons.mpr ⟨List.not_mem_nil, ih⟩
      · rw [if_neg (by simpa using ha)]
        refine List.forall_mem_cons.mpr ⟨fun hmem => ?_, hrest⟩
        obtain hstop | hmem := List.mem_cons.mp hmem
        · exact ha hstop.symm
        · exact hfirst hmem

/-- Words, each after its label. -/
def labelled (labels : List (List α)) (words : List (List α)) : List α := (List.zipWith (· ++ ·) labels words).flatten

/-- Words between labels none of which starts with a symbol of a word. -/
theorem labelled_inj {P : α → Prop} {u v x y : List α} {labels words words' : List (List α)}
    (hlabels : ∀ label ∈ labels, label ≠ [] ∧ ∀ a ∈ label.head?, ¬ P a) (hlen : words.length = labels.length)
    (hlen' : words'.length = labels.length) (hu : ∀ a ∈ u, P a) (hv : ∀ a ∈ v, P a)
    (hwords : ∀ w ∈ words, ∀ a ∈ w, P a) (hwords' : ∀ w ∈ words', ∀ a ∈ w, P a)
    (hx : ∀ a ∈ x.head?, ¬ P a) (hy : ∀ a ∈ y.head?, ¬ P a)
    (h : u ++ (labelled labels words ++ x) = v ++ (labelled labels words' ++ y)) : u = v ∧ words = words' ∧ x = y := by
  induction labels generalizing u v words words' with
  | nil =>
    obtain rfl := List.length_eq_zero_iff.mp hlen
    obtain rfl := List.length_eq_zero_iff.mp hlen'
    obtain ⟨huv, hxy⟩ := append_inj hu hv hx hy h
    exact ⟨huv, rfl, hxy⟩
  | cons label labels ih =>
    obtain ⟨⟨hne, hlabel⟩, hlabels⟩ := List.forall_mem_cons.mp hlabels
    obtain ⟨w, words, rfl⟩ := List.exists_cons_of_length_eq_add_one hlen
    obtain ⟨w', words', rfl⟩ := List.exists_cons_of_length_eq_add_one hlen'
    obtain ⟨hw, hwords⟩ := List.forall_mem_cons.mp hwords
    obtain ⟨hw', hwords'⟩ := List.forall_mem_cons.mp hwords'
    have hnext (t : List α) : ∀ a ∈ (label ++ t).head?, ¬ P a := by
      obtain ⟨a, rest, rfl⟩ := List.exists_cons_of_ne_nil hne
      exact hlabel
    simp only [labelled, List.zipWith_cons_cons, List.flatten_cons, List.append_assoc] at h
    obtain ⟨rfl, htail⟩ := append_inj hu hv (hnext _) (hnext _) h
    obtain ⟨rfl, rfl, hxy⟩ := ih hlabels (Nat.succ.inj hlen) (Nat.succ.inj hlen') hw hw' hwords hwords'
      (List.append_cancel_left htail)
    exact ⟨rfl, rfl, hxy⟩

/-- Joined texts agree when the pieces do, where two pieces that differ cannot be made up for. -/
theorem flatMap_eq_iff {f g : β → List α} {agree : β → Prop} {bs : List β} (heq : ∀ b ∈ bs, agree b → f b = g b)
    (hne : ∀ b ∈ bs, ¬ agree b → ∀ t t', f b ++ t ≠ g b ++ t') :
    bs.flatMap f = bs.flatMap g ↔ ∀ b ∈ bs, agree b := by
  induction bs with
  | nil => simp
  | cons b bs ih =>
    obtain ⟨hb, hbs⟩ := List.forall_mem_cons.mp heq
    obtain ⟨hnb, hnbs⟩ := List.forall_mem_cons.mp hne
    rw [List.flatMap_cons, List.flatMap_cons, List.forall_mem_cons]
    constructor
    · intro h
      have hagree : agree b := by
        by_contra hdiffer
        exact hnb hdiffer _ _ h
      rw [hb hagree] at h
      exact ⟨hagree, (ih hbs hnbs).mp (List.append_cancel_left h)⟩
    · rintro ⟨hagree, hall⟩
      rw [hb hagree, (ih hbs hnbs).mpr hall]

end ConfigurationFabric.Delimited
