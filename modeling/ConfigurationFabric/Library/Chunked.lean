import Mathlib.Data.List.Basic

/-! Streams that arrive in pieces. -/

namespace ConfigurationFabric.Chunked

variable {β ι ε : Type}

/-- What the front of a stream comes to: more is needed, it is refused, or an item takes `count` elements. -/
inductive Next (ι ε : Type)
  | more
  | refused (e : ε)
  | item (x : ι) (count : ℕ)

/-- What has been decided stays so, whatever follows. -/
structure Incremental (next : List β → Next ι ε) : Prop where
  takes : ∀ {bs x n}, next bs = .item x n → n ≤ bs.length
  item : ∀ {bs x n}, next bs = .item x n → ∀ cs, next (bs ++ cs) = .item x n
  refused : ∀ {bs e}, next bs = .refused e → ∀ cs, next (bs ++ cs) = .refused e

/-- The items in front of a stream, and the error they end in or what is left over. -/
inductive Scans (next : List β → Next ι ε) : List β → List ι → Except ε (List β) → Prop
  | more {bs : List β} (h : next bs = .more) : Scans next bs [] (.ok bs)
  | refused {bs : List β} {e : ε} (h : next bs = .refused e) : Scans next bs [] (.error e)
  | item {bs : List β} {x : ι} {n : ℕ} {xs : List ι} {r : Except ε (List β)} (h : next bs = .item x n)
      (hrest : Scans next (bs.drop n) xs r) : Scans next bs (x :: xs) r

variable {next : List β → Next ι ε} {bs cs rest : List β} {xs ys : List ι} {r r' : Except ε (List β)} {e : ε}

theorem Scans.unique (h : Scans next bs xs r) (h' : Scans next bs ys r') : xs = ys ∧ r = r' := by
  induction h generalizing ys with
  | more h =>
    cases h' with
    | more _ => exact ⟨rfl, rfl⟩
    | refused h' => simp [h] at h'
    | item h' _ => simp [h] at h'
  | refused h =>
    cases h' with
    | more h' => simp [h] at h'
    | refused h' =>
      rw [h] at h'
      cases h'
      exact ⟨rfl, rfl⟩
    | item h' _ => simp [h] at h'
  | item h _ ih =>
    cases h' with
    | more h' => simp [h] at h'
    | refused h' => simp [h] at h'
    | item h' hrest =>
      rw [h] at h'
      cases h'
      obtain ⟨rfl, rfl⟩ := ih hrest
      exact ⟨rfl, rfl⟩

theorem Scans.left (h : Scans next bs xs (.ok rest)) : next rest = .more := by
  generalize hr : (Except.ok rest : Except ε (List β)) = r at h
  induction h with
  | more h =>
    cases hr
    exact h
  | refused _ => cases hr
  | item _ _ ih => exact ih hr

theorem Scans.append (hn : Incremental next) (h : Scans next bs xs (.ok rest)) (hrest : Scans next (rest ++ cs) ys r) :
    Scans next (bs ++ cs) (xs ++ ys) r := by
  generalize hr : (Except.ok rest : Except ε (List β)) = s at h
  induction h with
  | more _ =>
    cases hr
    exact hrest
  | refused _ => cases hr
  | item h _ ih =>
    refine .item (hn.item h cs) ?_
    rw [List.drop_append_of_le_length (hn.takes h)]
    exact ih hr

theorem Scans.error_append (hn : Incremental next) (h : Scans next bs xs (.error e)) (cs : List β) :
    Scans next (bs ++ cs) xs (.error e) := by
  generalize hr : (Except.error e : Except ε (List β)) = s at h
  induction h with
  | more _ => cases hr
  | refused h =>
    cases hr
    exact .refused (hn.refused h cs)
  | item h _ ih =>
    refine .item (hn.item h cs) ?_
    rw [List.drop_append_of_le_length (hn.takes h)]
    exact ih hr

/-- The pieces are scanned one after the other, each behind what the ones before left over. -/
inductive Fed (next : List β → Next ι ε) : List β → List (List β) → List ι → Except ε (List β) → Prop
  | done {rest : List β} : Fed next rest [] [] (.ok rest)
  | stop {rest p : List β} {ps : List (List β)} {xs : List ι} {e : ε} (h : Scans next (rest ++ p) xs (.error e)) :
      Fed next rest (p :: ps) xs (.error e)
  | step {rest rest' p : List β} {ps : List (List β)} {xs ys : List ι} {r : Except ε (List β)}
      (h : Scans next (rest ++ p) xs (.ok rest')) (hps : Fed next rest' ps ys r) : Fed next rest (p :: ps) (xs ++ ys) r

theorem Fed.whole (hn : Incremental next) {ps : List (List β)} (h : Fed next rest ps xs r) (hmore : next rest = .more) :
    Scans next (rest ++ ps.flatten) xs r := by
  induction h with
  | done =>
    rw [List.flatten_nil, List.append_nil]
    exact .more hmore
  | @stop rest p ps xs e h =>
    rw [List.flatten_cons, ← List.append_assoc]
    exact h.error_append hn _
  | @step rest rest' p ps xs ys r h _ ih =>
    rw [List.flatten_cons, ← List.append_assoc]
    exact h.append hn (ih h.left)

theorem exists_fed (hscans : ∀ bs, ∃ xs r, Scans next bs xs r) (rest : List β) (ps : List (List β)) :
    ∃ xs r, Fed next rest ps xs r := by
  induction ps generalizing rest with
  | nil => exact ⟨[], .ok rest, .done⟩
  | cons p ps ih =>
    obtain ⟨xs, r, h⟩ := hscans (rest ++ p)
    cases r with
    | error e => exact ⟨xs, .error e, .stop h⟩
    | ok rest' =>
      obtain ⟨ys, r, hps⟩ := ih rest'
      exact ⟨xs ++ ys, r, .step h hps⟩

/-- A refused stream is scanned without refusal up to one of its pieces. -/
theorem Fed.stopped {ps : List (List β)} (h : Fed next rest ps xs (.error e)) :
    ∃ before p after early late rest', ps = before ++ p :: after ∧ Fed next rest before early (.ok rest') ∧
      Scans next (rest' ++ p) late (.error e) ∧ xs = early ++ late := by
  generalize hr : (Except.error e : Except ε (List β)) = r at h
  induction h with
  | done => cases hr
  | @stop rest p ps xs e' h =>
    cases hr
    exact ⟨[], p, ps, [], xs, rest, rfl, .done, h, rfl⟩
  | @step rest rest' p ps xs ys r h _ ih =>
    obtain ⟨before, p', after, early, late, rest'', rfl, hbefore, hstop, rfl⟩ := ih hr
    exact ⟨p :: before, p', after, xs ++ early, late, rest'', rfl, .step h hbefore, hstop,
      (List.append_assoc ..).symm⟩

end ConfigurationFabric.Chunked
