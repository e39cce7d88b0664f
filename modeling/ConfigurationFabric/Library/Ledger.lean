import Mathlib.Data.List.Basic
import Mathlib.Order.Lattice

/-! Orders to sites that only move forward, and the ledger that is kept of them. -/

namespace ConfigurationFabric.Ledgers

/-- What a site runs. -/
structure Content (γ δ : Type) where
  generation : γ
  digest : δ
  deriving DecidableEq

/-- A site, and the generation that a window is open for. -/
structure Site (γ δ : Type) where
  content : Content γ δ
  window : Option γ := none

/-- What the ledger shows of a site. -/
structure Mark (γ δ : Type) where
  content : Content γ δ
  window : Bool := false
  deriving DecidableEq

/-- Every order has its site and its content. -/
structure Orders (ι σ γ δ : Type) where
  site : ι → σ
  content : ι → Content γ δ

structure Ledger (ι σ γ δ : Type) where
  sites : σ → Site γ δ
  /-- the orders on record, and whether they are settled -/
  entries : ι → Option Bool
  marks : σ → Option (Mark γ δ)

variable {ι σ γ δ : Type} [LT ι] [LinearOrder γ]

/-- For the same site, `j` counts as newer. -/
def Orders.Before (b : Orders ι σ γ δ) (i j : ι) : Prop :=
  b.site j = b.site i ∧ ((b.content i).generation < (b.content j).generation ∨
    (b.content i).generation = (b.content j).generation ∧ i < j)

/-- A newer order is on record. -/
def Ledger.Passed (b : Orders ι σ γ δ) (L : Ledger ι σ γ δ) (i : ι) : Prop :=
  ∃ j, (L.entries j).isSome ∧ b.Before i j

/-- An order of this generation or a newer one is on record. -/
def Ledger.Covers (b : Orders ι σ γ δ) (L : Ledger ι σ γ δ) (s : σ) (g : γ) : Prop :=
  ∃ j, (L.entries j).isSome ∧ b.site j = s ∧ g ≤ (b.content j).generation

/-- The site runs the order's content, and the ledger shows just that. -/
structure Ledger.Shown (b : Orders ι σ γ δ) (L : Ledger ι σ γ δ) (i : ι) : Prop where
  site : (L.sites (b.site i)).content = b.content i
  mark : L.marks (b.site i) = some { content := b.content i }

def Ledger.Clear (b : Orders ι σ γ δ) (L : Ledger ι σ γ δ) (i : ι) : Prop := L.Passed b i ∨ L.Shown b i

/-- The site runs this content, or something newer. -/
def Site.Reached (x : Site γ δ) (c : Content γ δ) : Prop := c.generation < x.content.generation ∨ c = x.content

/-- What a site vouches for that ran `base` at first. -/
def Site.Vouches (x : Site γ δ) (base : γ) (c : Content γ δ) : Prop := base ≤ c.generation ∧ x.Reached c

/-- What has to be known of an order that is settled. -/
structure Ledger.Done (b : Orders ι σ γ δ) (L : Ledger ι σ γ δ) (i : ι) : Prop where
  clear : L.Clear b i
  reached : (L.sites (b.site i)).Reached (b.content i)

/-- Settled orders have reached their sites, and are shown until a newer one is on record. `base` is what the sites ran at
first. -/
structure Ledger.Sound (b : Orders ι σ γ δ) (base : σ → γ) (L : Ledger ι σ γ δ) : Prop where
  low : ∀ s, base s ≤ (L.sites s).content.generation
  content : ∀ s, base s < (L.sites s).content.generation → L.Covers b s (L.sites s).content.generation
  window : ∀ s g, (L.sites s).window = some g → (L.sites s).content.generation < g ∧ L.Covers b s g
  marks : ∀ s m, L.marks s = some m → m.content.generation ≤ (L.sites s).content.generation
  settled : ∀ i, L.entries i = some true → L.Done b i

/-- What the ledger may come to show of a site. -/
structure Ledger.Tells (b : Orders ι σ γ δ) (L : Ledger ι σ γ δ) (s : σ) (m : Mark γ δ) : Prop where
  generation : m.content.generation ≤ (L.sites s).content.generation
  settled : ∀ i, b.site i = s → L.entries i = some true → L.Passed b i ∨ m = { content := b.content i }

/-! What follows from the order of the orders. -/

variable {b : Orders ι σ γ δ} {base : σ → γ} {L : Ledger ι σ γ δ} {i j k : ι} {s : σ}

theorem Orders.Before.trans [IsTrans ι (· < ·)] (h : b.Before i j) (h' : b.Before j k) : b.Before i k := by
  refine ⟨h'.1.trans h.1, ?_⟩
  obtain hij | ⟨hij, hlt⟩ := h.2
  · obtain hjk | ⟨hjk, -⟩ := h'.2
    · exact .inl (hij.trans hjk)
    · exact .inl (hjk ▸ hij)
  · obtain hjk | ⟨hjk, hlt'⟩ := h'.2
    · exact .inl (hij ▸ hjk)
    · exact .inr ⟨hij.trans hjk, IsTrans.trans _ _ _ hlt hlt'⟩

theorem Orders.Before.generation (h : b.Before i j) : (b.content i).generation ≤ (b.content j).generation := by
  obtain hlt | ⟨heq, -⟩ := h.2
  · exact hlt.le
  · exact heq.le

theorem Ledger.Covers.passed {g : γ} (h : L.Covers b (b.site i) g) (hlt : (b.content i).generation < g) :
    L.Passed b i := by
  obtain ⟨j, hj, hsite, hle⟩ := h
  exact ⟨j, hj, hsite, .inl (hlt.trans_le hle)⟩

/-- What runs at a site that vouches for an order is the order's content, or something newer is on record. -/
theorem Ledger.Sound.vouched (hL : L.Sound b base)
    (h : (L.sites (b.site i)).Vouches (base (b.site i)) (b.content i)) :
    L.Passed b i ∨ (L.sites (b.site i)).content = b.content i := by
  obtain ⟨hbase, hlt | heq⟩ := h
  · exact .inl ((hL.content _ (hbase.trans_lt hlt)).passed hlt)
  · exact .inr heq.symm

/-- So it is where the ledger shows something newer. -/
theorem Ledger.Sound.ahead (hL : L.Sound b base) {m : Mark γ δ} (hm : L.marks (b.site i) = some m)
    (hbase : base (b.site i) ≤ (b.content i).generation) (hlt : (b.content i).generation < m.content.generation) :
    L.Passed b i := by
  have hsite : (b.content i).generation < (L.sites (b.site i)).content.generation := hlt.trans_le (hL.marks _ m hm)
  exact (hL.content _ (hbase.trans_lt hsite)).passed hsite

/-! What the ledger may be told. -/

/-- What the site itself reports. -/
theorem Ledger.Sound.tells_report (hL : L.Sound b base) :
    L.Tells b s ⟨(L.sites s).content, (L.sites s).window.isSome⟩ := by
  refine ⟨le_rfl, ?_⟩
  rintro i rfl hi
  obtain hpassed | ⟨hsite, -⟩ := (hL.settled i hi).clear
  · exact .inl hpassed
  cases hwindow : (L.sites (b.site i)).window with
  | none => exact .inr (by rw [hsite]; rfl)
  | some g =>
    obtain ⟨hlt, hcovers⟩ := hL.window _ g hwindow
    rw [hsite] at hlt
    exact .inl (hcovers.passed hlt)

/-- What the site runs, with the window as it was shown. -/
theorem Ledger.Sound.tells_content (hL : L.Sound b base) {window : Bool}
    (hwindow : ∀ m, L.marks s = some m → window = m.window) : L.Tells b s ⟨(L.sites s).content, window⟩ := by
  refine ⟨le_rfl, ?_⟩
  rintro i rfl hi
  obtain hpassed | ⟨hsite, hmark⟩ := (hL.settled i hi).clear
  · exact .inl hpassed
  · exact .inr (by rw [hsite, hwindow _ hmark])

/-- What the site vouches for, unless something newer is shown already. -/
theorem Ledger.Sound.tells_vouched (hL : L.Sound b base) {c : Content γ δ} {m : Mark γ δ} (hm : L.marks s = some m)
    (hc : (L.sites s).Vouches (base s) c) (hle : m.content.generation ≤ c.generation) :
    L.Tells b s ⟨c, m.window⟩ := by
  constructor
  · obtain hlt | rfl := hc.2
    · exact hlt.le
    · exact le_rfl
  rintro i rfl hi
  obtain hpassed | ⟨hsite, hmark⟩ := (hL.settled i hi).clear
  · exact .inl hpassed
  obtain rfl : m = { content := b.content i } := Option.some.inj (hm.symm.trans hmark)
  obtain hlt | rfl := hc.2
  · rw [hsite] at hlt
    exact absurd hle hlt.not_ge
  · exact .inr (by rw [hsite])

/-- The mark it has. -/
theorem Ledger.Sound.tells_same (hL : L.Sound b base) {m : Mark γ δ} (hm : L.marks s = some m) : L.Tells b s m := by
  refine ⟨hL.marks s m hm, ?_⟩
  rintro i rfl hi
  obtain hpassed | ⟨-, hmark⟩ := (hL.settled i hi).clear
  · exact .inl hpassed
  · exact .inr (Option.some.inj (hm.symm.trans hmark))

/-- A first mark, of nothing newer than what the site runs. -/
theorem Ledger.Sound.tells_first (hL : L.Sound b base) {m : Mark γ δ} (hnone : L.marks s = none)
    (hle : m.content.generation ≤ (L.sites s).content.generation) : L.Tells b s m := by
  refine ⟨hle, ?_⟩
  rintro i rfl hi
  obtain hpassed | ⟨-, hmark⟩ := (hL.settled i hi).clear
  · exact .inl hpassed
  · rw [hnone] at hmark
    cases hmark

/-! A site that moves. -/

/-- How a site may move: forward, and only to what is on record. -/
inductive Site.Step (covered : γ → Prop) (x : Site γ δ) : Site γ δ → Prop
  | closes : Site.Step covered x { x with window := none }
  | opens {g : γ} : x.content.generation < g → covered g → Site.Step covered x { x with window := some g }
  | commits {c : Content γ δ} : x.content.generation < c.generation → covered c.generation →
      Site.Step covered x { content := c }

variable [DecidableEq σ]

/-- It leaves its settled orders behind, or stands where they are. -/
theorem Site.Step.clear {x : Site γ δ} (hx : Site.Step (L.Covers b s) (L.sites s) x) (hi : L.Clear b i) :
    L.Passed b i ∨ Ledger.Shown b { L with sites := Function.update L.sites s x } i := by
  obtain hpassed | ⟨hsite, hmark⟩ := hi
  · exact .inl hpassed
  by_cases hs : b.site i = s
  · subst hs
    cases hx with
    | closes => exact .inr ⟨by simpa using hsite, hmark⟩
    | opens => exact .inr ⟨by simpa using hsite, hmark⟩
    | commits hlt hcovers =>
      rw [hsite] at hlt
      exact .inl (hcovers.passed hlt)
  · exact .inr ⟨by simpa [Function.update_of_ne hs] using hsite, hmark⟩

theorem Site.Step.content {covered : γ → Prop} {x x' : Site γ δ} (h : Site.Step covered x x') :
    x'.content = x.content ∨ x.content.generation < x'.content.generation ∧ covered x'.content.generation := by
  cases h with
  | closes => exact .inl rfl
  | opens => exact .inl rfl
  | commits hlt hcovered => exact .inr ⟨hlt, hcovered⟩

theorem Site.Step.reached {covered : γ → Prop} {x x' : Site γ δ} (h : Site.Step covered x x') {c : Content γ δ}
    (hc : x.Reached c) : x'.Reached c := by
  obtain heq | ⟨hlt, -⟩ := h.content
  · rw [Site.Reached, heq]
    exact hc
  · left
    obtain hlower | rfl := hc
    · exact hlower.trans hlt
    · exact hlt

theorem Site.Step.window {covered : γ → Prop} {x x' : Site γ δ} (h : Site.Step covered x x') {g : γ}
    (hg : x'.window = some g) :
    x'.content = x.content ∧ (x.window = some g ∨ x.content.generation < g ∧ covered g) := by
  cases h with
  | closes => cases hg
  | opens hlt hcovered =>
    cases hg
    exact ⟨rfl, .inr ⟨hlt, hcovered⟩⟩
  | commits => cases hg

theorem Ledger.Sound.moved (hL : L.Sound b base) {x : Site γ δ} (hx : Site.Step (L.Covers b s) (L.sites s) x) :
    Ledger.Sound b base { L with sites := Function.update L.sites s x } := by
  have hself : Function.update L.sites s x s = x := Function.update_self _ _ _
  have hother (s' : σ) (hs : s' ≠ s) : Function.update L.sites s x s' = L.sites s' := Function.update_of_ne hs _ _
  have hle : (L.sites s).content.generation ≤ x.content.generation := by
    obtain heq | ⟨hlt, -⟩ := hx.content
    · rw [heq]
    · exact hlt.le
  constructor
  · intro s'
    by_cases hs : s' = s
    · subst hs
      simp only [hself]
      exact (hL.low s').trans hle
    · simp only [hother s' hs]
      exact hL.low s'
  · intro s' hlt
    by_cases hs : s' = s
    · subst hs
      simp only [hself] at hlt ⊢
      obtain heq | ⟨-, hcovered⟩ := hx.content
      · rw [heq] at hlt ⊢
        exact hL.content s' hlt
      · exact hcovered
    · simp only [hother s' hs] at hlt ⊢
      exact hL.content s' hlt
  · intro s' g hg
    by_cases hs : s' = s
    · subst hs
      simp only [hself] at hg ⊢
      obtain ⟨heq, hsame | hnew⟩ := hx.window hg
      · rw [heq]
        exact hL.window s' g hsame
      · rw [heq]
        exact hnew
    · simp only [hother s' hs] at hg ⊢
      exact hL.window s' g hg
  · intro s' m hm
    by_cases hs : s' = s
    · subst hs
      simp only [hself]
      exact (hL.marks s' m hm).trans hle
    · simp only [hother s' hs]
      exact hL.marks s' m hm
  · intro i hi
    refine ⟨hx.clear (hL.settled i hi).clear, ?_⟩
    by_cases hs : b.site i = s
    · subst hs
      simp only [hself]
      exact hx.reached (hL.settled i hi).reached
    · simp only [hother _ hs]
      exact (hL.settled i hi).reached

/-- A site of which the ledger is told something. -/
theorem Ledger.Sound.told (hL : L.Sound b base) {m : Mark γ δ} (hm : L.Tells b s m) :
    Ledger.Sound b base { L with marks := Function.update L.marks s (some m) } := by
  refine ⟨hL.low, hL.content, hL.window, fun s' m' hm' => ?_, fun i hi => ?_⟩
  · by_cases hs : s' = s
    · subst hs
      obtain rfl : m = m' := Option.some.inj ((Function.update_self s' (some m) L.marks).symm.trans hm')
      exact hm.generation
    · exact hL.marks s' m' ((Function.update_of_ne hs _ _).symm.trans hm')
  · refine ⟨?_, (hL.settled i hi).reached⟩
    obtain hpassed | ⟨hsite, hmark⟩ := (hL.settled i hi).clear
    · exact .inl hpassed
    by_cases hs : b.site i = s
    · obtain hpassed | rfl := hm.settled i hs hi
      · exact .inl hpassed
      · exact .inr ⟨hsite, by rw [hs]; exact Function.update_self _ _ _⟩
    · exact .inr ⟨hsite, (Function.update_of_ne hs _ _).trans hmark⟩

/-! One step. -/

variable [DecidableEq ι]

inductive Ledger.Step (b : Orders ι σ γ δ) (L : Ledger ι σ γ δ) : Ledger ι σ γ δ → Prop
  | site {s : σ} {x : Site γ δ} : Site.Step (L.Covers b s) (L.sites s) x →
      Ledger.Step b L { L with sites := Function.update L.sites s x }
  | enters (i : ι) : Ledger.Step b L { L with entries := Function.update L.entries i (some false) }
  | settles {i : ι} : L.Done b i → Ledger.Step b L { L with entries := Function.update L.entries i (some true) }
  | drops {i : ι} : L.Passed b i → Ledger.Step b L { L with entries := Function.update L.entries i none }
  | marks {s : σ} {m : Mark γ δ} : L.Tells b s m →
      Ledger.Step b L { L with marks := Function.update L.marks s (some m) }

variable {L' : Ledger ι σ γ δ}

variable [Std.Irrefl (α := ι) (· < ·)]

/-- What goes from the record goes because of something newer that stays. -/
theorem Ledger.Step.keeps (h : L.Step b L') {j : ι} (hj : (L.entries j).isSome) :
    (L'.entries j).isSome ∨ ∃ k, (L'.entries k).isSome ∧ b.Before j k := by
  have hset (k : ι) (v : Bool) : (Function.update L.entries k (some v) j).isSome := by
    rw [Function.update_apply]
    split
    · rfl
    · exact hj
  cases h with
  | site => exact .inl hj
  | enters k => exact .inl (hset k false)
  | @settles k => exact .inl (hset k true)
  | @drops k hpassed =>
    by_cases hk : j = k
    · subst hk
      obtain ⟨l, hl, hbefore⟩ := hpassed
      have hne : l ≠ j := by
        rintro rfl
        obtain hlt | ⟨-, hlt⟩ := hbefore.2
        · exact lt_irrefl _ hlt
        · exact Std.Irrefl.irrefl (r := ((· < ·) : ι → ι → Prop)) _ hlt
      exact .inr ⟨l, (congrArg _ (Function.update_of_ne hne _ _)).trans hl, hbefore⟩
    · exact .inl ((congrArg _ (Function.update_of_ne hk _ _)).trans hj)
  | marks => exact .inl hj

theorem Ledger.Step.passed [IsTrans ι (· < ·)] (h : L.Step b L') (hi : L.Passed b i) : L'.Passed b i := by
  obtain ⟨j, hj, hbefore⟩ := hi
  obtain hj' | ⟨k, hk, hbefore'⟩ := h.keeps hj
  · exact ⟨j, hj', hbefore⟩
  · exact ⟨k, hk, hbefore.trans hbefore'⟩

theorem Ledger.Step.covers (h : L.Step b L') {g : γ} (hg : L.Covers b s g) : L'.Covers b s g := by
  obtain ⟨j, hj, hsite, hle⟩ := hg
  obtain hj' | ⟨k, hk, hbefore⟩ := h.keeps hj
  · exact ⟨j, hj', hsite, hle⟩
  · exact ⟨k, hk, hbefore.1.trans hsite, hle.trans hbefore.generation⟩

variable [IsTrans ι (· < ·)]

/-- Where only the record changes, it is enough that what it settles is done. -/
theorem Ledger.Sound.record (hL : L.Sound b base) {entries : ι → Option Bool} (h : L.Step b { L with entries })
    (hentries : ∀ i, entries i = some true → L.Done b i) : Ledger.Sound b base { L with entries } where
  low := hL.low
  content s hs := h.covers (hL.content s hs)
  window s g hg := ⟨(hL.window s g hg).1, h.covers (hL.window s g hg).2⟩
  marks := hL.marks
  settled i hi := ⟨(hentries i hi).clear.imp h.passed fun hshown => ⟨hshown.site, hshown.mark⟩, (hentries i hi).reached⟩

/-- The step lemma. -/
theorem Ledger.Step.sound (h : L.Step b L') (hL : L.Sound b base) : L'.Sound b base := by
  have hother {k i : ι} {v : Option Bool} (hi : Function.update L.entries k v i = some true) (hne : i ≠ k) :
      L.Done b i := hL.settled i ((Function.update_of_ne hne _ _).symm.trans hi)
  have hself {k : ι} {v : Option Bool} (hk : Function.update L.entries k v k = some true) : v = some true :=
    (Function.update_self k v L.entries).symm.trans hk
  cases h with
  | site hx => exact hL.moved hx
  | enters k =>
    refine hL.record (.enters k) fun i hi => ?_
    by_cases hk : i = k
    · subst hk
      cases hself hi
    · exact hother hi hk
  | @settles k hdone =>
    refine hL.record (.settles hdone) fun i hi => ?_
    by_cases hk : i = k
    · exact hk ▸ hdone
    · exact hother hi hk
  | @drops k hpassed =>
    refine hL.record (.drops hpassed) fun i hi => ?_
    by_cases hk : i = k
    · subst hk
      cases hself hi
    · exact hother hi hk
  | marks hm => exact hL.told hm

end ConfigurationFabric.Ledgers
