import Mathlib.Data.List.Dedup
import Mathlib.Data.List.Induction
import ConfigurationFabric.AgentRecovery

/-! Where the files of a config key and of a deployment lie. -/

namespace ConfigurationFabric

open LittleEndian
open Agent

/-! Climbing above the root. -/

def isName (component : Bytes) : Bool := component ≠ [] && component ≠ text "." && component ≠ text ".."

/-- However far the components are followed, no more of them go up than down. -/
def StaysBelow (components : List Bytes) : Prop :=
  ∀ front, front <+: components → front.count (text "..") ≤ front.countP (isName ·)

theorem staysBelow_concat {components : List Bytes} {c : Bytes} :
    StaysBelow (components ++ [c]) ↔ StaysBelow components ∧
      (components ++ [c]).count (text "..") ≤ (components ++ [c]).countP (isName ·) := by
  constructor
  · intro h
    exact ⟨fun front hfront => h front (hfront.trans (List.prefix_append _ _)), h _ List.prefix_rfl⟩
  · rintro ⟨h, hall⟩ front hfront
    obtain rfl | hfront := List.prefix_concat_iff.mp hfront
    · exact hall
    · exact h front hfront

/-- Components that stay below leave nothing to go up. -/
theorem resolve_below {components : List Bytes} (h : StaysBelow components) :
    text ".." ∉ components.foldl resolveComponent [] ∧
      (components.foldl resolveComponent []).length + components.count (text "..") =
        components.countP (isName ·) := by
  induction components using List.reverseRecOn with
  | nil => simp
  | append_singleton components c ih =>
    obtain ⟨hbelow, hall⟩ := staysBelow_concat.mp h
    obtain ⟨hnone, hlength⟩ := ih hbelow
    rw [List.foldl_append, List.foldl_cons, List.foldl_nil]
    rw [List.count_append, List.countP_append] at hall ⊢
    generalize components.foldl resolveComponent [] = path at hnone hlength ⊢
    unfold resolveComponent
    split
    case isTrue hskip =>
      have hup : c ≠ text ".." := by rintro rfl; revert hskip; decide
      have hname : isName c = false := by
        obtain rfl | rfl := hskip <;> decide
      simp only [List.count_singleton, List.countP_singleton, hname, beq_iff_eq, if_neg hup]
      exact ⟨hnone, hlength⟩
    case isFalse hkeep =>
    split
    case isTrue hup =>
      subst hup
      have hname : isName (text "..") = false := by decide
      have hone : List.count (text "..") [text ".."] = 1 := by simp
      simp only [hone, List.countP_singleton, hname] at hall ⊢
      have hne : path ≠ [] := by
        intro hnil
        rw [hnil, List.length_nil] at hlength
        simp at hall
        omega
      have hlast : ¬ (path = [] ∨
          path.getLast? = some (text "..")) := by
        rintro (hnil | hlast)
        · exact hne hnil
        · exact hnone (List.mem_of_getLast? hlast)
      have hpos := List.length_pos_iff.mpr hne
      rw [if_neg hlast, List.length_dropLast]
      refine ⟨fun hmem => hnone (List.dropLast_subset _ hmem), ?_⟩
      simp
      omega
    case isFalse hup =>
      have hname : isName c = true := by
        simp only [isName, ne_eq, decide_not, Bool.and_eq_true, Bool.not_eq_true', decide_eq_false_iff_not]
        exact ⟨not_or.mp hkeep, hup⟩
      simp only [List.count_singleton, List.countP_singleton, hname, beq_iff_eq, if_neg hup, if_true,
        List.mem_append, List.mem_singleton, List.length_append, List.length_singleton]
      refine ⟨?_, by omega⟩
      rintro (hmem | rfl)
      · exact hnone hmem
      · exact hup rfl

/-- A path that has left the root does not come back. -/
theorem resolve_climbed {components : List Bytes} (h : ¬ StaysBelow components) :
    (components.foldl resolveComponent []).head? = some (text "..") := by
  induction components using List.reverseRecOn with
  | nil =>
    refine absurd (fun front hfront => ?_) h
    rw [List.prefix_nil.mp hfront]
    simp
  | append_singleton components c ih =>
    rw [List.foldl_append, List.foldl_cons, List.foldl_nil]
    by_cases hbelow : StaysBelow components
    · -- the last component is the one that leaves the root
      have hall : ¬ (components ++ [c]).count (text "..") ≤ (components ++ [c]).countP (isName ·) :=
        fun hall => h (staysBelow_concat.mpr ⟨hbelow, hall⟩)
      obtain ⟨-, hlength⟩ := resolve_below hbelow
      rw [List.count_append, List.countP_append] at hall
      have hup : c = text ".." := by
        by_contra hup
        rw [List.count_singleton, if_neg (by simpa using hup)] at hall
        omega
      subst hup
      have hone : List.count (text "..") [text ".."] = 1 := by simp
      rw [hone] at hall
      have hnil : components.foldl resolveComponent [] = [] := by
        rw [← List.length_eq_zero_iff]
        omega
      rw [hnil]
      decide
    · have hhead := ih hbelow
      generalize components.foldl resolveComponent [] = path at hhead ⊢
      have hne : path ≠ [] := by
        intro hnil
        rw [hnil] at hhead
        cases hhead
      unfold resolveComponent
      split
      · exact hhead
      split
      · split
        · rw [List.head?_append_of_ne_nil _ hne, hhead]
        case isFalse hlast =>
          -- more than the climb is left, or its last component would be the one that goes up
          obtain ⟨first, rest, hsplit⟩ := List.exists_cons_of_ne_nil hne
          rw [hsplit] at hhead hlast ⊢
          cases rest with
          | nil =>
            rw [List.head?_cons] at hhead
            exact absurd (.inr (by rw [List.getLast?_singleton, hhead])) hlast
          | cons second rest => exact hhead
      · rw [List.head?_append_of_ne_nil _ hne, hhead]

theorem staysBelow_iff (components : List Bytes) :
    StaysBelow components ↔ (components.foldl resolveComponent []).head? ≠ some (text "..") := by
  constructor
  · intro h hhead
    exact (resolve_below h).1 (List.mem_of_head? hhead)
  · intro h
    by_contra hclimbed
    exact h (resolve_climbed hclimbed)

/-! The staging file of a deployment. -/

/-- What stands before the last separator of an identifier, component by component, and what stands after it. -/
def folder (id : Bytes) : List Bytes := (id.splitOn 47).dropLast

def base (id : Bytes) : Bytes := (id.splitOn 47).getLastD []

theorem splitOn_append {suffix : Bytes} (hsuffix : (47 : UInt8) ∉ suffix) (id : Bytes) :
    (id ++ suffix).splitOn 47 = folder id ++ [base id ++ suffix] := by
  unfold folder base
  induction id with
  | nil => simp [List.splitOn_eq_singleton hsuffix]
  | cons c id ih =>
    rw [List.cons_append, List.splitOn_cons_eq_if_modifyHead, List.splitOn_cons_eq_if_modifyHead, ih]
    cases hsplit : id.splitOn 47 with
    | nil => exact absurd hsplit (List.splitOn_ne_nil _ _)
    | cons first rest =>
      split
      · simp
      · cases rest <;> simp

theorem stagingPath_eq (d : DeploymentId) :
    stagingPath d = (folder d).foldl resolveComponent [] ++ [base d ++ text ".part"] := by
  have hne (s : Bytes) (hs : s.length ≤ 2) : base d ++ text ".part" ≠ s := by
    intro h
    have hlen := congrArg List.length h
    have hpart : (text ".part").length = 5 := by decide
    rw [List.length_append, hpart] at hlen
    omega
  unfold stagingPath resolvePath
  rw [splitOn_append (by decide), List.foldl_append, List.foldl_cons, List.foldl_nil, resolveComponent,
    if_neg (not_or.mpr ⟨hne _ (by decide), hne _ (by decide)⟩), if_neg (hne _ (by decide))]

theorem stagingPath_inside (d : DeploymentId) :
    (stagingPath d).head? ≠ some (text "..") ↔ StaysBelow (folder d) := by
  rw [staysBelow_iff, stagingPath_eq]
  cases hfolder : (folder d).foldl resolveComponent [] with
  | nil =>
    have hne : base d ++ text ".part" ≠ text ".." := by
      intro h
      have hlen := congrArg List.length h
      simp [text] at hlen
    simpa using hne
  | cons first rest => simp

theorem stagingPath_eq_iff (d d' : DeploymentId) :
    stagingPath d = stagingPath d' ↔
      (folder d).foldl resolveComponent [] = (folder d').foldl resolveComponent [] ∧ base d = base d' := by
  rw [stagingPath_eq, stagingPath_eq]
  constructor
  · intro h
    obtain ⟨hfolder, hbase⟩ := List.append_inj' h rfl
    exact ⟨hfolder, List.append_cancel_right (List.singleton_inj.mp hbase)⟩
  · rintro ⟨hfolder, hbase⟩
    rw [hfolder, hbase]

/-! The files of a config key. -/

/-- What the agent keeps in the directory of a key. -/
def reserved : List Bytes := [text "current", text "pending", text "payload"]

inductive KeyFile (directory : Directory) : Directory → Prop
  | current : KeyFile directory (directory ++ [text "current"])
  | pending : KeyFile directory (directory ++ [text "pending"])
  | payload (name : Bytes) : KeyFile directory (directory ++ [text "payload", name])

/-- No file of one is a file of the other, or lies below one. -/
def Apart (files files' : Directory → Prop) : Prop :=
  ∀ f f', files f → files' f' → ¬ f <+: f' ∧ ¬ f' <+: f

/-- One directory lies below what the agent keeps in the other. -/
def Nested (directory inner : Directory) : Prop := ∃ name ∈ reserved, directory ++ [name] <+: inner

theorem KeyFile.reserved {directory f : Directory} (h : KeyFile directory f) : Nested directory f := by
  cases h with
  | current => exact ⟨text "current", by simp [ConfigurationFabric.reserved], List.prefix_rfl⟩
  | pending => exact ⟨text "pending", by simp [ConfigurationFabric.reserved], List.prefix_rfl⟩
  | payload name => exact ⟨text "payload", by simp [ConfigurationFabric.reserved], [name], by simp⟩

theorem not_apart_of_nested {directory inner : Directory} (h : Nested directory inner) :
    ∃ f f', KeyFile directory f ∧ KeyFile inner f' ∧ f <+: f' := by
  obtain ⟨name, hname, rest, rfl⟩ := h
  simp only [reserved, List.mem_cons, List.not_mem_nil, or_false] at hname
  obtain rfl | rfl | rfl := hname
  · exact ⟨_, _, .current, .current, by rw [List.append_assoc]; exact List.prefix_append _ _⟩
  · exact ⟨_, _, .pending, .current, by rw [List.append_assoc]; exact List.prefix_append _ _⟩
  · -- the pointer of the inner key lies in the payload directory, or below one of its entries
    cases rest with
    | nil => exact ⟨_, _, .payload (text "current"), .current, by simp⟩
    | cons first rest => exact ⟨_, _, .payload first, .current, by simp⟩

theorem nested_of_prefix {directory directory' f f' : Directory} (hf : KeyFile directory f)
    (hf' : KeyFile directory' f') (h : f <+: f') :
    directory = directory' ∨ Nested directory directory' ∨ Nested directory' directory := by
  obtain ⟨name, hname, hbelow⟩ := hf.reserved
  obtain ⟨name', hname', hbelow'⟩ := hf'.reserved
  have hlong := hbelow.trans h
  obtain hlt | heq | hgt := lt_trichotomy directory.length directory'.length
  · refine .inr (.inl ⟨name, hname, ?_⟩)
    apply List.prefix_of_prefix_length_le hlong ((List.prefix_append _ _).trans hbelow')
    rw [List.length_append, List.length_singleton]
    omega
  · have hsame := List.prefix_of_prefix_length_le ((List.prefix_append _ _).trans hlong)
      ((List.prefix_append _ _).trans hbelow') (Nat.le_of_eq heq)
    exact .inl (hsame.eq_of_length heq)
  · refine .inr (.inr ⟨name', hname', ?_⟩)
    apply List.prefix_of_prefix_length_le hbelow' ((List.prefix_append _ _).trans hlong)
    rw [List.length_append, List.length_singleton]
    omega

theorem apart_iff (directory directory' : Directory) :
    Apart (KeyFile directory) (KeyFile directory') ↔
      directory ≠ directory' ∧ ¬ Nested directory directory' ∧ ¬ Nested directory' directory := by
  constructor
  · intro h
    refine ⟨?_, fun hnested => ?_, fun hnested => ?_⟩
    · rintro rfl
      exact (h _ _ .current .current).1 List.prefix_rfl
    · obtain ⟨f, f', hf, hf', hbelow⟩ := not_apart_of_nested hnested
      exact (h f f' hf hf').1 hbelow
    · obtain ⟨f', f, hf', hf, hbelow⟩ := not_apart_of_nested hnested
      exact (h f f' hf hf').2 hbelow
  · rintro ⟨hne, hnested, hnested'⟩ f f' hf hf'
    constructor
    · intro hbelow
      obtain h | h | h := nested_of_prefix hf hf' hbelow
      · exact hne h
      · exact hnested h
      · exact hnested' h
    · intro hbelow
      obtain h | h | h := nested_of_prefix hf' hf hbelow
      · exact hne h.symm
      · exact hnested' h
      · exact hnested h

theorem keyFiles_inside (directory : Directory) :
    (∀ f, KeyFile directory f → f.head? ≠ some (text "..")) ↔ directory.head? ≠ some (text "..") := by
  constructor
  · intro h hhead
    refine h _ .current ?_
    rw [List.head?_append, hhead]
    rfl
  · intro h f hf
    cases directory with
    | nil =>
      cases hf with
      | current => decide
      | pending => decide
      | payload name => exact (by decide : some (text "payload") ≠ some (text ".."))
    | cons first rest => cases hf <;> exact h

/-! The walk of a start-up. -/

/-- The walk takes the directory of the key for a key directory whenever there is something of the key in it. -/
def Visited (key : ConfigKey) : Prop :=
  ∀ order (f : Files), liveKeyDirectory key ∈ f.current.keys ∨ liveKeyDirectory key ∈ f.pending.keys →
    liveKeyDirectory key ∈ walk order f

theorem mem_walk {order : List Directory} {f : Files} {directory : Directory} :
    directory ∈ walk order f ↔
      (directory ∈ f.current.keys ∨ directory ∈ f.pending.keys) ∧ isWalked directory = true := by
  have hkeys : directory ∈ keyDirectories f ↔
      (directory ∈ f.current.keys ∨ directory ∈ f.pending.keys) ∧ isWalked directory = true := by
    simp [keyDirectories, or_and_right]
  unfold walk
  split
  case isTrue hperm => rw [hperm.mem_iff, hkeys]
  case isFalse => exact hkeys

theorem visited_iff (key : ConfigKey) : Visited key ↔ isWalked (liveKeyDirectory key) = true := by
  constructor
  · intro h
    let f : Files := { current := AList.singleton (liveKeyDirectory key) LiveValue.unreadable }
    exact (mem_walk.mp (h [] f (.inl (by simp [f])))).2
  · intro h order f hpresent
    exact mem_walk.mpr ⟨hpresent, h⟩

/-! Key directories that keep to themselves. -/

theorem isKeyDirectory_walked {directory : Directory} (h : isKeyDirectory directory = true) :
    isWalked directory = true := ((Bool.and_eq_true _ _).mp h).1

theorem isKeyDirectory_plain {directory : Directory} (h : isKeyDirectory directory = true) {c : Bytes}
    (hc : c ∈ directory) : c ∉ reserved := by
  have hall := List.all_eq_true.mp ((Bool.and_eq_true _ _).mp h).2 c hc
  simp only [ne_eq, Bool.and_eq_true, decide_eq_true_eq] at hall
  simpa [reserved, and_assoc] using hall

/-- Nothing lies below what the agent keeps for a key, so two such directories have no file in common, and none of
their files lies outside the live root. -/
theorem keyDirectories_apart {directory directory' : Directory} (h : isKeyDirectory directory = true)
    (h' : isKeyDirectory directory' = true) :
    (directory ≠ directory' → Apart (KeyFile directory) (KeyFile directory')) ∧
      ∀ f, KeyFile directory f → f.head? ≠ some (text "..") := by
  have hnested {d inner : Directory} (hinner : isKeyDirectory inner = true) : ¬ Nested d inner := by
    rintro ⟨name, hname, rest, rfl⟩
    exact isKeyDirectory_plain hinner (by simp) hname
  constructor
  · exact fun hne => (apart_iff _ _).mpr ⟨hne, hnested h', hnested h⟩
  · refine (keyFiles_inside directory).mpr ?_
    have hwalked := isKeyDirectory_walked h
    simp only [isWalked, Bool.and_eq_true, decide_eq_true_eq] at hwalked
    exact hwalked.1.2

/-! Two keys and two deployments. -/

/-- Their files stay below the roots and apart, and each key is found again. -/
structure PathsSafe (key key' : ConfigKey) (deployment deployment' : DeploymentId) : Prop where
  live_inside : ∀ k ∈ [key, key'], ∀ f, KeyFile (liveKeyDirectory k) f → f.head? ≠ some (text "..")
  staging_inside : ∀ d ∈ [deployment, deployment'], (stagingPath d).head? ≠ some (text "..")
  live_apart : key ≠ key' → Apart (KeyFile (liveKeyDirectory key)) (KeyFile (liveKeyDirectory key'))
  staging_apart : deployment ≠ deployment' → stagingPath deployment ≠ stagingPath deployment'
  visited : ∀ k ∈ [key, key'], Visited k

/-- What has to be so of the identifiers. -/
structure PathsPlain (key key' : ConfigKey) (deployment deployment' : DeploymentId) : Prop where
  key_below : ∀ k ∈ [key, key'], StaysBelow (k.splitOn 47)
  deployment_below : ∀ d ∈ [deployment, deployment'], StaysBelow (folder d)
  keys_differ : key ≠ key' → resolvePath key ≠ resolvePath key'
  keys_not_nested : key ≠ key' → ¬ Nested (resolvePath key) (resolvePath key') ∧
    ¬ Nested (resolvePath key') (resolvePath key)
  deployments_differ : deployment ≠ deployment' → base deployment = base deployment' →
    (folder deployment).foldl resolveComponent [] ≠ (folder deployment').foldl resolveComponent []
  key_named : ∀ k ∈ [key, key'], resolvePath k ≠ [] ∧ (resolvePath k).getLast? ≠ some (text "payload")

/-- Paths are safe for exactly the identifiers that are plain. -/
theorem paths_safe_iff (key key' : ConfigKey) (deployment deployment' : DeploymentId) :
    PathsSafe key key' deployment deployment' ↔ PathsPlain key key' deployment deployment' := by
  have hinside (k : ConfigKey) : (∀ f, KeyFile (liveKeyDirectory k) f → f.head? ≠ some (text "..")) ↔
      StaysBelow (k.splitOn 47) := by
    rw [keyFiles_inside, staysBelow_iff]
    rfl
  have hvisited (k : ConfigKey) (hbelow : StaysBelow (k.splitOn 47)) : Visited k ↔
      resolvePath k ≠ [] ∧ (resolvePath k).getLast? ≠ some (text "payload") := by
    have hhead : (resolvePath k).head? ≠ some (text "..") := (staysBelow_iff _).mp hbelow
    rw [visited_iff]
    simp only [isWalked, liveKeyDirectory, Bool.and_eq_true, ne_eq, hhead, not_false_eq_true, decide_true, and_true]
    exact and_congr decide_eq_true_iff decide_eq_true_iff
  constructor
  · intro h
    have hbelow : ∀ k ∈ [key, key'], StaysBelow (k.splitOn 47) := fun k hk => (hinside k).mp (h.live_inside k hk)
    constructor
    · exact hbelow
    · exact fun d hd => (stagingPath_inside d).mp (h.staging_inside d hd)
    · exact fun hne => ((apart_iff _ _).mp (h.live_apart hne)).1
    · exact fun hne => ((apart_iff _ _).mp (h.live_apart hne)).2
    · exact fun hne hbase hfolder => h.staging_apart hne ((stagingPath_eq_iff _ _).mpr ⟨hfolder, hbase⟩)
    · exact fun k hk => (hvisited k (hbelow k hk)).mp (h.visited k hk)
  · intro h
    constructor
    · exact fun k hk => (hinside k).mpr (h.key_below k hk)
    · exact fun d hd => (stagingPath_inside d).mpr (h.deployment_below d hd)
    · exact fun hne => (apart_iff _ _).mpr ⟨h.keys_differ hne, h.keys_not_nested hne⟩
    · intro hne hsame
      obtain ⟨hfolder, hbase⟩ := (stagingPath_eq_iff _ _).mp hsame
      exact h.deployments_differ hne hbase hfolder
    · exact fun k hk => (hvisited k (h.key_below k hk)).mpr (h.key_named k hk)

/-- Two keys that are valid: the files of one lie outside the live root. -/
theorem climbing_key_escapes :
    isValidIdentifier (text "..") = true ∧ isValidIdentifier (text "a") = true ∧
      ¬ PathsSafe (text "..") (text "a") (text "d") (text "e") := by
  refine ⟨by decide, by decide, fun h => ?_⟩
  exact h.live_inside (text "..") (by simp) _ .current (by decide)

end ConfigurationFabric
