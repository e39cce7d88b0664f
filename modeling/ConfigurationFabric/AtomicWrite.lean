import Mathlib.Logic.Function.Basic
import ConfigurationFabric.Ids
import ConfigurationFabric.Library.Program

/-! The atomic replacement of a file, at the level of its file operations. -/

namespace ConfigurationFabric.AtomicWrite

open LittleEndian Program

abbrev Path := Bytes

/-- What each path holds. -/
abbrev Disk := Path → Option Bytes

/-- How the calls of one run end: which succeed, and how many bytes `fwrite` takes. -/
structure Outcomes where
  opened : Bool := true
  written : ℕ
  flushed : Bool := true
  renamed : Bool := true
  removed : Bool := true
  renamedAgain : Bool := true
  cleaned : Bool := true

def tempSiblingPath (path : Path) (suffix : FixedBytes 16) : Path := path ++ text ".part-" ++ toHex suffix.1

def put (path : Path) (content : Bytes) : Prog Disk Empty Unit :=
  Prog.modify fun disk => Function.update disk path (some content)

/-- `std::filesystem::remove`, which leaves no trace where there is no file. -/
def remove (ok : Bool) (path : Path) : Prog Disk Empty Unit :=
  if ok then Prog.modify fun disk => Function.update disk path none else pure ()

/-- `std::filesystem::rename`: the destination is replaced in one step, or nothing happens. -/
def rename (ok : Bool) (source destination : Path) : Prog Disk Empty Bool := do
  if ok then
    Prog.modify fun disk => Function.update (Function.update disk destination (disk source)) source none
  return ok

/-- How much of the content `fwrite` takes. -/
def taken (o : Outcomes) (content : Bytes) : ℕ := if content.isEmpty then 0 else min o.written content.length

def writeFileAtomic (o : Outcomes) (suffix : FixedBytes 16) (path : Path) (content : Bytes) :
    Prog Disk Empty Status := do
  let temporary := tempSiblingPath path suffix
  if !o.opened then return .fail .openFailed "cannot create temporary file" (textString temporary)
  put temporary []
  put temporary (content.take (taken o content))
  if taken o content ≠ content.length ∨ !o.flushed then
    remove o.cleaned temporary
    return .fail .ioFailure "failed to write complete file" (textString temporary)
  if !(← rename o.renamed temporary path) then
    remove o.removed path
    if !(← rename o.renamedAgain temporary path) then
      remove o.cleaned temporary
      return .fail .ioFailure "cannot rename temporary file into place" (textString path)
  return .ok ()

variable {o : Outcomes} {suffix : FixedBytes 16} {path : Path} {content : Bytes} {disk : Disk}

theorem tempSiblingPath_ne : path ≠ tempSiblingPath path suffix := by
  intro h
  have hlength := congrArg List.length h
  rw [tempSiblingPath, List.length_append, List.length_append] at hlength
  have hpart : (text ".part-").length = 6 := by decide
  omega

/-- `path` holds what it held, or the new content. -/
def Whole (path : Path) (previous : Option Bytes) (content : Bytes) (disk : Disk) : Prop :=
  disk path = previous ∨ disk path = some content

/-- Wherever the run is cut the path is whole, and after an error it holds what it held. -/
def Atomic (o : Outcomes) (suffix : FixedBytes 16) (path : Path) (content : Bytes) (disk : Disk) : Prop :=
  ∀ r disk', Prog.Exec (fun _ => True) (writeFileAtomic o suffix path content) disk r disk' →
    Whole path (disk path) content disk' ∧ ∀ e, r = some (.error e) → disk' path = disk path

/-- The complete temporary file could not be renamed over an existing file, which was then removed. -/
def Exposed (o : Outcomes) (path : Path) (content : Bytes) (disk : Disk) : Prop :=
  o.opened = true ∧ content.length ≤ o.written ∧ o.flushed = true ∧ o.renamed = false ∧ o.removed = true ∧
    disk path ≠ none

/-! What one operation does to the path. -/

section Operations

variable {previous : Option Bytes} {temporary : Path} {allowed : Empty → Prop} {c : Bytes} {ok : Bool}

/-- Steps that leave the path whole. -/
def Keeps (path : Path) (previous : Option Bytes) (content : Bytes) (_ disk : Disk) : Prop :=
  Whole path previous content disk

/-- The path is as it was, the temporary file holds `body`. -/
def Beside (path temporary : Path) (previous body : Option Bytes) (disk : Disk) : Prop :=
  disk path = previous ∧ disk temporary = body

theorem steps_put {body : Option Bytes} (hne : path ≠ temporary) (h : Beside path temporary previous body disk) :
    (put temporary c).Steps allowed (Keeps path previous content)
      (fun _ => Beside path temporary previous (some c)) disk := by
  have hpath : Function.update disk temporary (some c) path = previous := by
    rw [Function.update_of_ne hne]
    exact h.1
  exact ⟨.inl hpath, hpath, Function.update_self ..⟩

/-- A file is removed or left, and no other file is touched. -/
theorem steps_remove (path : Path) {target : Path} (hwhole : ok = true → Whole path previous content (Function.update disk target none)) :
    (remove ok target).Steps allowed (Keeps path previous content)
      (fun _ disk' => disk' = if ok then Function.update disk target none else disk) disk := by
  cases ok with
  | false => exact rfl
  | true => exact ⟨hwhole rfl, rfl⟩

theorem steps_rename (hne : path ≠ temporary) (h : disk temporary = some content) :
    (rename ok temporary path).Steps allowed (Keeps path previous content)
      (fun done disk' => done = ok ∧ if ok then disk' path = some content else disk' = disk) disk := by
  cases ok with
  | false => exact ⟨rfl, rfl⟩
  | true =>
    have hpath : Function.update (Function.update disk path (disk temporary)) temporary none path = some content := by
      rw [Function.update_of_ne hne, Function.update_self, h]
    exact ⟨.inr hpath, rfl, hpath⟩

end Operations

theorem taken_eq_iff : taken o content = content.length ↔ content.length ≤ o.written := by
  unfold taken
  cases content with
  | nil => simp
  | cons b rest =>
    simp only [List.isEmpty_cons, Bool.false_eq_true, if_false]
    omega

/-- A removal that only takes away the temporary file. -/
theorem steps_discard {temporary : Path} {ok : Bool} {previous : Option Bytes} {r : Status} (hne : path ≠ temporary)
    (hpath : disk path = previous) :
    (remove ok temporary >>= fun _ => pure r : Prog Disk Empty Status).Steps (fun _ => True)
      (Keeps path previous content) (fun r d => ∀ e, r = .error e → d path = previous) disk := by
  have hremoved : Function.update disk temporary none path = previous := by rw [Function.update_of_ne hne, hpath]
  refine (Prog.steps_bind _ _ _ _).mpr ((steps_remove path fun _ => .inl hremoved).mono ?_)
  rintro _ _ rfl e -
  split_ifs
  · exact hremoved
  · exact hpath

theorem steps_writeFileAtomic (h : ¬ Exposed o path content disk) :
    (writeFileAtomic o suffix path content).Steps (fun _ => True) (Keeps path (disk path) content)
      (fun r d => ∀ e, r = .error e → d path = disk path) disk := by
  have hne : path ≠ tempSiblingPath path suffix := tempSiblingPath_ne
  unfold writeFileAtomic
  dsimp only
  generalize tempSiblingPath path suffix = temporary at *
  cases hopened : o.opened with
  | false => exact fun _ _ => rfl
  | true =>
    refine (Prog.steps_bind _ _ _ _).mpr ((steps_put hne ⟨rfl, rfl⟩).mono fun _ d₁ h₁ => ?_)
    refine (Prog.steps_bind _ _ _ _).mpr ((steps_put hne h₁).mono fun _ d₂ ⟨hpath, htemporary⟩ => ?_)
    by_cases hfailed : taken o content ≠ content.length ∨ (!o.flushed) = true
    · rw [if_pos hfailed]
      exact steps_discard hne hpath
    rw [if_neg hfailed]
    obtain ⟨hfull, hflushed⟩ : taken o content = content.length ∧ o.flushed = true := by simpa using hfailed
    rw [hfull, List.take_length] at htemporary
    refine (Prog.steps_bind _ _ _ _).mpr ((steps_rename hne htemporary).mono ?_)
    rintro _ d₃ ⟨rfl, hrenamed⟩
    cases hfirst : o.renamed with
    | true =>
      intro e he
      cases he
    | false =>
      rw [hfirst, if_neg Bool.false_ne_true] at hrenamed
      subst hrenamed
      -- only a path that held nothing is removed
      have hnone : o.removed = true → disk path = none := by
        intro hremoved
        by_contra hsome
        exact h ⟨hopened, taken_eq_iff.mp hfull, hflushed, hfirst, hremoved, hsome⟩
      refine (Prog.steps_bind _ _ _ _).mpr ((steps_remove path fun hremoved => .inl ?_).mono ?_)
      · rw [Function.update_self, hnone hremoved]
      rintro _ d₄ h₄
      have hd₄ : d₄ path = disk path ∧ d₄ temporary = some content := by
        cases hremoved : o.removed with
        | false =>
          rw [hremoved, if_neg Bool.false_ne_true] at h₄
          rw [h₄]
          exact ⟨hpath, htemporary⟩
        | true =>
          rw [hremoved, if_pos rfl] at h₄
          rw [h₄, Function.update_self, Function.update_of_ne hne.symm, hnone hremoved]
          exact ⟨rfl, htemporary⟩
      obtain ⟨hpath', htemporary'⟩ := hd₄
      refine (Prog.steps_bind _ _ _ _).mpr ((steps_rename hne htemporary').mono ?_)
      rintro _ d₅ ⟨rfl, hagain⟩
      cases hsecond : o.renamedAgain with
      | true =>
        intro e he
        cases he
      | false =>
        rw [hsecond, if_neg Bool.false_ne_true] at hagain
        rw [hagain]
        exact steps_discard hne hpath'

/-- The run that is cut between the two renames. -/
theorem exposed_lost (suffix : FixedBytes 16) (h : Exposed o path content disk) :
    ∃ disk', Prog.Exec (fun _ => True) (writeFileAtomic o suffix path content) disk none disk' ∧ disk' path = none := by
  obtain ⟨hopened, hwritten, hflushed, hrenamed, hremoved, -⟩ := h
  have hcomplete : ¬ (taken o content ≠ content.length ∨ (!o.flushed) = true) := by
    rw [hflushed]
    simpa using taken_eq_iff.mpr hwritten
  let temporary := tempSiblingPath path suffix
  let staged := Function.update (Function.update disk temporary (some [])) temporary
    (some (content.take (taken o content)))
  have hrun : Prog.Exec (fun _ => True) (writeFileAtomic o suffix path content) disk none
      (Function.update staged path none) := by
    unfold writeFileAtomic
    dsimp only
    rw [hopened, if_neg hcomplete, hrenamed, hremoved]
    exact .set (.set (.set (.cut _ _)))
  exact ⟨_, hrun, Function.update_self ..⟩

/-- The replacement is atomic except where its fallback removes the file before it renames again. -/
theorem write_atomic_iff (o : Outcomes) (suffix : FixedBytes 16) (path : Path) (content : Bytes) (disk : Disk) :
    Atomic o suffix path content disk ↔ ¬ Exposed o path content disk := by
  constructor
  · intro hatomic hexposed
    obtain ⟨disk', hrun, hnone⟩ := exposed_lost suffix hexposed
    have hwhole := (hatomic _ _ hrun).1
    rw [Whole, hnone] at hwhole
    obtain hprevious | hcontent := hwhole
    · exact hexposed.2.2.2.2.2 hprevious.symm
    · cases hcontent
  · intro hexposed r disk' hrun
    obtain ⟨hsteps, hreturned⟩ := (steps_writeFileAtomic hexposed).exec hrun
    refine ⟨?_, fun e he => hreturned _ he e rfl⟩
    obtain rfl | ⟨_, -, hlast⟩ := Relation.ReflTransGen.cases_tail hsteps
    · exact .inl rfl
    · exact hlast

/-- A live pointer whose replacement is cut when the first rename has failed. -/
def pointerDisk : Disk := fun path => if path = text "current" then some (text "old") else none

def renameFails : Outcomes where
  written := 3
  renamed := false

theorem pointer_lost : ¬ Atomic renameFails (.zero 16) (text "current") (text "new") pointerDisk := by
  intro hatomic
  have hexposed : Exposed renameFails (text "current") (text "new") pointerDisk :=
    ⟨rfl, by decide, rfl, rfl, rfl, by decide⟩
  obtain ⟨disk', hrun, hnone⟩ := exposed_lost (.zero 16) hexposed
  have hwhole := (hatomic _ _ hrun).1
  rw [Whole, hnone] at hwhole
  revert hwhole
  decide

end ConfigurationFabric.AtomicWrite
