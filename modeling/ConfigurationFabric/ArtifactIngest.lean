import ConfigurationFabric.ArtifactStore

/-! Ingesting a source file: the loop that copies it to a staging file while hashing, and the publish that follows. -/

namespace ConfigurationFabric

open LittleEndian

namespace ArtifactStore

/-- How one turn of the copying loop goes. -/
structure Turn where
  /-- how many bytes come before an error of the read -/
  cut : Option ℕ := none
  writes : Bool := true

/-- How the file operations of one ingest go. -/
structure Ingest where
  sourcePath : String := ""
  temporary : String := ""
  /-- the size the source reports -/
  size : Option ℕ := none
  opens : Bool := true
  stages : Bool := true
  turns : ℕ → Turn := fun _ => {}
  /-- how many bytes are in the staging file after a flush that fails -/
  flushed : Option ℕ := none
  removes : Bool := true
  steps : ℕ → Outcome := fun _ => {}

structure Copied where
  result : Status := .ok ()
  hasher : Sha256 := {}
  total : ℕ := 0
  staged : Bytes := []

-- a turn that goes on takes a byte at least
def copyChunks (o : Options) (run : Ingest) : ℕ → ℕ → Bytes → Bool → Copied → Copied
  | 0, _, _, _, copied => copied
  | fuel + 1, i, rest, failed, copied =>
    let failed := failed || (run.turns i).cut.isSome
    let chunk := rest.take (min ((run.turns i).cut.getD o.readChunkBytes) o.readChunkBytes)
    if chunk.isEmpty then
      if failed then { copied with result := .fail .ioFailure "read error while ingesting artifact" run.sourcePath }
      else copied
    else
      let copied := { copied with hasher := copied.hasher.update chunk }
      if !(run.turns i).writes then
        { copied with result := .fail .ioFailure "write error while staging artifact" run.temporary }
      else
        let next := copied.total + chunk.length
        if 2 ^ 64 ≤ next then { copied with result := .fail .arithmeticOverflow "artifact size overflowed" }
        else if next > o.maxArtifactBytes then
          { copied with
            total := next
            result := .fail .oversizePayload "artifact exceeds the configured maximum" (toString o.maxArtifactBytes) }
        else
          copyChunks o run fuel (i + 1) (rest.drop chunk.length) failed
            { copied with total := next, staged := copied.staged ++ chunk }

/-- What a step of a publish does with the staging file. -/
def stagedAfter (removes : Bool) (staged : Bool) : Stage → Stage → Bool
  | .reserving, .done _ | .preparing _, .done _ | .preparing _, .verifying _ _ | .moving _, .done _ => staged && !removes
  | .moving _, _ => false
  | _, _ => staged

/-- A publish with the staging file and the store. -/
structure Published where
  stage : Stage := .reserving
  staged : Bool := true
  store : ArtifactStore

def publishSteps (o : Options) (run : Ingest) (p : Publication) : ℕ → ℕ → Published → Published
  | 0, _, x => x
  | n + 1, i, x =>
    let after := publishStep o (run.steps i) p x.stage x.store
    publishSteps o run p n (i + 1) ⟨after.1, stagedAfter run.removes x.staged x.stage after.1, after.2⟩

/-- A publish is over after eight steps at the latest. -/
def publish (o : Options) (run : Ingest) (p : Publication) (s : ArtifactStore) : Published :=
  publishSteps o run p 8 0 { store := s }

def ingest (o : Options) (run : Ingest) (content : Bytes) (declared : ArtifactMetadata) (s : ArtifactStore) :
    Published :=
  let refused (status : Status) (staged : Bool) : Published := ⟨.done status, staged, s⟩
  match run.size with
  | none => refused (.fail .notFound "cannot stat artifact source" run.sourcePath) false
  | some size =>
    if size > o.maxArtifactBytes then
      refused (.fail .oversizePayload "artifact exceeds the configured maximum size" (toString size)) false
    else if size ≠ declared.sizeBytes then
      refused (.fail .sizeMismatch "declared artifact size does not match the source file"
        s!"{size} != {declared.sizeBytes}") false
    else if !run.opens then refused (.fail .openFailed "cannot open artifact source" run.sourcePath) false
    else if !run.stages then refused (.fail .openFailed "cannot create staging file" run.temporary) false
    else
      let copied := copyChunks o run (content.length + 1) 0 content false {}
      match copied.result with
      | .error e =>
        -- a flush that fails is only looked at here
        refused (if run.flushed.isSome then .error e else .fail .ioFailure "failed to flush staging file" run.temporary)
          (!run.removes)
      | .ok () =>
        let actual := copied.hasher.digest
        if copied.total ≠ declared.sizeBytes then
          refused (.fail .sizeMismatch "artifact byte count does not match the declaration"
            s!"{copied.total} != {declared.sizeBytes}") (!run.removes)
        else if actual ≠ declared.digest then
          refused (.fail .digestMismatch "artifact content digest does not match the declaration"
            (textString actual.hex ++ " != " ++ textString declared.digest.hex)) (!run.removes)
        else
          publish o run
            ⟨declared, copied.staged.take (run.flushed.getD copied.staged.length), actual, copied.total⟩ s

/-! The copy. -/

variable {o : Options} {run : Ingest} {content : Bytes} {s : ArtifactStore}

/-- From a turn on no read and no write fails, and the rest is not too much. -/
structure Copies (o : Options) (run : Ingest) (i total : ℕ) (rest : Bytes) : Prop where
  reads : ∀ k, k * o.readChunkBytes < rest.length + o.readChunkBytes → (run.turns (i + k)).cut = none
  writes : ∀ k, k * o.readChunkBytes < rest.length → (run.turns (i + k)).writes = true
  bound : rest ≠ [] → total + rest.length ≤ o.maxArtifactBytes ∧ total + rest.length < 2 ^ 64

variable {i fuel total : ℕ} {rest : Bytes} {copied : Copied}

theorem copyChunks_failed {failed : Bool} (hfailed : (failed || (run.turns i).cut.isSome) = true)
    (hfuel : rest.length < fuel) : ∃ e, (copyChunks o run fuel i rest failed copied).result = .error e := by
  induction fuel generalizing i rest copied failed with
  | zero => omega
  | succ fuel ih =>
    rw [copyChunks, hfailed]
    dsimp only
    generalize hcut : rest.take (min ((run.turns i).cut.getD o.readChunkBytes) o.readChunkBytes) = chunk
    by_cases hempty : chunk.isEmpty = true
    · rw [if_pos hempty, if_pos rfl]
      exact ⟨_, rfl⟩
    · have hlength : (rest.drop chunk.length).length < fuel := by
        have hpos : 0 < chunk.length := List.length_pos_iff.mpr fun h => hempty (by rw [h]; rfl)
        have hle : chunk.length ≤ rest.length := by
          rw [← hcut]
          exact List.length_take_le' ..
        rw [List.length_drop]
        omega
      rw [if_neg hempty]
      split
      · exact ⟨_, rfl⟩
      · split
        · exact ⟨_, rfl⟩
        · split
          · exact ⟨_, rfl⟩
          · exact ih (Bool.true_or _) hlength

theorem Copies.next (hcut : (run.turns i).cut = none)
    (hwrites : (run.turns i).writes = true) (hrest : 0 < rest.length)
    (hbound : total + min o.readChunkBytes rest.length ≤ o.maxArtifactBytes ∧
      total + min o.readChunkBytes rest.length < 2 ^ 64) :
    Copies o run i total rest ↔
      Copies o run (i + 1) (total + min o.readChunkBytes rest.length) (rest.drop (min o.readChunkBytes rest.length)) := by
  have hlength : (rest.drop (min o.readChunkBytes rest.length)).length =
      rest.length - min o.readChunkBytes rest.length := List.length_drop
  have hsucc (k : ℕ) : (k + 1) * o.readChunkBytes = k * o.readChunkBytes + o.readChunkBytes := by
    rw [Nat.add_mul, Nat.one_mul]
  have hzero {k : ℕ} (hk : k ≠ 0) : o.readChunkBytes ≤ k * o.readChunkBytes :=
    Nat.le_mul_of_pos_left _ (Nat.pos_of_ne_zero hk)
  constructor
  · rintro ⟨hreads, hwrites, hall⟩
    refine ⟨fun k hk => ?_, fun k hk => ?_, fun _ => ?_⟩
    · rw [Nat.add_assoc, Nat.add_comm 1]
      refine hreads (k + 1) ?_
      by_cases hk0 : k = 0
      · rw [hk0]
        omega
      · have := hzero hk0
        have := hsucc k
        omega
    · rw [Nat.add_assoc, Nat.add_comm 1]
      refine hwrites (k + 1) ?_
      have := hsucc k
      omega
    · have := hall (List.length_pos_iff.mp hrest)
      omega
  · rintro ⟨hreads, hlater, hall⟩
    refine ⟨fun k hk => ?_, fun k hk => ?_, fun _ => ?_⟩
    · cases k with
      | zero => exact hcut
      | succ k =>
        rw [Nat.add_comm k, ← Nat.add_assoc]
        refine hreads k ?_
        rw [hsucc] at hk
        omega
    · cases k with
      | zero => exact hwrites
      | succ k =>
        rw [Nat.add_comm k, ← Nat.add_assoc]
        refine hlater k ?_
        rw [hsucc] at hk
        omega
    · by_cases hdone : rest.drop (min o.readChunkBytes rest.length) = []
      · have hnil : (rest.drop (min o.readChunkBytes rest.length)).length = 0 := by rw [hdone]; rfl
        omega
      · have := hall hdone
        omega

theorem copyChunks_cases (hchunk : 0 < o.readChunkBytes) (hfuel : rest.length < fuel) (hok : copied.result = .ok ())
    (hhasher : copied.hasher = ({} : Sha256).update copied.staged) :
    (Copies o run i copied.total rest ∧ copyChunks o run fuel i rest false copied =
        ⟨.ok (), ({} : Sha256).update (copied.staged ++ rest), copied.total + rest.length, copied.staged ++ rest⟩) ∨
      (¬Copies o run i copied.total rest ∧ ∃ e, (copyChunks o run fuel i rest false copied).result = .error e) := by
  induction fuel generalizing i rest copied with
  | zero => omega
  | succ fuel ih =>
    cases hcut : (run.turns i).cut with
    | some n =>
      right
      refine ⟨fun h => ?_, copyChunks_failed (by rw [hcut]; rfl) hfuel⟩
      have := h.reads 0 (by omega)
      rw [Nat.add_zero, hcut] at this
      cases this
    | none =>
      rw [copyChunks, hcut, Option.isSome_none, Option.getD_none, Nat.min_self, Bool.or_false]
      dsimp only
      by_cases hrest : rest = []
      · subst hrest
        left
        refine ⟨⟨fun k hk => ?_, fun k hk => absurd hk (Nat.not_lt_zero _), fun h => absurd rfl h⟩, ?_⟩
        · cases k with
          | zero => exact hcut
          | succ k =>
            rw [Nat.add_mul, Nat.one_mul, List.length_nil] at hk
            omega
        · rw [List.take_nil, if_pos (by rfl), if_neg Bool.false_ne_true, List.append_nil, List.length_nil, Nat.add_zero,
            ← hhasher, ← hok]
      · have hpos : 0 < rest.length := List.length_pos_iff.mpr hrest
        have hlength : (rest.take o.readChunkBytes).length = min o.readChunkBytes rest.length := List.length_take
        have hsome : ¬(rest.take o.readChunkBytes).isEmpty = true := by
          rw [List.isEmpty_iff, ← List.length_eq_zero_iff]
          omega
        rw [if_neg hsome, hlength]
        by_cases hwrites : (run.turns i).writes = true
        · rw [hwrites, Bool.not_true, if_neg Bool.false_ne_true]
          by_cases hbound : copied.total + min o.readChunkBytes rest.length ≤ o.maxArtifactBytes ∧
              copied.total + min o.readChunkBytes rest.length < 2 ^ 64
          · have hsplit : rest.take o.readChunkBytes ++ rest.drop (min o.readChunkBytes rest.length) = rest := by
              rw [List.take_eq_take_min, List.take_append_drop]
            have hrest : (rest.drop (min o.readChunkBytes rest.length)).length =
                rest.length - min o.readChunkBytes rest.length := List.length_drop
            have hfed : copied.hasher.update (rest.take o.readChunkBytes) =
                ({} : Sha256).update (copied.staged ++ rest.take o.readChunkBytes) := by
              rw [hhasher, Sha256.update_append _ _ _ (by decide)]
            have hrec := @ih (i + 1) (rest.drop (min o.readChunkBytes rest.length))
              { copied with
                hasher := copied.hasher.update (rest.take o.readChunkBytes)
                total := copied.total + min o.readChunkBytes rest.length
                staged := copied.staged ++ rest.take o.readChunkBytes } (by omega) hok hfed
            dsimp only at hrec
            rw [List.append_assoc, hsplit, hrest] at hrec
            rw [if_neg (by omega), if_neg (by omega), Copies.next hcut hwrites hpos hbound,
              show copied.total + rest.length = copied.total + min o.readChunkBytes rest.length +
                (rest.length - min o.readChunkBytes rest.length) by omega]
            exact hrec
          · right
            refine ⟨fun h => hbound ?_, ?_⟩
            · have := h.bound hrest
              omega
            · split
              · exact ⟨_, rfl⟩
              · rw [if_pos (by omega)]
                exact ⟨_, rfl⟩
        · right
          refine ⟨fun h => hwrites ?_, ?_⟩
          · have := h.writes 0 (by omega)
            rwa [Nat.add_zero] at this
          · rw [Bool.not_eq_true] at hwrites
            rw [hwrites]
            exact ⟨_, rfl⟩

theorem copy_cases (run : Ingest) (content : Bytes) (hchunk : 0 < o.readChunkBytes) :
    (Copies o run 0 0 content ∧ copyChunks o run (content.length + 1) 0 content false {} =
        ⟨.ok (), ({} : Sha256).update content, content.length, content⟩) ∨
      (¬Copies o run 0 0 content ∧
        ∃ e, (copyChunks o run (content.length + 1) 0 content false {}).result = .error e) := by
  have hempty : ({} : Copied).hasher = ({} : Sha256).update ({} : Copied).staged := rfl
  have h := @copyChunks_cases o run 0 _ content {} hchunk (Nat.lt_succ_self content.length) rfl hempty
  simp only [List.nil_append, Nat.zero_add] at h
  exact h

/-! The publish. -/

variable {p : Publication} {digest : Digest} {s' : ArtifactStore}

/-- Of the store nothing but the files of one artifact is changed. -/
structure Unchanged (digest : Digest) (s s' : ArtifactStore) : Prop where
  index : s'.index = s.index
  usedBytes : s'.usedBytes = s.usedBytes
  payloads : ∀ d, d ≠ digest → s'.payloads.find d = s.payloads.find d
  metadataFiles : ∀ d, d ≠ digest → s'.metadataFiles.find d = s.metadataFiles.find d

theorem Unchanged.refl (digest : Digest) (s : ArtifactStore) : Unchanged digest s s :=
  ⟨rfl, rfl, fun _ _ => rfl, fun _ _ => rfl⟩

theorem Unchanged.trans {s'' : ArtifactStore} (h : Unchanged digest s s') (h' : Unchanged digest s' s'') :
    Unchanged digest s s'' where
  index := h'.index.trans h.index
  usedBytes := h'.usedBytes.trans h.usedBytes
  payloads := fun d hd => (h'.payloads d hd).trans (h.payloads d hd)
  metadataFiles := fun d hd => (h'.metadataFiles d hd).trans (h.metadataFiles d hd)

theorem unchanged_writeMetadata (outcome : Outcome) (digest : Digest) (encoded : Bytes) (s : ArtifactStore) :
    Unchanged digest s (writeMetadata outcome digest encoded s) := by
  obtain ⟨hindex, hused, hpayloads⟩ := writeMetadata_same outcome digest encoded s
  refine ⟨hindex, hused, fun d _ => by rw [hpayloads], fun d hd => ?_⟩
  rw [writeMetadata]
  split
  · exact (SortedMap.find_insert ..).trans (if_neg hd)
  · split
    · exact (SortedMap.find_erase ..).trans (if_neg hd)
    · rfl

/-- The publish of an artifact that is not in the store goes through. -/
structure Room (o : Options) (run : Ingest) (p : Publication) (s : ArtifactStore) : Prop where
  reserved : reserve o p s = .ok false
  directory : (run.steps 1).status = .ok ()
  encoded : ∃ encoded, encodeArtifactMetadata p.stored = .ok encoded
  moved : (run.steps 2).status = .ok ()
  described : (run.steps 3).status = .ok ()

/-- An ingest ended with an error and left the store as it was. -/
def Refused (run : Ingest) (digest : Digest) (s : ArtifactStore) (x : Published) : Prop :=
  (∃ e, x.stage = .done (.error e)) ∧ Unchanged digest s x.store ∧ (x.staged = true → run.removes = false)

theorem publishSteps_done (o : Options) (run : Ingest) (p : Publication) (n i : ℕ) {x : Published} {status : Status}
    (h : x.stage = .done status) : publishSteps o run p n i x = x := by
  induction n generalizing i with
  | zero => rfl
  | succ n ih =>
    obtain ⟨stage, staged, store⟩ := x
    obtain rfl : stage = .done status := h
    exact ih (i + 1)

theorem publishSteps_refused {n i : ℕ} {x : Published} {e : Error} (h : x.stage = .done (.error e))
    (hstore : Unchanged digest s x.store) (hstaged : x.staged = true → run.removes = false) :
    Refused run digest s (publishSteps o run p n i x) := by
  rw [publishSteps_done o run p n i h]
  exact ⟨⟨e, h⟩, hstore, hstaged⟩

theorem publish_absent (o : Options) (run : Ingest) (habsent : s.contains p.actualDigest = false) :
    (Room o run p s ∧ (publish o run p s).stage = .done (.ok ()) ∧
        (publish o run p s).store.payloads.find p.actualDigest = some p.staged) ∨
      (¬Room o run p s ∧ Refused run p.actualDigest s (publish o run p s)) := by
  have hremoved : (true && !run.removes) = true → run.removes = false := by simp
  rw [publish, publishSteps]
  dsimp only [publishStep]
  cases hreserve : reserve o p s with
  | error e =>
    right
    refine ⟨(fun h => by cases hreserve.symm.trans h.reserved), ?_⟩
    exact publishSteps_refused rfl (.refl _ _) hremoved
  | ok present =>
    obtain rfl : present = false := by
      rw [reserve, habsent] at hreserve
      simp only [Bool.false_eq_true, if_false] at hreserve
      split at hreserve
      · cases hreserve
      · split at hreserve
        · cases hreserve
        · exact (Except.ok.inj hreserve).symm
    rw [publishSteps]
    dsimp only [publishStep, stagedAfter]
    cases hdirectory : (run.steps 1).status with
    | error e =>
      right
      refine ⟨(fun h => by cases hdirectory.symm.trans h.directory), ?_⟩
      exact publishSteps_refused rfl (.refl _ _) hremoved
    | ok _ =>
      cases hencode : encodeArtifactMetadata p.stored with
      | error e =>
        right
        refine ⟨fun h => ?_, publishSteps_refused rfl (.refl _ _) hremoved⟩
        obtain ⟨encoded, hencoded⟩ := h.encoded
        cases hencode.symm.trans hencoded
      | ok encoded =>
        simp only [Bool.false_eq_true, if_false]
        rw [publishSteps]
        dsimp only [publishStep, stagedAfter]
        cases hmoved : (run.steps 2).status with
        | error e =>
          right
          refine ⟨(fun h => by cases hmoved.symm.trans h.moved), ?_⟩
          exact publishSteps_refused rfl (.refl _ _) hremoved
        | ok _ =>
          have hplaced : Unchanged p.actualDigest s
              { s with payloads := s.payloads.insert p.actualDigest p.staged } :=
            ⟨rfl, rfl, fun d hd => (SortedMap.find_insert ..).trans (if_neg hd), fun _ _ => rfl⟩
          rw [publishSteps]
          dsimp only [publishStep, stagedAfter]
          cases hdescribed : (run.steps 3).status with
          | error e =>
            have hwritten := hplaced.trans (unchanged_writeMetadata (run.steps 3) p.actualDigest encoded _)
            right
            refine ⟨(fun h => by cases hdescribed.symm.trans h.described), ?_⟩
            rw [publishSteps]
            dsimp only [publishStep, stagedAfter]
            cases (run.steps 4).status with
            | error e' => exact publishSteps_refused rfl hwritten (fun h => by cases h)
            | ok _ =>
              refine publishSteps_refused rfl (hwritten.trans ⟨rfl, rfl, fun d hd => ?_, fun _ _ => rfl⟩)
                (fun h => by cases h)
              exact (SortedMap.find_erase ..).trans (if_neg hd)
          | ok _ =>
            have hroom : Room o run p s := ⟨hreserve, hdirectory, ⟨encoded, hencode⟩, hmoved, hdescribed⟩
            obtain ⟨hindex, hused, hpayloads⟩ := writeMetadata_same (run.steps 3) p.actualDigest encoded
              { s with payloads := s.payloads.insert p.actualDigest p.staged }
            have hnew : (writeMetadata (run.steps 3) p.actualDigest encoded
                { s with payloads := s.payloads.insert p.actualDigest p.staged }).contains p.actualDigest = false := by
              rw [contains, hindex]
              exact habsent
            left
            rw [publishSteps]
            dsimp only [publishStep, stagedAfter]
            simp only [hnew, Bool.false_eq_true, if_false]
            refine ⟨hroom, ?_⟩
            rw [publishSteps_done o run p 3 5 rfl]
            refine ⟨rfl, ?_⟩
            dsimp only
            rw [hpayloads, SortedMap.find_insert, if_pos rfl]

/-- The publish of an artifact that is in the store finds its payload corrupt and puts it aside. -/
structure Quarantines (o : Options) (run : Ingest) (p : Publication) (s : ArtifactStore) : Prop where
  present : s.contains p.actualDigest = true
  directory : (run.steps 1).status = .ok ()
  encoded : ∃ encoded, encodeArtifactMetadata p.stored = .ok encoded
  opened : (run.steps 3).status = .ok ()
  corrupt : ∃ metadata content e, s.metadata p.actualDigest = .ok metadata ∧
    s.payloads.find p.actualDigest = some content ∧
    readPayload (run.steps 3) p.actualDigest metadata.sizeBytes content = .error e ∧ isIntegrityCode e.code = true
  renamed : (run.steps 4).status = .ok ()

theorem publishSteps_looking {encoded : Bytes} (hstaged : staged = true → run.removes = false) (n i : ℕ) :
    (publishSteps o run p (n + 2) i ⟨.looking encoded, staged, s⟩).stage = .done (.ok ()) ∨
      Refused run p.actualDigest s (publishSteps o run p (n + 2) i ⟨.looking encoded, staged, s⟩) := by
  have hrestoring : (publishSteps o run p (n + 1) (i + 1) ⟨.restoring encoded, staged, s⟩).stage = .done (.ok ()) ∨
      Refused run p.actualDigest s (publishSteps o run p (n + 1) (i + 1) ⟨.restoring encoded, staged, s⟩) := by
    rw [publishSteps]
    dsimp only [publishStep, stagedAfter]
    cases hwritten : (run.steps (i + 1)).status with
    | ok _ =>
      left
      rw [publishSteps_done o run p n _ rfl]
    | error e => exact .inr (publishSteps_refused rfl (unchanged_writeMetadata ..) hstaged)
  rw [publishSteps]
  dsimp only [publishStep, stagedAfter]
  cases (run.steps i).status with
  | error e => exact hrestoring
  | ok _ =>
    cases s.metadataFiles.find p.actualDigest with
    | none => exact hrestoring
    | some _ =>
      left
      dsimp only
      rw [publishSteps_done o run p (n + 1) _ rfl]

theorem publish_present (o : Options) (run : Ingest) (hpresent : s.contains p.actualDigest = true) :
    (Quarantines o run p s ∧ (∃ e, (publish o run p s).stage = .done (.error e)) ∧
        (publish o run p s).store.index ≠ s.index) ∨
      (¬Quarantines o run p s ∧
        ((publish o run p s).stage = .done (.ok ()) ∨ Refused run p.actualDigest s (publish o run p s))) := by
  have hremoved : (true && !run.removes) = true → run.removes = false := by simp
  have hreserve : reserve o p s = .ok true := by rw [reserve, if_pos hpresent]
  rw [publish, publishSteps]
  dsimp only [publishStep]
  rw [hreserve]
  dsimp only [stagedAfter]
  rw [publishSteps]
  dsimp only [publishStep, stagedAfter]
  cases hdirectory : (run.steps 1).status with
  | error e =>
    right
    exact ⟨(fun h => by cases hdirectory.symm.trans h.directory), .inr (publishSteps_refused rfl (.refl _ _) hremoved)⟩
  | ok _ =>
    cases hencode : encodeArtifactMetadata p.stored with
    | error e =>
      right
      refine ⟨fun h => ?_, .inr (publishSteps_refused rfl (.refl _ _) hremoved)⟩
      obtain ⟨encoded, hencoded⟩ := h.encoded
      cases hencode.symm.trans hencoded
    | ok encoded =>
      simp only [if_true]
      rw [publishSteps]
      dsimp only [publishStep, stagedAfter, verifyStep]
      cases hmetadata : s.metadata p.actualDigest with
      | error e =>
        right
        refine ⟨fun h => ?_, .inr (publishSteps_refused rfl (.refl _ _) hremoved)⟩
        obtain ⟨metadata, content, e', hmetadata', -⟩ := h.corrupt
        cases hmetadata.symm.trans hmetadata'
      | ok metadata =>
        rw [publishSteps]
        dsimp only [publishStep, stagedAfter, verifyStep]
        cases hopened : (run.steps 3).status with
        | error e =>
          right
          exact ⟨(fun h => by cases hopened.symm.trans h.opened), .inr (publishSteps_refused rfl (.refl _ _) hremoved)⟩
        | ok _ =>
          cases hpayload : s.payloads.find p.actualDigest with
          | none =>
            right
            refine ⟨fun h => ?_, .inr (publishSteps_refused rfl (.refl _ _) hremoved)⟩
            obtain ⟨_, content, _, _, hpayload', -⟩ := h.corrupt
            cases hpayload.symm.trans hpayload'
          | some content =>
            have hcorrupt (h : Quarantines o run p s) : ∃ e,
                readPayload (run.steps 3) p.actualDigest metadata.sizeBytes content = .error e ∧
                  isIntegrityCode e.code = true := by
              obtain ⟨metadata', content', e, hmetadata', hpayload', hread⟩ := h.corrupt
              obtain rfl := Except.ok.inj (hmetadata.symm.trans hmetadata')
              obtain rfl := Option.some.inj (hpayload.symm.trans hpayload')
              exact ⟨e, hread⟩
            dsimp only
            cases hread : readPayload (run.steps 3) p.actualDigest metadata.sizeBytes content with
            | ok _ =>
              right
              refine ⟨fun h => ?_, publishSteps_looking hremoved 2 4⟩
              obtain ⟨e, he, -⟩ := hcorrupt h
              cases hread.symm.trans he
            | error e =>
              dsimp only
              by_cases hcode : isIntegrityCode e.code = true
              · simp only [hcode, if_true]
                rw [publishSteps]
                dsimp only [publishStep, stagedAfter, verifyStep]
                cases hrenamed : (run.steps 4).status with
                | error e' =>
                  right
                  refine ⟨(fun h => by cases hrenamed.symm.trans h.renamed), .inr ?_⟩
                  exact publishSteps_refused rfl (.refl _ _) hremoved
                | ok _ =>
                  obtain ⟨indexed, hindexed⟩ := Option.isSome_iff_exists.mp hpresent
                  left
                  rw [hpayload]
                  dsimp only
                  rw [publishSteps]
                  dsimp only [publishStep, stagedAfter, verifyStep]
                  rw [hindexed]
                  dsimp only
                  rw [publishSteps_done o run p 2 _ rfl]
                  refine ⟨⟨hpresent, hdirectory, ⟨encoded, hencode⟩, hopened, ⟨metadata, content, e, hmetadata, hpayload,
                    hread, hcode⟩, hrenamed⟩, ⟨e, rfl⟩, fun hindex => ?_⟩
                  have herased := SortedMap.find_erase s.index p.actualDigest p.actualDigest
                  rw [if_pos rfl] at herased
                  dsimp only at hindex
                  rw [hindex, hindexed] at herased
                  cases herased
              · simp only [hcode]
                right
                refine ⟨fun h => ?_, publishSteps_looking hremoved 2 4⟩
                obtain ⟨e', he, hcode'⟩ := hcorrupt h
                obtain rfl := Except.error.inj (hread.symm.trans he)
                exact hcode hcode'

/-! The whole ingest. -/

variable {declared : ArtifactMetadata}

/-- The copy succeeds and is what was declared. -/
structure Accepted (o : Options) (run : Ingest) (content : Bytes) (declared : ArtifactMetadata) : Prop where
  size : run.size = some declared.sizeBytes
  bound : declared.sizeBytes ≤ o.maxArtifactBytes
  opens : run.opens = true
  stages : run.stages = true
  copies : Copies o run 0 0 content
  length : content.length = declared.sizeBytes
  digest : Digest.ofContent content = declared.digest

/-- What the staging file holds when it is closed. -/
def flushedContent (run : Ingest) (content : Bytes) : Bytes := content.take (run.flushed.getD content.length)

def publicationOf (run : Ingest) (content : Bytes) (declared : ArtifactMetadata) : Publication :=
  ⟨declared, flushedContent run content, declared.digest, declared.sizeBytes⟩

theorem ingest_cases (run : Ingest) (content : Bytes) (declared : ArtifactMetadata) (s : ArtifactStore)
    (hchunk : 0 < o.readChunkBytes) :
    (Accepted o run content declared ∧
        ingest o run content declared s = publish o run (publicationOf run content declared) s) ∨
      (¬Accepted o run content declared ∧ Refused run declared.digest s (ingest o run content declared s)) := by
  have hrefused {e : Error} {staged : Bool} (hstaged : staged = true → run.removes = false) :
      Refused run declared.digest s ⟨.done (.error e), staged, s⟩ := ⟨⟨e, rfl⟩, .refl _ _, hstaged⟩
  have hkept : (!run.removes) = true → run.removes = false := by simp
  rw [ingest]
  cases hsize : run.size with
  | none => exact .inr ⟨(fun h => by cases hsize.symm.trans h.size), hrefused (fun h => by cases h)⟩
  | some size =>
    dsimp only
    by_cases hbound : size > o.maxArtifactBytes
    · rw [if_pos hbound]
      refine .inr ⟨fun h => ?_, hrefused (fun h => by cases h)⟩
      obtain rfl := Option.some.inj (hsize.symm.trans h.size)
      exact absurd h.bound (by omega)
    rw [if_neg hbound]
    by_cases hdeclared : size ≠ declared.sizeBytes
    · rw [if_pos hdeclared]
      exact .inr ⟨fun h => hdeclared (Option.some.inj (hsize.symm.trans h.size)), hrefused (fun h => by cases h)⟩
    rw [if_neg hdeclared]
    obtain rfl := not_not.mp hdeclared
    cases hopens : run.opens with
    | false => exact .inr ⟨(fun h => by cases hopens.symm.trans h.opens), hrefused (fun h => by cases h)⟩
    | true =>
      cases hstages : run.stages with
      | false => exact .inr ⟨(fun h => by cases hstages.symm.trans h.stages), hrefused (fun h => by cases h)⟩
      | true =>
        simp only [Bool.not_true, Bool.false_eq_true, if_false]
        obtain ⟨hcopies, hcopied⟩ | ⟨hcopies, e, hcopied⟩ := copy_cases run content hchunk
        · rw [hcopied]
          dsimp only
          rw [Sha256.digest_update]
          by_cases hlength : content.length = declared.sizeBytes
          · by_cases hdigest : Digest.ofContent content = declared.digest
            · rw [if_neg (not_not.mpr hlength), if_neg (not_not.mpr hdigest)]
              refine .inl ⟨⟨hsize, by omega, hopens, hstages, hcopies, hlength, hdigest⟩, ?_⟩
              rw [publicationOf, flushedContent, hdigest, hlength]
            · rw [if_neg (not_not.mpr hlength), if_pos hdigest]
              exact .inr ⟨fun h => hdigest h.digest, hrefused hkept⟩
          · rw [if_pos hlength]
            exact .inr ⟨fun h => hlength h.length, hrefused hkept⟩
        · rw [hcopied]
          refine .inr ⟨fun h => hcopies h.copies, ?_⟩
          dsimp only
          cases run.flushed with
          | none => exact hrefused hkept
          | some n => exact hrefused hkept

theorem ingest_done (run : Ingest) (content : Bytes) (declared : ArtifactMetadata) (s : ArtifactStore)
    (hchunk : 0 < o.readChunkBytes) : ∃ status, (ingest o run content declared s).stage = .done status := by
  obtain ⟨-, hingest⟩ | ⟨-, ⟨e, he⟩, -⟩ := ingest_cases run content declared s hchunk
  · rw [hingest]
    cases hcontains : s.contains (publicationOf run content declared).actualDigest with
    | false =>
      obtain ⟨-, hdone, -⟩ | ⟨-, ⟨e, he⟩, -⟩ := publish_absent o run hcontains
      · exact ⟨_, hdone⟩
      · exact ⟨_, he⟩
    | true =>
      obtain ⟨-, ⟨e, he⟩, -⟩ | ⟨-, hdone | ⟨⟨e, he⟩, -⟩⟩ := publish_present o run hcontains
      · exact ⟨_, he⟩
      · exact ⟨_, hdone⟩
      · exact ⟨_, he⟩
  · exact ⟨_, he⟩

/-- An ingest is sound if and only if no flush fails short of the content where all else succeeds, and no payload that is
already there is put aside. -/
theorem ingest_sound_iff (o : Options) (run : Ingest) (content : Bytes) (declared : ArtifactMetadata) (s : ArtifactStore)
    (hchunk : 0 < o.readChunkBytes) :
    (((ingest o run content declared s).stage = .done (.ok ()) → s.contains declared.digest = false →
        (ingest o run content declared s).store.payloads.find declared.digest = some content ∧
          Digest.ofContent content = declared.digest) ∧
      ∀ e, (ingest o run content declared s).stage = .done (.error e) →
        Unchanged declared.digest s (ingest o run content declared s).store ∧
          ((ingest o run content declared s).staged = true → run.removes = false)) ↔
      (Accepted o run content declared →
        (Room o run (publicationOf run content declared) s → flushedContent run content = content) ∧
          ¬Quarantines o run (publicationOf run content declared) s) := by
  obtain ⟨haccepted, hingest⟩ | ⟨hunaccepted, ⟨e, he⟩, hunchanged, hstaged⟩ := ingest_cases run content declared s hchunk
  · rw [hingest]
    generalize hp : publicationOf run content declared = p
    have hdigest : p.actualDigest = declared.digest := by rw [← hp]; rfl
    have hpublished : p.staged = flushedContent run content := by rw [← hp]; rfl
    cases hcontains : s.contains declared.digest with
    | false =>
      have hkept : ¬Quarantines o run p s := by
        intro h
        rw [← hdigest] at hcontains
        exact Bool.false_ne_true (hcontains.symm.trans h.present)
      rw [← hdigest] at hcontains ⊢
      obtain ⟨hroom, hdone, hpayload⟩ | ⟨hroom, ⟨e, he⟩, hunchanged, hstaged⟩ :=
        publish_absent o run hcontains
      · rw [hpayload, hpublished]
        constructor
        · rintro ⟨hok, -⟩ -
          exact ⟨fun _ => Option.some.inj (hok hdone rfl).1, hkept⟩
        · intro h
          refine ⟨fun _ _ => ⟨congrArg some ((h haccepted).1 hroom), haccepted.digest.trans hdigest.symm⟩, fun e he => ?_⟩
          rw [hdone] at he
          cases he
      · refine iff_of_true ⟨fun hok => ?_, fun e' _ => ⟨hunchanged, hstaged⟩⟩ fun _ => ⟨fun h => absurd h hroom, hkept⟩
        rw [he] at hok
        cases hok
    | true =>
      have hpresent : s.contains p.actualDigest = true := by rw [hdigest, hcontains]
      obtain ⟨hquarantines, ⟨e, he⟩, hindex⟩ | ⟨hkept, hrest⟩ := publish_present o run hpresent
      · refine iff_of_false (fun h => hindex (h.2 e he).1.index) fun h => (h haccepted).2 hquarantines
      · have hroom : ¬Room o run p s := by
          intro h
          have hreserved := h.reserved
          rw [reserve, if_pos hpresent] at hreserved
          cases hreserved
        refine iff_of_true ⟨(fun _ h => by cases h), fun e he => ?_⟩ fun _ => ⟨fun h => absurd h hroom, hkept⟩
        obtain hdone | ⟨-, hunchanged, hstaged⟩ := hrest
        · rw [hdone] at he
          cases he
        · rw [hdigest] at hunchanged
          exact ⟨hunchanged, hstaged⟩
  · refine iff_of_true ⟨fun hok => ?_, fun e' _ => ⟨hunchanged, hstaged⟩⟩ fun h => absurd h hunaccepted
    rw [he] at hok
    cases hok

def declaring (content : Bytes) : ArtifactMetadata where
  id := text "a"
  schema := text "s"
  digest := .ofContent content
  sizeBytes := content.length

/-- The flush fails with one byte of two in the staging file. -/
theorem ingest_truncated : Accepted {} { size := some 2, flushed := some 1 } [1, 2] (declaring [1, 2]) ∧
    (ingest {} { size := some 2, flushed := some 1 } [1, 2] (declaring [1, 2]) {}).stage = .done (.ok ()) ∧
      (ingest {} { size := some 2, flushed := some 1 } [1, 2] (declaring [1, 2]) {}).store.payloads.find
        (.ofContent [1, 2]) = some [1] := by
  have haccepted : Accepted {} { size := some 2, flushed := some 1 } [1, 2] (declaring [1, 2]) :=
    ⟨rfl, by decide, rfl, rfl, ⟨fun _ _ => rfl, fun _ _ => rfl, fun _ => by decide⟩, rfl, rfl⟩
  have hencodes : (encodeArtifactMetadata (declaring [1, 2])).isOk = true := by decide
  have hencoded : ∃ encoded, encodeArtifactMetadata (declaring [1, 2]) = .ok encoded := by
    cases h : encodeArtifactMetadata (declaring [1, 2]) with
    | ok encoded => exact ⟨encoded, rfl⟩
    | error e =>
      rw [h] at hencodes
      cases hencodes
  have hroom : Room {} { size := some 2, flushed := some 1 }
      (publicationOf { size := some 2, flushed := some 1 } [1, 2] (declaring [1, 2])) {} :=
    ⟨rfl, rfl, hencoded, rfl, rfl⟩
  obtain ⟨-, hingest⟩ | ⟨hrefused, -⟩ :=
    ingest_cases { size := some 2, flushed := some 1 } [1, 2] (declaring [1, 2]) {} (show 0 < ({} : Options).readChunkBytes by decide)
  · obtain ⟨-, hdone, hpayload⟩ | ⟨hfull, -⟩ := publish_absent {} { size := some 2, flushed := some 1 }
      (show ({} : ArtifactStore).contains (publicationOf { size := some 2, flushed := some 1 } [1, 2]
        (declaring [1, 2])).actualDigest = false from rfl)
    · rw [hingest]
      exact ⟨haccepted, hdone, hpayload⟩
    · exact absurd hroom hfull
  · exact absurd haccepted hrefused

theorem ingest_flushed :
    ((ingest {} { size := some 1 } [1] (declaring [1]) {}).stage = .done (.ok ()) →
        ({} : ArtifactStore).contains (declaring [1]).digest = false →
        (ingest {} { size := some 1 } [1] (declaring [1]) {}).store.payloads.find (declaring [1]).digest = some [1] ∧
          Digest.ofContent [1] = (declaring [1]).digest) ∧
      ∀ e, (ingest {} { size := some 1 } [1] (declaring [1]) {}).stage = .done (.error e) →
        Unchanged (declaring [1]).digest {} (ingest {} { size := some 1 } [1] (declaring [1]) {}).store ∧
          ((ingest {} { size := some 1 } [1] (declaring [1]) {}).staged = true → true = false) :=
  (ingest_sound_iff {} { size := some 1 } [1] (declaring [1]) {} (by decide)).mpr fun _ =>
    ⟨fun _ => rfl, fun h => by cases h.present⟩

end ArtifactStore

end ConfigurationFabric
