import ConfigurationFabric.ArtifactReader

/-! Verification of a stored artifact: the loop over its chunks, and what is made of the error it ends with. -/

namespace ConfigurationFabric

open LittleEndian

namespace ArtifactStore

/-- How the file operations of one verification go. -/
structure Reads where
  opens : Bool := true
  reads : ℕ → ReadOutcome := fun _ => {}
  renames : Bool := true

/-- What the loop over the chunks ends with. -/
structure Verification where
  outcome : Status := .ok ()
  corrupt : Bool := false
  reader : ArtifactReader

-- every chunk that is read has a byte, so that as many turns as there are bytes are enough
def verifyChunks (o : Options) (reads : ℕ → ReadOutcome) : ℕ → ℕ → ℕ → ArtifactReader → Verification
  | 0, _, _, reader => { reader := reader }
  | fuel + 1, i, offset, reader =>
    if offset < reader.size then
      match reader.readAt (reads i) offset o.readChunkBytes with
      | (.error e, reader) => ⟨.error e, isIntegrityCode e.code, reader⟩
      | (.ok chunk, reader) =>
        if chunk.isEmpty then
          ⟨.fail .integrityFailure "artifact payload ended before its declared size", true, reader⟩
        else verifyChunks o reads fuel (i + 1) (offset + chunk.length) reader
    else { reader := reader }

def quarantine (renames : Bool) (digest : Digest) (s : ArtifactStore) : ArtifactStore :=
  match renames, s.payloads.find digest with
  | true, some _ =>
    let s := { s with payloads := s.payloads.erase digest }
    match s.index.find digest with
    | none => s
    | some metadata =>
      { s with
        index := s.index.erase digest
        usedBytes := if s.usedBytes > metadata.sizeBytes then s.usedBytes - metadata.sizeBytes else 0 }
  | _, _ => s

def verify (o : Options) (run : Reads) (digest : Digest) (s : ArtifactStore) : Status × ArtifactStore :=
  match ArtifactReader.openReader o run.opens s digest with
  | .error e => (.error e, s)
  | .ok reader =>
    let found := verifyChunks o run.reads reader.size 0 0 reader
    let found :=
      if found.outcome.isOk && !found.reader.verified then
        { found with
          outcome := .fail .digestMismatch "artifact content no longer matches its recorded digest"
            (textString (shortDigest digest))
          corrupt := true }
      else found
    if !found.corrupt then (.ok (), s) else (found.outcome, s.quarantine run.renames digest)

/-- The read of a chunk finds all of it. -/
def Readable (o : Options) (reads : ℕ → ReadOutcome) (size : ℕ) (content : Bytes) (i : ℕ) : Prop :=
  (reads i).seeks = true ∧ (reads i).short = false ∧ min ((i + 1) * o.readChunkBytes) size ≤ content.length

/-- The loop gets from one chunk to another. -/
def Reaches (o : Options) (reads : ℕ → ReadOutcome) (size : ℕ) (content : Bytes) (i k : ℕ) : Prop :=
  i ≤ k ∧ k * o.readChunkBytes < size ∧ ∀ j, i ≤ j → j < k → Readable o reads size content j

/-- How the loop ends from a chunk on. -/
inductive Ends (o : Options) (reads : ℕ → ReadOutcome) (size : ℕ) (content : Bytes) (digest : Digest) (i : ℕ) :
    Verification → Prop
  | unsought (k : ℕ) (r : ArtifactReader) (hreach : Reaches o reads size content i k) (hseeks : (reads k).seeks = false) :
    Ends o reads size content digest i ⟨.fail .ioFailure "cannot seek within artifact payload", false, r⟩
  | cut (k : ℕ) (r : ArtifactReader) (hreach : Reaches o reads size content i k) (hseeks : (reads k).seeks = true)
      (hshort : ¬Readable o reads size content k) :
    Ends o reads size content digest i
      ⟨.fail .integrityFailure "artifact payload is shorter than its metadata" (textString (shortDigest digest)), true, r⟩
  | mismatched (r : ArtifactReader) (hread : ∀ k, i ≤ k → k * o.readChunkBytes < size → Readable o reads size content k)
      (hdigest : Digest.ofContent (content.take size) ≠ digest) :
    Ends o reads size content digest i
      ⟨.fail .digestMismatch "artifact payload does not match its digest"
        (textString (Digest.ofContent (content.take size)).hex ++ " != " ++ textString digest.hex), true, r⟩
  | matched (r : ArtifactReader) (hread : ∀ k, i ≤ k → k * o.readChunkBytes < size → Readable o reads size content k)
      (hdigest : Digest.ofContent (content.take size) = digest) (hverified : r.verified = true) :
    Ends o reads size content digest i ⟨.ok (), false, r⟩

/-- The reader has gone through the payload in order up to an offset. -/
structure Streaming (content : Bytes) (size : ℕ) (digest : Digest) (offset : ℕ) (r : ArtifactReader) : Prop where
  file : r.file = content
  size_eq : r.size = size
  expected : r.expected = digest
  position : r.bytesRead = offset
  hasher : r.hasher = ({} : Sha256).update (content.take offset)
  verified : r.verified = false

variable {o : Options} {reads : ℕ → ReadOutcome} {content : Bytes} {size offset i : ℕ} {digest : Digest}
  {r : ArtifactReader}

theorem Streaming.seek_fails (h : Streaming content size digest offset r) (hoffset : offset < size)
    (hseeks : (reads i).seeks = false) :
    r.readAt (reads i) offset o.readChunkBytes = (.fail .ioFailure "cannot seek within artifact payload", r) := by
  rw [ArtifactReader.readAt, if_neg (by rw [h.size_eq]; omega)]
  simp [hseeks]

theorem Streaming.read_short (h : Streaming content size digest (i * o.readChunkBytes) r)
    (hoffset : i * o.readChunkBytes < size) (hchunk : 0 < o.readChunkBytes) (hseeks : (reads i).seeks = true)
    (hshort : ¬Readable o reads size content i) :
    r.readAt (reads i) (i * o.readChunkBytes) o.readChunkBytes =
      (.fail .integrityFailure "artifact payload is shorter than its metadata" (textString (shortDigest digest)), r) := by
  have hwanted : min (size - i * o.readChunkBytes) o.readChunkBytes > 0 := by omega
  have hshort : (reads i).short = true ∨ ((content.drop (i * o.readChunkBytes)).take
      (min (size - i * o.readChunkBytes) o.readChunkBytes)).length ≠ min (size - i * o.readChunkBytes) o.readChunkBytes := by
    by_contra hfull
    rw [not_or, Bool.not_eq_true, not_not, List.length_take, List.length_drop] at hfull
    refine hshort ⟨hseeks, hfull.1, ?_⟩
    rw [Nat.add_mul, Nat.one_mul]
    omega
  rw [ArtifactReader.readAt, if_neg (by rw [h.size_eq]; omega), h.file, h.size_eq, h.expected]
  simp only [hseeks, Bool.not_true, Bool.false_eq_true, if_false]
  rw [if_pos ⟨hwanted, hshort⟩]

theorem Streaming.read_full (h : Streaming content size digest (i * o.readChunkBytes) r)
    (hoffset : i * o.readChunkBytes < size) (hread : Readable o reads size content i) :
    ∃ chunk : Bytes, i * o.readChunkBytes + chunk.length = min ((i + 1) * o.readChunkBytes) size ∧
      r.readAt (reads i) (i * o.readChunkBytes) o.readChunkBytes =
        if min ((i + 1) * o.readChunkBytes) size = size then
          let actual := Digest.ofContent (content.take size)
          let r := { r with hasher := (({} : Sha256).update (content.take size)).finished, bytesRead := size }
          if actual ≠ digest then
            (.fail .digestMismatch "artifact payload does not match its digest"
              (textString actual.hex ++ " != " ++ textString digest.hex), { r with verified := false })
          else (.ok chunk, { r with verified := true })
        else
          (.ok chunk, { r with
            hasher := ({} : Sha256).update (content.take ((i + 1) * o.readChunkBytes))
            bytesRead := (i + 1) * o.readChunkBytes }) := by
  obtain ⟨hseeks, hshort, hlength⟩ := hread
  have hending : i * o.readChunkBytes + min (size - i * o.readChunkBytes) o.readChunkBytes =
      min ((i + 1) * o.readChunkBytes) size := by
    rw [Nat.add_mul, Nat.one_mul]
    omega
  have hchunk : ((content.drop (i * o.readChunkBytes)).take
      (min (size - i * o.readChunkBytes) o.readChunkBytes)).length = min (size - i * o.readChunkBytes) o.readChunkBytes := by
    rw [List.length_take, List.length_drop]
    omega
  have hhasher : r.hasher.update ((content.drop (i * o.readChunkBytes)).take
      (min (size - i * o.readChunkBytes) o.readChunkBytes)) =
        ({} : Sha256).update (content.take (min ((i + 1) * o.readChunkBytes) size)) := by
    rw [h.hasher, ← Sha256.update_append _ _ _ (by decide), ← List.take_add, hending]
  refine ⟨_, by rw [hchunk, hending], ?_⟩
  rw [ArtifactReader.readAt, if_neg (by rw [h.size_eq]; omega), h.file, h.size_eq, h.expected, h.position]
  dsimp only
  rw [hseeks, hshort, hchunk, hhasher, hending]
  simp only [Bool.not_true, Bool.false_eq_true, if_false, false_or, ne_eq, not_true_eq_false, and_false, if_true]
  by_cases hlast : min ((i + 1) * o.readChunkBytes) size = size
  · rw [if_pos hlast, if_pos hlast, hlast]
    rfl
  · have hmin : min ((i + 1) * o.readChunkBytes) size = (i + 1) * o.readChunkBytes := by omega
    rw [if_neg hlast, if_neg hlast, hmin]

theorem Reaches.earlier {k : ℕ} (h : Reaches o reads size content (i + 1) k) (hread : Readable o reads size content i) :
    Reaches o reads size content i k := by
  obtain ⟨hle, hlt, hbefore⟩ := h
  refine ⟨by omega, hlt, fun j hij hjk => ?_⟩
  by_cases heq : j = i
  · rw [heq]
    exact hread
  · exact hbefore j (by omega) hjk

theorem Ends.earlier {found : Verification} (h : Ends o reads size content digest (i + 1) found)
    (hread : Readable o reads size content i) : Ends o reads size content digest i found := by
  have hall (hlater : ∀ k, i + 1 ≤ k → k * o.readChunkBytes < size → Readable o reads size content k) (k : ℕ)
      (hik : i ≤ k) (hk : k * o.readChunkBytes < size) : Readable o reads size content k := by
    by_cases heq : k = i
    · rw [heq]
      exact hread
    · exact hlater k (by omega) hk
  cases h with
  | unsought k r hreach hseeks => exact .unsought k r (hreach.earlier hread) hseeks
  | cut k r hreach hseeks hshort => exact .cut k r (hreach.earlier hread) hseeks hshort
  | mismatched r hlater hdigest => exact .mismatched r (hall hlater) hdigest
  | matched r hlater hdigest hverified => exact .matched r (hall hlater) hdigest hverified

theorem ends_verifyChunks {fuel : ℕ} (hchunk : 0 < o.readChunkBytes)
    (h : Streaming content size digest (i * o.readChunkBytes) r) (hoffset : i * o.readChunkBytes < size)
    (hfuel : size ≤ i * o.readChunkBytes + fuel) :
    Ends o reads size content digest i (verifyChunks o reads fuel i (i * o.readChunkBytes) r) := by
  induction fuel generalizing i r with
  | zero => omega
  | succ fuel ih =>
    have hhere : Reaches o reads size content i i := ⟨le_refl i, hoffset, fun j hij hji => by omega⟩
    rw [verifyChunks, if_pos (by rw [h.size_eq]; exact hoffset)]
    by_cases hseeks : (reads i).seeks = true
    · by_cases hread : Readable o reads size content i
      · obtain ⟨chunk, hlength, hresult⟩ := h.read_full hoffset hread
        have hnext : (i + 1) * o.readChunkBytes = i * o.readChunkBytes + o.readChunkBytes := by
          rw [Nat.add_mul, Nat.one_mul]
        have hsome : chunk.isEmpty = false := by
          rw [List.isEmpty_eq_false_iff, ← List.length_pos_iff]
          omega
        rw [hresult]
        by_cases hlast : min ((i + 1) * o.readChunkBytes) size = size
        · have hall (k : ℕ) (hik : i ≤ k) (hk : k * o.readChunkBytes < size) : Readable o reads size content k := by
            have hle : ¬i + 1 ≤ k := fun hle => by
              have := Nat.mul_le_mul_right o.readChunkBytes hle
              omega
            rw [show k = i by omega]
            exact hread
          rw [if_pos hlast]
          by_cases hdigest : Digest.ofContent (content.take size) = digest
          · have hdone : verifyChunks o reads fuel (i + 1) (i * o.readChunkBytes + chunk.length)
                { r with
                  hasher := (({} : Sha256).update (content.take size)).finished
                  bytesRead := size
                  verified := true } =
                ⟨.ok (), false, { r with
                  hasher := (({} : Sha256).update (content.take size)).finished
                  bytesRead := size
                  verified := true }⟩ := by
              cases fuel with
              | zero => rfl
              | succ fuel => rw [verifyChunks, if_neg (by rw [h.size_eq]; omega)]
            rw [if_neg (not_not.mpr hdigest)]
            dsimp only
            rw [hsome, if_neg Bool.false_ne_true, hdone]
            exact .matched _ hall hdigest rfl
          · rw [if_pos hdigest]
            exact .mismatched _ hall hdigest
        · have hmore : min ((i + 1) * o.readChunkBytes) size = (i + 1) * o.readChunkBytes := by omega
          rw [if_neg hlast]
          dsimp only
          rw [hsome, if_neg Bool.false_ne_true, hlength, hmore]
          refine Ends.earlier (ih ⟨h.file, h.size_eq, h.expected, rfl, rfl, h.verified⟩ (by omega) ?_) hread
          omega
      · rw [h.read_short hoffset hchunk hseeks hread]
        exact .cut i r hhere hseeks hread
    · rw [Bool.not_eq_true] at hseeks
      rw [h.seek_fails hoffset hseeks]
      exact .unsought i r hhere hseeks

theorem length_of_readable (hchunk : 0 < o.readChunkBytes) (hsize : 0 < size)
    (hread : ∀ k, k * o.readChunkBytes < size → Readable o reads size content k) : size ≤ content.length := by
  have hlast := (hread ((size - 1) / o.readChunkBytes) ((Nat.div_mul_le_self _ _).trans_lt (by omega))).2.2
  have hnext := Nat.lt_mul_div_succ (size - 1) hchunk
  rw [Nat.mul_comm] at hnext
  omega

/-- How a verification of a payload that could be opened ends. -/
inductive Concludes (o : Options) (run : Reads) (digest : Digest) (s : ArtifactStore) (size : ℕ) (content : Bytes) :
    Status × ArtifactStore → Prop
  | unsought (k : ℕ) (hreach : Reaches o run.reads size content 0 k) (hseeks : (run.reads k).seeks = false) :
    Concludes o run digest s size content (.ok (), s)
  | corrupt (e : Error) (outcome : Outcome) (hopens : outcome.status = .ok ())
      (hread : readPayload outcome digest size content = .error e) (hcode : isIntegrityCode e.code = true)
      (hsought : ∀ k, Reaches o run.reads size content 0 k → (run.reads k).seeks = true)
      (hwrong : (∀ k, k * o.readChunkBytes < size → Readable o run.reads size content k) → 0 < size →
        Digest.ofContent (content.take size) ≠ digest) :
    Concludes o run digest s size content (.error e, s.quarantine run.renames digest)
  | matched (hread : ∀ k, k * o.readChunkBytes < size → Readable o run.reads size content k) (hsize : 0 < size)
      (hdigest : Digest.ofContent (content.take size) = digest) :
    Concludes o run digest s size content (.ok (), s)

variable {run : Reads} {s : ArtifactStore} {metadata : ArtifactMetadata}

theorem concludes_verify (hchunk : 0 < o.readChunkBytes) (hmetadata : s.metadata digest = .ok metadata)
    (hpayload : s.payloads.find digest = some content) (hopens : run.opens = true) :
    Concludes o run digest s metadata.sizeBytes content (verify o run digest s) := by
  rw [verify, ArtifactReader.openReader, hmetadata, hpayload, hopens]
  dsimp only
  by_cases hempty : metadata.sizeBytes = 0
  · rw [hempty]
    exact .corrupt _ {} rfl rfl rfl (fun k hreach => absurd hreach.2.1 (Nat.not_lt_zero _)) fun _ hpos =>
      absurd hpos (Nat.lt_irrefl 0)
  · have hstart : Streaming content metadata.sizeBytes digest (0 * o.readChunkBytes)
        { file := content, size := metadata.sizeBytes, expected := digest } :=
      ⟨rfl, rfl, rfl, (Nat.zero_mul _).symm, by rw [Nat.zero_mul, List.take_zero]; rfl, rfl⟩
    have hends := @ends_verifyChunks o run.reads _ _ 0 _ _ metadata.sizeBytes hchunk hstart (by omega) (by omega)
    rw [Nat.zero_mul] at hends
    generalize verifyChunks o run.reads metadata.sizeBytes 0 0
      { file := content, size := metadata.sizeBytes, expected := digest } = found at hends ⊢
    cases hends with
    | unsought k r hreach hseeks => exact .unsought k hreach hseeks
    | cut k r hreach hseeks hshort =>
      refine .corrupt _ { short := true } rfl ?_ rfl (fun j hj => ?_) fun hread => absurd (hread k hreach.2.1) hshort
      · rw [readPayload, if_neg hempty]
        rfl
      obtain hlt | rfl | hgt := Nat.lt_trichotomy j k
      · exact (hreach.2.2 j (Nat.zero_le _) hlt).1
      · exact hseeks
      · exact absurd (hj.2.2 k (Nat.zero_le _) hgt) hshort
    | mismatched r hread hdigest =>
      refine .corrupt _ {} rfl ?_ rfl (fun k hk => (hread k (Nat.zero_le _) hk.2.1).1) fun _ _ => hdigest
      have hlength := length_of_readable hchunk (Nat.pos_of_ne_zero hempty) fun k hk => hread k (Nat.zero_le _) hk
      have hfull : ¬(({} : Outcome).short = true ∨ content.length < metadata.sizeBytes) := by
        rw [not_or]
        exact ⟨Bool.false_ne_true, by omega⟩
      rw [readPayload, if_neg hempty, if_neg (by decide), if_neg hfull, if_pos hdigest]
      rfl
    | matched r hread hdigest hverified =>
      have hkept : (Result.isOk (.ok () : Status) && !r.verified) = false := by rw [hverified]; rfl
      dsimp only
      rw [hkept]
      exact .matched (fun k hk => hread k (Nat.zero_le _) hk) (Nat.pos_of_ne_zero hempty) hdigest

/-- All of the payload file has been read, and it goes on no further than the recorded size. -/
def WholeRead (o : Options) (reads : ℕ → ReadOutcome) (size : ℕ) (content : Bytes) : Prop :=
  content.length ≤ size ∧ ∀ k, k * o.readChunkBytes < content.length → Readable o reads size content k

/-- A seek fails only behind the last byte of the file, where the file has the digest already. -/
def SeeksMatter (o : Options) (reads : ℕ → ReadOutcome) (digest : Digest) (size : ℕ) (content : Bytes) : Prop :=
  ∀ k, Reaches o reads size content 0 k → (reads k).seeks = false →
    content.length = k * o.readChunkBytes ∧ Digest.ofContent content = digest

/-- The file is no longer than recorded, unless a chunk cannot be read or its start lacks the digest. -/
def NoLonger (o : Options) (reads : ℕ → ReadOutcome) (digest : Digest) (size : ℕ) (content : Bytes) : Prop :=
  0 < size → (∀ k, k * o.readChunkBytes < size → Readable o reads size content k) →
    Digest.ofContent (content.take size) = digest → content.length ≤ size

/-- What has to hold of a payload file that the verification opens. -/
def Sought (o : Options) (run : Reads) (digest : Digest) (s : ArtifactStore) : Prop :=
  ∀ metadata content, s.metadata digest = .ok metadata → s.payloads.find digest = some content → run.opens = true →
    SeeksMatter o run.reads digest metadata.sizeBytes content ∧ NoLonger o run.reads digest metadata.sizeBytes content

theorem reached_length {k : ℕ} (h : Reaches o reads size content 0 k) : k * o.readChunkBytes ≤ content.length := by
  obtain ⟨-, hlt, hbefore⟩ := h
  cases k with
  | zero => omega
  | succ k =>
    have hlast := (hbefore k (Nat.zero_le _) (Nat.lt_succ_self k)).2.2
    omega

theorem isIntegrityCode_openReader {opens : Bool} {e : Error}
    (h : ArtifactReader.openReader o opens s digest = .error e) : isIntegrityCode e.code = false := by
  rw [ArtifactReader.openReader] at h
  cases hmetadata : s.metadata digest with
  | error e' =>
    rw [hmetadata] at h
    obtain rfl := Except.error.inj h
    rw [metadata] at hmetadata
    split at hmetadata
    · obtain rfl := Except.error.inj hmetadata
      rfl
    · split at hmetadata
      · obtain rfl := Except.error.inj hmetadata
        rfl
      · cases hmetadata
  | ok metadata =>
    rw [hmetadata] at h
    dsimp only at h
    split at h
    · cases h
    · obtain rfl := Except.error.inj h
      rfl

theorem opened_of_openReader {opens : Bool} (h : ArtifactReader.openReader o opens s digest = .ok r) :
    ∃ metadata content, s.metadata digest = .ok metadata ∧ s.payloads.find digest = some content ∧ opens = true := by
  rw [ArtifactReader.openReader] at h
  cases hmetadata : s.metadata digest with
  | error e =>
    rw [hmetadata] at h
    cases h
  | ok metadata =>
    rw [hmetadata] at h
    dsimp only at h
    split at h
    next content hpayload => exact ⟨metadata, content, rfl, hpayload, rfl⟩
    · cases h

theorem contains_quarantine {renames : Bool} (hpayload : s.payloads.find digest = some content) :
    (s.quarantine renames digest).contains digest = false ∨ renames = false := by
  cases renames with
  | false => exact .inr rfl
  | true =>
    left
    cases hindex : s.index.find digest with
    | none => simp [quarantine, hpayload, hindex, contains]
    | some metadata => simp [quarantine, hpayload, hindex, contains, SortedMap.find_erase]

/-- A verification is sound if and only if its seeks do not fail and the file is no longer than recorded. -/
theorem verify_sound_iff (o : Options) (run : Reads) (digest : Digest) (s : ArtifactStore)
    (hchunk : 0 < o.readChunkBytes) :
    (((verify o run digest s).1 = .ok () → ∃ metadata content, s.metadata digest = .ok metadata ∧
        s.payloads.find digest = some content ∧ WholeRead o run.reads metadata.sizeBytes content ∧
        Digest.ofContent content = digest) ∧
      ∀ e, (verify o run digest s).1 = .error e → isIntegrityCode e.code = true →
        (verify o run digest s).2.contains digest = false ∨ run.renames = false) ↔
      Sought o run digest s := by
  constructor
  · rintro ⟨hok, -⟩ metadata content hmetadata hpayload hopens
    have hends := concludes_verify hchunk hmetadata hpayload hopens
    have hwhole (hpassed : (verify o run digest s).1 = .ok ()) :
        WholeRead o run.reads metadata.sizeBytes content ∧ Digest.ofContent content = digest := by
      obtain ⟨metadata', content', hmetadata', hpayload', hread⟩ := hok hpassed
      obtain rfl := Except.ok.inj (hmetadata.symm.trans hmetadata')
      obtain rfl := Option.some.inj (hpayload.symm.trans hpayload')
      exact hread
    generalize verify o run digest s = result at hends hwhole
    cases hends with
    | unsought k hreach hseeks =>
      obtain ⟨⟨hle, hread⟩, hdigest⟩ := hwhole rfl
      refine ⟨fun j hj hfails => ⟨?_, hdigest⟩, fun _ hall _ => ?_⟩
      · have hnone : ¬j * o.readChunkBytes < content.length := fun hlt =>
          absurd (hread j hlt).1 (by rw [hfails]; decide)
        have hreached := reached_length hj
        omega
      · exact absurd (hall k hreach.2.1).1 (by rw [hseeks]; decide)
    | corrupt e _ _ _ _ hsought hwrong =>
      refine ⟨fun k hk hfails => ?_, fun hpos hall hdigest => absurd hdigest (hwrong hall hpos)⟩
      exact absurd (hsought k hk) (by rw [hfails]; decide)
    | matched hread hsize hdigest =>
      refine ⟨fun k hk hfails => ?_, fun _ _ _ => (hwhole rfl).1.1⟩
      exact absurd (hread k hk.2.1).1 (by rw [hfails]; decide)
  · intro hsought
    cases hopen : ArtifactReader.openReader o run.opens s digest with
    | error e =>
      have hresult : verify o run digest s = (.error e, s) := by rw [verify, hopen]
      rw [hresult]
      refine ⟨(fun h => by cases h), fun e' he hcode => ?_⟩
      obtain rfl := Except.error.inj he
      rw [isIntegrityCode_openReader hopen] at hcode
      cases hcode
    | ok r =>
      obtain ⟨metadata, content, hmetadata, hpayload, hopens⟩ := opened_of_openReader hopen
      have hends := concludes_verify hchunk hmetadata hpayload hopens
      obtain ⟨hseeks, hlonger⟩ := hsought metadata content hmetadata hpayload hopens
      generalize verify o run digest s = result at hends
      cases hends with
      | unsought k hreach hfails =>
        obtain ⟨hlength, hdigest⟩ := hseeks k hreach hfails
        have hsize := hreach.2.1
        refine ⟨fun _ => ⟨metadata, content, hmetadata, hpayload, ⟨by omega, fun j hj => ?_⟩, hdigest⟩,
          fun e he => by cases he⟩
        rw [hlength] at hj
        exact hreach.2.2 j (Nat.zero_le _) (Nat.lt_of_mul_lt_mul_right hj)
      | corrupt e _ _ _ hcode _ _ =>
        exact ⟨(fun h => by cases h), fun _ _ _ => contains_quarantine hpayload⟩
      | matched hread hsize hdigest =>
        have hle := hlonger hsize hread hdigest
        have hlength := length_of_readable hchunk hsize hread
        refine ⟨fun _ => ⟨metadata, content, hmetadata, hpayload, ⟨hle, fun k hk => ?_⟩, ?_⟩, fun e he => by cases he⟩
        · exact hread k (by omega)
        · rwa [List.take_of_length_le hle] at hdigest

/-- A payload of other bytes passes when the seek to its first chunk fails, and a file with a byte too many passes
when nothing fails: that byte is not read. -/
theorem verify_passes_unread : (∃ s : ArtifactStore, s.payloads.find (.ofContent [1]) = some [2] ∧
    (verify {} { reads := fun _ => { seeks := false } } (.ofContent [1]) s).1 = .ok () ∧
      Digest.ofContent [2] ≠ .ofContent [1]) ∧
    ∃ s : ArtifactStore, s.payloads.find (.ofContent [1]) = some [1, 2] ∧
      (verify {} {} (.ofContent [1]) s).1 = .ok () ∧ Digest.ofContent [1, 2] ≠ .ofContent [1] := by
  constructor
  · refine ⟨{ ArtifactReader.holding [1] with payloads := [(.ofContent [1], [2])] }, ?_⟩
    decide +kernel
  · refine ⟨{ ArtifactReader.holding [1] with payloads := [(.ofContent [1], [1, 2])] }, ?_⟩
    decide +kernel

theorem verify_holding :
    ((verify {} {} (.ofContent [1]) (ArtifactReader.holding [1])).1 = .ok () →
        ∃ metadata content, (ArtifactReader.holding [1]).metadata (.ofContent [1]) = .ok metadata ∧
          (ArtifactReader.holding [1]).payloads.find (.ofContent [1]) = some content ∧
          WholeRead {} (fun _ => {}) metadata.sizeBytes content ∧ Digest.ofContent content = .ofContent [1]) ∧
      ∀ e, (verify {} {} (.ofContent [1]) (ArtifactReader.holding [1])).1 = .error e → isIntegrityCode e.code = true →
        (verify {} {} (.ofContent [1]) (ArtifactReader.holding [1])).2.contains (.ofContent [1]) = false ∨ true = false := by
  refine (verify_sound_iff {} {} (.ofContent [1]) (ArtifactReader.holding [1]) (by decide)).mpr ?_
  have hset : (Digest.ofContent [1]).isSet = true := by decide +kernel
  obtain ⟨hheld, hfile, -⟩ := ArtifactReader.openReader_holding hset
  intro metadata content hmetadata hpayload _
  obtain rfl := Except.ok.inj (hheld.symm.trans hmetadata)
  obtain rfl := Option.some.inj (hfile.symm.trans hpayload)
  exact ⟨fun k _ hfails => absurd hfails Bool.noConfusion, fun _ _ _ => le_refl _⟩

def verifySteps (o : Options) (digest : Digest) (outcomes : List Outcome) (x : Verifying × ArtifactStore) :
    Verifying × ArtifactStore :=
  outcomes.foldl (fun x outcome => verifyStep o outcome digest x.1 x.2) x

theorem verifySteps_quarantine (o : Options) (renames : Bool) (e : Error)
    (hpayload : s.payloads.find digest = some content) :
    ∃ outcomes, verifySteps o digest outcomes (.quarantining e, s) =
      (.verified (.error e), s.quarantine renames digest) := by
  cases renames with
  | false =>
    refine ⟨[{ status := .error e }], ?_⟩
    simp [verifySteps, verifyStep, quarantine]
  | true =>
    refine ⟨[{}, {}], ?_⟩
    cases hindex : s.index.find digest with
    | none => simp [verifySteps, verifyStep, quarantine, hpayload, hindex]
    | some metadata => simp [verifySteps, verifyStep, quarantine, hpayload, hindex]

/-- What the verification does as a whole it does step by step. -/
theorem verifySteps_verify (o : Options) (run : Reads) (digest : Digest) (s : ArtifactStore)
    (hchunk : 0 < o.readChunkBytes) :
    ∃ outcomes, verifySteps o digest outcomes (.opening, s) =
      (.verified (verify o run digest s).1, (verify o run digest s).2) := by
  cases hmetadata : s.metadata digest with
  | error e =>
    refine ⟨[{}], ?_⟩
    simp [verifySteps, verifyStep, verify, ArtifactReader.openReader, hmetadata]
  | ok metadata =>
    have hunopened (hmissing : ArtifactReader.openReader o run.opens s digest =
        .fail .artifactUnavailable "artifact payload file is missing" (payloadPath o digest)) (outcome : Outcome)
        (hstep : (verifyStep o outcome digest (.reading metadata.sizeBytes) s) = (.verified
          (.fail .artifactUnavailable "artifact payload file is missing" (payloadPath o digest)), s)) :
        verifySteps o digest [{}, outcome] (.opening, s) =
          (.verified (verify o run digest s).1, (verify o run digest s).2) := by
      simp only [verifySteps, List.foldl_cons, List.foldl_nil, verify, hmissing]
      rw [verifyStep, hmetadata]
      exact hstep
    cases hpayload : s.payloads.find digest with
    | none =>
      refine ⟨_, hunopened ?_ {} ?_⟩
      · simp [ArtifactReader.openReader, hmetadata, hpayload]
      · simp [verifyStep, hpayload]
    | some content =>
      cases hopens : run.opens with
      | false =>
        refine ⟨_, hunopened ?_ { status := .fail .openFailed "" } ?_⟩
        · simp [ArtifactReader.openReader, hmetadata, hopens]
        · simp [verifyStep, Result.fail]
      | true =>
        have hends := concludes_verify hchunk hmetadata hpayload hopens
        have hopening : verifyStep o {} digest .opening s = (.reading metadata.sizeBytes, s) := by
          rw [verifyStep, hmetadata]
        have hreads {outcome : Outcome} (hstatus : outcome.status = .ok ())
            (hread : readPayload outcome digest metadata.sizeBytes content = .ok ()) :
            verifyStep o outcome digest (.reading metadata.sizeBytes) s = (.verified (.ok ()), s) := by
          simp [verifyStep, hstatus, hpayload, hread]
        have hfails {outcome : Outcome} {e : Error} (hstatus : outcome.status = .ok ())
            (hread : readPayload outcome digest metadata.sizeBytes content = .error e) :
            verifyStep o outcome digest (.reading metadata.sizeBytes) s =
              if isIntegrityCode e.code then (.quarantining e, s) else (.verified (.ok ()), s) := by
          simp [verifyStep, hstatus, hpayload, hread]
        generalize verify o run digest s = result at hends
        cases hends with
        | unsought k hreach hseeks =>
          have hread : readPayload { seeks := false } digest metadata.sizeBytes content =
              .fail .ioFailure "cannot seek within artifact payload" := by
            rw [readPayload, if_neg (Nat.pos_iff_ne_zero.mp (Nat.zero_lt_of_lt hreach.2.1))]
            rfl
          refine ⟨[{}, { seeks := false }], ?_⟩
          simp only [verifySteps, List.foldl_cons, List.foldl_nil, hopening, hfails rfl hread]
          rfl
        | corrupt e outcome hstatus hread hcode _ _ =>
          obtain ⟨outcomes, hsteps⟩ := verifySteps_quarantine o run.renames e hpayload
          refine ⟨{} :: outcome :: outcomes, ?_⟩
          simp only [verifySteps, List.foldl_cons, hopening, hfails hstatus hread, hcode, if_true]
          exact hsteps
        | matched hread hsize hdigest =>
          have hlength := length_of_readable hchunk hsize hread
          have hfull : ¬(({} : Outcome).short = true ∨ content.length < metadata.sizeBytes) := by
            rw [not_or]
            exact ⟨Bool.false_ne_true, by omega⟩
          have hok : readPayload {} digest metadata.sizeBytes content = .ok () := by
            rw [readPayload, if_neg (by omega), if_neg (by decide), if_neg hfull, if_neg (not_not.mpr hdigest)]
          refine ⟨[{}, {}], ?_⟩
          simp only [verifySteps, List.foldl_cons, List.foldl_nil, hopening, hreads rfl hok]

end ArtifactStore

end ConfigurationFabric
