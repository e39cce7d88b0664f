import ConfigurationFabric.ArtifactStore

/-! The reader of an artifact, which hashes what is read in order, over any sequence of calls. -/

namespace ConfigurationFabric

open LittleEndian

/-- How the file operations of one read go. -/
structure ReadOutcome where
  seeks : Bool := true
  short : Bool := false

structure ArtifactReader where
  file : Bytes
  hasher : Sha256 := {}
  size : ℕ
  bytesRead : ℕ := 0
  expected : Digest
  verified : Bool := false

namespace ArtifactReader

open ArtifactStore

def openReader (o : Options) (opens : Bool) (store : ArtifactStore) (digest : Digest) : Result ArtifactReader :=
  match store.metadata digest with
  | .error e => .error e
  | .ok metadata =>
    match opens, store.payloads.find digest with
    | true, some content => .ok { file := content, size := metadata.sizeBytes, expected := digest }
    | _, _ => .fail .artifactUnavailable "artifact payload file is missing" (payloadPath o digest)

def readAt (outcome : ReadOutcome) (offset length : ℕ) (r : ArtifactReader) : Result Bytes × ArtifactReader :=
  if offset > r.size then
    (.fail .outOfRange "artifact read offset is past the end of the payload", r)
  else
    let wanted := min (r.size - offset) length
    if !outcome.seeks then (.fail .ioFailure "cannot seek within artifact payload", r)
    else
      let chunk := (r.file.drop offset).take wanted
      if wanted > 0 ∧ (outcome.short ∨ chunk.length ≠ wanted) then
        (.fail .integrityFailure "artifact payload is shorter than its metadata" (textString (shortDigest r.expected)), r)
      else if offset = r.bytesRead then
        let hasher := r.hasher.update chunk
        let bytesRead := r.bytesRead + chunk.length
        if bytesRead = r.size then
          let actual := hasher.digest
          let r := { r with hasher := hasher.finished, bytesRead := bytesRead }
          if actual ≠ r.expected then
            (.fail .digestMismatch "artifact payload does not match its digest"
              (textString actual.hex ++ " != " ++ textString r.expected.hex), { r with verified := false })
          else (.ok chunk, { r with verified := true })
        else (.ok chunk, { r with hasher := hasher, bytesRead := bytesRead })
      else
        let bytesRead := offset + chunk.length
        -- the hasher keeps what it was given before
        (.ok chunk, { r with bytesRead := bytesRead, verified := if bytesRead ≠ r.size then false else r.verified })

end ArtifactReader

/-- One call of `readAt`. -/
structure Reading where
  offset : ℕ
  length : ℕ

namespace Reading

variable {payload : Bytes} {position : ℕ} {call : Reading} {calls : List Reading}

def bytes (payload : Bytes) (call : Reading) : Bytes := (payload.drop call.offset).take call.length

def ending (payload : Bytes) (call : Reading) : ℕ := call.offset + (call.bytes payload).length

/-- Where the calls leave a reader that stands at a position. -/
def endingOf (payload : Bytes) (position : ℕ) (calls : List Reading) : ℕ :=
  calls.foldl (fun _ call => call.ending payload) position

/-- What is hashed: the calls that each start where the one before ended. -/
def hashed (payload : Bytes) : ℕ → List Reading → Bytes
  | _, [] => []
  | position, call :: calls =>
    (if call.offset = position then call.bytes payload else []) ++ hashed payload (call.ending payload) calls

/-- The call goes on from where those before ended, up to the end. -/
def Closes (payload : Bytes) (position : ℕ) (before : List Reading) (call : Reading) : Prop :=
  call.offset = endingOf payload position before ∧ call.ending payload = payload.length

/-- After the digest was taken once: whenever it is taken again it is the same. -/
def Repeats (payload : Bytes) : Sha256 → ℕ → List Reading → Prop
  | _, _, [] => True
  | hasher, position, call :: calls =>
    if call.offset = position then
      if call.ending payload = payload.length then
        (hasher.update (call.bytes payload)).digest = .ofContent payload ∧
          Repeats payload (hasher.update (call.bytes payload)).finished (call.ending payload) calls
      else Repeats payload (hasher.update (call.bytes payload)) (call.ending payload) calls
    else Repeats payload hasher (call.ending payload) calls

/-- When the digest is taken first, what was hashed is the payload. -/
def InOrder (payload : Bytes) : Bytes → ℕ → List Reading → Prop
  | _, _, [] => True
  | stream, position, call :: calls =>
    if call.offset = position then
      if call.ending payload = payload.length then
        stream ++ call.bytes payload = payload ∧
          Repeats payload (({} : Sha256).update payload).finished (call.ending payload) calls
      else InOrder payload (stream ++ call.bytes payload) (call.ending payload) calls
    else InOrder payload stream (call.ending payload) calls

end Reading

namespace ArtifactReader

open Reading

variable {payload stream : Bytes} {r : ArtifactReader} {call : Reading} {calls : List Reading} {whole : Prop}

def readAll (calls : List Reading) (r : ArtifactReader) : ArtifactReader :=
  calls.foldl (fun r call => (r.readAt {} call.offset call.length).2) r

/-- The reader has the payload it is to have. -/
structure Intact (payload : Bytes) (r : ArtifactReader) : Prop where
  file : r.file = payload
  size : r.size = payload.length
  expected : r.expected = .ofContent payload

theorem take_remaining (payload : Bytes) (offset length : ℕ) :
    (payload.drop offset).take (min (payload.length - offset) length) = (payload.drop offset).take length := by
  rw [← List.length_drop, ← List.take_take]
  exact List.take_of_length_le (List.length_take_le' ..)

/-- What a call on an intact payload does before it looks at what was hashed. -/
theorem Intact.readAt (h : Intact payload r) (hoffset : call.offset ≤ payload.length) :
    r.readAt {} call.offset call.length =
      if call.offset = r.bytesRead then
        let hasher := r.hasher.update (call.bytes payload)
        if call.ending payload = payload.length then
          let actual := hasher.digest
          let r := { r with hasher := hasher.finished, bytesRead := call.ending payload }
          if actual ≠ .ofContent payload then
            (.fail .digestMismatch "artifact payload does not match its digest"
              (textString actual.hex ++ " != " ++ textString r.expected.hex), { r with verified := false })
          else (.ok (call.bytes payload), { r with verified := true })
        else (.ok (call.bytes payload), { r with hasher := hasher, bytesRead := call.ending payload })
      else
        (.ok (call.bytes payload),
          { r with
            bytesRead := call.ending payload
            verified := if call.ending payload ≠ payload.length then false else r.verified }) := by
  have hbytes : (r.file.drop call.offset).take (min (r.size - call.offset) call.length) = call.bytes payload := by
    rw [h.file, h.size, take_remaining, bytes]
  have hlength : (call.bytes payload).length = min (r.size - call.offset) call.length := by
    rw [h.size, bytes, List.length_take, List.length_drop, Nat.min_comm]
  rw [ArtifactReader.readAt, if_neg (by rw [h.size]; omega)]
  dsimp only
  rw [hbytes]
  rw [if_neg (by simp), if_neg (by simp [hlength])]
  by_cases honward : call.offset = r.bytesRead
  · rw [if_pos honward, if_pos honward, h.size, h.expected, Reading.ending, honward]
  · rw [if_neg honward, if_neg honward, h.size, Reading.ending]

theorem Intact.mismatched (h : Intact payload r) (hoffset : call.offset ≤ payload.length)
    (honward : call.offset = r.bytesRead) (hend : call.ending payload = payload.length)
    (hdigest : (r.hasher.update (call.bytes payload)).digest ≠ .ofContent payload) :
    (r.readAt {} call.offset call.length).1 =
      .fail .digestMismatch "artifact payload does not match its digest"
        (textString (r.hasher.update (call.bytes payload)).digest.hex ++ " != " ++ textString r.expected.hex) := by
  rw [h.readAt hoffset, if_pos honward, if_pos hend, if_pos hdigest]

theorem Intact.after (h : Intact payload r) (hoffset : call.offset ≤ payload.length) :
    Intact payload (r.readAt {} call.offset call.length).2 ∧
      (r.readAt {} call.offset call.length).2.bytesRead = call.ending payload := by
  rw [h.readAt hoffset]
  by_cases honward : call.offset = r.bytesRead
  · by_cases hend : call.ending payload = payload.length
    · simp only [honward, hend, if_true]
      split <;> exact ⟨⟨h.file, h.size, h.expected⟩, rfl⟩
    · simp only [honward, hend, if_true, if_false]
      exact ⟨⟨h.file, h.size, h.expected⟩, trivial⟩
  · simp only [honward, if_false]
    exact ⟨⟨h.file, h.size, h.expected⟩, trivial⟩

/-- Every call gives the bytes that are there, and the payload counts as verified only once it was hashed to its end. -/
def Served (payload : Bytes) (whole : Prop) (stream : Bytes) (r : ArtifactReader) (calls : List Reading) : Prop :=
  ∀ before call after, calls = before ++ call :: after →
    ((r.readAll before).readAt {} call.offset call.length).1 = .ok (call.bytes payload) ∧
      ((r.readAll (before ++ [call])).verified = true → whole ∨ ∃ earlier last, earlier ++ [last] <+: before ++ [call] ∧
        last.Closes payload r.bytesRead earlier ∧ stream ++ hashed payload r.bytesRead (earlier ++ [last]) = payload)

theorem served_nil : Served payload whole stream r [] := by
  intro before call after h
  cases before <;> cases h

theorem served_cons (hafter : (r.readAt {} call.offset call.length).2.bytesRead = call.ending payload) :
    Served payload whole stream r (call :: calls) ↔
      (r.readAt {} call.offset call.length).1 = .ok (call.bytes payload) ∧
        ((r.readAt {} call.offset call.length).2.verified = true →
          whole ∨ call.Closes payload r.bytesRead [] ∧ stream ++ hashed payload r.bytesRead [call] = payload) ∧
        Served payload (whole ∨ call.Closes payload r.bytesRead [] ∧ stream ++ hashed payload r.bytesRead [call] = payload)
          (stream ++ if call.offset = r.bytesRead then call.bytes payload else [])
          (r.readAt {} call.offset call.length).2 calls := by
  have hearlier (calls' : List Reading) : (∃ earlier last, earlier ++ [last] <+: call :: calls' ∧
        last.Closes payload r.bytesRead earlier ∧ stream ++ hashed payload r.bytesRead (earlier ++ [last]) = payload) ↔
      (call.Closes payload r.bytesRead [] ∧ stream ++ hashed payload r.bytesRead [call] = payload) ∨
        ∃ earlier last, earlier ++ [last] <+: calls' ∧ last.Closes payload (call.ending payload) earlier ∧
          (stream ++ if call.offset = r.bytesRead then call.bytes payload else []) ++
            hashed payload (call.ending payload) (earlier ++ [last]) = payload := by
    constructor
    · rintro ⟨earlier, last, hprefix, hcloses, hhashed⟩
      cases earlier with
      | nil =>
        obtain ⟨rfl, -⟩ := List.cons_prefix_cons.mp hprefix
        exact .inl ⟨hcloses, hhashed⟩
      | cons first earlier =>
        rw [List.cons_append, List.cons_prefix_cons] at hprefix
        obtain ⟨rfl, hprefix⟩ := hprefix
        refine .inr ⟨earlier, last, hprefix, hcloses, ?_⟩
        rw [List.append_assoc]
        exact hhashed
    · rintro (⟨hcloses, hhashed⟩ | ⟨earlier, last, hprefix, hcloses, hhashed⟩)
      · exact ⟨[], call, List.cons_prefix_cons.mpr ⟨rfl, List.nil_prefix⟩, hcloses, hhashed⟩
      · refine ⟨call :: earlier, last, List.cons_prefix_cons.mpr ⟨rfl, hprefix⟩, hcloses, ?_⟩
        rw [List.append_assoc] at hhashed
        exact hhashed
  constructor
  · intro h
    obtain ⟨hok, hverified⟩ := h [] call calls rfl
    rw [List.nil_append, hearlier] at hverified
    refine ⟨hok, fun hv => ?_, ?_⟩
    · obtain hwhole | hhead | ⟨earlier, last, hprefix, -⟩ := hverified hv
      · exact .inl hwhole
      · exact .inr hhead
      · exact absurd (List.prefix_nil.mp hprefix) (by simp)
    · intro before call' after heq
      obtain ⟨hok, hverified⟩ := h (call :: before) call' after (by rw [heq]; rfl)
      rw [List.cons_append, hearlier] at hverified
      refine ⟨hok, fun hv => ?_⟩
      rw [hafter, or_assoc]
      exact hverified hv
  · rintro ⟨hok, hverified, h⟩ before call' after heq
    cases before with
    | nil =>
      obtain ⟨rfl, rfl⟩ := List.cons.inj heq
      refine ⟨hok, fun hv => ?_⟩
      rw [List.nil_append, hearlier, ← or_assoc]
      exact .inl (hverified hv)
    | cons first before =>
      rw [List.cons_append, List.cons.injEq] at heq
      obtain ⟨rfl, heq⟩ := heq
      obtain ⟨hok, hverified⟩ := h before call' after heq
      refine ⟨hok, fun hv => ?_⟩
      rw [List.cons_append, hearlier, ← or_assoc]
      rw [hafter] at hverified
      exact hverified hv

theorem served_repeats (h : Intact payload r) (hoffsets : ∀ call ∈ calls, call.offset ≤ payload.length) (hwhole : whole) :
    Served payload whole stream r calls ↔ Repeats payload r.hasher r.bytesRead calls := by
  induction calls generalizing r stream whole with
  | nil => exact iff_of_true served_nil trivial
  | cons call calls ih =>
    have hoffset := hoffsets call List.mem_cons_self
    obtain ⟨hafter, hending⟩ := h.after hoffset
    have hread := h.readAt hoffset
    rw [served_cons hending, ih hafter (fun call hcall => hoffsets call (List.mem_cons_of_mem _ hcall)) (.inl hwhole),
      hending, Repeats]
    by_cases honward : call.offset = r.bytesRead
    · rw [if_pos honward] at hread ⊢
      by_cases hend : call.ending payload = payload.length
      · rw [if_pos hend] at hread ⊢
        by_cases hdigest : (r.hasher.update (call.bytes payload)).digest = .ofContent payload
        · rw [if_neg (not_not.mpr hdigest)] at hread
          rw [hread]
          simp [hwhole, hdigest]
        · rw [h.mismatched hoffset honward hend hdigest]
          simp [hdigest, Result.fail]
      · rw [if_neg hend] at hread ⊢
        rw [hread]
        simp [hwhole]
    · rw [if_neg honward] at hread ⊢
      rw [hread]
      simp [hwhole]

theorem served_inOrder (h : Intact payload r) (hoffsets : ∀ call ∈ calls, call.offset ≤ payload.length)
    (hhasher : r.hasher = ({} : Sha256).update stream) (hverified : r.verified = false) :
    Served payload False stream r calls ↔ InOrder payload stream r.bytesRead calls := by
  induction calls generalizing r stream with
  | nil => exact iff_of_true served_nil trivial
  | cons call calls ih =>
    have hoffset := hoffsets call List.mem_cons_self
    have hoffsets' := fun call hcall => hoffsets call (List.mem_cons_of_mem _ hcall)
    obtain ⟨hafter, hending⟩ := h.after hoffset
    have hhashed : r.hasher.update (call.bytes payload) = ({} : Sha256).update (stream ++ call.bytes payload) := by
      rw [hhasher, Sha256.update_append _ _ _ (by decide)]
    have hread := h.readAt hoffset
    rw [served_cons hending, InOrder, false_or]
    by_cases honward : call.offset = r.bytesRead
    · rw [if_pos honward] at hread
      rw [if_pos honward, if_pos honward]
      by_cases hend : call.ending payload = payload.length
      · have hclosed : (call.Closes payload r.bytesRead [] ∧
            stream ++ Reading.hashed payload r.bytesRead [call] = payload) ↔ stream ++ call.bytes payload = payload := by
          rw [Reading.hashed, Reading.hashed, if_pos honward, List.append_nil]
          exact and_iff_right ⟨honward, hend⟩
        rw [if_pos hend] at hread ⊢
        rw [hclosed]
        by_cases hdigest : (r.hasher.update (call.bytes payload)).digest = .ofContent payload
        · rw [if_neg (not_not.mpr hdigest)] at hread
          by_cases hwhole : stream ++ call.bytes payload = payload
          · rw [served_repeats hafter hoffsets' hwhole, hread, hhashed, hwhole]
            simp
          · rw [hread]
            simp [hwhole]
        · have hwhole : stream ++ call.bytes payload ≠ payload := by
            intro hwhole
            rw [hhashed, hwhole] at hdigest
            exact hdigest rfl
          rw [h.mismatched hoffset honward hend hdigest]
          simp [hwhole, Result.fail]
      · have hopen : ¬(call.Closes payload r.bytesRead [] ∧
            stream ++ Reading.hashed payload r.bytesRead [call] = payload) := fun hcloses => hend hcloses.1.2
        rw [if_neg hend] at hread ⊢
        rw [eq_false hopen, ih hafter hoffsets' (by rw [hread]; exact hhashed) (by rw [hread]; exact hverified), hread]
        simp [hverified]
    · have hopen : ¬(call.Closes payload r.bytesRead [] ∧
          stream ++ Reading.hashed payload r.bytesRead [call] = payload) := fun hcloses => honward hcloses.1.1
      have hunverified : (r.readAt {} call.offset call.length).2.verified = false := by
        rw [hread, if_neg honward]
        simp [hverified]
      rw [if_neg honward] at hread
      rw [if_neg honward, if_neg honward, List.append_nil, eq_false hopen,
        ih hafter hoffsets' (by rw [hread]; exact hhasher) hunverified, hunverified, hending, hread]
      simp

section

variable {o : ArtifactStore.Options} {store : ArtifactStore} {digest : Digest} {metadata : ArtifactMetadata}

theorem intact_openReader (hmetadata : store.metadata digest = .ok metadata)
    (hpayload : store.payloads.find digest = some payload) (hdigest : Digest.ofContent payload = digest)
    (hsize : metadata.sizeBytes = payload.length) (hopen : openReader o true store digest = .ok r) :
    Intact payload r ∧ r.hasher = {} ∧ r.bytesRead = 0 ∧ r.verified = false := by
  rw [openReader, hmetadata, hpayload] at hopen
  obtain rfl := Except.ok.inj hopen
  exact ⟨⟨rfl, hsize, hdigest.symm⟩, rfl, rfl, rfl⟩

/-- An intact artifact is read as it is stored if and only if what is hashed when the reader takes the digest is always
the payload. -/
theorem read_iff_inOrder (hmetadata : store.metadata digest = .ok metadata)
    (hpayload : store.payloads.find digest = some payload) (hdigest : Digest.ofContent payload = digest)
    (hsize : metadata.sizeBytes = payload.length) (hopen : openReader o true store digest = .ok r)
    (hoffsets : ∀ call ∈ calls, call.offset ≤ payload.length) :
    (∀ before call after, calls = before ++ call :: after →
      ((r.readAll before).readAt {} call.offset call.length).1 = .ok ((payload.drop call.offset).take call.length) ∧
        ((r.readAll (before ++ [call])).verified = true → ∃ earlier last, earlier ++ [last] <+: before ++ [call] ∧
          last.Closes payload 0 earlier ∧ hashed payload 0 (earlier ++ [last]) = payload)) ↔
      InOrder payload [] 0 calls := by
  obtain ⟨hintact, hhasher, hposition, hverified⟩ := intact_openReader hmetadata hpayload hdigest hsize hopen
  have hempty : r.hasher = ({} : Sha256).update [] := by rw [hhasher]; rfl
  have hserved := served_inOrder hintact hoffsets hempty hverified
  simp only [Served, hposition, false_or, List.nil_append] at hserved
  exact hserved

end

def holding (payload : Bytes) : ArtifactStore where
  index := [(.ofContent payload, { digest := .ofContent payload, sizeBytes := payload.length })]
  usedBytes := payload.length
  payloads := [(.ofContent payload, payload)]

theorem openReader_holding (hset : (Digest.ofContent payload).isSet = true) :
    (holding payload).metadata (.ofContent payload) =
        .ok { digest := .ofContent payload, sizeBytes := payload.length } ∧
      (holding payload).payloads.find (.ofContent payload) = some payload ∧
        openReader {} true (holding payload) (.ofContent payload) =
          .ok { file := payload, size := payload.length, expected := .ofContent payload } := by
  have hmetadata : (holding payload).metadata (.ofContent payload) =
      .ok { digest := .ofContent payload, sizeBytes := payload.length } := by
    rw [ArtifactStore.metadata, hset, holding, SortedMap.find_cons, if_pos rfl]
    rfl
  have hpayload : (holding payload).payloads.find (.ofContent payload) = some payload := by
    rw [holding, SortedMap.find_cons, if_pos rfl]
  refine ⟨hmetadata, hpayload, ?_⟩
  rw [openReader, hmetadata, hpayload]

/-- Resumed behind its start, a payload of three bytes does not match its digest at the end. -/
theorem resumed_mismatch : ∃ r detail, openReader {} true (holding [1, 2, 3]) (.ofContent [1, 2, 3]) = .ok r ∧
    (r.readAt {} 1 1).1 = .ok [2] ∧ ((r.readAll [⟨1, 1⟩]).readAt {} 2 1).1 =
      .fail .digestMismatch "artifact payload does not match its digest" detail := by
  have hset : (Digest.ofContent [1, 2, 3]).isSet = true := by decide +kernel
  have hdigest : (({} : Sha256).update [3]).digest ≠ .ofContent [1, 2, 3] := by decide +kernel
  have hpart : ({ file := [1, 2, 3], size := 3, expected := .ofContent [1, 2, 3] } : ArtifactReader).readAll [⟨1, 1⟩] =
      { file := [1, 2, 3], size := 3, bytesRead := 2, expected := .ofContent [1, 2, 3] } := rfl
  have hintact : Intact [1, 2, 3] { file := [1, 2, 3], size := 3, bytesRead := 2, expected := .ofContent [1, 2, 3] } :=
    ⟨rfl, rfl, rfl⟩
  have hoffset : (⟨2, 1⟩ : Reading).offset ≤ 3 := by decide
  have hlast := hintact.mismatched hoffset rfl rfl hdigest
  rw [← hpart] at hlast
  exact ⟨_, _, (openReader_holding hset).2.2, rfl, hlast⟩

theorem inOrder_served : ∃ r, openReader {} true (holding [1, 2, 3]) (.ofContent [1, 2, 3]) = .ok r ∧
    ∀ before call after, [⟨0, 2⟩, ⟨2, 2⟩, ⟨0, 1⟩] = before ++ call :: after →
      ((r.readAll before).readAt {} call.offset call.length).1 =
          .ok ((([1, 2, 3] : Bytes).drop call.offset).take call.length) ∧
        ((r.readAll (before ++ [call])).verified = true → ∃ earlier last, earlier ++ [last] <+: before ++ [call] ∧
          last.Closes [1, 2, 3] 0 earlier ∧ hashed [1, 2, 3] 0 (earlier ++ [last]) = [1, 2, 3]) := by
  have hset : (Digest.ofContent [1, 2, 3]).isSet = true := by decide +kernel
  obtain ⟨hmetadata, hpayload, hopen⟩ := openReader_holding hset
  have horder : InOrder [1, 2, 3] [] 0 [⟨0, 2⟩, ⟨2, 2⟩, ⟨0, 1⟩] := by
    simp [InOrder, Repeats, Reading.ending, Reading.bytes]
  exact ⟨_, hopen, (read_iff_inOrder hmetadata hpayload rfl rfl hopen (by decide)).mpr horder⟩

end ArtifactReader

end ConfigurationFabric
