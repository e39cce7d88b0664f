import Mathlib.Algebra.BigOperators.Group.List.Basic
import ConfigurationFabric.ArtifactVerification
import ConfigurationFabric.StateStored
import ConfigurationFabric.Library.SortedVector

/-! The index of the artifact store as the vector it is, and the accounting of its bytes. -/

namespace ConfigurationFabric

open LittleEndian
open ArtifactStore

/-- An `ArtifactStore` whose index is a vector in the order of the digests. -/
structure IndexedStore where
  index : List ArtifactMetadata := []
  usedBytes : ℕ := 0
  payloads : SortedMap Digest Bytes := []
  metadataFiles : SortedMap Digest Bytes := []

namespace IndexedStore

def found (s : IndexedStore) (digest : Digest) : Option ArtifactMetadata :=
  SortedVector.find ArtifactMetadata.digest s.index digest

def contains (s : IndexedStore) (digest : Digest) : Bool := (s.found digest).isSome

def metadata (s : IndexedStore) (digest : Digest) : Result ArtifactMetadata :=
  if !digest.isSet then .fail .invalidArgument "the all-zero digest is not a valid artifact identity"
  else
    match s.found digest with
    | none => .fail .notFound "artifact is not present in the store" (textString (shortDigest digest))
    | some metadata => .ok metadata

/-! Loading. -/

/-- The `.meta` files that can be read, decoded and have a payload with a size. -/
def accepted (sized : Digest → Bool) (records : List (Result Bytes)) : List ArtifactMetadata :=
  records.filterMap fun record =>
    match record >>= decodeArtifactMetadata with
    | .error _ => none
    | .ok metadata => if sized metadata.digest then some metadata else none

/-- `std::unique` keeps the first of neighbours with one digest. -/
def unique : List ArtifactMetadata → List ArtifactMetadata
  | [] => []
  | [a] => [a]
  | a :: b :: l => if a.digest = b.digest then unique (a :: l) else a :: unique (b :: l)
termination_by l => l.length

/-- `std::sort` by digest, which leaves the order of records with one digest open. -/
def SortOf (sorted loaded : List ArtifactMetadata) : Prop :=
  sorted.Perm loaded ∧ sorted.Pairwise fun a b => ¬ b.digest < a.digest

def loaded (records sorted : List ArtifactMetadata) (s : IndexedStore) : IndexedStore :=
  { s with index := unique sorted, usedBytes := (records.map (·.sizeBytes)).sum % 2 ^ 64 }

/-- What opening makes of the `.meta` files and of the files that are left below the root. -/
def Opens (sized : Digest → Bool) (records : List (Result Bytes)) (files opened : IndexedStore) : Prop :=
  ∃ sorted, SortOf sorted (accepted sized records) ∧ opened = files.loaded (accepted sized records) sorted

/-! Taking an entry out. -/

def drop (digest : Digest) (s : IndexedStore) : IndexedStore :=
  match s.found digest with
  | none => s
  | some metadata =>
    { s with
      index := SortedVector.erase ArtifactMetadata.digest s.index digest
      usedBytes := if s.usedBytes > metadata.sizeBytes then s.usedBytes - metadata.sizeBytes else 0 }

def quarantine (renames : Bool) (digest : Digest) (s : IndexedStore) : IndexedStore :=
  match renames, s.payloads.find digest with
  | true, some _ => drop digest { s with payloads := s.payloads.erase digest }
  | _, _ => s

/-- Which files `collectGarbage` manages to remove. -/
structure Removals where
  payload : Digest → Bool := fun _ => true
  metadata : Digest → Bool := fun _ => true

def removeFiles (removals : Removals) (digest : Digest) (s : IndexedStore) : IndexedStore :=
  { s with
    payloads := if removals.payload digest then s.payloads.erase digest else s.payloads
    metadataFiles := if removals.metadata digest then s.metadataFiles.erase digest else s.metadataFiles }

/-- The entries that are not live go one by one, and are counted. -/
def collectGarbage (live : List Digest) (removals : Removals) (removed : ℕ) (s : IndexedStore) : ℕ × IndexedStore :=
  (s.index.filter fun entry => entry.digest ∉ live).foldl
    (fun x entry => (x.1 + 1, drop entry.digest (removeFiles removals entry.digest x.2))) (removed, s)

/-! Publishing. -/

def openReader (o : Options) (opens : Bool) (s : IndexedStore) (digest : Digest) : Result ArtifactReader :=
  match s.metadata digest with
  | .error e => .error e
  | .ok metadata =>
    match opens, s.payloads.find digest with
    | true, some content => .ok { file := content, size := metadata.sizeBytes, expected := digest }
    | _, _ => .fail .artifactUnavailable "artifact payload file is missing" (payloadPath o digest)

def verify (o : Options) (run : Reads) (digest : Digest) (s : IndexedStore) : Status × IndexedStore :=
  match openReader o run.opens s digest with
  | .error e => (.error e, s)
  | .ok reader =>
    let found := verifyChunks o run.reads reader.size 0 0 reader
    let found :=
      if found.outcome.isOk && !found.reader.verified then
        { found with
          outcome := .fail .digestMismatch "artifact content no longer matches its recorded digest"
            (textString (shortDigest digest))
          corrupt := true }
      else found
    if !found.corrupt then (.ok (), s) else (found.outcome, s.quarantine run.renames digest)

def reserve (o : Options) (p : Publication) (s : IndexedStore) : Result Bool :=
  if s.contains p.actualDigest then .ok true
  else if s.index.length ≥ o.maxArtifacts then
    .fail .storeFull "artifact count budget is exhausted" (toString o.maxArtifacts)
  else if p.actualSize > o.maxTotalBytes ∨ s.usedBytes > o.maxTotalBytes - p.actualSize then
    .fail .storeFull "artifact byte budget is exhausted" (toString o.maxTotalBytes)
  else .ok false

def writeMetadata (outcome : Outcome) (digest : Digest) (encoded : Bytes) (s : IndexedStore) : IndexedStore :=
  match outcome.status with
  | .ok () => { s with metadataFiles := s.metadataFiles.insert digest encoded }
  | .error _ => if outcome.removed then { s with metadataFiles := s.metadataFiles.erase digest } else s

/-- The last section of a publish. -/
def insertEntry (stored : ArtifactMetadata) (s : IndexedStore) : IndexedStore :=
  if s.contains stored.digest then s
  else
    { s with
      index := SortedVector.insert ArtifactMetadata.digest s.index stored
      usedBytes := (s.usedBytes + stored.sizeBytes) % 2 ^ 64 }

/-- How the file operations of one publish go. -/
structure PublishRun where
  creates : Bool := true
  reads : Reads := {}
  looks : Bool := true
  moves : Bool := true
  writes : Outcome := {}
  withdraws : Bool := true

def publish (o : Options) (run : PublishRun) (p : Publication) (s : IndexedStore) : Status × IndexedStore :=
  match reserve o p s with
  | .error e => (.error e, s)
  | .ok alreadyPresent =>
    if !run.creates then
      (.fail .openFailed "cannot create artifact shard directory" (shardDirectory o p.actualDigest), s)
    else
      match encodeArtifactMetadata p.stored with
      | .error e => (.error e, s)
      | .ok encoded =>
        if alreadyPresent then
          match verify o run.reads p.actualDigest s with
          | (.error e, s) => (.error e, s)
          | (.ok (), s) =>
            if run.looks && (s.metadataFiles.find p.actualDigest).isSome then (.ok (), s)
            else (run.writes.status, writeMetadata run.writes p.actualDigest encoded s)
        else if !run.moves then
          (.fail .ioFailure "cannot publish artifact payload" (payloadPath o p.actualDigest), s)
        else
          let s := { s with payloads := s.payloads.insert p.actualDigest p.staged }
          match run.writes.status with
          | .error e =>
            let s := writeMetadata run.writes p.actualDigest encoded s
            (.error e, if run.withdraws then { s with payloads := s.payloads.erase p.actualDigest } else s)
          | .ok () => (.ok (), insertEntry p.stored (writeMetadata run.writes p.actualDigest encoded s))

/-! Calls one after another. -/

inductive Call
  | publish (run : PublishRun) (p : Publication)
  | quarantine (renames : Bool) (digest : Digest)
  | collectGarbage (live : List Digest) (removals : Removals)

def call (o : Options) (s : IndexedStore) : Call → IndexedStore
  | .publish run p => (s.publish o run p).2
  | .quarantine renames digest => s.quarantine renames digest
  | .collectGarbage live removals => (s.collectGarbage live removals 0).2

/-- The index is in strict order and answers for what is in it, and the bytes in use are the sizes in it. -/
structure Accounted (s : IndexedStore) : Prop where
  sorted : SortedVector.Sorted ArtifactMetadata.digest s.index
  contains : ∀ digest, s.contains digest = true ↔ ∃ m ∈ s.index, m.digest = digest
  metadata : ∀ digest m, s.metadata digest = .ok m ↔ m ∈ s.index ∧ m.digest = digest
  used : s.usedBytes = (s.index.map (·.sizeBytes)).sum

/-- No two records share a digest unless they declare no bytes, and none has the all-zero digest. -/
def Plain (records : List ArtifactMetadata) : Prop :=
  (records.Pairwise fun a b => a.digest = b.digest → a.sizeBytes = 0 ∧ b.sizeBytes = 0) ∧
    ∀ m ∈ records, m.digest.isSet = true

/-- A publish that brings a new entry into the index. -/
def Admits (o : Options) (run : PublishRun) (p : Publication) (s : IndexedStore) : Prop :=
  reserve o p s = .ok false ∧ run.creates = true ∧ (∃ encoded, encodeArtifactMetadata p.stored = .ok encoded) ∧
    run.moves = true ∧ run.writes.status = .ok ()

/-- Nothing comes into the index under the all-zero digest. -/
def Named (o : Options) (s : IndexedStore) : Call → Prop
  | .publish run p => Admits o run p s → p.actualDigest.isSet = true
  | _ => True

def Run (o : Options) : IndexedStore → IndexedStore → Prop :=
  Relation.ReflTransGen fun s s' => ∃ c, s.Named o c ∧ s' = s.call o c

variable {o : Options} {s s' : IndexedStore} {digest : Digest} {m stored : ArtifactMetadata}

/-! The index against its view as a map. -/

/-- The store with its index as a map. -/
def asMap (s : IndexedStore) : ArtifactStore where
  index := SortedVector.entries ArtifactMetadata.digest s.index
  usedBytes := s.usedBytes
  payloads := s.payloads
  metadataFiles := s.metadataFiles

/-- What every call keeps. -/
structure Kept (s : IndexedStore) : Prop where
  sorted : SortedVector.Sorted ArtifactMetadata.digest s.index
  named : ∀ m ∈ s.index, m.digest.isSet = true
  used : s.usedBytes = (s.index.map (·.sizeBytes)).sum

theorem contains_eq_false (h : SortedVector.Sorted ArtifactMetadata.digest s.index) :
    s.contains digest = false ↔ ∀ m ∈ s.index, m.digest ≠ digest := by
  rw [contains, Option.isSome_eq_false_iff, Option.isNone_iff_eq_none, found, SortedVector.find_eq_none h]

theorem contains_eq_true (h : SortedVector.Sorted ArtifactMetadata.digest s.index) :
    s.contains digest = true ↔ ∃ m ∈ s.index, m.digest = digest := by
  rw [← Bool.not_eq_false, contains_eq_false h]
  push Not
  rfl

theorem Kept.accounted (h : Kept s) : Accounted s where
  sorted := h.sorted
  contains _ := contains_eq_true h.sorted
  metadata digest m := by
    rw [metadata, found, ← SortedVector.find_eq_some h.sorted]
    by_cases hset : digest.isSet = true
    · rw [hset]
      cases hfind : SortedVector.find ArtifactMetadata.digest s.index digest with
      | none => exact iff_of_false (fun h => nomatch h) (fun h => nomatch h)
      | some m' =>
        constructor
        · rintro ⟨⟩
          rfl
        · rintro ⟨⟩
          rfl
    · rw [if_pos (by simpa using hset)]
      refine iff_of_false (fun h => nomatch h) fun hfind => ?_
      obtain ⟨hm, rfl⟩ := (SortedVector.find_eq_some h.sorted).mp hfind
      exact hset (h.named m hm)
  used := h.used

theorem asMap_contains (h : SortedVector.Sorted ArtifactMetadata.digest s.index) :
    s.asMap.contains digest = s.contains digest := by
  rw [ArtifactStore.contains, asMap, SortedVector.find_entries h]
  rfl

theorem asMap_metadata (h : SortedVector.Sorted ArtifactMetadata.digest s.index) :
    s.asMap.metadata digest = s.metadata digest := by
  rw [ArtifactStore.metadata, asMap, SortedVector.find_entries h]
  rfl

theorem asMap_drop (h : SortedVector.Sorted ArtifactMetadata.digest s.index) :
    (drop digest s).asMap =
      match s.asMap.index.find digest with
      | none => s.asMap
      | some metadata =>
        { s.asMap with
          index := s.asMap.index.erase digest
          usedBytes := if s.usedBytes > metadata.sizeBytes then s.usedBytes - metadata.sizeBytes else 0 } := by
  have hfind : s.asMap.index.find digest = s.found digest := SortedVector.find_entries h digest
  rw [hfind, drop]
  cases hfound : s.found digest with
  | none => rfl
  | some metadata =>
    dsimp only [asMap]
    rw [SortedVector.entries_erase h hfound]

theorem asMap_quarantine (h : SortedVector.Sorted ArtifactMetadata.digest s.index) (renames : Bool) :
    (s.quarantine renames digest).asMap = s.asMap.quarantine renames digest := by
  unfold quarantine ArtifactStore.quarantine
  cases renames with
  | false => rfl
  | true =>
    have hpayloads : s.asMap.payloads = s.payloads := rfl
    rw [hpayloads]
    cases s.payloads.find digest with
    | none => rfl
    | some content => exact asMap_drop (s := { s with payloads := s.payloads.erase digest }) h

theorem asMap_openReader (h : SortedVector.Sorted ArtifactMetadata.digest s.index) (opens : Bool) :
    ArtifactReader.openReader o opens s.asMap digest = s.openReader o opens digest := by
  unfold ArtifactReader.openReader openReader
  rw [asMap_metadata h]
  rfl

/-- A verification reads and quarantines what it does with the index as a map. -/
theorem asMap_verify (h : SortedVector.Sorted ArtifactMetadata.digest s.index) (run : Reads) :
    s.asMap.verify o run digest = ((s.verify o run digest).1, (s.verify o run digest).2.asMap) := by
  unfold ArtifactStore.verify verify
  rw [asMap_openReader h]
  cases s.openReader o run.opens digest with
  | error e => rfl
  | ok reader =>
    dsimp only
    split_ifs
    all_goals first
      | rfl
      | exact congrArg _ (asMap_quarantine h run.renames).symm

theorem asMap_reserve (h : SortedVector.Sorted ArtifactMetadata.digest s.index) (p : Publication) :
    ArtifactStore.reserve o p s.asMap = s.reserve o p := by
  have hlength : s.asMap.index.length = s.index.length := List.length_map _
  unfold ArtifactStore.reserve reserve
  rw [asMap_contains h, hlength]
  rfl

theorem asMap_insertEntry (h : SortedVector.Sorted ArtifactMetadata.digest s.index) (outcome : Outcome) (p : Publication) :
    (publishStep o outcome p .indexing s.asMap).2 = (s.insertEntry p.stored).asMap := by
  rw [publishStep, asMap_contains h, insertEntry]
  change _ = (if s.contains p.actualDigest = true then _ else _ : IndexedStore).asMap
  cases hcontains : s.contains p.actualDigest with
  | true => rfl
  | false =>
    have hinsert := SortedVector.entries_insert h (a := p.stored) ((contains_eq_false h).mp hcontains)
    rw [if_neg Bool.false_ne_true, if_neg Bool.false_ne_true]
    dsimp only [asMap]
    rw [hinsert]
    rfl

/-! What one call keeps. -/

theorem Kept.files (h : Kept s) (payloads metadataFiles : SortedMap Digest Bytes) :
    Kept { s with payloads, metadataFiles } := ⟨h.sorted, h.named, h.used⟩

theorem Kept.drop (h : Kept s) (digest : Digest) : Kept (drop digest s) := by
  unfold IndexedStore.drop
  cases hfound : s.found digest with
  | none => exact h
  | some m =>
    have hperm := SortedVector.perm_erase hfound
    have hsum := (hperm.map (·.sizeBytes)).sum_eq
    rw [List.map_cons, List.sum_cons, ← h.used] at hsum
    refine ⟨SortedVector.sorted_erase h.sorted digest, fun m' hm' => ?_, ?_⟩
    · exact h.named m' (hperm.mem_iff.mpr (List.mem_cons_of_mem _ hm'))
    · dsimp only
      split <;> omega

theorem Kept.quarantine (h : Kept s) (renames : Bool) (digest : Digest) : Kept (s.quarantine renames digest) := by
  unfold IndexedStore.quarantine
  split
  · exact (h.files _ s.metadataFiles).drop digest
  · exact h

theorem Kept.verify (h : Kept s) (run : Reads) (digest : Digest) : Kept (s.verify o run digest).2 := by
  unfold IndexedStore.verify
  cases s.openReader o run.opens digest with
  | error e => exact h
  | ok reader =>
    dsimp only
    split_ifs
    all_goals first
      | exact h
      | exact h.quarantine run.renames digest

theorem Kept.writeMetadata (h : Kept s) (outcome : Outcome) (digest : Digest) (encoded : Bytes) :
    Kept (writeMetadata outcome digest encoded s) := by
  unfold IndexedStore.writeMetadata
  split
  · exact h.files s.payloads _
  · split
    · exact h.files s.payloads _
    · exact h

/-- A new entry, for which there is room. -/
theorem Kept.insertEntry (h : Kept s) (hset : stored.digest.isSet = true) (hroom : s.usedBytes + stored.sizeBytes < 2 ^ 64) :
    Kept (s.insertEntry stored) := by
  unfold IndexedStore.insertEntry
  cases hcontains : s.contains stored.digest with
  | true => exact h
  | false =>
    have hnew := (contains_eq_false h.sorted).mp hcontains
    have hperm := SortedVector.perm_insert h.sorted stored
    have hsum := (hperm.map (·.sizeBytes)).sum_eq
    rw [List.map_cons, List.sum_cons, ← h.used] at hsum
    refine ⟨SortedVector.sorted_insert h.sorted hnew, fun m hm => ?_, ?_⟩
    · obtain rfl | hm := List.mem_cons.mp (hperm.mem_iff.mp hm)
      · exact hset
      · exact h.named m hm
    · change (s.usedBytes + stored.sizeBytes) % 2 ^ 64 = _
      rw [Nat.mod_eq_of_lt hroom]
      exact (Nat.add_comm ..).trans hsum.symm

theorem room_of_reserve {p : Publication} (h : reserve o p s = .ok false) :
    s.usedBytes + p.actualSize ≤ o.maxTotalBytes := by
  unfold reserve at h
  by_cases hroom : p.actualSize > o.maxTotalBytes ∨ s.usedBytes > o.maxTotalBytes - p.actualSize
  · rw [if_pos hroom] at h
    split_ifs at h
    all_goals cases h
  · push Not at hroom
    obtain ⟨hsize, hused⟩ := hroom
    exact (Nat.le_sub_iff_add_le hsize).mp hused

theorem Kept.publish (h : Kept s) (ho : o.maxTotalBytes < 2 ^ 64) (run : PublishRun) (p : Publication)
    (hset : Admits o run p s → p.actualDigest.isSet = true) : Kept (s.publish o run p).2 := by
  unfold IndexedStore.publish
  cases hreserve : reserve o p s with
  | error e => exact h
  | ok alreadyPresent =>
    dsimp only
    cases hcreates : run.creates with
    | false => exact h
    | true =>
    rw [if_neg (by decide)]
    cases hencode : encodeArtifactMetadata p.stored with
    | error e => exact h
    | ok encoded =>
    dsimp only
    cases alreadyPresent with
    | true =>
      rw [if_pos rfl]
      have hverify := h.verify (o := o) run.reads p.actualDigest
      generalize s.verify o run.reads p.actualDigest = verified at hverify
      obtain ⟨outcome, s⟩ := verified
      cases outcome with
      | error e => exact hverify
      | ok _ =>
        dsimp only
        split
        · exact hverify
        · exact hverify.writeMetadata run.writes p.actualDigest encoded
    | false =>
      rw [if_neg Bool.false_ne_true]
      cases hmoves : run.moves with
      | false => exact h
      | true =>
      rw [if_neg (by decide)]
      have hmoved := h.files (s.payloads.insert p.actualDigest p.staged) s.metadataFiles
      have hwritten := hmoved.writeMetadata run.writes p.actualDigest encoded
      cases hwrites : run.writes.status with
      | error e =>
        dsimp only
        split
        · exact hwritten.files _ _
        · exact hwritten
      | ok _ =>
        have hroom := room_of_reserve hreserve
        refine hwritten.insertEntry (hset ⟨hreserve, hcreates, ⟨encoded, hencode⟩, hmoves, hwrites⟩) ?_
        have hused : (IndexedStore.writeMetadata run.writes p.actualDigest encoded
            { s with payloads := s.payloads.insert p.actualDigest p.staged }).usedBytes = s.usedBytes := by
          unfold IndexedStore.writeMetadata
          rw [hwrites]
        rw [hused]
        exact Nat.lt_of_le_of_lt hroom ho

theorem Kept.collectGarbage (h : Kept s) (live : List Digest) (removals : Removals) (removed : ℕ) :
    Kept (s.collectGarbage live removals removed).2 := by
  unfold IndexedStore.collectGarbage
  generalize s.index.filter _ = doomed
  induction doomed generalizing s removed with
  | nil => exact h
  | cons entry doomed ih => exact ih ((h.files _ _).drop entry.digest) (removed + 1)

theorem Kept.call (h : Kept s) (ho : o.maxTotalBytes < 2 ^ 64) {c : Call} (hc : s.Named o c) : Kept (s.call o c) := by
  cases c with
  | publish run p => exact h.publish ho run p hc
  | quarantine renames digest => exact h.quarantine renames digest
  | collectGarbage live removals => exact h.collectGarbage live removals 0

/-! What opening brings into the index. -/

theorem unique_sublist (l : List ArtifactMetadata) : (unique l).Sublist l := by
  fun_induction unique l with
  | case1 => exact List.Sublist.refl _
  | case2 a => exact List.Sublist.refl _
  | case3 a b l hsame ih => exact ih.trans (List.Sublist.cons_cons a (List.sublist_cons_self b l))
  | case4 a b l hne ih => exact ih.cons_cons a

theorem sorted_unique {l : List ArtifactMetadata} (h : l.Pairwise fun a b => ¬ b.digest < a.digest) :
    SortedVector.Sorted ArtifactMetadata.digest (unique l) := by
  fun_induction unique l with
  | case1 => exact List.Pairwise.nil
  | case2 a => exact List.pairwise_singleton _ a
  | case3 a b l hsame ih => exact ih (h.sublist (List.Sublist.cons_cons a (List.sublist_cons_self b l)))
  | case4 a b l hne ih =>
    obtain ⟨hle, hl⟩ := List.pairwise_cons.mp h
    obtain ⟨hbl, -⟩ := List.pairwise_cons.mp hl
    have hlt : a.digest < b.digest := by
      by_contra hno
      exact hne (Std.Trichotomous.trichotomous (r := ((· < ·) : Digest → Digest → Prop)) _ _ hno (hle b List.mem_cons_self))
    refine List.pairwise_cons.mpr ⟨fun c hc => ?_, ih hl⟩
    obtain rfl | hc := List.mem_cons.mp ((unique_sublist _).mem hc)
    · exact hlt
    · by_cases hsame : b.digest = c.digest
      · rwa [← hsame]
      · have hbc : b.digest < c.digest := by
          by_contra hno
          exact hsame (Std.Trichotomous.trichotomous (r := ((· < ·) : Digest → Digest → Prop)) _ _ hno (hbl c hc))
        exact IsTrans.trans _ _ _ hlt hbc

/-- What `std::unique` leaves out declares no bytes, when records that share a digest declare none. -/
theorem sum_unique {l : List ArtifactMetadata}
    (h : l.Pairwise fun a b => a.digest = b.digest → a.sizeBytes = 0 ∧ b.sizeBytes = 0) :
    ((unique l).map (·.sizeBytes)).sum = (l.map (·.sizeBytes)).sum := by
  fun_induction unique l with
  | case1 => rfl
  | case2 a => rfl
  | case3 a b l hsame ih =>
    have hzero := ((List.pairwise_cons.mp h).1 b List.mem_cons_self hsame).2
    rw [ih (h.sublist (List.Sublist.cons_cons a (List.sublist_cons_self b l)))]
    simp only [List.map_cons, List.sum_cons]
    omega
  | case4 a b l hne ih =>
    rw [List.map_cons, List.sum_cons, ih (List.pairwise_cons.mp h).2]
    rfl

/-- The records found at open, when they are plain and their sizes sum below 2^64. -/
theorem kept_opened {sized : Digest → Bool} {records : List (Result Bytes)} {files opened : IndexedStore}
    (hopen : Opens sized records files opened) (hsum : ((accepted sized records).map (·.sizeBytes)).sum < 2 ^ 64)
    (hplain : Plain (accepted sized records)) : Kept opened := by
  obtain ⟨sorted, ⟨hperm, hsorted⟩, rfl⟩ := hopen
  obtain ⟨hpairs, hset⟩ := hplain
  have hpairs := (hperm.symm.pairwise_iff fun {a b} hab hsame => (hab hsame.symm).symm).mp hpairs
  refine ⟨sorted_unique hsorted, fun m hm => hset m (hperm.mem_iff.mp ((unique_sublist _).mem hm)), ?_⟩
  change _ % 2 ^ 64 = ((unique sorted).map (·.sizeBytes)).sum
  rw [Nat.mod_eq_of_lt hsum, sum_unique hpairs, (hperm.map (·.sizeBytes)).sum_eq]

/-- Whatever is found at open, as long as it is plain, and whatever calls come after, as long as none brings in the
all-zero digest: the index is in strict order, answers exactly for what is in it, and its sizes are the bytes in use. -/
theorem index_accounted (o : Options) (ho : o.maxTotalBytes < 2 ^ 64) (sized : Digest → Bool)
    (records : List (Result Bytes)) (files opened : IndexedStore) (hopen : Opens sized records files opened)
    (hsum : ((accepted sized records).map (·.sizeBytes)).sum < 2 ^ 64) (hplain : Plain (accepted sized records))
    (hrun : Run o opened s) : Accounted s := by
  suffices Kept s from this.accounted
  induction hrun with
  | refl => exact kept_opened hopen hsum hplain
  | tail _ hcall ih =>
    obtain ⟨c, hc, rfl⟩ := hcall
    exact ih.call ho hc

/-! Two records of one digest. -/

def repeatedRecord (sizeBytes : ℕ) : ArtifactMetadata where
  id := text "a"
  schema := text "s"
  digest := ⟨store 32 1, store_length _ _⟩
  sizeBytes := sizeBytes

theorem exists_record (sizeBytes : ℕ) (h : sizeBytes < 2 ^ 64) :
    ∃ record, decodeArtifactMetadata record = .ok (repeatedRecord sizeBytes) := by
  have hid : isValidIdentifier (text "a") = true := by decide
  have hschema : isValidIdentifier (text "s") = true := by decide
  have hreadable : (repeatedRecord sizeBytes).Readable := by
    simp only [ArtifactMetadata.Readable, repeatedRecord, hid, hschema, h]
    decide
  exact ⟨_, (decodeArtifactMetadata_iff _ _).mpr ⟨hreadable, encodeArtifactMetadata_ok.mpr ⟨_, rfl, rfl⟩⟩⟩

theorem accepted_cons {sized : Digest → Bool} {record : Bytes} (records : List (Result Bytes))
    (h : decodeArtifactMetadata record = .ok m) (hsized : sized m.digest = true) :
    accepted sized (.ok record :: records) = m :: accepted sized records := by
  have hdecode : (Except.ok record >>= decodeArtifactMetadata : Result ArtifactMetadata) = .ok m := h
  rw [accepted, List.filterMap_cons, hdecode]
  simp only [hsized, if_true]
  rfl

/-- A publish, a quarantine and a collection after an opening that finds one record. -/
theorem one_record_accounted :
    ∃ records, accepted (fun _ => true) records = [repeatedRecord 1] ∧
      ∀ p : Publication, p.actualDigest.isSet = true →
        Accounted (((({ index := [repeatedRecord 1], usedBytes := 1 } : IndexedStore).call {} (.publish {} p)).call {}
          (.quarantine true p.actualDigest)).call {} (.collectGarbage [] {})) := by
  obtain ⟨record, hrecord⟩ := exists_record 1 (by decide)
  have haccepted : accepted (fun _ => true) [.ok record] = [repeatedRecord 1] := accepted_cons [] hrecord rfl
  refine ⟨[.ok record], haccepted, fun p hset => ?_⟩
  have hrun : Run {} { index := [repeatedRecord 1], usedBytes := 1 } _ :=
    ((Relation.ReflTransGen.refl.tail ⟨.publish {} p, fun _ => hset, rfl⟩).tail
      ⟨.quarantine true p.actualDigest, trivial, rfl⟩).tail ⟨.collectGarbage [] {}, trivial, rfl⟩
  refine index_accounted {} (by decide) (fun _ => true) [.ok record] {} _ ?_ ?_ ?_ hrun
  · rw [Opens, haccepted]
    exact ⟨[repeatedRecord 1], ⟨List.Perm.refl _, List.pairwise_singleton _ _⟩, by rw [loaded, unique]; rfl⟩
  · rw [haccepted]
    decide
  · rw [haccepted]
    exact ⟨List.pairwise_singleton _ _, by decide⟩

/-- Two records with one digest are both added to the bytes in use, and one of them stays in the index. -/
theorem repeated_record_counted_twice :
    ∃ records opened, Opens (fun _ => true) records {} opened ∧
      ((accepted (fun _ => true) records).map (·.sizeBytes)).sum = 3 ∧ ¬ Accounted opened := by
  obtain ⟨first, hfirst⟩ := exists_record 1 (by decide)
  obtain ⟨second, hsecond⟩ := exists_record 2 (by decide)
  have haccepted : accepted (fun _ => true) [.ok first, .ok second] = [repeatedRecord 1, repeatedRecord 2] := by
    rw [accepted_cons _ hfirst rfl, accepted_cons _ hsecond rfl]
    rfl
  refine ⟨[.ok first, .ok second], loaded [repeatedRecord 1, repeatedRecord 2] [repeatedRecord 1, repeatedRecord 2] {},
    ?_, ?_, fun h => ?_⟩
  · rw [Opens, haccepted]
    exact ⟨_, ⟨List.Perm.refl _, List.pairwise_pair.mpr (by decide)⟩, rfl⟩
  · rw [haccepted]
    rfl
  · have hused := h.used
    have hunique : unique [repeatedRecord 1, repeatedRecord 2] = [repeatedRecord 1] := by
      have hsame : (repeatedRecord 1).digest = (repeatedRecord 2).digest := rfl
      rw [unique, if_pos hsame, unique]
    rw [loaded, hunique] at hused
    revert hused
    decide

end IndexedStore

end ConfigurationFabric
