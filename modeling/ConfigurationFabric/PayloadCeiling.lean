import ConfigurationFabric.ActivationContract
import ConfigurationFabric.AgentReports
import ConfigurationFabric.DistributorPlans

/-! What a session sends, and the ceilings that its two sides have advertised. -/

namespace ConfigurationFabric

open LittleEndian
open Threads
open Wire

namespace Distributor

/-- The smaller of what the two sides advertise. -/
def agreed (p : DistributorPolicy) (ack : HelloAckMessage) : ℕ := min p.maxPayloadBytes ack.maxPayloadBytes

/-- The chunk can be encoded, framed and received. -/
def Passes (p : DistributorPolicy) (ack : HelloAckMessage) (chunk : ChunkMessage) : Prop :=
  ∃ payload, encodeChunk chunk = .ok payload ∧ (∃ frame, encodeFrame .chunk 0 payload p.maxPayloadBytes = .ok frame) ∧
    payload.length ≤ agreed p ack

/-- What a reader asked for so many bytes may give, and every other choice. -/
def Reads (length : ℕ) (i : Choice) : Prop := ∀ data, i.bytes = .ok data → data.length ≤ length

/-- Every chunk of a transfer passes, in whatever session the acknowledgement has opened. -/
def ChunksPass (o : DistributorOptions) (ack : HelloAckMessage) : Prop :=
  ∀ (session : SessionContext) (rounds : ℕ) (record : DeliveryRecord) (w w' : World) (q : Worker Status),
    session.peerMaxPayload = agreed o.policy ack → w.1 = [] →
    Relation.ReflTransGen
      (fun x y => ∃ c, Thread.Move (supplied (Reads (prepareMessage o session w.2.mem.epoch record).chunkBytes)) x.1 x.2 c y.1 y.2)
      (offerAndTransfer o rounds session record, w) (q, w') →
    ∀ request ∈ w'.1, ∀ chunk, request.frame = .message (.chunk chunk) → Passes o.policy ack chunk

/-- The condition: there is room for a chunk of the chosen size and for what goes with it. -/
structure Room (p : DistributorPolicy) (ack : HelloAckMessage) : Prop where
  ceiling : p.maxPayloadBytes ≤ kAbsoluteMaxPayloadBytes
  field : min p.transferChunkBytes (agreed p ack / 2) ≤ kAbsoluteMaxFieldBytes
  overhead : min p.transferChunkBytes (agreed p ack / 2) + chunkOverhead ≤ agreed p ack

theorem chunkBytes_of_room {o : DistributorOptions} {ack : HelloAckMessage} {session : SessionContext} {epoch : Epoch}
    {record : DeliveryRecord} (hp : 0 < o.policy.transferChunkBytes) (hsession : session.peerMaxPayload = agreed o.policy ack)
    (hlarge : 2 ≤ agreed o.policy ack) (hack : ack.maxPayloadBytes ≤ kAbsoluteMaxPayloadBytes) :
    (prepareMessage o session epoch record).chunkBytes = min o.policy.transferChunkBytes (agreed o.policy ack / 2) := by
  have hagreed : agreed o.policy ack ≤ 16777216 := (min_le_right _ _).trans hack
  have hsmall : min o.policy.transferChunkBytes (agreed o.policy ack / 2) < 2 ^ 32 := by omega
  have hne : min o.policy.transferChunkBytes (agreed o.policy ack / 2) ≠ 0 := by omega
  change (if min o.policy.transferChunkBytes (session.peerMaxPayload / 2) % 2 ^ 32 = 0 then 1024
    else min o.policy.transferChunkBytes (session.peerMaxPayload / 2) % 2 ^ 32) = _
  rw [hsession, Nat.mod_eq_of_lt hsmall, if_neg hne]

theorem passes_iff {p : DistributorPolicy} {ack : HelloAckMessage} {chunk : ChunkMessage} : Passes p ack chunk ↔
    p.maxPayloadBytes ≤ kAbsoluteMaxPayloadBytes ∧ chunk.data.length ≤ kAbsoluteMaxFieldBytes ∧
      chunk.data.length + chunkOverhead ≤ agreed p ack := by
  constructor
  · rintro ⟨payload, hencode, hframe, hagreed⟩
    obtain ⟨hlength, hfield⟩ := encodeChunk_ok hencode
    exact ⟨(encodeFrame_chunk.mp hframe).1, hfield, by omega⟩
  · rintro ⟨hceiling, hfield, hoverhead⟩
    obtain ⟨payload, hencode⟩ := encodeChunk_of_le hfield
    have hlength := (encodeChunk_ok hencode).1
    have hagreed : payload.length ≤ agreed p ack := by omega
    exact ⟨payload, hencode, encodeFrame_chunk.mpr ⟨hceiling, hagreed.trans (min_le_left _ _)⟩, hagreed⟩

section Speaks

variable {α β : Type} {allowed : Choice → Prop} {P : Request → Prop} {T : β → Prop}

theorem speaks_then {p : Worker α} {f : α → Worker β} {Q : α → Prop} (hp : p.Silent Q)
    (hf : ∀ a, (f a).Speaks allowed P T) : (p >>= f).Speaks allowed P T := by
  rw [Thread.speaks_bind]
  exact hp.speaks.mono fun a _ => hf a

theorem speaks_transmit {request : Request} {f : Status → Worker β} (hrequest : P request)
    (hf : ∀ status, (f status).Speaks allowed P T) : (transmit request >>= f).Speaks allowed P T := by
  rw [Thread.speaks_bind, transmit, Thread.speaks_bind, Thread.speaks_ask]
  intro i _
  split
  · exact hf _
  · exact ⟨hrequest, hf _⟩

theorem speaks_hear {f : Result Incoming → Worker β} (hf : ∀ r, (f r).Speaks allowed P T) :
    (Thread.hear >>= f).Speaks allowed P T := fun r => hf r

end Speaks

/-! What a transfer sends: no chunk longer than what its reader gives. -/

def Short (n : ℕ) (request : Request) : Prop :=
  ∀ chunk, request.frame = .message (.chunk chunk) → chunk.data.length ≤ n

abbrev Measured {α : Type} (n : ℕ) (p : Worker α) : Prop := p.Speaks (Reads n) (Short n) fun _ => True

section Measured

variable {n rounds : ℕ} {session : SessionContext} {record : DeliveryRecord} {prepare : PrepareMessage}

theorem measured_then {α β : Type} {p : Worker α} {f : α → Worker β} {T : α → Prop} (hp : p.Silent T)
    (hf : ∀ a, Measured n (f a)) : Measured n (p >>= f) := speaks_then hp hf

theorem measured_silent {α : Type} {p : Worker α} {T : α → Prop} (hp : p.Silent T) : Measured n p :=
  hp.speaks.mono fun _ _ => trivial

theorem measured_transmit {β : Type} {request : Request} {f : Status → Worker β} (hrequest : Short n request)
    (hf : ∀ status, Measured n (f status)) : Measured n (transmit request >>= f) := speaks_transmit hrequest hf

theorem measured_ask {β : Type} {f : Choice → Worker β} (hf : ∀ i, Reads n i → Measured n (f i)) :
    Measured n (Thread.ask >>= f) := fun i hi => hf i hi

theorem measured_hear {β : Type} {f : Result Incoming → Worker β} (hf : ∀ r, Measured n (f r)) :
    Measured n (Thread.hear >>= f) := fun r => hf r

theorem measured_awaitAcknowledgement : Measured n (awaitAcknowledgement session record rounds) := by
  induction rounds with
  | zero => trivial
  | succ rounds ih =>
    refine measured_hear fun r => ?_
    split
    · split <;> trivial
    · split
      · trivial
      split
      · trivial
      refine measured_then silent_adoptActivation fun a => ?_
      split
      · trivial
      refine measured_then (T := fun _ => True) (silent_state fun _ => trivial) fun record => ?_
      refine measured_then (T := fun _ => True) (silent_state fun _ => trivial) fun epoch => ?_
      exact measured_silent silent_acknowledge
    · exact measured_then silent_recordFailure fun _ => trivial
    · refine measured_transmit (by simp [Short]) fun status => ?_
      split
      · trivial
      · exact ih
    · trivial

theorem measured_commitApply : Measured n (commitApply rounds session record) := by
  refine measured_transmit (by simp [Short]) fun status => ?_
  split
  · trivial
  refine measured_hear fun r => ?_
  dsimp only
  split
  · trivial
  · split
    · exact measured_then silent_recordRetired fun _ => trivial
    · exact measured_then silent_recordFailure fun _ => trivial
  · split
    · exact measured_then silent_recordFailure fun _ => trivial
    split
    · exact measured_then silent_recordFailure fun _ => trivial
    refine measured_then silent_adoptActivation fun a => ?_
    split
    · trivial
    refine measured_then (T := fun _ => True) (silent_state fun _ => trivial) fun record => ?_
    exact measured_awaitAcknowledgement
  · trivial

theorem measured_stageDelivery : Measured n (stageDelivery session record) := by
  refine measured_transmit (by simp [Short]) fun status => ?_
  split
  · trivial
  refine measured_hear fun r => ?_
  dsimp only
  split
  · trivial
  · exact measured_then silent_recordFailure fun _ => trivial
  · split
    · exact measured_then silent_recordFailure fun _ => trivial
    · refine measured_then silent_recordTransition fun a => ?_
      split <;> trivial
  · trivial

theorem measured_prepareApply : Measured n (prepareApply session record) := by
  refine measured_transmit (by simp [Short]) fun status => ?_
  split
  · trivial
  refine measured_hear fun r => ?_
  dsimp only
  split
  · trivial
  · exact measured_then silent_recordFailure fun _ => trivial
  · split
    · exact measured_then silent_recordFailure fun _ => trivial
    · refine measured_then silent_noteEvent fun a => ?_
      split <;> trivial
  · trivial

theorem measured_bind {α β : Type} {p : Worker α} {f : α → Worker β} (hp : Measured n p)
    (hf : ∀ a, Measured n (f a)) : Measured n (p >>= f) := by
  rw [Measured, Thread.speaks_bind]
  exact Thread.Speaks.mono hp fun a _ => hf a

theorem measured_activateDelivery : Measured n (activateDelivery rounds session record) := by
  refine measured_bind ?_ fun r => ?_
  · rw [stageIfVerified]
    split
    · exact measured_stageDelivery
    · trivial
  split
  · trivial
  refine measured_bind ?_ fun r => ?_
  · rw [prepareIfGuaranteed]
    split
    · exact measured_prepareApply
    · trivial
  split
  · trivial
  · exact measured_commitApply

theorem measured_verifyTransfer : Measured n (verifyTransfer rounds session record) := by
  refine measured_hear fun r => ?_
  dsimp only
  split
  · trivial
  · exact measured_then silent_recordFailure fun _ => trivial
  · split
    · exact measured_then silent_recordFailure fun _ => trivial
    · refine measured_then silent_recordTransition fun a => ?_
      split
      · trivial
      · exact measured_activateDelivery
  · trivial

theorem measured_completeTransfer : Measured n (completeTransfer rounds session prepare record) := by
  refine measured_transmit (by simp [Short]) fun status => ?_
  split
  · trivial
  split
  · refine measured_then silent_recordTransition fun a => ?_
    split
    · trivial
    · exact measured_verifyTransfer
  · exact measured_verifyTransfer

/-- The chunks hold what the reader gave. -/
theorem measured_streamChunks {offset : ℕ} : Measured n (streamChunks session prepare record rounds offset) := by
  induction rounds generalizing offset with
  | zero => trivial
  | succ rounds ih =>
    rw [streamChunks]
    split
    · trivial
    refine measured_ask fun stop _ => ?_
    split
    · trivial
    refine measured_ask fun i hi => ?_
    split
    · exact measured_then silent_recordFailure fun _ => trivial
    next data hdata =>
      split
      · exact measured_then silent_recordFailure fun _ => trivial
      refine measured_transmit ?_ fun status => ?_
      · rintro chunk ⟨⟩
        exact hi data hdata
      split
      · trivial
      refine measured_hear fun r => ?_
      split
      · trivial
      · exact measured_then silent_recordFailure fun _ => trivial
      · split
        · trivial
        split
        · exact measured_then silent_recordFailure fun _ => trivial
        split
        · exact measured_then silent_recordFailure fun _ => trivial
        · exact ih
      · trivial

theorem measured_transferArtifact {resumeFrom : ℕ} :
    Measured n (transferArtifact rounds session prepare record resumeFrom) := by
  refine measured_ask fun i _ => ?_
  split
  · exact measured_then silent_recordFailure fun _ => trivial
  refine measured_bind ?_ fun x => ?_
  · rw [noteResume]
    split
    · exact measured_silent silent_noteEvent
    · trivial
  split
  · trivial
  refine measured_bind measured_streamChunks fun r => ?_
  split
  · trivial
  · exact measured_completeTransfer

theorem silent_recordRejected {code : ErrorCode} {detail : Bytes} {cause : Cause} :
    (recordRejected record code detail cause).Silent fun _ => True := by
  rw [recordRejected]
  split
  · exact silent_noteEvent.mono fun _ _ => trivial
  · rw [Thread.silent_bind]
    refine silent_recordTransition.mono fun x _ => ?_
    split
    · trivial
    · rw [Thread.silent_bind]
      exact silent_upsertDelivery.mono fun _ _ => trivial

theorem measured_awaitPrepare : Measured n (awaitPrepare rounds session prepare record) := by
  refine measured_hear fun r => ?_
  split
  · trivial
  · split
    · trivial
    split
    · refine measured_then silent_adoptActivation fun a => ?_
      split
      · trivial
      refine measured_then (T := fun _ => True) (silent_state fun _ => trivial) fun record => ?_
      exact measured_silent silent_acknowledge
    · exact measured_transferArtifact
  · split
    · exact measured_then silent_recordRejected fun _ => trivial
    split
    · exact measured_then silent_recordRetired fun _ => trivial
    split
    · exact measured_then silent_recordRejected fun _ => trivial
    · exact measured_then silent_recordFailure fun _ => trivial
  · exact measured_then silent_recordFailure fun _ => trivial
  · trivial

theorem measured_offerAndTransfer {o : DistributorOptions} : Measured n (offerAndTransfer o rounds session record) := by
  refine measured_then (T := fun _ => True) (silent_state fun _ => trivial) fun epoch => ?_
  refine measured_transmit (by simp [Short]) fun status => ?_
  split
  · trivial
  split
  · refine measured_then silent_recordTransition fun x => ?_
    split
    · trivial
    · exact measured_awaitPrepare
  · exact measured_awaitPrepare

end Measured

/-- Every chunk passes when there is room for one. -/
theorem chunksPass_of_room {o : DistributorOptions} {ack : HelloAckMessage} (hp : 0 < o.policy.transferChunkBytes)
    (hack : ack.maxPayloadBytes ≤ kAbsoluteMaxPayloadBytes) (hroom : Room o.policy ack) : ChunksPass o ack := by
  intro session rounds record w w' q hsession hnothing hrun request hrequest chunk hchunk
  obtain ⟨hceiling, hfield, hoverhead⟩ := hroom
  have hlarge : 2 ≤ agreed o.policy ack := by
    rw [chunkOverhead] at hoverhead
    omega
  rw [chunkBytes_of_room hp hsession hlarge hack] at hrun
  generalize min o.policy.transferChunkBytes (agreed o.policy ack / 2) = n at *
  have hshort : ∀ m ∈ w'.1, m ∈ w.1 ∨ Short n m :=
    (Thread.Speaks.reaches (R := fun l l' => ∀ m ∈ l', m ∈ l ∨ Short n m) measured_offerAndTransfer
      (fun l m hm => .inl hm) (fun l l' l'' h h' m hm => (h' m hm).elim (h m) .inr) (fun i w hi => hi)
      (fun m w e hm he m' hm' => by
        obtain rfl : e = w.1 ++ [m] := he
        refine (List.mem_append.mp hm').imp id fun hnew => ?_
        rwa [List.mem_singleton.mp hnew])
      (fun r w e he m hm => by
        obtain rfl : e = w.1 := he
        exact .inl hm) hrun).1
  have hlength : chunk.data.length ≤ n := by
    obtain hin | hshort := hshort request hrequest
    · rw [hnothing] at hin
      cases hin
    · exact hshort chunk hchunk
  exact passes_iff.mpr ⟨hceiling, hlength.trans hfield, by omega⟩

/-! A transfer whose reader gives as much as it was asked for. -/

section Runs

variable {n : ℕ} {data : Bytes} {w : World}

/-- Some run from here sends the chunk with these bytes. -/
def Delivers (n : ℕ) (data : Bytes) (x : Worker Status × World) : Prop :=
  ∃ y, Relation.ReflTransGen (fun x y => ∃ c, Thread.Move (supplied (Reads n)) x.1 x.2 c y.1 y.2) x y ∧
    ∃ request ∈ y.2.1, ∃ chunk, request.frame = .message (.chunk chunk) ∧ chunk.data = data

theorem Delivers.head {x x' : Worker Status × World} (h : Delivers n data x') {c : Option Copy}
    (hmove : Thread.Move (supplied (Reads n)) x.1 x.2 c x'.1 x'.2) : Delivers n data x := by
  obtain ⟨y, hrun, hsent⟩ := h
  exact ⟨y, .head ⟨c, hmove⟩ hrun, hsent⟩

theorem delivers_epoch {f : Epoch → Worker Status} (h : Delivers n data (f w.2.mem.epoch, w)) :
    Delivers n data (epoch >>= f, w) := h.head .look

theorem delivers_ask {f : Choice → Worker Status} {i : Choice} (hi : Reads n i) (h : Delivers n data (f i, w)) :
    Delivers n data (Thread.ask >>= f, w) := h.head (.input hi)

theorem delivers_hear {f : Result Incoming → Worker Status} (r : Result Incoming) (h : Delivers n data (f r, w)) :
    Delivers n data (Thread.hear >>= f, w) := h.head (c := none) (.receive (r := r) rfl)

theorem readsNothing : Reads n {} := fun _ hdata => by
  cases hdata
  exact Nat.zero_le _

theorem delivers_transmit {request : Request} {f : Status → Worker Status}
    (h : Delivers n data (f (.ok ()), (w.1 ++ [request], w.2))) : Delivers n data (transmit request >>= f, w) :=
  delivers_ask (i := {}) readsNothing (h.head (c := none) (.emit rfl))

theorem delivers_streamChunks {session : SessionContext} {prepare : PrepareMessage} {record : DeliveryRecord}
    {f : Option Status → Worker Status} (hsize : 0 < record.sizeBytes) (hdata : data ≠ []) (hlength : data.length ≤ n) :
    Delivers n data (streamChunks session prepare record 1 0 >>= f, w) := by
  have hreads : Reads n { bytes := .ok data } := by
    rintro _ ⟨⟩
    exact hlength
  rw [streamChunks, if_neg (not_le.mpr hsize)]
  refine delivers_ask (i := {}) readsNothing ?_
  refine delivers_ask (i := { bytes := .ok data }) hreads ?_
  let chunk : ChunkMessage := { stream := prepare.stream, sequence := 0, offset := 0, data }
  let request : Request := ⟨session.target, some record.id, .message (.chunk chunk)⟩
  change Delivers n data ((if data = [] then _ else _) >>= f, w)
  rw [if_neg hdata]
  have hsent {x : Worker Status × World} (hx : request ∈ x.2.1) : Delivers n data x :=
    ⟨x, .refl, request, hx, chunk, rfl, rfl⟩
  refine delivers_ask (i := {}) readsNothing ?_
  have hin : request ∈ w.1 ++ [request] := List.mem_append_right _ List.mem_cons_self
  have hafter {q : Worker Status} : Delivers n data (q, (w.1 ++ [request], w.2)) := hsent hin
  exact hafter.head (c := none) (.emit rfl)

/-- What is offered is transferred once the target takes up the offer. -/
theorem delivers_offerAndTransfer {o : DistributorOptions} {session : SessionContext} {record : DeliveryRecord}
    (hstate : record.state = .offered) (hsize : 0 < record.sizeBytes) (hdata : data ≠ []) (hlength : data.length ≤ n) :
    Delivers n data (offerAndTransfer o 1 session record, w) := by
  rw [offerAndTransfer]
  refine delivers_epoch (delivers_transmit ?_)
  dsimp only
  rw [if_neg (by rw [hstate]; decide)]
  generalize prepareMessage o session w.2.mem.epoch record = prepare
  let ack : PrepareAckMessage := {
    deployment := record.id
    stream := prepare.stream
    committedGeneration := 0
    committedDigest := .zero 32
    priorState := .prepared
    priorGeneration := 0
    priorDigest := .zero 32 }
  refine delivers_hear (.ok (.reply (.prepareAck ack))) ?_
  dsimp only
  rw [if_neg (by simp [ack])]
  refine delivers_ask (i := {}) readsNothing ?_
  exact delivers_streamChunks hsize hdata hlength

end Runs

/-- The chunks of a session pass in every run exactly when there is room for them. -/
theorem chunksPass_iff {o : DistributorOptions} {ack : HelloAckMessage} (hp : 0 < o.policy.transferChunkBytes)
    (hack : ack.maxPayloadBytes ≤ kAbsoluteMaxPayloadBytes) : ChunksPass o ack ↔ Room o.policy ack := by
  refine ⟨fun h => ?_, chunksPass_of_room hp hack⟩
  let session : SessionContext := {
    target := []
    targetTerm := 0
    targetIncarnation := .zero 16
    peerMaxPayload := agreed o.policy ack }
  let record : DeliveryRecord := { state := .offered, sizeBytes := 1 }
  have hlongest (n : ℕ) (hn : 0 < n) (hbytes : (prepareMessage o session 0 record).chunkBytes = n) :
      o.policy.maxPayloadBytes ≤ kAbsoluteMaxPayloadBytes ∧ n ≤ kAbsoluteMaxFieldBytes ∧
        n + chunkOverhead ≤ agreed o.policy ack := by
    have hlength : (List.replicate n (0 : UInt8)).length = n := List.length_replicate
    have hne : List.replicate n (0 : UInt8) ≠ [] := by
      rw [← List.length_pos_iff, hlength]
      exact hn
    have hdelivers : Delivers n (List.replicate n 0) (offerAndTransfer o 1 session record, ([], {})) :=
      delivers_offerAndTransfer rfl (by decide) hne hlength.le
    obtain ⟨⟨q, w'⟩, hrun, request, hrequest, chunk, hchunk, hdata⟩ := hdelivers
    rw [← hbytes] at hrun
    have hpasses := passes_iff.mp (h session 1 record ([], {}) w' q rfl rfl hrun request hrequest chunk hchunk)
    rwa [hdata, hlength] at hpasses
  by_cases hlarge : 2 ≤ agreed o.policy ack
  · have hbytes : (prepareMessage o session 0 record).chunkBytes = _ := chunkBytes_of_room hp rfl hlarge hack
    obtain ⟨hceiling, hfield, hoverhead⟩ := hlongest _ (by omega) hbytes
    exact ⟨hceiling, hfield, hoverhead⟩
  · -- the fallback of 1024 bytes does not fit into one byte either
    have hzero : agreed o.policy ack / 2 = 0 := by omega
    have hbytes : (prepareMessage o session 0 record).chunkBytes = 1024 := by
      change (if min o.policy.transferChunkBytes (agreed o.policy ack / 2) % 2 ^ 32 = 0 then 1024
        else min o.policy.transferChunkBytes (agreed o.policy ack / 2) % 2 ^ 32) = _
      rw [hzero, Nat.min_zero]
      rfl
    obtain ⟨-, -, hoverhead⟩ := hlongest 1024 (by decide) hbytes
    omega

theorem silent_upsertTarget {id : TargetId} {copy : Option TargetRuntime} {runtime : TargetRuntime} :
    (upsertTarget id copy runtime).Silent fun _ => True := by
  rw [upsertTarget, Thread.silent_bind]
  exact silent_commit fun _ => trivial

theorem silent_markContactCurrent {target : TargetId} {current : Bool} {atMillis : ℤ} :
    (markContactCurrent target current atMillis).Silent fun _ => True := by
  rw [markContactCurrent, Thread.silent_bind, Thread.silent_update]
  exact fun _ => trivial

theorem silent_adoptTarget {target : TargetId} {ack : HelloAckMessage} :
    (adoptTarget target ack).Silent fun _ => True := by
  have hrearm (records : List DeliveryRecord) : (rearm ack.term records).Silent fun _ => True := by
    induction records with
    | nil => trivial
    | cons record rest ih =>
      rw [rearm, Thread.silent_bind]
      refine silent_noteEvent.mono fun x _ => ?_
      split
      · trivial
      · exact ih
  rw [adoptTarget, Thread.silent_bind]
  refine silent_state fun s => ?_
  rw [Thread.silent_bind]
  refine silent_clock fun now => ?_
  rw [Thread.silent_bind]
  refine silent_upsertTarget.mono fun status _ => ?_
  split
  · trivial
  rw [Thread.silent_bind]
  refine silent_markContactCurrent.mono fun _ _ => ?_
  split
  · rw [rearmAfterRestart, Thread.silent_bind]
    exact silent_state fun s => hrearm _
  · trivial

/-- The session that a handshake ends with has the smaller of the two ceilings. -/
theorem admitTarget_agreed {o : DistributorOptions} {target : TargetId} {ack : HelloAckMessage} {w w' : World}
    {session : SessionContext} (hrun : Thread.Ends wire (admitTarget o target ack) w (.ok session) w') :
    session.peerMaxPayload = agreed o.policy ack := by
  suffices hadmits : (admitTarget o target ack).Speaks (fun _ => True) (fun _ => True)
      fun r => ∀ session, r = .ok session → session.peerMaxPayload = agreed o.policy ack by
    exact (Thread.Speaks.reaches (R := fun _ _ => True) hadmits (fun _ => trivial) (fun _ _ _ _ _ => trivial)
      (fun _ _ _ => trivial) (fun _ _ _ _ _ => trivial) (fun _ _ _ _ => trivial) hrun).2 session rfl
  have hfailed (e : Error) (session : SessionContext) (h : (Except.error e : Result SessionContext) = .ok session) :
      session.peerMaxPayload = agreed o.policy ack := by cases h
  rw [admitTarget]
  split
  · exact hfailed _
  split
  · exact hfailed _
  rw [Thread.speaks_bind]
  refine Thread.Silent.speaks (T := fun _ => True) ?_ |>.mono fun status _ => ?_
  · rw [verifyTag]
    split
    · exact fun _ => trivial
    · trivial
  split
  · exact hfailed _
  rw [Thread.speaks_bind]
  refine (silent_state (T := fun _ => True) fun _ => trivial).speaks.mono fun s _ => ?_
  split
  · exact hfailed _
  rw [Thread.speaks_bind, transmit, Thread.speaks_bind, Thread.speaks_ask]
  intro i _
  split
  · exact hfailed _
  refine ⟨trivial, ?_⟩
  change Thread.Speaks _ _ _ (adoptTarget target ack >>= _)
  rw [Thread.speaks_bind]
  refine silent_adoptTarget.speaks.mono fun status _ => ?_
  split
  · exact hfailed _
  · rintro _ ⟨⟩
    rfl

/-! The target's frames. -/

/-- What the sessions of a controller with this policy ask for. -/
def Asks (p : DistributorPolicy) : Message → Prop
  | .reconcileRequest m => m.maxFindings = min p.maxReconcileFindings kMaxFindingsInReport
  | _ => True

/-- Whatever an agent sends, in any run, in answer to such a controller fits. -/
def FramesFit (p : DistributorPolicy) : Prop :=
  ∀ (o : AgentOptions) (M : Machine), Agent.Reachable o (fun _ => True) Agent.Arriving M →
    ∀ a ∈ M.world.sent, Asks p a.request → AtMost p.maxPayloadBytes a.reply.encode

section Asks

variable {p : DistributorPolicy} {session : SessionContext} {report : ReconcileReportMessage} {record : DeliveryRecord}

def Asking (p : DistributorPolicy) (r : Request) : Prop := ∀ m, r.frame = .message m → Asks p m

theorem asking_resolveWindow :
    (resolveWindow session report record).Speaks (fun _ => True) (Asking p) fun _ => True := by
  refine speaks_transmit (by rintro _ ⟨⟩; trivial) fun status => ?_
  split
  · trivial
  refine speaks_hear fun r => ?_
  split <;> trivial

theorem asking_reconcileRecord :
    (reconcileRecord session report record).Speaks (fun _ => True) (Asking p) fun _ => True := by
  rw [reconcileRecord]
  dsimp only
  split
  · refine speaks_then silent_adoptActivation fun a => ?_
    split
    · trivial
    refine speaks_then (Q := fun _ => True) (silent_state fun _ => trivial) fun record => ?_
    exact silent_acknowledge.speaks.mono fun _ _ => trivial
  · exact speaks_then silent_recordRetired fun _ => trivial
  · exact asking_resolveWindow
  all_goals trivial

theorem asking_reconcileRecords {records : List DeliveryRecord} :
    (reconcileRecords session report records).Speaks (fun _ => True) (Asking p) fun _ => True := by
  induction records with
  | nil => trivial
  | cons record rest ih =>
    rw [reconcileRecords]
    split
    · exact ih
    · rw [Thread.speaks_bind]
      refine Thread.Speaks.mono asking_reconcileRecord fun status _ => ?_
      split
      · trivial
      · exact ih

/-- A session asks for as many findings as the policy has it. -/
theorem asking_reconcile {o : DistributorOptions} :
    (reconcile o session).Speaks (fun _ => True) (Asking o.policy) fun _ => True := by
  refine speaks_then (Q := fun _ => True) (silent_state fun _ => trivial) fun epoch => ?_
  refine speaks_then (Q := fun _ => True) (silent_state fun _ => trivial) fun incarnation => ?_
  refine speaks_transmit (by rintro _ ⟨⟩; rfl) fun status => ?_
  split
  · trivial
  refine speaks_hear fun r => ?_
  split
  · trivial
  · rw [adoptReport]
    split
    · trivial
    split
    · trivial
    split
    · trivial
    refine speaks_then (Q := fun _ => True) (silent_state fun _ => trivial) fun s => ?_
    refine speaks_then (Q := fun _ => True) (silent_clock fun _ => trivial) fun now => ?_
    refine speaks_then silent_upsertTarget fun status => ?_
    split
    · trivial
    refine speaks_then silent_markContactCurrent fun _ => ?_
    rw [applyReconcileReport, Thread.speaks_bind, Thread.speaks_bind]
    refine (silent_state (T := fun _ => True) fun _ => trivial).speaks.mono fun s _ => ?_
    refine Thread.Speaks.mono asking_reconcileRecords fun status _ => ?_
    split <;> trivial
  · trivial

end Asks

theorem framesFit_iff {p : DistributorPolicy} :
    FramesFit p ↔ largestReply p.maxReconcileFindings ≤ p.maxPayloadBytes := by
  have hasked : largestReply (min p.maxReconcileFindings kMaxFindingsInReport) = largestReply p.maxReconcileFindings := by
    rw [largestReply, largestReply, min_assoc, min_self]
  constructor
  · intro h
    obtain ⟨hrun, hcrowded⟩ := Agent.crowded_state
    obtain ⟨M, hM, a, ha, m, hrequest, hmax, payload, hencode, hlength⟩ :=
      Agent.longest_sent Agent.reachable_crowded hrun hcrowded (min_le_right p.maxReconcileFindings _)
    have hasks : Asks p a.request := by
      rw [hrequest]
      exact hmax
    rw [← hasked, ← hlength]
    exact h _ M hM a ha hasks payload hencode
  · intro hle o M hM a ha hasks
    have hbrief := Agent.brief_sent hM ha (n := min p.maxReconcileFindings kMaxFindingsInReport) fun m hm => by
      rw [hm] at hasks
      exact le_of_eq hasks
    exact (atMost_reply hbrief).mono (hasked.le.trans hle)

theorem validate_transferChunk {p : DistributorPolicy} (h : p.validate = .ok ()) : 0 < p.transferChunkBytes := by
  rw [DistributorPolicy.validate] at h
  split at h
  · cases h
  split at h
  · cases h
  split at h
  · cases h
  split at h
  · cases h
  next hne => exact Nat.pos_of_ne_zero hne

theorem exampleAck_read (ceiling : ℕ) (hne : ceiling ≠ 0) (hle : ceiling ≤ kAbsoluteMaxPayloadBytes) :
    ∃ payload, decodeHelloAck payload = .ok { exampleAck 1 with maxPayloadBytes := ceiling } := by
  refine ⟨_, (helloAck_canonical _ _).mpr ⟨?_, rfl⟩⟩
  obtain ⟨hversion, htarget, hterm, hset, -, -, hbits⟩ : (exampleAck 1).Readable := by
    unfold HelloAckMessage.Readable
    decide
  exact ⟨hversion, htarget, hterm, hset, hne, hle, hbits⟩

end Distributor

end ConfigurationFabric
