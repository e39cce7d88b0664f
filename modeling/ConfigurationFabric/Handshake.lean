import ConfigurationFabric.AgentSteps
import ConfigurationFabric.Codec
import ConfigurationFabric.Frames

/-! The authenticated handshake, on the bytes of its frames. -/

namespace ConfigurationFabric

open LittleEndian
open Program
open ByteReader

/-! Frames. -/

structure Frame where
  type : FrameType
  payload : Bytes

/-! Session messages. -/

def encodeHello (m : HelloMessage) : Result Bytes := do
  if m.minWireVersion > m.maxWireVersion then .fail .invalidArgument "hello version range is inverted"
  let nodeId ← ByteWriter.string m.nodeId kMaxIdentifierLength
  return nodeId ++ ByteWriter.u64 m.epoch ++ m.incarnation.1 ++ m.nonce.1 ++ ByteWriter.u16 m.minWireVersion ++
    ByteWriter.u16 m.maxWireVersion ++ ByteWriter.u32 m.maxPayloadBytes ++ ByteWriter.u32 m.capabilities ++ m.authTag.1

def readHello : ByteReader HelloMessage := do
  let nodeId ← identifier parseNodeId
  let epoch ← u64
  let incarnation ← opaque128
  let nonce ← opaque128
  let minWireVersion ← u16
  let maxWireVersion ← u16
  let maxPayloadBytes ← u32
  let capabilities ← u32
  let authTag ← ByteReader.digest
  requireEnd
  if minWireVersion > maxWireVersion then
    ByteReader.fail .protocolViolation "hello advertises an inverted version range"
  if capabilities &&& (2 ^ 32 - 1 - kCapabilityKnownMask) ≠ 0 then
    ByteReader.fail .capabilityMismatch "hello advertises unknown capability bits"
  if maxPayloadBytes = 0 ∨ maxPayloadBytes > kAbsoluteMaxPayloadBytes then
    ByteReader.fail .oversizePayload "hello advertises an out-of-range payload ceiling"
  return { nodeId, epoch, incarnation, nonce, minWireVersion, maxWireVersion, maxPayloadBytes, capabilities, authTag }

def decodeHello (payload : Bytes) : Result HelloMessage := (·.1) <$> readHello payload

def encodeHelloAck (m : HelloAckMessage) : Result Bytes := do
  let target ← ByteWriter.string m.target kMaxIdentifierLength
  let committedArtifact ← ByteWriter.string m.committedArtifact kMaxIdentifierLength
  return ByteWriter.u16 m.wireVersion ++ target ++ ByteWriter.u8 m.targetClass.value ++
    ByteWriter.u8 m.guarantee.value ++ ByteWriter.u64 m.term ++ m.incarnation.1 ++ m.nonce.1 ++
    ByteWriter.u32 m.maxPayloadBytes ++ ByteWriter.u32 m.capabilities ++ ByteWriter.u64 m.committedGeneration ++
    m.committedDigest.1 ++ committedArtifact ++ ByteWriter.u32 m.restartCount ++ m.authTag.1

def encodeHelloConfirm (authTag : Digest) : Bytes := authTag.1

def decodeHelloConfirm (payload : Bytes) : Result Digest :=
  (·.1) <$> (do let authTag ← ByteReader.digest; requireEnd; return authTag : ByteReader Digest) payload

/-! Tags: the last bytes of a payload. -/

def kAuthTagBytes : ℕ := 32

def zeroTag (payload : Bytes) : Bytes :=
  payload.take (payload.length - kAuthTagBytes) ++ List.replicate kAuthTagBytes 0

def tagOf (payload : Bytes) : Bytes := payload.drop (payload.length - kAuthTagBytes)

def withTag (payload : Bytes) (tag : Bytes) : Bytes := payload.take (payload.length - kAuthTagBytes) ++ tag

def sealAuthenticated (mac : Bytes → Digest) (payload : Bytes) : Result Bytes :=
  if payload.length < kAuthTagBytes then
    .fail .internal "payload is too short to carry an authentication tag"
  else .ok (withTag payload (mac (zeroTag payload)).1)

def verifyAuthenticated (mac : Bytes → Digest) (payload : Bytes) : Status :=
  if payload.length < kAuthTagBytes then
    .fail .unauthenticated "payload is too short to carry an authentication tag"
  else if !constantTimeEquals (tagOf payload) (mac (zeroTag payload)).1 then
    .fail .unauthenticated "peer authentication tag does not match"
  else .ok ()

/-- The shared secret is behind `mac`, the HMAC under it. -/
structure Authentication where
  authenticate : Bool := true
  mac : Bytes → Digest

def hmacTag (key : Digest) (message : Bytes) : Digest := ⟨hmacSha256 key.1 message, sha256State_bytes_length _⟩

/-! The controller's frames. -/

namespace Distributor

def openingHello (mac : Bytes → Digest) (hello : HelloMessage) : Result Bytes := do
  sealAuthenticated mac (← encodeHello hello)

def confirmation (mac : Bytes → Digest) (ackPayload : Bytes) : Bytes := encodeHelloConfirm (mac (zeroTag ackPayload))

end Distributor

namespace Agent

/-- What the other side of a connection sends, the second frame in knowledge of the acknowledgement. -/
structure Peer where
  hello : Result Frame
  confirm : Bytes → Result Frame

/-- The controller's confirmation is the tag over the exact acknowledgement this process produced. -/
def checkConfirm (a : Authentication) (hello : HelloMessage) (encoded authTag : Bytes) : Agent (Result Session) := do
  if a.authenticate then
    if !(verifyAuthenticated a.mac (withTag encoded authTag)).isOk then
      return ← refuseHello hello .unauthenticated "controller failed to confirm the session transcript"
  else if authTag.any (· ≠ 0) then
    return ← refuseHello hello .unauthenticated "authentication is disabled but the controller sent a tag"
  return .ok { authorityEpoch := hello.epoch }

def awaitConfirm (a : Authentication) (peer : Peer) (hello : HelloMessage) (encoded : Bytes) :
    Agent (Result Session) := do
  match peer.confirm encoded with
  | .error e => return .error e
  | .ok frame =>
    if frame.type ≠ .helloConfirm then
      return .fail .unexpectedMessage "expected a hello-confirm frame" (frameTypeName frame.type)
    match decodeHelloConfirm frame.payload with
    | .error e => return .error e
    | .ok authTag => checkConfirm a hello encoded authTag.1

/-- The acknowledgement on the wire. -/
def acknowledge (a : Authentication) (ack : HelloAckMessage) : Result Bytes := do
  let encoded ← encodeHelloAck ack
  if a.authenticate then sealAuthenticated a.mac encoded else return encoded

def handshake (a : Authentication) (peer : Peer) : Agent (Result Session) := do
  match peer.hello with
  | .error e => return .error e
  | .ok frame =>
    if frame.type ≠ .hello then
      return .fail .unexpectedMessage "expected a hello frame" (frameTypeName frame.type)
    match decodeHello frame.payload with
    | .error e => return .error e
    | .ok hello =>
      if hello.minWireVersion > kWireVersion ∨ hello.maxWireVersion < kWireVersion then
        return ← refuseHello hello .unsupportedVersion "no mutually supported wire version"
      if a.authenticate && !(verifyAuthenticated a.mac frame.payload).isOk then
        return ← refuseHello hello .unauthenticated "peer authentication tag did not verify"
      match ← adoptAuthority hello with
      | .error e => return .error e
      | .ok ack =>
        match acknowledge a ack with
        | .error e => return .error e
        | .ok encoded =>
          match ← send (.hello hello) (.helloAck ack) with
          | .error e => return .error e
          | .ok () => awaitConfirm a peer hello encoded

end Agent

/-! What the tags cover. -/

theorem foldl_or_eq_zero (l : Bytes) (acc : UInt8) :
    l.foldl (fun acc x => acc ||| x) acc = 0 ↔ acc = 0 ∧ ∀ x ∈ l, x = 0 := by
  induction l generalizing acc with
  | nil => simp
  | cons x l ih =>
    rw [List.foldl_cons, ih, UInt8.or_eq_zero_iff]
    simp [and_assoc]

theorem zipWith_xor_eq_zero {a b : Bytes} (h : a.length = b.length) :
    (∀ x ∈ List.zipWith (fun x y => x ^^^ y) a b, x = 0) ↔ a = b := by
  induction a generalizing b with
  | nil =>
    cases b with
    | nil => simp
    | cons y b => cases h
  | cons x a ih =>
    cases b with
    | nil => cases h
    | cons y b =>
      rw [List.zipWith_cons_cons, List.forall_mem_cons, ih (Nat.succ.inj h), UInt8.xor_eq_zero_iff, List.cons_eq_cons]

theorem constantTimeEquals_iff (a b : Bytes) : constantTimeEquals a b = true ↔ a = b := by
  rw [constantTimeEquals, Bool.and_eq_true, beq_iff_eq, beq_iff_eq, foldl_or_eq_zero]
  constructor
  · rintro ⟨hlength, -, hzero⟩
    exact (zipWith_xor_eq_zero hlength).mp hzero
  · rintro rfl
    exact ⟨rfl, rfl, (zipWith_xor_eq_zero rfl).mpr rfl⟩

section Tags

variable {p q tag : Bytes}

theorem withTag_tagOf (p : Bytes) : withTag p (tagOf p) = p := List.take_append_drop _ p

theorem length_withTag (hp : kAuthTagBytes ≤ p.length) (ht : tag.length = kAuthTagBytes) :
    (withTag p tag).length = p.length := by
  rw [withTag, List.length_append, List.length_take, ht]
  omega

theorem tagOf_withTag (hp : kAuthTagBytes ≤ p.length) (ht : tag.length = kAuthTagBytes) :
    tagOf (withTag p tag) = tag := by
  rw [tagOf, length_withTag hp ht, withTag]
  exact List.drop_left' (by rw [List.length_take]; omega)

theorem zeroTag_withTag (hp : kAuthTagBytes ≤ p.length) (ht : tag.length = kAuthTagBytes) :
    zeroTag (withTag p tag) = zeroTag p := by
  rw [zeroTag, length_withTag hp ht, withTag, List.take_left' (by rw [List.length_take]; omega), zeroTag]

/-- A payload is its covered bytes and its tag. -/
theorem eq_of_zeroTag_eq (hp : kAuthTagBytes ≤ p.length) (hzero : zeroTag q = zeroTag p) (htag : tagOf q = tagOf p) :
    q = p := by
  have hq : kAuthTagBytes ≤ q.length := by
    have hlength := congrArg List.length htag
    rw [tagOf, tagOf, List.length_drop, List.length_drop] at hlength
    omega
  have hsame : q.length = p.length := by
    have hlength := congrArg List.length hzero
    rw [zeroTag, zeroTag, List.length_append, List.length_append, List.length_take, List.length_take] at hlength
    omega
  rw [← withTag_tagOf q, ← withTag_tagOf p, htag, withTag, withTag]
  rw [zeroTag, zeroTag] at hzero
  rw [List.append_cancel_right hzero]

theorem verifyAuthenticated_iff (mac : Bytes → Digest) (p : Bytes) :
    (verifyAuthenticated mac p).isOk = true ↔ kAuthTagBytes ≤ p.length ∧ tagOf p = (mac (zeroTag p)).1 := by
  rw [verifyAuthenticated]
  split
  case isTrue hshort => exact ⟨fun h => (by cases h), fun h => absurd hshort (not_lt.mpr h.1)⟩
  case isFalse hlong =>
    split
    case isTrue hne =>
      refine ⟨fun h => (by cases h), fun h => ?_⟩
      rw [(constantTimeEquals_iff _ _).mpr h.2] at hne
      cases hne
    case isFalse heq =>
      refine ⟨fun _ => ⟨not_lt.mp hlong, ?_⟩, fun _ => rfl⟩
      exact (constantTimeEquals_iff _ _).mp (by simpa using heq)

/-- A sealed payload verifies. -/
theorem verify_seal (mac : Bytes → Digest) (hp : kAuthTagBytes ≤ p.length) :
    (verifyAuthenticated mac (withTag p (mac (zeroTag p)).1)).isOk = true := by
  have ht := (mac (zeroTag p)).2
  rw [verifyAuthenticated_iff, length_withTag hp ht, tagOf_withTag hp ht, zeroTag_withTag hp ht]
  exact ⟨hp, rfl⟩

end Tags

/-! Peers without the key. -/

namespace Agent

/-- The payload is taken as a hello in this state. -/
def admits (mac : Bytes → Digest) (s : AgentState) (payload : Bytes) : Bool :=
  match decodeHello payload with
  | .error _ => false
  | .ok hello =>
    hello.minWireVersion ≤ kWireVersion ∧ kWireVersion ≤ hello.maxWireVersion ∧
      (verifyAuthenticated mac payload).isOk = true ∧
      ¬ (s.lastControllerEpoch ≠ 0 ∧ hello.epoch < s.lastControllerEpoch) ∧
      ¬ (s.lastControllerEpoch ≠ 0 ∧ hello.epoch = s.lastControllerEpoch ∧ s.lastControllerIncarnation.isSet = true ∧
        hello.incarnation ≠ s.lastControllerIncarnation)

/-- A tag that is right was seen on the same bytes. -/
def WithoutKey (mac : Bytes → Digest) (seen : List Bytes) (covered tag : Bytes) : Prop :=
  tag = (mac covered).1 → ∃ q ∈ seen, zeroTag q = covered ∧ tagOf q = tag

/-- What a peer sends, from the payloads it has observed and the acknowledgement of this session. -/
structure Strategy where
  hello : List Bytes → Result Frame
  confirm : List Bytes → Bytes → Result Frame

def Strategy.peer (S : Strategy) (observed : List Bytes) : Peer := ⟨S.hello observed, S.confirm observed⟩

structure Strategy.Keyless (S : Strategy) (mac : Bytes → Digest) (observed : List Bytes) : Prop where
  hello : ∀ frame, S.hello observed = .ok frame →
    WithoutKey mac observed (zeroTag frame.payload) (tagOf frame.payload)
  confirm : ∀ ack frame, S.confirm observed ack = .ok frame →
    WithoutKey mac (ack :: observed) (zeroTag ack) frame.payload

/-- An observed payload as the hello, and the acknowledgement's own tag as its confirmation. -/
def replay (payload : Bytes) : Strategy := ⟨fun _ => .ok ⟨.hello, payload⟩, fun _ ack => .ok ⟨.helloConfirm, tagOf ack⟩⟩

theorem replay_keyless {mac : Bytes → Digest} {observed : List Bytes} {payload : Bytes} (h : payload ∈ observed) :
    (replay payload).Keyless mac observed where
  hello frame hframe := by
    obtain rfl := Except.ok.inj hframe
    exact fun _ => ⟨payload, h, rfl, rfl⟩
  confirm ack frame hframe := by
    obtain rfl := Except.ok.inj hframe
    exact fun _ => ⟨ack, List.mem_cons_self, rfl, rfl⟩

section Handshake

variable {mac : Bytes → Digest} {allowed : Env → Prop} {w : World}

theorem decodeHelloConfirm_eq {tag : Bytes} (h : tag.length = 32) : decodeHelloConfirm tag = .ok ⟨tag, h⟩ := by
  have htake : tag.take 32 = tag := List.take_of_length_le h.le
  have hdrop : tag.drop 32 = [] := List.drop_of_length_le h.le
  simp only [decodeHelloConfirm, ByteReader.digest, fixedBytes, requireEnd, h, htake, hdrop, bind, StateT.bind, Except.bind,
    get, getThe, MonadStateOf.get, StateT.get, le_refl, dif_pos]
  rfl

theorem encodeHelloAck_ok {ack : HelloAckMessage} (ht : ack.target.length ≤ kMaxIdentifierLength)
    (ha : ack.committedArtifact.length ≤ kMaxIdentifierLength) :
    ∃ encoded, encodeHelloAck ack = .ok encoded ∧ kAuthTagBytes ≤ encoded.length := by
  have hstring (b : Bytes) (hb : b.length ≤ kMaxIdentifierLength) :
      ByteWriter.string b kMaxIdentifierLength = .ok (ByteWriter.u32 b.length ++ b) := by
    rw [ByteWriter.string, if_neg (not_lt.mpr hb), if_neg]
    have hmax : kMaxIdentifierLength ≤ kAbsoluteMaxFieldBytes := by decide
    exact not_lt.mpr (hb.trans hmax)
  refine ⟨_, by rw [encodeHelloAck, hstring _ ht, hstring _ ha]; rfl, ?_⟩
  rw [List.length_append, ack.authTag.2]
  exact Nat.le_add_left _ _

theorem acknowledge_ok {ack : HelloAckMessage} (ht : ack.target.length ≤ kMaxIdentifierLength)
    (ha : ack.committedArtifact.length ≤ kMaxIdentifierLength) : ∃ encoded, acknowledge { mac } ack = .ok encoded ∧
      kAuthTagBytes ≤ encoded.length ∧ (verifyAuthenticated mac encoded).isOk = true := by
  obtain ⟨encoded, hencoded, hlong⟩ := encodeHelloAck_ok ht ha
  refine ⟨withTag encoded (mac (zeroTag encoded)).1, ?_, ?_, verify_seal mac hlong⟩
  · rw [acknowledge, hencoded]
    exact if_neg (not_lt.mpr hlong)
  · rw [length_withTag hlong (mac (zeroTag encoded)).2]
    exact hlong

theorem steps_adoptAuthority_of {hello : HelloMessage}
    (hstale : ¬ (w.mem.lastControllerEpoch ≠ 0 ∧ hello.epoch < w.mem.lastControllerEpoch))
    (hfenced : ¬ (w.mem.lastControllerEpoch ≠ 0 ∧ hello.epoch = w.mem.lastControllerEpoch ∧
      w.mem.lastControllerIncarnation.isSet = true ∧ hello.incarnation ≠ w.mem.lastControllerIncarnation))
    {Q : Result HelloAckMessage → World → Prop}
    (hQ : ∀ ack w', ack.target = w.mem.target → ack.committedArtifact = w.mem.committedArtifact → Q (.ok ack) w') :
    (adoptAuthority hello).Steps allowed (fun _ _ => True) Q w := by
  simp only [adoptAuthority, Prog.steps_bind, steps_state, if_neg hstale, if_neg hfenced, steps_commit, Prog.steps_ask]
  exact ⟨trivial, fun e _ => hQ _ _ rfl rfl⟩

/-- The acknowledgement confirms itself. -/
theorem steps_awaitConfirm_echo {payload encoded : Bytes} {hello : HelloMessage} {observed : List Bytes}
    (hlong : kAuthTagBytes ≤ encoded.length) (hverify : (verifyAuthenticated mac encoded).isOk = true) :
    (awaitConfirm { mac } ((replay payload).peer observed) hello encoded).Steps allowed (fun _ _ => True)
      (fun r _ => ∃ session, r = .ok session) w := by
  have htag : (tagOf encoded).length = 32 := by
    rw [tagOf, List.length_drop]
    exact Nat.sub_sub_self hlong
  simp only [awaitConfirm, Strategy.peer, replay, ne_eq, not_true_eq_false, if_false, decodeHelloConfirm_eq htag,
    checkConfirm, withTag_tagOf, hverify, if_true, Bool.not_true, Bool.false_eq_true]
  exact ⟨_, rfl⟩

/-- A payload that is admitted opens a session for whoever sends it. -/
theorem steps_replay {payload : Bytes} (ht : w.mem.target.length ≤ kMaxIdentifierLength)
    (ha : w.mem.committedArtifact.length ≤ kMaxIdentifierLength) (hadmits : admits mac w.mem payload = true)
    (hconnected : ∀ e, allowed e → e.connected = true) (observed : List Bytes) :
    (handshake { mac } ((replay payload).peer observed)).Steps allowed (fun _ _ => True)
      (fun r _ => ∃ session, r = .ok session) w := by
  unfold admits at hadmits
  split at hadmits
  case h_1 => cases hadmits
  case h_2 hello hdecode =>
    obtain ⟨hmin, hmax, hverify, hstale, hfenced⟩ := of_decide_eq_true hadmits
    have hversion : ¬ (hello.minWireVersion > kWireVersion ∨ hello.maxWireVersion < kWireVersion) := by
      rw [not_or]
      exact ⟨not_lt.mpr hmin, not_lt.mpr hmax⟩
    have hpeer : ((replay payload).peer observed).hello = .ok ⟨.hello, payload⟩ := rfl
    simp only [handshake, hpeer, hdecode, hverify, ne_eq, not_true_eq_false, if_false, if_neg hversion, Bool.not_true,
      Bool.and_false, Bool.false_eq_true, Prog.steps_bind]
    refine steps_adoptAuthority_of hstale hfenced fun ack w' htarget hartifact => ?_
    obtain ⟨encoded, hencoded, hlong, hsealed⟩ := @acknowledge_ok mac ack (htarget ▸ ht) (hartifact ▸ ha)
    simp only [hencoded, Prog.steps_bind, send, Prog.steps_ask]
    intro e he
    simp only [hconnected e he, Bool.not_true, Bool.false_eq_true, if_false, Prog.steps_bind, Prog.steps_modify]
    exact ⟨trivial, steps_awaitConfirm_echo hlong hsealed⟩

theorem exec_replay {payload : Bytes} (ht : w.mem.target.length ≤ kMaxIdentifierLength)
    (ha : w.mem.committedArtifact.length ≤ kMaxIdentifierLength) (hadmits : admits mac w.mem payload = true)
    (observed : List Bytes) : ∃ session w', Prog.Exec (fun _ => True)
      (handshake { mac } ((replay payload).peer observed)) w (some (.ok session)) w' := by
  let connected (e : Env) : Prop := e.connected = true
  have hsteps := @steps_replay mac connected w payload ht ha hadmits (fun _ he => he) observed
  obtain ⟨r, w', hexec⟩ := @Prog.Exec.complete _ _ _ connected {} rfl
    (handshake { mac } ((replay payload).peer observed)) w
  obtain ⟨session, rfl⟩ := (hsteps.exec hexec).2 r rfl
  exact ⟨session, w', hexec.mono fun _ _ => trivial⟩

theorem verify_of_admits {s : AgentState} {payload : Bytes} (h : ¬ admits mac s payload = false) :
    (verifyAuthenticated mac payload).isOk = true := by
  rw [Bool.not_eq_false] at h
  unfold admits at h
  split at h
  · cases h
  · exact (of_decide_eq_true h).2.2.1

/-- Only a payload that is admitted gets past the first frame. -/
theorem steps_handshake_of_ok {a : Authentication} {peer : Peer} {frame : Frame} (hauth : a.authenticate = true)
    (hframe : peer.hello = .ok frame) (hno : admits a.mac w.mem frame.payload = false) :
    (handshake a peer).Steps allowed (fun _ _ => True) (fun r _ => ∀ session, r ≠ .ok session) w := by
  have hrefuse (hello : HelloMessage) (code : ErrorCode) (detail : String) (w' : World) :
      (refuseHello hello code detail : Agent (Result Session)).Steps allowed (fun _ _ => True)
        (fun r _ => ∀ session, r ≠ .ok session) w' := by
    simp only [refuseHello, Prog.steps_bind]
    exact steps_send trivial (fun _ h => by cases h) fun _ _ h => by cases h
  simp only [handshake, hframe]
  split
  · exact fun _ h => by cases h
  split
  · exact fun _ h => by cases h
  case h_2 hello hdecode =>
    split
    · exact hrefuse _ _ _ _
    case isFalse hversion =>
      split
      · exact hrefuse _ _ _ _
      case isFalse hverified =>
        rw [not_or, not_lt, not_lt] at hversion
        have hverify : (verifyAuthenticated a.mac frame.payload).isOk = true := by simpa [hauth] using hverified
        simp only [adoptAuthority, Prog.steps_bind, steps_state]
        split
        · simp only [refuseHello, Prog.steps_bind]
          exact steps_send trivial (fun _ h => by cases h) fun _ _ h => by cases h
        case isFalse hstale =>
          split
          · simp only [refuseHello, Prog.steps_bind]
            exact steps_send trivial (fun _ h => by cases h) fun _ _ h => by cases h
          case isFalse hfenced =>
            refine absurd hno ?_
            simp only [admits, hdecode]
            rw [Bool.not_eq_false, decide_eq_true_iff]
            exact ⟨hversion.1, hversion.2, hverify, hstale, hfenced⟩

/-- Peers without the key are kept out exactly as long as nothing they have observed is still admitted. -/
theorem keyless_refused_iff (mac : Bytes → Digest) (observed : List Bytes) (w : World)
    (ht : w.mem.target.length ≤ kMaxIdentifierLength) (ha : w.mem.committedArtifact.length ≤ kMaxIdentifierLength) :
    (∀ S : Strategy, S.Keyless mac observed → ∀ session w',
      ¬ Prog.Exec (fun _ => True) (handshake { mac } (S.peer observed)) w (some (.ok session)) w') ↔
      ∀ payload ∈ observed, admits mac w.mem payload = false := by
  constructor
  · intro hall payload hpayload
    by_contra hadmits
    obtain ⟨session, w', hexec⟩ := exec_replay ht ha (Bool.eq_true_of_not_eq_false hadmits) observed
    exact hall _ (replay_keyless hpayload) session w' hexec
  · intro hnone S hkeyless session w' hexec
    have hsteps : (handshake { mac } (S.peer observed)).Steps (fun _ => True) (fun _ _ => True)
        (fun r _ => ∀ session, r ≠ .ok session) w := by
      cases hframe : S.hello observed with
      | error e =>
        simp only [handshake, Strategy.peer, hframe]
        exact fun _ h => by cases h
      | ok frame =>
        refine steps_handshake_of_ok rfl hframe ?_
        by_contra hadmits
        -- a tag that verifies was observed, with the bytes it covers
        have hverify : (verifyAuthenticated mac frame.payload).isOk = true := verify_of_admits hadmits
        obtain ⟨hlong, htag⟩ := (verifyAuthenticated_iff mac _).mp hverify
        obtain ⟨q, hq, hzero, htagq⟩ := hkeyless.hello frame hframe htag
        rw [eq_of_zeroTag_eq hlong hzero htagq] at hq
        exact hadmits (hnone _ hq)
    exact (hsteps.exec hexec).2 _ rfl session rfl

/-- The confirmation of an honest controller is the tag the acknowledgement already carries. -/
theorem confirmation_eq_tagOf {ack : Bytes} (h : (verifyAuthenticated mac ack).isOk = true) :
    Distributor.confirmation mac ack = tagOf ack :=
  ((verifyAuthenticated_iff mac ack).mp h).2.symm

end Handshake

/-- The first hello of a controller, and the agent once it has accepted it. -/
def firstHello : HelloMessage where
  nodeId := text "node"
  epoch := 1
  incarnation := .fill 16 1
  nonce := .fill 16 2

def acceptedHello : World where
  mem := {
    target := text "t", term := 1, lastControllerEpoch := 1
    lastControllerIncarnation := firstHello.incarnation, lastControllerNode := text "node" }

/-- The agent once a controller of a newer epoch has fenced that one off. -/
def fencedHello : World where
  mem := { acceptedHello.mem with
    lastControllerEpoch := 2, lastControllerIncarnation := .fill 16 3, lastControllerNode := text "other" }

/-- What an eavesdropper of that session has of the controller's first frame. -/
def observedOnce : List Bytes := (Distributor.openingHello (hmacTag (.zero 32)) firstHello).toOption.toList

/-- The hello that was observed is of no use any more. -/
theorem keyless_refused_once_fenced : observedOnce ≠ [] ∧ ¬ ∃ (S : Strategy) (session : Session) (w' : World),
    S.Keyless (hmacTag (.zero 32)) observedOnce ∧ Prog.Exec (fun _ => True)
      (handshake { mac := hmacTag (.zero 32) } (S.peer observedOnce)) fencedHello (some (.ok session)) w' := by
  refine ⟨by decide, ?_⟩
  rintro ⟨S, session, w', hkeyless, hexec⟩
  have hnone : observedOnce.all (fun payload => !admits (hmacTag (.zero 32)) fencedHello.mem payload) = true := by
    decide +kernel
  exact (keyless_refused_iff (hmacTag (.zero 32)) observedOnce fencedHello (by decide) (by decide)).mpr
    (fun payload hpayload => by simpa using List.all_eq_true.mp hnone payload hpayload) S hkeyless session w' hexec

/-- The honest hello is sent again and the acknowledgement's tag is returned as the confirmation. -/
theorem replayed_hello_opens_session :
    ¬ ∀ S : Strategy, S.Keyless (hmacTag (.zero 32)) observedOnce → ∀ session w',
      ¬ Prog.Exec (fun _ => True) (handshake { mac := hmacTag (.zero 32) } (S.peer observedOnce)) acceptedHello
        (some (.ok session)) w' := by
  intro hall
  have hadmitted : observedOnce.any (admits (hmacTag (.zero 32)) acceptedHello.mem) = true := by decide +kernel
  obtain ⟨payload, hpayload, hadmits⟩ := List.any_eq_true.mp hadmitted
  obtain ⟨session, w', hexec⟩ := exec_replay (by decide) (by decide) hadmits observedOnce
  exact hall _ (replay_keyless hpayload) session w' hexec

end Agent

end ConfigurationFabric
