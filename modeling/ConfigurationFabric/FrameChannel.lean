import Mathlib.Data.List.Forall2
import ConfigurationFabric.FramedConnection

/-! Frames from one end of a connection to the other: written in parts, cut off anywhere, and read in pieces. -/

namespace ConfigurationFabric.Wire

open LittleEndian
open Chunked

/-- The most that one write offers to the socket. -/
def kMaxWriteBytes : ℕ := 2 ^ 20

/-- What comes of waiting for the socket and writing to it. It takes at least one byte of what it is offered and at most
`more + 1`. -/
inductive Wrote
  | sent (more : ℕ)
  | again
  | failed (e : Error)

/-- How a call ends, if it does, and the bytes that the socket took. -/
def writeAll : List Wrote → Bytes → Option Status × Bytes
  | _, [] => (some (.ok ()), [])
  | [], _ => (none, [])
  | .again :: outcomes, data => writeAll outcomes data
  | .failed e :: _, _ => (some (.error e), [])
  | .sent more :: outcomes, data =>
    let taken := min (more + 1) (min data.length kMaxWriteBytes)
    let (status, written) := writeAll outcomes (data.drop taken)
    (status, data.take taken ++ written)

/-- The half of a connection that sends, and all that its socket has taken. -/
structure Sender where
  maxPayloadBytes : ℕ
  bytesSent : ℕ := 0
  stream : Bytes := []
  deriving DecidableEq

def Sender.send (s : Sender) (m : Outgoing) (outcomes : List Wrote) : Option Status × Sender :=
  match m.encode s.maxPayloadBytes with
  | .error e => (some (.error e), s)
  | .ok encoded =>
    match writeAll outcomes encoded with
    | (some (.ok ()), written) => (some (.ok ()), { s with
        bytesSent := (checkedAdd s.bytesSent encoded.length).getD s.bytesSent
        stream := s.stream ++ written })
    | (status, written) => (status, { s with stream := s.stream ++ written })

/-- Calls one after the other, with the messages of those that returned ok. A message that cannot be encoded is refused;
after a write that has not ended well, nothing more is sent. -/
inductive Sends : Sender → List Outgoing → Sender → Prop
  | nil {s : Sender} : Sends s [] s
  | sent {s s' s'' : Sender} {m : Outgoing} {ms : List Outgoing} {outcomes : List Wrote} :
      s.send m outcomes = (some (.ok ()), s') → Sends s' ms s'' → Sends s (m :: ms) s''
  | refused {s s' : Sender} {m : Outgoing} {ms : List Outgoing} {e : Error} :
      m.encode s.maxPayloadBytes = .error e → Sends s ms s' → Sends s ms s'
  | broken {s s' : Sender} {m : Outgoing} {outcomes : List Wrote} {status : Option Status} {encoded : Bytes} :
      m.encode s.maxPayloadBytes = .ok encoded → s.send m outcomes = (status, s') → status ≠ some (.ok ()) → Sends s [] s'

section Writing

variable {outcomes : List Wrote} {data written : Bytes} {status : Option Status} {s s' : Sender} {m : Outgoing}

/-- Everything, or a proper part in front. -/
theorem writeAll_spec (h : writeAll outcomes data = (status, written)) :
    (status = some (.ok ()) ∧ written = data) ∨
      (status ≠ some (.ok ()) ∧ ∃ rest, data = written ++ rest ∧ rest ≠ []) := by
  fun_induction writeAll outcomes data generalizing status written with
  | case1 =>
    cases h
    exact .inl ⟨rfl, rfl⟩
  | case2 data hdata =>
    cases h
    exact .inr ⟨by simp, data, rfl, hdata⟩
  | case3 data _ _ ih => exact ih h
  | case4 e _ data hdata =>
    cases h
    exact .inr ⟨by simp, data, rfl, hdata⟩
  | case5 more outcomes data hdata taken status' written' hwrite =>
    rename_i ih
    cases h
    obtain ⟨hstatus, hwritten⟩ | ⟨hstatus, rest, hrest, hne⟩ := ih hwrite
    · exact .inl ⟨hstatus, by rw [hwritten, List.take_append_drop]⟩
    · refine .inr ⟨hstatus, rest, ?_, hne⟩
      rw [List.append_assoc, ← hrest, List.take_append_drop]

theorem send_ok (h : s.send m outcomes = (some (.ok ()), s')) : ∃ encoded, m.encode s.maxPayloadBytes = .ok encoded ∧
    s'.maxPayloadBytes = s.maxPayloadBytes ∧ s'.stream = s.stream ++ encoded := by
  unfold Sender.send at h
  split at h
  · cases h
  next encoded hencoded =>
    split at h
    next written hwrite =>
      cases h
      obtain ⟨-, rfl⟩ | ⟨hstatus, -⟩ := writeAll_spec hwrite
      · exact ⟨_, hencoded, rfl, rfl⟩
      · exact absurd rfl hstatus
    next status' written hother hwrite =>
      cases h
      exact (hother rfl).elim

theorem send_broken {status : Option Status} {encoded : Bytes} (hencoded : m.encode s.maxPayloadBytes = .ok encoded)
    (h : s.send m outcomes = (status, s')) (hstatus : status ≠ some (.ok ())) :
    ∃ tail rest, s'.stream = s.stream ++ tail ∧ encoded = tail ++ rest ∧ rest ≠ [] := by
  unfold Sender.send at h
  rw [hencoded] at h
  dsimp only at h
  split at h
  · cases h
    exact absurd rfl hstatus
  next status' written hother hwrite =>
    cases h
    obtain ⟨hok, -⟩ | ⟨-, rest, hrest, hne⟩ := writeAll_spec hwrite
    · exact absurd hok hstatus
    · exact ⟨written, rest, rfl, hrest, hne⟩

end Writing

/-- A proper part in front of one frame. -/
def Torn (maxPayloadBytes : ℕ) (tail : Bytes) : Prop :=
  tail = [] ∨ ∃ (m : Outgoing) (rest : Bytes), m.encode maxPayloadBytes = .ok (tail ++ rest) ∧ rest ≠ []

/-- What the socket has taken: the frames that were sent, and at most a part of one more. -/
theorem sends_stream {s s' : Sender} {ms : List Outgoing} (h : Sends s ms s') : ∃ encoded tail,
    List.Forall₂ (fun m bytes => m.encode s.maxPayloadBytes = .ok bytes) ms encoded ∧ Torn s.maxPayloadBytes tail ∧
      s'.stream = s.stream ++ encoded.flatten ++ tail := by
  induction h with
  | nil => exact ⟨[], [], .nil, .inl rfl, by simp⟩
  | sent hsend _ ih =>
    obtain ⟨bytes, hbytes, hmax, hstream⟩ := send_ok hsend
    obtain ⟨encoded, tail, hencoded, htail, hrest⟩ := ih
    rw [hmax] at hencoded htail
    refine ⟨bytes :: encoded, tail, .cons hbytes hencoded, htail, ?_⟩
    rw [hrest, hstream, List.flatten_cons]
    simp only [List.append_assoc]
  | refused _ _ ih => exact ih
  | @broken s s' m outcomes status bytes hbytes hsend hstatus =>
    obtain ⟨tail, rest, hstream, rfl, hne⟩ := send_broken hbytes hsend hstatus
    exact ⟨[], tail, .nil, .inr ⟨m, rest, hbytes, hne⟩, by simp [hstream]⟩

/-! Receiving. -/

namespace FramedConnection

variable {maxPayloadBytes : ℕ} {c : FramedConnection} {reads : List Bytes} {frames : List Frame} {rest : Bytes}

/-- How a stream of whole frames ends, with what is left of the next. -/
def ended (ending : Error) (rest : Bytes) : Error :=
  if ending.code = .connectionClosed ∧ rest ≠ [] then
    ⟨.truncatedFrame, "stream ended with a partially received frame",
      "connection closed: " ++ toString rest.length ++ " byte(s)"⟩
  else ending

theorem receive_ended (ending : Error) (hnone : c.takeReady = none) (hrest : c.decoder.remaining = rest) :
    receive ending c [] = (.error (ended ending rest), c, []) := by
  have hbuffered : c.decoder.buffered ≠ 0 ↔ rest ≠ [] := by
    rw [← hrest, ← List.length_pos_iff, FrameDecoder.remaining, List.length_drop, FrameDecoder.buffered]
    omega
  rw [receive, hnone, ended]
  dsimp only
  by_cases hcode : ending.code = .connectionClosed
  · rw [if_pos hcode, FrameDecoder.finish]
    by_cases hleft : rest = []
    · have hzero : ¬ c.decoder.buffered ≠ 0 := fun h => hbuffered.mp h hleft
      rw [if_neg hzero, if_neg (fun h => h.2 hleft)]
    · have hsome : c.decoder.buffered ≠ 0 := hbuffered.mpr hleft
      have hlength : c.decoder.buffered = rest.length := by
        rw [← hrest, FrameDecoder.remaining, List.length_drop, FrameDecoder.buffered]
      rw [if_pos hsome, if_pos ⟨hcode, hleft⟩, hlength]
      rfl
  · rw [if_neg hcode, if_neg (fun h => hcode h.1)]

/-- One read that is not refused, and what comes of the others. -/
theorem delivers_step {ending e : Error} {data : Bytes} {later : List Frame} (hmax : maxPayloadBytes < 2 ^ 32)
    (h : Sound maxPayloadBytes c) (hdata : data ≠ [] ∧ data.length ≤ kReadBufferBytes)
    (hscan : Scans (nextFrame maxPayloadBytes) (c.decoder.remaining ++ data) frames (.ok rest))
    (hlater : ∀ c', Sound maxPayloadBytes c' → c'.decoder.remaining = rest →
      Delivers ending c' reads (c'.waiting ++ later) e) :
    Delivers ending c (data :: reads) (c.waiting ++ (frames ++ later)) e := by
  refine delivers_waiting h fun c' hc' hnil hdecoder => ?_
  obtain ⟨fs, hscan', hwaiting, hsound⟩ := absorb_scans hmax hc' hdata.1 hdata.2
  rw [hdecoder] at hscan'
  obtain ⟨rfl, houtcome⟩ := hscan.unique hscan'
  have hnone := takeReady_eq_none.mpr hnil
  cases habsorb : c'.absorb data with
  | mk status c'' =>
  rw [habsorb] at houtcome hwaiting hsound
  cases status with
  | error e' => cases houtcome
  | ok =>
    have hreceive : receive ending c' (data :: reads) = receive ending c'' reads := by
      rw [receive, hnone]
      dsimp only
      rw [habsorb]
    have hnext := hlater c'' (hsound rfl) (Except.ok.inj houtcome).symm
    rw [hwaiting, hnil] at hnext
    exact .of_receive hreceive hnext

/-- Reads that hold whole frames and the front of one more. -/
theorem delivers_all (ending : Error) (hmax : maxPayloadBytes < 2 ^ 32) (h : Sound maxPayloadBytes c)
    (hreads : ∀ p ∈ reads, p ≠ [] ∧ p.length ≤ kReadBufferBytes)
    (hfed : Fed (nextFrame maxPayloadBytes) c.decoder.remaining reads frames (.ok rest)) :
    Delivers ending c reads (c.waiting ++ frames) (ended ending rest) := by
  induction reads generalizing c frames with
  | nil =>
    generalize hleft : c.decoder.remaining = left at hfed
    cases hfed with
    | done =>
      refine delivers_waiting h fun c' hc' hnil hdecoder => ?_
      exact .stop (receive_ended ending (takeReady_eq_none.mpr hnil) (by rw [hdecoder, hleft]))
  | cons data reads ih =>
    obtain ⟨hdata, hreads⟩ := List.forall_mem_cons.mp hreads
    cases hfed with
    | step hscan hfed =>
      refine delivers_step hmax h hdata hscan fun c' hc' hleft => ih hc' hreads ?_
      rw [hleft]
      exact hfed

end FramedConnection

/-! From one end to the other. -/

section Channel

variable {maxPayloadBytes : ℕ} {m : Outgoing} {ms : List Outgoing} {encoded : List Bytes} {tail u rest : Bytes}

/-- A higher ceiling changes nothing. -/
theorem encode_mono {n : ℕ} {bytes : Bytes} (hle : maxPayloadBytes ≤ n) (hn : n ≤ kAbsoluteMaxPayloadBytes)
    (h : m.encode maxPayloadBytes = .ok bytes) : m.encode n = .ok bytes := by
  obtain ⟨-, hpayload, hflags, rfl⟩ := encodeFrame_ok h
  rw [Outgoing.encode, encodeFrame, if_neg (not_lt.mpr hn), if_neg (not_lt.mpr (hpayload.trans hle)),
    if_neg (not_not.mpr hflags)]

theorem nextFrame_torn (h : m.encode maxPayloadBytes = .ok (u ++ rest)) (hne : rest ≠ []) :
    nextFrame maxPayloadBytes u = .more := by
  by_contra hmore
  have hwhole := nextFrame_encodeFrame h
  rw [nextFrame_append hmore] at hwhole
  have htakes := (incremental_nextFrame maxPayloadBytes).takes hwhole
  rw [List.length_append] at htakes
  have hpos := List.length_pos_iff.mpr hne
  omega

theorem nextFrame_torn_prefix (h : Torn maxPayloadBytes tail) (hu : u <+: tail) : nextFrame maxPayloadBytes u = .more := by
  obtain ⟨v, rfl⟩ := hu
  obtain hnil | ⟨m, rest, hm, hne⟩ := h
  · rw [(List.append_eq_nil_iff.mp hnil).1]
    rfl
  · rw [List.append_assoc] at hm
    exact nextFrame_torn hm (by simp [hne])

/-- Some of the frames have wholly arrived, and of the next one a part. -/
theorem prefix_of_frames (hencoded : List.Forall₂ (fun m bytes => m.encode maxPayloadBytes = .ok bytes) ms encoded)
    (htail : Torn maxPayloadBytes tail) (hu : u <+: encoded.flatten ++ tail) :
    ∃ k rest, k ≤ ms.length ∧ u = (encoded.take k).flatten ++ rest ∧ nextFrame maxPayloadBytes rest = .more ∧
      (u = encoded.flatten ++ tail → k = ms.length) := by
  induction hencoded generalizing u with
  | nil =>
    refine ⟨0, u, le_rfl, rfl, nextFrame_torn_prefix htail ?_, fun _ => rfl⟩
    simpa using hu
  | @cons m bytes ms encoded hm _ ih =>
    obtain ⟨v, hv⟩ := hu
    rw [List.flatten_cons, List.append_assoc] at hv
    obtain ⟨w, rfl, hw⟩ | ⟨w, rfl, hw⟩ := List.append_eq_append_iff.mp hv
    · -- the frame is not all there
      by_cases hnil : w = []
      · subst hnil
        obtain ⟨k, rest, hk, hrest, hmore, hall⟩ := ih (u := []) (List.nil_prefix)
        refine ⟨k + 1, rest, Nat.succ_le_succ hk, ?_, hmore, fun hwhole => congrArg (· + 1) (hall ?_)⟩
        · rw [List.take_succ_cons, List.flatten_cons, List.append_assoc, ← hrest, List.append_nil, List.append_nil]
        · rw [List.flatten_cons, List.append_nil, List.append_assoc] at hwhole
          exact (List.append_right_eq_self.mp hwhole.symm).symm
      · refine ⟨0, u, Nat.zero_le _, rfl, nextFrame_torn hm hnil, fun hwhole => absurd ?_ hnil⟩
        rw [List.flatten_cons, List.append_assoc, List.append_assoc] at hwhole
        exact (List.append_eq_nil_iff.mp (List.append_right_eq_self.mp hwhole.symm)).1
    · obtain ⟨k, rest, hk, hrest, hmore, hall⟩ := ih ⟨v, hw.symm⟩
      refine ⟨k + 1, rest, Nat.succ_le_succ hk, ?_, hmore, fun hwhole => congrArg (· + 1) (hall ?_)⟩
      · rw [List.take_succ_cons, List.flatten_cons, List.append_assoc, ← hrest]
      · rw [List.flatten_cons, List.append_assoc] at hwhole
        exact List.append_cancel_left hwhole

/-- What arrives: some of the messages that were sent, from the first on, and a part of the next. -/
structure Carries (maxPayloadBytes : ℕ) (ending : Error) (ms : List Outgoing) (stream : Bytes) (reads : List Bytes)
    (k : ℕ) (rest : Bytes) : Prop where
  count : k ≤ ms.length
  bytes : ∃ encoded, List.Forall₂ (fun m bytes => m.encode maxPayloadBytes = .ok bytes) (ms.take k) encoded ∧
    reads.flatten = encoded.flatten ++ rest
  incomplete : nextFrame maxPayloadBytes rest = .more
  frames : FramedConnection.Delivers ending (FramedConnection.opened maxPayloadBytes) reads
    ((ms.take k).map Outgoing.frame) (FramedConnection.ended ending rest)
  whole : reads.flatten = stream → k = ms.length

/-- However the sender's writes are split and fail, wherever the stream is cut off and however it is read: the receiver
is handed the messages in order, from the first on, and sees whether the stream was cut inside of a frame. -/
theorem channel_carries (n : ℕ) (hle : maxPayloadBytes ≤ n) (hn : n ≤ kAbsoluteMaxPayloadBytes) (s : Sender)
    (hsends : Sends { maxPayloadBytes } ms s) (reads : List Bytes)
    (hreads : ∀ p ∈ reads, p ≠ [] ∧ p.length ≤ kReadBufferBytes) (hcut : reads.flatten <+: s.stream) (ending : Error) :
    ∃ k rest, Carries n ending ms s.stream reads k rest := by
  have hmax : n < 2 ^ 32 := lt_of_le_of_lt hn (by decide)
  obtain ⟨encoded, tail, hencoded, htail, hstream⟩ := sends_stream hsends
  replace hencoded : List.Forall₂ (fun m bytes => m.encode n = .ok bytes) ms encoded :=
    List.Forall₂.imp (fun _ _ h => encode_mono hle hn h) hencoded
  replace htail : Torn n tail :=
    htail.imp id fun ⟨m, rest, hm, hne⟩ => ⟨m, rest, encode_mono hle hn hm, hne⟩
  replace hstream : s.stream = encoded.flatten ++ tail := by rw [hstream, List.nil_append]
  rw [hstream] at hcut
  obtain ⟨k, rest, hk, hflat, hmore, hall⟩ := prefix_of_frames hencoded htail hcut
  have hfront := List.forall₂_take k hencoded
  refine ⟨k, rest, hk, ⟨_, hfront, hflat⟩, hmore, ?_, fun hwhole => hall (hwhole.trans hstream)⟩
  have hvalid : List.Forall₂ (fun frame bytes => nextFrame n bytes = .item frame bytes.length)
      ((ms.take k).map Outgoing.frame) (encoded.take k) :=
    List.forall₂_map_left_iff.mpr (hfront.imp fun _ _ h => nextFrame_encodeFrame h)
  have hscan := FramedConnection.scans_valid hvalid (.more hmore)
  rw [← hflat, List.append_nil] at hscan
  obtain ⟨xs, r, hfed⟩ := exists_fed (FramedConnection.exists_scans n) [] reads
  obtain ⟨rfl, rfl⟩ := (hfed.whole (incremental_nextFrame n) rfl).unique hscan
  exact FramedConnection.delivers_all ending hmax FramedConnection.sound_opened hreads hfed

end Channel

end ConfigurationFabric.Wire
