import ConfigurationFabric.FrameStream

/-! The connection that hands out frames one by one. -/

namespace ConfigurationFabric.Wire

open LittleEndian
open Chunked

namespace FrameDecoder

/-- Compaction leaves at most about twice what is unread. -/
theorem length_compact_le (d : FrameDecoder) : d.compact.buffer.length ≤ 2 * d.remaining.length + 1 := by
  have hremaining : d.remaining.length = d.buffer.length - d.offset := List.length_drop
  unfold compact
  split
  · exact Nat.zero_le _
  split
  · dsimp only
    rw [List.length_drop]
    omega
  case isFalse hhalf => omega

theorem length_feed (d : FrameDecoder) (data : Bytes) (hdata : data ≠ []) :
    (d.feed data).2.2.buffer.length ≤ d.compact.buffer.length + data.length := by
  unfold feed
  rw [if_neg hdata]
  dsimp only
  split
  · exact Nat.le_add_right _ _
  split
  · exact Nat.le_add_right _ _
  cases hdrain : drain d.compact.maxPayloadBytes (d.compact.buffer ++ data) d.compact.offset with
  | mk status result =>
  obtain ⟨frames, offset⟩ := result
  have hlength : (d.compact.buffer ++ data).length ≤ d.compact.buffer.length + data.length := by
    rw [List.length_append]
  cases status with
  | error e => exact hlength
  | ok =>
    dsimp only
    split <;> exact hlength

end FrameDecoder

/-- The size of the connection's read buffer. -/
def kReadBufferBytes : ℕ := 64 * 1024

structure FramedConnection where
  decoder : FrameDecoder
  ready : List Frame := []
  readyOffset : ℕ := 0
  bytesReceived : ℕ := 0
  deriving DecidableEq

namespace FramedConnection

/-- The next frame of the queue. -/
def takeReady (c : FramedConnection) : Option (Frame × FramedConnection) :=
  match c.ready[c.readyOffset]? with
  | none => none
  | some frame =>
    if c.readyOffset + 1 = c.ready.length then some (frame, { c with ready := [], readyOffset := 0 })
    else some (frame, { c with readyOffset := c.readyOffset + 1 })

/-- What `receive` does with the bytes of one read, up to the decoder's status. -/
def absorb (c : FramedConnection) (data : Bytes) : Status × FramedConnection :=
  let (status, frames, decoder) := c.decoder.feed data
  (status, { c with
    decoder
    ready := c.ready ++ frames
    bytesReceived := (checkedAdd c.bytesReceived data.length).getD c.bytesReceived })

/-- One call: the next frame or an error, and what the socket still has to give. The socket gives one piece a read and
then fails with `ending`. -/
def receive (ending : Error) (c : FramedConnection) : List Bytes → Result Frame × FramedConnection × List Bytes
  | [] =>
    match c.takeReady with
    | some (frame, c) => (.ok frame, c, [])
    | none =>
      match if ending.code = .connectionClosed then c.decoder.finish "connection closed" else .ok () with
      | .error e => (.error e, c, [])
      | .ok () => (.error ending, c, [])
  | data :: rest =>
    match c.takeReady with
    | some (frame, c) => (.ok frame, c, data :: rest)
    | none =>
      match c.absorb data with
      | (.error e, c) => (.error e, c, rest)
      | (.ok (), c) => receive ending c rest

/-- Successive calls return these frames and then this error. -/
inductive Delivers (ending : Error) : FramedConnection → List Bytes → List Frame → Error → Prop
  | stop {c c' : FramedConnection} {reads rest : List Bytes} {e : Error}
      (h : receive ending c reads = (.error e, c', rest)) : Delivers ending c reads [] e
  | frame {c c' : FramedConnection} {reads rest : List Bytes} {frame : Frame} {frames : List Frame} {e : Error}
      (h : receive ending c reads = (.ok frame, c', rest)) (hrest : Delivers ending c' rest frames e) :
      Delivers ending c reads (frame :: frames) e

variable {ending e e' : Error} {c : FramedConnection} {reads : List Bytes} {frames frames' : List Frame}

theorem Delivers.unique (h : Delivers ending c reads frames e) (h' : Delivers ending c reads frames' e') :
    frames = frames' ∧ e = e' := by
  induction h generalizing frames' with
  | stop h =>
    cases h' with
    | stop h' =>
      rw [h] at h'
      cases h'
      exact ⟨rfl, rfl⟩
    | frame h' _ =>
      rw [h] at h'
      cases h'
  | frame h _ ih =>
    cases h' with
    | stop h' =>
      rw [h] at h'
      cases h'
    | frame h' hrest =>
      rw [h] at h'
      cases h'
      obtain ⟨rfl, rfl⟩ := ih hrest
      exact ⟨rfl, rfl⟩

/-! The queue. -/

/-- The frames that wait to be handed out. -/
def waiting (c : FramedConnection) : List Frame := c.ready.drop c.readyOffset

theorem takeReady_eq_none : c.takeReady = none ↔ c.waiting = [] := by
  unfold takeReady waiting
  rw [List.drop_eq_nil_iff]
  split
  case h_1 h => exact ⟨fun _ => List.getElem?_eq_none_iff.mp h, fun _ => rfl⟩
  case h_2 frame h =>
    have hlt := (List.getElem?_eq_some_iff.mp h).1
    constructor
    · intro hnone
      split at hnone <;> cases hnone
    · intro hle
      omega

/-- Taking a frame takes the first one that waits. -/
theorem takeReady_cons {frame : Frame} (h : c.waiting = frame :: frames) : ∃ c', c.takeReady = some (frame, c') ∧
    c'.waiting = frames ∧ c'.decoder = c.decoder ∧ c'.readyOffset ≤ c'.ready.length := by
  have hlt : c.readyOffset < c.ready.length := by
    by_contra hle
    rw [waiting, List.drop_of_length_le (by omega)] at h
    cases h
  rw [waiting, List.drop_eq_getElem_cons hlt] at h
  obtain ⟨hframe, hframes⟩ := List.cons.inj h
  unfold takeReady
  rw [List.getElem?_eq_getElem hlt, hframe]
  dsimp only
  by_cases hlast : c.readyOffset + 1 = c.ready.length
  · rw [if_pos hlast]
    refine ⟨_, rfl, ?_, rfl, Nat.le_refl _⟩
    rw [← hframes, hlast, List.drop_length]
    rfl
  · rw [if_neg hlast]
    exact ⟨_, rfl, hframes, rfl, hlt⟩

theorem receive_ready (ending : Error) (reads : List Bytes) {frame : Frame} (h : c.waiting = frame :: frames) :
    ∃ c', receive ending c reads = (.ok frame, c', reads) ∧ c'.waiting = frames ∧ c'.decoder = c.decoder ∧
      c'.readyOffset ≤ c'.ready.length := by
  obtain ⟨c', htake, hrest⟩ := takeReady_cons h
  refine ⟨c', ?_, hrest⟩
  cases reads with
  | nil => rw [receive, htake]
  | cons data rest => rw [receive, htake]

/-! One read. -/

variable {maxPayloadBytes : ℕ} {data : Bytes}

/-- Between two reads the decoder holds less than one frame, and its buffer is bounded. -/
structure Sound (maxPayloadBytes : ℕ) (c : FramedConnection) : Prop where
  ceiling : c.decoder.maxPayloadBytes = maxPayloadBytes
  offset : c.decoder.offset ≤ c.decoder.buffer.length
  incomplete : nextFrame maxPayloadBytes c.decoder.remaining = .more
  room : c.decoder.buffer.length ≤ 2 * (kFrameHeaderBytes + maxPayloadBytes) + kReadBufferBytes
  queue : c.readyOffset ≤ c.ready.length

theorem Sound.of_decoder {c' : FramedConnection} (h : Sound maxPayloadBytes c) (hdecoder : c'.decoder = c.decoder)
    (hqueue : c'.readyOffset ≤ c'.ready.length) : Sound maxPayloadBytes c' := by
  constructor
  · rw [hdecoder, h.ceiling]
  · rw [hdecoder]
    exact h.offset
  · rw [hdecoder]
    exact h.incomplete
  · rw [hdecoder]
    exact h.room
  · exact hqueue

/-- What one read brings joins the queue. -/
theorem absorb_scans (hmax : maxPayloadBytes < 2 ^ 32) (h : Sound maxPayloadBytes c) (hdata : data ≠ [])
    (hsize : data.length ≤ kReadBufferBytes) :
    ∃ fs, Scans (nextFrame maxPayloadBytes) (c.decoder.remaining ++ data) fs
        (FrameDecoder.outcome (c.absorb data).1 (c.absorb data).2.decoder.remaining) ∧
      (c.absorb data).2.waiting = c.waiting ++ fs ∧
      ((c.absorb data).1 = .ok () → Sound maxPayloadBytes (c.absorb data).2) := by
  have hheader : kFrameHeaderBytes = 24 := rfl
  have hbuffer : kReadBufferBytes = 65536 := rfl
  have hroom := h.room
  have hceiling := h.ceiling
  obtain ⟨hscan, hoffset, hsame, -⟩ := FrameDecoder.feed_scans (by omega) h.offset hdata (by omega)
  rw [hceiling] at hscan hsame
  have hcompact := c.decoder.length_compact_le
  have hincomplete := nextFrame_more h.incomplete
  have hfeed := c.decoder.length_feed data hdata
  unfold absorb
  cases hfed : c.decoder.feed data with
  | mk status result =>
  obtain ⟨frames, decoder⟩ := result
  rw [hfed] at hscan hoffset hsame hfeed
  dsimp only at hscan hoffset hsame hfeed ⊢
  refine ⟨frames, hscan, List.drop_append_of_le_length h.queue, ?_⟩
  rintro rfl
  constructor
  · exact hsame
  · exact hoffset
  · exact hscan.left
  · dsimp only
    omega
  · dsimp only
    rw [List.length_append]
    exact h.queue.trans (Nat.le_add_right _ _)

theorem Delivers.of_receive {c' : FramedConnection} {reads' : List Bytes}
    (h : receive ending c reads = receive ending c' reads') (hd : Delivers ending c' reads' frames e) :
    Delivers ending c reads frames e := by
  cases hd with
  | stop hstop => exact .stop (h.trans hstop)
  | frame hframe hrest => exact .frame (h.trans hframe) hrest

/-- The frames that wait come first. -/
theorem delivers_waiting (h : Sound maxPayloadBytes c)
    (hd : ∀ c', Sound maxPayloadBytes c' → c'.waiting = [] → c'.decoder = c.decoder →
      Delivers ending c' reads frames e) : Delivers ending c reads (c.waiting ++ frames) e := by
  generalize hwaiting : c.waiting = queue
  induction queue generalizing c with
  | nil => exact hd c h hwaiting rfl
  | cons frame queue ih =>
    obtain ⟨c', hreceive, hrest, hdecoder, hqueue⟩ := receive_ready ending reads hwaiting
    refine .frame hreceive (ih (h.of_decoder hdecoder hqueue) (fun c'' hc'' hnil hsame => ?_) hrest)
    exact hd c'' hc'' hnil (hsame.trans hdecoder)

/-- The reads before the one in which the corruption shows are handed out in full, and nothing of that one is. -/
theorem delivers_before (ending : Error) (after : List Bytes) (hmax : maxPayloadBytes < 2 ^ 32) {before : List Bytes}
    {p rest : Bytes} {early late : List Frame} (h : Sound maxPayloadBytes c)
    (hreads : ∀ p ∈ before, p ≠ [] ∧ p.length ≤ kReadBufferBytes) (hp : p ≠ [] ∧ p.length ≤ kReadBufferBytes)
    (hbefore : Fed (nextFrame maxPayloadBytes) c.decoder.remaining before early (.ok rest))
    (hstop : Scans (nextFrame maxPayloadBytes) (rest ++ p) late (.error e)) :
    Delivers ending c (before ++ p :: after) (c.waiting ++ early) e := by
  induction before generalizing c early with
  | nil =>
    cases hbefore with
    | done =>
      refine delivers_waiting h fun c' hc' hnil hdecoder => ?_
      obtain ⟨fs, hscan, -, -⟩ := absorb_scans hmax hc' hp.1 hp.2
      rw [hdecoder] at hscan
      obtain ⟨-, houtcome⟩ := hstop.unique hscan
      have hnone := takeReady_eq_none.mpr hnil
      cases habsorb : c'.absorb p with
      | mk status c'' =>
      rw [habsorb] at houtcome
      cases status with
      | ok => cases houtcome
      | error e' =>
        cases houtcome
        have hreceive : receive ending c' ([] ++ p :: after) = (.error e, c'', after) := by
          rw [List.nil_append, receive, hnone]
          dsimp only
          rw [habsorb]
        exact .stop hreceive
  | cons data before ih =>
    obtain ⟨⟨hdata, hsize⟩, hreads⟩ := List.forall_mem_cons.mp hreads
    cases hbefore with
    | @step _ rest' _ _ xs ys _ hscan hrest =>
      refine delivers_waiting h fun c' hc' hnil hdecoder => ?_
      obtain ⟨fs, hscan', hwaiting, hsound⟩ := absorb_scans hmax hc' hdata hsize
      rw [hdecoder] at hscan'
      obtain ⟨rfl, houtcome⟩ := hscan.unique hscan'
      have hnone := takeReady_eq_none.mpr hnil
      cases habsorb : c'.absorb data with
      | mk status c'' =>
      rw [habsorb] at houtcome hwaiting hsound
      cases status with
      | error e' => cases houtcome
      | ok =>
        have hleft : rest' = c''.decoder.remaining := Except.ok.inj houtcome
        have hreceive : receive ending c' (data :: before ++ p :: after) =
            receive ending c'' (before ++ p :: after) := by
          rw [List.cons_append, receive, hnone]
          dsimp only
          rw [habsorb]
        rw [hleft] at hrest
        have hnext := ih (hsound rfl) hreads hrest
        rw [hwaiting, hnil] at hnext
        exact .of_receive hreceive hnext

/-! Where the reads end. -/

/-- How much of a corrupt frame has to be there to see that it is corrupt. -/
def corruptBytes (maxPayloadBytes : ℕ) (bytes : Bytes) : ℕ :=
  match decodeFrameHeader (bytes.take kFrameHeaderBytes) maxPayloadBytes with
  | .error _ => kFrameHeaderBytes
  | .ok header => kFrameHeaderBytes + header.payloadLength

theorem nextFrame_take {tail : Bytes} (h : nextFrame maxPayloadBytes tail = .refused e) (n : ℕ) :
    nextFrame maxPayloadBytes (tail.take n) = .more ↔ n < corruptBytes maxPayloadBytes tail := by
  unfold nextFrame at h
  split at h
  · cases h
  case isFalse hheader =>
  unfold nextFrame corruptBytes
  rw [List.length_take]
  by_cases hn : n < kFrameHeaderBytes
  · rw [if_pos (by omega)]
    refine iff_of_true rfl ?_
    split
    · exact hn
    · omega
  · rw [if_neg (by omega), List.take_take, Nat.min_eq_left (by omega)]
    cases hdecode : decodeFrameHeader (tail.take kFrameHeaderBytes) maxPayloadBytes with
    | error e' => exact iff_of_false (by simp) hn
    | ok header =>
      rw [hdecode] at h
      dsimp only at h ⊢
      split at h
      · cases h
      case isFalse htotal =>
      by_cases hshort : n < kFrameHeaderBytes + header.payloadLength
      · rw [if_pos (by omega)]
        exact iff_of_true rfl hshort
      · rw [if_neg (by omega)]
        refine iff_of_false ?_ hshort
        split <;> simp

/-- Every stream can be scanned. -/
theorem exists_scans (maxPayloadBytes : ℕ) (bytes : Bytes) :
    ∃ frames r, Scans (nextFrame maxPayloadBytes) bytes frames r :=
  ⟨_, _, FrameDecoder.scans_drain maxPayloadBytes bytes 0⟩

/-- Complete frames in front of a stream. -/
theorem scans_valid {encoded : List Bytes} {tail : Bytes} {r : Except Error Bytes}
    (hvalid : List.Forall₂ (fun frame bytes => nextFrame maxPayloadBytes bytes = .item frame bytes.length) frames encoded)
    (htail : Scans (nextFrame maxPayloadBytes) tail frames' r) :
    Scans (nextFrame maxPayloadBytes) (encoded.flatten ++ tail) (frames ++ frames') r := by
  induction hvalid with
  | nil => exact htail
  | @cons frame bytes frames encoded hframe _ ih =>
    rw [List.flatten_cons, List.append_assoc]
    refine .item ((incremental_nextFrame maxPayloadBytes).item hframe _) ?_
    rw [List.drop_left]
    exact ih

/-- A read ends after the last valid frame and before the one behind it shows to be corrupt. -/
def Separated (valid corrupt : ℕ) (reads : List Bytes) : Prop :=
  ∃ before after, reads = before ++ after ∧ valid ≤ before.flatten.length ∧
    before.flatten.length < valid + corrupt

theorem separated_of_early {encoded before after : List Bytes} {tail rest : Bytes}
    (hvalid : List.Forall₂ (fun frame bytes => nextFrame maxPayloadBytes bytes = .item frame bytes.length) frames encoded)
    (hcorrupt : nextFrame maxPayloadBytes tail = .refused e)
    (hstream : (before ++ after).flatten = encoded.flatten ++ tail)
    (hscan : Scans (nextFrame maxPayloadBytes) before.flatten frames (.ok rest)) :
    encoded.flatten.length ≤ before.flatten.length ∧
      before.flatten.length < encoded.flatten.length + corruptBytes maxPayloadBytes tail := by
  rw [List.flatten_append] at hstream
  have hle : encoded.flatten.length ≤ before.flatten.length := by
    by_contra hlt
    -- the valid frames would be complete before their last byte
    obtain ⟨s, hs⟩ : ∃ s, encoded.flatten = before.flatten ++ s :=
      (List.append_eq_append_iff.mp hstream).elim (fun ⟨s, hs, _⟩ => ⟨s, hs⟩) fun ⟨s, hs, _⟩ => by
        rw [hs, List.length_append] at hlt
        omega
    have hwhole := scans_valid hvalid (.more (rfl : nextFrame maxPayloadBytes [] = .more))
    obtain ⟨ys, r, hys⟩ := exists_scans maxPayloadBytes (rest ++ s)
    have hboth := hscan.append (incremental_nextFrame maxPayloadBytes) hys
    rw [List.append_nil, hs] at hwhole
    obtain ⟨hframes, hr⟩ := hboth.unique hwhole
    rw [List.append_nil] at hframes
    obtain rfl := List.append_right_eq_self.mp hframes
    rw [hr] at hys
    have hnil : rest ++ s = [] := by
      generalize rest ++ s = left at hys
      cases hys with
      | more _ => rfl
    rw [(List.append_eq_nil_iff.mp hnil).2, List.append_nil] at hs
    rw [hs] at hlt
    exact hlt (Nat.le_refl _)
  refine ⟨hle, ?_⟩
  obtain ⟨u, hu⟩ : ∃ u, before.flatten = encoded.flatten ++ u ∧ u ++ after.flatten = tail := by
    obtain ⟨u, hbefore, htail⟩ | ⟨u, hencoded, hafter⟩ := List.append_eq_append_iff.mp hstream
    · have hnil : u = [] := by
        rw [hbefore, List.length_append] at hle
        exact List.length_eq_zero_iff.mp (by omega)
      rw [hnil, List.append_nil] at hbefore
      rw [hnil, List.nil_append] at htail
      exact ⟨[], by rw [List.append_nil, hbefore], htail⟩
    · exact ⟨u, hencoded, hafter.symm⟩
  obtain ⟨hbefore, htail⟩ := hu
  have hmore : nextFrame maxPayloadBytes u = .more := by
    obtain ⟨ys, r, hys⟩ := exists_scans maxPayloadBytes u
    have hwhole := scans_valid hvalid hys
    rw [← hbefore] at hwhole
    obtain ⟨hframes, rfl⟩ := hscan.unique hwhole
    obtain rfl := List.append_right_eq_self.mp hframes.symm
    cases hys with
    | more h => exact h
  have htake : tail.take u.length = u := by
    rw [← htail, List.take_left]
  rw [hbefore, List.length_append]
  have hvisible := (nextFrame_take hcorrupt u.length).mp (by rw [htake, hmore])
  omega

def opened (maxPayloadBytes : ℕ) : FramedConnection := { decoder := ⟨maxPayloadBytes, [], 0⟩ }

theorem sound_opened : Sound maxPayloadBytes (opened maxPayloadBytes) where
  ceiling := rfl
  offset := Nat.le_refl _
  incomplete := rfl
  room := Nat.zero_le _
  queue := Nat.le_refl _

/-- The frames that are handed out before the first error: those of the reads before the one that is refused. -/
theorem delivers_opened (ending : Error) (hmax : maxPayloadBytes < 2 ^ 32)
    (hreads : ∀ p ∈ reads, p ≠ [] ∧ p.length ≤ kReadBufferBytes)
    (hscan : Scans (nextFrame maxPayloadBytes) reads.flatten frames (.error e)) :
    ∃ before p after early late rest, reads = before ++ p :: after ∧
      Delivers ending (opened maxPayloadBytes) reads early e ∧
      Scans (nextFrame maxPayloadBytes) before.flatten early (.ok rest) ∧
      Scans (nextFrame maxPayloadBytes) (before ++ [p]).flatten frames (.error e) ∧ frames = early ++ late := by
  have hn := incremental_nextFrame maxPayloadBytes
  obtain ⟨xs, r, hfed⟩ := exists_fed (exists_scans maxPayloadBytes) [] reads
  obtain ⟨rfl, rfl⟩ := (hfed.whole hn rfl).unique hscan
  obtain ⟨before, p, after, early, late, rest, rfl, hbefore, hstop, rfl⟩ := hfed.stopped
  have hp := hreads p (by simp)
  have hdelivers := delivers_before ending after hmax sound_opened
    (fun q hq => hreads q (List.mem_append_left _ hq)) hp hbefore hstop
  have hwhole := hbefore.whole hn rfl
  refine ⟨before, p, after, early, late, rest, rfl, hdelivers, hwhole, ?_, rfl⟩
  rw [List.flatten_append, List.flatten_singleton]
  exact hwhole.append hn hstop

/-- Valid frames are handed out before a corrupt one exactly when the socket does not join the last of them and the
corruption in one read. -/
theorem receive_in_order_iff (hmax : maxPayloadBytes < 2 ^ 32) (ending : Error) {encoded : List Bytes} {tail : Bytes}
    (hvalid : List.Forall₂ (fun frame bytes => nextFrame maxPayloadBytes bytes = .item frame bytes.length) frames encoded)
    (hcorrupt : nextFrame maxPayloadBytes tail = .refused e)
    (hreads : ∀ p ∈ reads, p ≠ [] ∧ p.length ≤ kReadBufferBytes) (hstream : reads.flatten = encoded.flatten ++ tail) :
    (∃ e', Delivers ending (opened maxPayloadBytes) reads frames e') ↔
      Separated encoded.flatten.length (corruptBytes maxPayloadBytes tail) reads := by
  have hn := incremental_nextFrame maxPayloadBytes
  have hscan : Scans (nextFrame maxPayloadBytes) reads.flatten frames (.error e) := by
    rw [hstream]
    simpa using scans_valid hvalid (.refused hcorrupt)
  obtain ⟨before, p, after, early, late, rest, hsplit, hdelivers, hbefore, hrefused, hframes⟩ :=
    delivers_opened ending hmax hreads hscan
  constructor
  · rintro ⟨e', hall⟩
    obtain ⟨rfl, -⟩ := hall.unique hdelivers
    rw [hsplit] at hstream
    exact ⟨before, p :: after, hsplit, separated_of_early hvalid hcorrupt hstream hbefore⟩
  · rintro ⟨front, back, hreads', hvalid_le, hcorrupt_lt⟩
    obtain ⟨u, hfront, hu⟩ : ∃ u, front.flatten = encoded.flatten ++ u ∧ tail = u ++ back.flatten := by
      rw [hreads', List.flatten_append] at hstream
      obtain ⟨u, hencoded, hback⟩ | ⟨u, hfront, htail⟩ := List.append_eq_append_iff.mp hstream
      · have hnil : u = [] := by
          rw [hencoded, List.length_append] at hvalid_le
          exact List.length_eq_zero_iff.mp (by omega)
        rw [hnil, List.append_nil] at hencoded
        rw [hnil, List.nil_append] at hback
        exact ⟨[], by rw [List.append_nil, hencoded], hback.symm⟩
      · exact ⟨u, hfront, htail⟩
    have hmore : nextFrame maxPayloadBytes u = .more := by
      rw [hfront, List.length_append] at hcorrupt_lt
      have htake := (nextFrame_take hcorrupt u.length).mpr (by omega)
      rwa [hu, List.take_left] at htake
    have hfrontscan : Scans (nextFrame maxPayloadBytes) front.flatten frames (.ok u) := by
      rw [hfront]
      simpa using scans_valid hvalid (.more hmore)
    -- the refused read comes after `front`
    have hlater : ∃ mid, before = front ++ mid := by
      rw [hreads'] at hsplit
      obtain ⟨mid, hmid, -⟩ | ⟨mid, hmid, hback⟩ := List.append_eq_append_iff.mp hsplit
      · exact ⟨mid, hmid⟩
      · cases mid with
        | nil => exact ⟨[], by rw [hmid, List.append_nil, List.append_nil]⟩
        | cons q mid =>
          obtain ⟨rfl, -⟩ := List.cons.inj hback
          have herror := hrefused.error_append hn mid.flatten
          have heq : (before ++ [p]).flatten ++ mid.flatten = front.flatten := by
            rw [hmid, ← List.flatten_append, List.append_assoc, List.singleton_append]
          rw [heq] at herror
          cases (herror.unique hfrontscan).2
    obtain ⟨mid, rfl⟩ := hlater
    obtain ⟨ys, r, hys⟩ := exists_scans maxPayloadBytes (u ++ mid.flatten)
    have hwhole := hfrontscan.append hn hys
    rw [← List.flatten_append] at hwhole
    obtain ⟨rfl, -⟩ := hbefore.unique hwhole
    have hlengths := congrArg List.length hframes
    rw [List.length_append, List.length_append] at hlengths
    obtain rfl := List.length_eq_zero_iff.mp (by omega : ys.length = 0)
    rw [List.append_nil] at hdelivers
    exact ⟨e, hdelivers⟩

/-! A ping and a header of zeros behind it. -/

def ping : Frame := ⟨headerOf .ping 0 [], []⟩

def pingBytes : Bytes := encodeFrameHeader (headerOf .ping 0 [])

def zeroHeader : Bytes := List.replicate 24 0

def desynchronized : Error where
  code := .protocolViolation
  message := "frame magic does not match; the stream is not framed by this protocol or it has desynchronized"

def peerClosed : Error := ⟨.connectionClosed, "peer closed the connection", ""⟩

theorem nextFrame_ping : nextFrame 64 pingBytes = .item ping pingBytes.length := by
  have hencode : encodeFrame .ping 0 [] 64 = .ok pingBytes := by
    simp [encodeFrame, pingBytes, unknownBits, kAbsoluteMaxPayloadBytes]
  exact nextFrame_encodeFrame hencode

theorem nextFrame_zeroHeader : nextFrame 64 zeroHeader = .refused desynchronized := rfl

theorem length_pingBytes : pingBytes.length = 24 := length_encodeFrameHeader _

/-- In one read with the corruption, the ping is not handed out before the error. -/
theorem ping_not_delivered : nextFrame 64 pingBytes = .item ping pingBytes.length ∧
    nextFrame 64 zeroHeader = .refused desynchronized ∧
    ¬ ∃ e, Delivers peerClosed (opened 64) [pingBytes ++ zeroHeader] [ping] e := by
  refine ⟨nextFrame_ping, nextFrame_zeroHeader, ?_⟩
  rintro ⟨e, hdelivers⟩
  have hstop : Scans (nextFrame 64) ([] ++ (pingBytes ++ zeroHeader)) [ping] (.error desynchronized) := by
    have hvalid : List.Forall₂ (fun frame bytes => nextFrame 64 bytes = .item frame bytes.length) [ping] [pingBytes] :=
      .cons nextFrame_ping .nil
    simpa using scans_valid hvalid (.refused nextFrame_zeroHeader)
  have hlength : (pingBytes ++ zeroHeader).length = 48 := by
    rw [List.length_append, length_pingBytes]
    rfl
  have hread : pingBytes ++ zeroHeader ≠ [] ∧ (pingBytes ++ zeroHeader).length ≤ kReadBufferBytes := by
    refine ⟨List.ne_nil_of_length_pos (by omega), ?_⟩
    rw [hlength]
    decide
  have hfirst := delivers_before peerClosed [] (by decide) sound_opened (by simp) hread .done hstop
  exact absurd (hdelivers.unique hfirst).1 (by simp [waiting, opened])

theorem ping_delivered_first : ∃ e, Delivers peerClosed (opened 64) [pingBytes, zeroHeader] [ping] e := by
  have hvalid : List.Forall₂ (fun frame bytes => nextFrame 64 bytes = .item frame bytes.length) [ping] [pingBytes] :=
    .cons nextFrame_ping .nil
  have hreads : ∀ p ∈ [pingBytes, zeroHeader], p ≠ [] ∧ p.length ≤ kReadBufferBytes := by
    have hping : pingBytes ≠ [] := List.ne_nil_of_length_pos (by rw [length_pingBytes]; decide)
    simp only [List.mem_cons, List.not_mem_nil, or_false, forall_eq_or_imp, forall_eq, length_pingBytes]
    exact ⟨⟨hping, by decide⟩, by decide⟩
  refine (receive_in_order_iff (by decide) peerClosed hvalid nextFrame_zeroHeader hreads (by simp)).mpr ?_
  refine ⟨[pingBytes], [zeroHeader], rfl, Nat.le_refl _, ?_⟩
  have hcorrupt : corruptBytes 64 zeroHeader = 24 := rfl
  rw [hcorrupt]
  omega

end FramedConnection

end ConfigurationFabric.Wire
