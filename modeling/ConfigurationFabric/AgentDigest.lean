import ConfigurationFabric.AgentTransfers

/-! What is live hashes to what its pointer says. -/

namespace ConfigurationFabric

open LittleEndian
open Program

namespace Agent

/-- A digest that some prepare message has named. -/
def Named (received : List Message) (d : Digest) : Prop := ∃ p, Message.prepare p ∈ received ∧ p.digest = d

/-- Twelve digits tell the digests of two offers apart. -/
def ToldApart (p : PrepareMessage) : Message → Prop
  | .prepare q => shortDigest q.digest = shortDigest p.digest → q.digest = p.digest
  | _ => True

instance (p : PrepareMessage) : DecidablePred (ToldApart p)
  | .prepare q => inferInstanceAs (Decidable (shortDigest q.digest = shortDigest p.digest → q.digest = p.digest))
  | .hello _ | .chunk _ | .transferComplete _ | .stage _ | .applyPrepare _ | .applyCommit _ | .applyAbort _
  | .reconcileRequest _ | .retire _ | .ping _ | .goodbye | .unexpected => .isTrue trivial

/-- What is assumed of the offers: plain deployment ids, and no two digests with the same first twelve digits. -/
def PlainOffer (w : World) : Event → Prop
  | .message _ (.prepare p) => (47 : UInt8) ∉ p.deployment ∧ ∀ m ∈ w.received, ToldApart p m
  | _ => True

instance (w : World) : DecidablePred (PlainOffer w)
  | .message _ (.prepare p) => inferInstanceAs (Decidable ((47 : UInt8) ∉ p.deployment ∧ ∀ m ∈ w.received, ToldApart p m))
  | .start _ | .hello _ | .crash | .message _ (.hello _) | .message _ (.chunk _) | .message _ (.transferComplete _)
  | .message _ (.stage _) | .message _ (.applyPrepare _) | .message _ (.applyCommit _) | .message _ (.applyAbort _)
  | .message _ (.reconcileRequest _) | .message _ (.retire _) | .message _ (.ping _) | .message _ .goodbye
  | .message _ .unexpected => .isTrue trivial

theorem stagingPath_plain {d : DeploymentId} (h : (47 : UInt8) ∉ d) : stagingPath d = [d ++ text ".part"] := by
  have hmem : (47 : UInt8) ∉ d ++ text ".part" := by
    rw [List.mem_append, not_or]
    exact ⟨h, by decide⟩
  have hlength : (d ++ text ".part").length = d.length + 5 := by rw [List.length_append]; rfl
  have hne (s : Bytes) (hs : s.length < 5) : d ++ text ".part" ≠ s := by
    rintro rfl
    omega
  have hsplit : (d ++ text ".part").splitOn 47 = [d ++ text ".part"] := by
    rw [List.splitOn_eq_splitOnP]
    refine List.splitOnP_eq_singleton fun x hx => beq_eq_false_iff_ne.mpr ?_
    rintro rfl
    exact hmem hx
  rw [stagingPath, resolvePath, hsplit, List.foldl_cons, List.foldl_nil, resolveComponent, if_neg, if_neg]
  · rfl
  · exact hne _ (by decide)
  · rw [not_or]
    exact ⟨hne _ (by decide), hne _ (by decide)⟩

theorem stagingPath_inj {d d' : DeploymentId} (h : (47 : UInt8) ∉ d) (h' : (47 : UInt8) ∉ d')
    (heq : stagingPath d = stagingPath d') : d = d' := by
  rw [stagingPath_plain h, stagingPath_plain h'] at heq
  exact List.append_cancel_right (List.head_eq_of_cons_eq heq)

/-- The staged bytes are the content the record announces. -/
def Matches (content : Bytes) (c : TransferRecord) : Prop :=
  content.length = c.totalBytes ∧ Digest.ofContent content = c.digest

structure Digested (w : World) : Prop where
  tables : Tables w
  readable : Readable w.files
  plain : ∀ p, Message.prepare p ∈ w.received → (47 : UInt8) ∉ p.deployment
  distinct : ∀ d d', Named w.received d → Named w.received d' → shortDigest d = shortDigest d' → d = d'
  staging : ∀ c, Holds w c → c.verified = true → ∀ content,
    w.files.staging.lookup (stagingPath c.deployment) = some content → Matches content c
  payload : ∀ name content, w.files.payload.lookup name = some content →
    Named w.received (.ofContent content) ∧ shortDigest (.ofContent content) = name.digits
  pointer : ∀ directory v, w.files.current.lookup directory = some (.pointer v) → Named w.received v.digest

section Digested

variable {w w' : World} {c : TransferRecord}

theorem Requested.named {received : List Message} (h : Requested received c) : Named received c.digest := by
  obtain ⟨p, hp, -, -, -, -, hd, -⟩ := h
  exact ⟨p, hp, hd⟩

theorem Named.mono {received : List Message} {d : Digest} (h : Named received d) (m : Message) :
    Named (received ++ [m]) d := by
  obtain ⟨p, hp, hd⟩ := h
  exact ⟨p, List.mem_append_left _ hp, hd⟩

theorem Digested.plain_of (h : Digested w) (hc : Holds w c) : (47 : UInt8) ∉ c.deployment := by
  obtain ⟨p, hp, hd, -⟩ := (h.tables.holds hc).requested
  exact hd ▸ h.plain p hp

/-- Everything the invariant reads is as it was. -/
theorem Digested.congr (h : Digested w) (ht : Tables w') (hreceived : w'.received = w.received)
    (hmem : w'.mem.transfers = w.mem.transfers) (hstaging : w'.files.staging = w.files.staging)
    (hpayload : w'.files.payload = w.files.payload) (hcurrent : w'.files.current = w.files.current) :
    Digested w' where
  tables := ht
  readable directory := by rw [hcurrent]; exact h.readable directory
  plain := hreceived ▸ h.plain
  distinct := hreceived ▸ h.distinct
  staging c hc := by
    rw [Holds, hmem] at hc
    rw [hstaging]
    exact h.staging c hc
  payload := by rw [hpayload, hreceived]; exact h.payload
  pointer := by rw [hcurrent, hreceived]; exact h.pointer

/-- A transfer table changed, with its new records backed by what is staged. -/
theorem Digested.onTable (h : Digested w) (ht : Tables w') (hreceived : w'.received = w.received)
    (hfiles : w'.files = w.files)
    (hmem : ∀ c, Holds w' c → c.verified = true → Holds w c ∨ ∀ content,
      w.files.staging.lookup (stagingPath c.deployment) = some content → Matches content c) : Digested w' where
  tables := ht
  readable := hfiles ▸ h.readable
  plain := hreceived ▸ h.plain
  distinct := hreceived ▸ h.distinct
  staging c hc hv content hcontent := by
    rw [hfiles] at hcontent
    obtain hold | hnew := hmem c hc hv
    · exact h.staging c hold hv content hcontent
    · exact hnew content hcontent
  payload := by rw [hfiles, hreceived]; exact h.payload
  pointer := by rw [hfiles, hreceived]; exact h.pointer

theorem holds_upsert {c c' : TransferRecord} (h : Holds (w.commit (.transferUpsert c)) c') :
    c' = c ∨ Holds w c' := by
  change (w.mem.transfers.insert c.deployment c).find c'.deployment = some c' at h
  rw [SortedMap.find_insert] at h
  split at h
  · exact .inl (Option.some.inj h).symm
  · exact .inr h

theorem Digested.upsert (h : Digested w) (hc : RecordSound w.received c)
    (hmatch : c.verified = true → ∀ content,
      w.files.staging.lookup (stagingPath c.deployment) = some content → Matches content c) :
    Digested (w.commit (.transferUpsert c)) := by
  refine h.onTable (h.tables.upsert hc) rfl rfl fun c' hc' hv => ?_
  obtain rfl | hold := holds_upsert hc'
  · exact .inr (hmatch hv)
  · exact .inl hold

/-- Only a record that is not verified has bytes written under its name. -/
theorem Digested.written (h : Digested w) (hc : Holds w c) (hv : c.verified = false) (content : Bytes) :
    Digested (w.writeStaging (stagingPath c.deployment) content) where
  tables := h.tables.congr rfl rfl rfl
  readable := h.readable
  plain := h.plain
  distinct := h.distinct
  staging c' hc' hv' content' hcontent' := by
    have hpath : stagingPath c'.deployment ≠ stagingPath c.deployment := by
      intro heq
      have hd := stagingPath_inj (h.plain_of hc') (h.plain_of hc) heq
      have hsame : some c' = some c := by
        rw [← show w.mem.transfers.find c'.deployment = some c' from hc', hd]
        exact hc
      rw [Option.some.inj hsame, hv] at hv'
      cases hv'
    refine h.staging c' hc' hv' content' ?_
    rw [← hcontent']
    exact (AList.lookup_insert_ne hpath).symm
  payload := h.payload
  pointer := h.pointer

theorem Digested.unstaged (h : Digested w) (path : Directory) :
    Digested (w.onFiles fun f => { f with staging := f.staging.erase path }) where
  tables := h.tables.congr rfl rfl rfl
  readable := h.readable
  plain := h.plain
  distinct := h.distinct
  staging c hc hv content hcontent := by
    change (w.files.staging.erase path).lookup _ = some content at hcontent
    by_cases hpath : stagingPath c.deployment = path
    · rw [hpath, AList.lookup_erase] at hcontent
      cases hcontent
    · rw [AList.lookup_erase_ne hpath] at hcontent
      exact h.staging c hc hv content hcontent
  payload := h.payload
  pointer := h.pointer

theorem Digested.placed (h : Digested w) (hc : Holds w c) (hv : c.verified = true) {content : Bytes}
    (hcontent : w.files.staging.lookup (stagingPath c.deployment) = some content)
    (parts : List (Directory × Bytes)) :
    Digested (w.onFiles fun f => { f with
      parts, payload := f.payload.insert (payloadName (liveKeyDirectory c.key) c.generation c.digest) content }) where
  tables := h.tables.congr rfl rfl rfl
  readable := h.readable
  plain := h.plain
  distinct := h.distinct
  staging := h.staging
  payload name content' hcontent' := by
    change (w.files.payload.insert (payloadName (liveKeyDirectory c.key) c.generation c.digest) content).lookup name =
      some content' at hcontent'
    by_cases hname : name = payloadName (liveKeyDirectory c.key) c.generation c.digest
    · rw [hname, AList.lookup_insert] at hcontent'
      obtain rfl := Option.some.inj hcontent'
      have hhash := (h.staging c hc hv content hcontent).2
      rw [hname, hhash]
      exact ⟨(h.tables.holds hc).requested.named, rfl⟩
    · rw [AList.lookup_insert_ne hname] at hcontent'
      exact h.payload name content' hcontent'
  pointer := h.pointer

theorem Digested.pruned (h : Digested w) (name : PayloadName) :
    Digested (w.onFiles fun f => { f with payload := f.payload.erase name }) where
  tables := h.tables.congr rfl rfl rfl
  readable := h.readable
  plain := h.plain
  distinct := h.distinct
  staging := h.staging
  payload name' content hcontent := by
    change (w.files.payload.erase name).lookup name' = some content at hcontent
    by_cases hname : name' = name
    · rw [hname, AList.lookup_erase] at hcontent
      cases hcontent
    · rw [AList.lookup_erase_ne hname] at hcontent
      exact h.payload name' content hcontent
  pointer := h.pointer

theorem Digested.removed (h : Digested w) (d : DeploymentId) : Digested (w.commit (.transferRemove d)) := by
  refine h.onTable (h.tables.removed d) rfl rfl fun c hc _ => .inl ?_
  change (w.mem.transfers.erase d).find c.deployment = some c at hc
  rw [SortedMap.find_erase] at hc
  split at hc
  · cases hc
  · exact hc

theorem Digested.remembered (h : Digested w) {finish : ℕ} {at_ : ℤ} (hc : Holds w c)
    (hlt : c.bytesReceived < finish) (hle : finish ≤ c.totalBytes) :
    Digested (w.remember c.deployment { c with bytesReceived := finish, updatedAtMillis := at_ }) := by
  have hquiet : Quiet w (w.remember c.deployment { c with bytesReceived := finish, updatedAtMillis := at_ }) :=
    .remembered hc hlt hle
  refine h.onTable (h.tables.quiet hquiet) rfl rfl fun c' hc' hv => ?_
  change (w.mem.transfers.insert c.deployment _).find c'.deployment = some c' at hc'
  rw [SortedMap.find_insert] at hc'
  split at hc'
  · obtain rfl := Option.some.inj hc'
    have hfalse := (h.tables.holds hc).unverified (by omega)
    rw [show c.verified = true from hv] at hfalse
    cases hfalse
  · exact .inl hc'

/-- The hash of a file read to its end. -/
theorem hashFile_eq_ok {content : Bytes} {expected : ℕ} {d : Digest} (h : hashFile (some content) expected = .ok d)
    (he : expected ≠ 0) : content.length = expected ∧ Digest.ofContent content = d := by
  simp only [hashFile] at h
  split at h
  · cases h
  case isFalse hlength => exact ⟨not_not.mp fun hne => hlength ⟨he, hne⟩, Except.ok.inj h⟩

theorem Tables.total_ne_zero (h : Tables w) (hc : Holds w c) : c.totalBytes ≠ 0 := by
  obtain ⟨p, hp, -, -, -, -, -, hsize⟩ := (h.holds hc).requested
  have hvalid : (Message.prepare p).Valid := h.valid _ hp
  exact hsize ▸ hvalid.2.2.2.2.2.1

theorem Digested.quiet (h : Digested w) (hq : Quiet w w') : Digested w' := by
  have ht := h.tables.quiet hq
  cases hq with
  | answer | count | counter | note | resolved | fence | prepared | copying | marked | unmarked =>
    exact h.congr ht rfl rfl rfl rfl rfl
  | begun hm hle =>
    exact h.upsert ⟨hle, by simp, by simp, ⟨_, hm, rfl, rfl, rfl, rfl, rfl, rfl⟩⟩ fun hv => by cases hv
  | @progressed c finish at_ hc hlt hle =>
    have hs := h.tables.holds hc
    refine h.upsert (hs.progressed hlt hle) fun hv => ?_
    have hfalse := hs.unverified (by omega)
    rw [show c.verified = true from hv] at hfalse
    cases hfalse
  | remembered hc hlt hle => exact h.remembered hc hlt hle
  | @verified c content at_ hc hall hcontent hhash =>
    have hs := h.tables.holds hc
    refine h.upsert ⟨hs.bounded, fun _ => rfl, fun _ => hall, hs.requested⟩ fun _ content' hcontent' => ?_
    have hsame : some content' = some content := by rw [← hcontent]; exact hcontent'.symm
    have htotal := h.tables.total_ne_zero hc
    rw [Option.some.inj hsame]
    exact hashFile_eq_ok hhash htotal
  | @staged c at_ hc hv =>
    have hs := h.tables.holds hc
    exact h.upsert ⟨hs.bounded, fun _ => hv, hs.verified, hs.requested⟩ fun _ => h.staging c hc hv
  | removed d => exact h.removed d
  | unstaged path => exact h.unstaged path
  | written content hc hlt => exact h.written hc ((h.tables.holds hc).unverified hlt) content
  | placed parts hc hv hcontent => exact h.placed hc hv hcontent parts
  | pruned name => exact h.pruned name

/-- The live pointers changed, each new one naming what was asked for. -/
theorem Digested.onCurrent (h : Digested w) (ht : Tables w') (hreceived : w'.received = w.received)
    (hmem : w'.mem.transfers = w.mem.transfers) (hstaging : w'.files.staging = w.files.staging)
    (hpayload : w'.files.payload = w.files.payload)
    (hcurrent : ∀ directory value, w'.files.current.lookup directory = some value →
      w.files.current.lookup directory = some value ∨ ∃ v, value = .pointer v ∧ Named w.received v.digest) :
    Digested w' where
  tables := ht
  readable directory hbad := by
    obtain hold | ⟨v, hv, -⟩ := hcurrent directory _ hbad
    · exact h.readable directory hold
    · cases hv
  plain := hreceived ▸ h.plain
  distinct := hreceived ▸ h.distinct
  staging c hc := by
    rw [Holds, hmem] at hc
    rw [hstaging]
    exact h.staging c hc
  payload := by rw [hpayload, hreceived]; exact h.payload
  pointer directory v hv := by
    rw [hreceived]
    obtain hold | ⟨v', hv', hnamed⟩ := hcurrent directory _ hv
    · exact h.pointer directory v hold
    · cases hv'
      exact hnamed

theorem Digested.dropped (h : Digested w) (directory : Directory) :
    Digested (w.onFiles (·.dropCurrent directory)) := by
  refine h.onCurrent (h.tables.congr rfl rfl rfl) rfl rfl rfl rfl fun directory' value hvalue => .inl ?_
  simp only [World.onFiles, lookup_dropCurrent] at hvalue
  split at hvalue
  · cases hvalue
  · exact hvalue

theorem Digested.switched (h : Digested w) (hc : Holds w c) : Digested (w.switch c) := by
  refine h.onCurrent (h.tables.congr rfl rfl rfl) rfl rfl rfl rfl fun directory value hvalue => ?_
  simp only [World.switch, lookup_putCurrent] at hvalue
  split at hvalue
  · exact .inr ⟨c.pointer, (Option.some.inj hvalue).symm, (h.tables.holds hc).requested.named⟩
  · exact .inl hvalue

theorem Digested.handled {failing : Prop} {I : World → Prop} (h : Digested w) (hstep : AStep failing I w w') :
    Digested w' := by
  have ht := h.tables.handled hstep
  cases hstep with
  | quiet _ hq => exact h.quiet hq
  | resolved | unmarked | settled | found => exact h.congr ht rfl rfl rfl rfl rfl
  | switched _ hc _ _ => exact h.switched hc
  | lost directory _ _ => exact h.dropped directory

theorem Digested.recovered (h : Digested w) (hstep : RStep w w') : Digested w' := by
  have ht := h.tables.recovered hstep
  cases hstep with
  | quiet hq _ => exact h.quiet hq
  | @resized c content hc hcontent hlong =>
    refine h.written hc ?_ _
    -- the bytes of a verified record are exactly as many as it announces
    by_contra hv
    have hv' := Bool.eq_true_of_not_eq_false hv
    have hlength := (h.staging c hc hv' content hcontent).1
    have hall := (h.tables.holds hc).verified hv'
    omega
  | @checkpointed c hc => exact h.upsert (h.tables.holds hc) fun hv => h.staging c hc hv
  | dropped _ => exact h.dropped _
  | adopted | cleared | identified => exact h.congr ht rfl rfl rfl rfl rfl

theorem Digested.restart (h : Digested w) : Digested w.restart where
  tables := h.tables.restart
  readable := h.readable
  plain := h.plain
  distinct := h.distinct
  staging c hc hv content hcontent := by
    -- the record in memory agrees on everything the claim about the bytes uses
    have hsame := h.tables.same c.deployment
    rw [show w.dur.transfers.find c.deployment = some c from hc] at hsame
    obtain ⟨c', hc', hstill⟩ := Option.map_eq_some_iff.mp hsame
    simp only [still, TransferRecord.mk.injEq] at hstill
    obtain ⟨hdeployment, -, -, -, -, hdigest, htotal, -, hverified, -⟩ := hstill
    have hheld : Holds w c' := by rw [Holds, hdeployment]; exact hc'
    have hmatch := h.staging c' hheld (hverified.trans hv) content (by rw [hdeployment]; exact hcontent)
    exact ⟨hmatch.1.trans htotal, hmatch.2.trans hdigest⟩
  payload := h.payload
  pointer := h.pointer

theorem named_append {received : List Message} {m : Message} {d : Digest} (h : Named (received ++ [m]) d) :
    Named received d ∨ ∃ p, m = .prepare p ∧ p.digest = d := by
  obtain ⟨p, hp, hd⟩ := h
  obtain hp | hp := List.mem_append.mp hp
  · exact .inl ⟨p, hp, hd⟩
  · exact .inr ⟨p, (List.mem_singleton.mp hp).symm, hd⟩

theorem Digested.receive (h : Digested w) {m : Message} (hm : m.Valid)
    (hplain : ∀ p, m = .prepare p → (47 : UInt8) ∉ p.deployment ∧ ∀ m ∈ w.received, ToldApart p m) :
    Digested (w.receive m) where
  tables := h.tables.receive hm
  readable := h.readable
  plain p hp := by
    obtain hp | hp := List.mem_append.mp hp
    · exact h.plain p hp
    · exact (hplain p (List.mem_singleton.mp hp).symm).1
  distinct d d' hd hd' heq := by
    obtain hd | ⟨p, hp, rfl⟩ := named_append hd
    · obtain hd' | ⟨p, hp, rfl⟩ := named_append hd'
      · exact h.distinct d d' hd hd' heq
      · obtain ⟨q, hq, rfl⟩ := hd
        exact (hplain p hp).2 _ hq heq
    · obtain hd' | ⟨p', hp', rfl⟩ := named_append hd'
      · obtain ⟨q, hq, rfl⟩ := hd'
        exact ((hplain p hp).2 _ hq heq.symm).symm
      · rw [hp] at hp'
        cases hp'
        rfl
  staging := h.staging
  payload name content hcontent :=
    have hnamed := h.payload name content hcontent
    ⟨hnamed.1.mono m, hnamed.2⟩
  pointer directory v hv := (h.pointer directory v hv).mono m

theorem digested_empty : Digested {} where
  tables := ⟨by simp, ⟨.nil, by simp, by simp⟩, ⟨.nil, by simp, by simp⟩, fun _ => rfl⟩
  readable directory := by simp
  plain := by simp
  distinct d d' hd := by simp [Named] at hd
  staging c hc := by simp [Holds] at hc
  payload := by simp
  pointer := by simp

theorem digested_inductive (o : AgentOptions) (allowed : Env → Prop) :
    Inductive o allowed PlainOffer Digested fun _ => True where
  empty := digested_empty
  kept h := ⟨h.tables.mem.kept, h.tables.dur.kept⟩
  readable h := h.readable
  restart h := h.restart
  hello h _ := ⟨h.receive trivial (by simp), trivial⟩
  receive hplain hm h _ := by
    refine ⟨h.receive hm ?_, trivial⟩
    rintro p rfl
    exact hplain
  handled hstep h := h.handled hstep
  recovered hstep h := h.recovered hstep
  stable := ⟨fun _ _ => trivial, fun _ _ _ _ => trivial, fun _ _ _ _ _ => trivial⟩
  started _ _ _ _ := trivial

end Digested

/-- In every state of a run, transfers are staged only when verified and verified only when complete, and what a
live pointer names is what its payload file holds. -/
theorem digest_before_activation {o : AgentOptions} {allowed : Env → Prop} {M : Machine}
    (h : Reachable o allowed PlainOffer M) :
    (∀ s, s = M.world.mem ∨ s = M.world.dur → ∀ d c, (d, c) ∈ s.transfers →
      (c.staged = true → c.verified = true) ∧ (c.verified = true → c.bytesReceived = c.totalBytes)) ∧
    ∀ key v content, M.world.files.current.lookup (liveKeyDirectory key) = some (.pointer v) →
      M.world.files.payload.lookup (payloadName (liveKeyDirectory key) v.generation v.digest) = some content →
      Digest.ofContent content = v.digest := by
  obtain ⟨hw, -⟩ := (digested_inductive o allowed).reachable h
  refine ⟨?_, fun key v content hv hcontent => ?_⟩
  · rintro s (rfl | rfl) d c hc
    · exact ⟨(hw.tables.mem.sound _ hc).staged, (hw.tables.mem.sound _ hc).verified⟩
    · exact ⟨(hw.tables.dur.sound _ hc).staged, (hw.tables.dur.sound _ hc).verified⟩
  · obtain ⟨hnamed, hdigits⟩ := hw.payload _ content hcontent
    exact hw.distinct _ _ hnamed (hw.pointer _ v hv) hdigits

/-- One byte delivered and the agent restarted. -/
def restartedDelivery : List Event :=
  .start [] :: delivery (text "d") (text "key") 3 66 ++ [.crash, .start [[text "key"]]]

theorem digest_live_after_restart : ∃ v content,
    (run { target := text "t" } restartedDelivery).world.files.current.lookup (liveKeyDirectory (text "key")) =
      some (.pointer v) ∧
    (run { target := text "t" } restartedDelivery).world.files.payload.lookup
      (payloadName (liveKeyDirectory (text "key")) v.generation v.digest) = some content ∧
    Digest.ofContent content = v.digest := by
  have hreach : Reachable { target := text "t" } (fun _ => True) PlainOffer
      (run { target := text "t" } restartedDelivery) :=
    reachable_run (fun _ => trivial) (by decide)
  have hlive : (run { target := text "t" } restartedDelivery).world.files.current.lookup
      (liveKeyDirectory (text "key")) = some (.pointer ⟨3, .ofContent [66], text "artifact"⟩) := by decide +kernel
  have hpayload : (run { target := text "t" } restartedDelivery).world.files.payload.lookup
      (payloadName (liveKeyDirectory (text "key")) 3 (.ofContent [66])) = some [66] := by decide +kernel
  exact ⟨_, _, hlive, hpayload, (digest_before_activation hreach).2 _ _ _ hlive hpayload⟩

end Agent

end ConfigurationFabric
