import ConfigurationFabric.AgentSystem

/-! The agent's transfer records in memory and in the journal. -/

namespace ConfigurationFabric

open LittleEndian
open Program

namespace Agent

/-- The record describes what some prepare message has asked for. -/
def Requested (received : List Message) (c : TransferRecord) : Prop :=
  ∃ p, Message.prepare p ∈ received ∧ p.deployment = c.deployment ∧ p.key = c.key ∧
    p.artifact = c.artifact ∧ p.generation = c.generation ∧ p.digest = c.digest ∧ p.sizeBytes = c.totalBytes

structure RecordSound (received : List Message) (c : TransferRecord) : Prop where
  bounded : c.bytesReceived ≤ c.totalBytes
  staged : c.staged = true → c.verified = true
  verified : c.verified = true → c.bytesReceived = c.totalBytes
  requested : Requested received c

structure Table (received : List Message) (t : SortedMap DeploymentId TransferRecord) : Prop where
  sorted : SortedMap.Sorted t
  keyed : ∀ e ∈ t, e.2.deployment = e.1
  sound : ∀ e ∈ t, RecordSound received e.2

/-- The record without how far its transfer has come. -/
def still (c : TransferRecord) : TransferRecord := { c with bytesReceived := 0, updatedAtMillis := 0 }

/-- Memory is ahead of the journal at most in how far a transfer has come. -/
structure Tables (w : World) : Prop where
  valid : ∀ m ∈ w.received, m.Valid
  mem : Table w.received w.mem.transfers
  dur : Table w.received w.dur.transfers
  same : ∀ d, (w.mem.transfers.find d).map still = (w.dur.transfers.find d).map still

section Tables

variable {received : List Message} {t : SortedMap DeploymentId TransferRecord} {c : TransferRecord} {w w' : World}

theorem Requested.mono (h : Requested received c) (m : Message) : Requested (received ++ [m]) c := by
  obtain ⟨p, hp, hrest⟩ := h
  exact ⟨p, List.mem_append_left _ hp, hrest⟩

theorem Table.mono (h : Table received t) (m : Message) : Table (received ++ [m]) t where
  sorted := h.sorted
  keyed := h.keyed
  sound e he :=
    have hs := h.sound e he
    ⟨hs.bounded, hs.staged, hs.verified, hs.requested.mono m⟩

theorem Table.insert (h : Table received t) (hc : RecordSound received c) :
    Table received (t.insert c.deployment c) where
  sorted := SortedMap.sorted_insert h.sorted _ _
  keyed e he := by
    obtain rfl | he := SortedMap.mem_insert he
    · rfl
    · exact h.keyed e he
  sound e he := by
    obtain rfl | he := SortedMap.mem_insert he
    · exact hc
    · exact h.sound e he

theorem Table.erase (h : Table received t) (d : DeploymentId) : Table received (t.erase d) where
  sorted := SortedMap.sorted_erase h.sorted d
  keyed e he := h.keyed e (SortedMap.mem_erase he).1
  sound e he := h.sound e (SortedMap.mem_erase he).1

theorem Table.find (h : Table received t) {d : DeploymentId} (hc : t.find d = some c) :
    RecordSound received c ∧ c.deployment = d :=
  ⟨h.sound _ (SortedMap.find_mem hc), h.keyed _ (SortedMap.find_mem hc)⟩

theorem Table.kept {s : AgentState} (h : Table received s.transfers) : Kept s :=
  ⟨h.sorted, h.keyed, fun e he => (h.sound e he).bounded⟩

theorem Tables.holds (h : Tables w) (hc : Holds w c) : RecordSound w.received c := (h.mem.find hc).1

theorem Tables.congr (h : Tables w) (hreceived : w'.received = w.received)
    (hmem : w'.mem.transfers = w.mem.transfers) (hdur : w'.dur.transfers = w.dur.transfers) : Tables w' where
  valid := hreceived ▸ h.valid
  mem := by rw [hreceived, hmem]; exact h.mem
  dur := by rw [hreceived, hdur]; exact h.dur
  same d := by rw [hmem, hdur]; exact h.same d

theorem Tables.upsert (h : Tables w) (hc : RecordSound w.received c) : Tables (w.commit (.transferUpsert c)) where
  valid := h.valid
  mem := h.mem.insert hc
  dur := h.dur.insert hc
  same d := by
    change ((w.mem.transfers.insert c.deployment c).find d).map still =
      ((w.dur.transfers.insert c.deployment c).find d).map still
    rw [SortedMap.find_insert, SortedMap.find_insert]
    split
    · rfl
    · exact h.same d

theorem Tables.removed (h : Tables w) (d : DeploymentId) : Tables (w.commit (.transferRemove d)) where
  valid := h.valid
  mem := h.mem.erase d
  dur := h.dur.erase d
  same d' := by
    change ((w.mem.transfers.erase d).find d').map still = ((w.dur.transfers.erase d).find d').map still
    rw [SortedMap.find_erase, SortedMap.find_erase]
    split
    · rfl
    · exact h.same d'

theorem Tables.remembered (h : Tables w) {c' : TransferRecord} (hold : Holds w c) (hsame : still c' = still c)
    (hc : RecordSound w.received c') (hd : c'.deployment = c.deployment) : Tables (w.remember c.deployment c') where
  valid := h.valid
  mem := by
    change Table w.received (w.mem.transfers.insert c.deployment c')
    rw [← hd]
    exact h.mem.insert hc
  dur := h.dur
  same d := by
    change ((w.mem.transfers.insert c.deployment c').find d).map still = (w.dur.transfers.find d).map still
    rw [SortedMap.find_insert]
    split
    case isTrue hdc =>
      rw [← h.same d, hdc, hold]
      exact congrArg some hsame
    case isFalse => exact h.same d

theorem Tables.receive (h : Tables w) {m : Message} (hm : m.Valid) : Tables (w.receive m) where
  valid m' hm' := by
    obtain hm' | hm' := List.mem_append.mp hm'
    · exact h.valid m' hm'
    · exact List.mem_singleton.mp hm' ▸ hm
  mem := h.mem.mono m
  dur := h.dur.mono m
  same := h.same

theorem Tables.restart (h : Tables w) : Tables w.restart := ⟨h.valid, h.dur, h.dur, fun _ => rfl⟩

/-- A record that can still take bytes has not been verified. -/
theorem RecordSound.unverified (h : RecordSound received c) (hlt : c.bytesReceived < c.totalBytes) :
    c.verified = false := by
  by_contra hv
  have := h.verified (Bool.eq_true_of_not_eq_false hv)
  omega

theorem RecordSound.progressed (h : RecordSound received c) {finish : ℕ} {at_ : ℤ}
    (hlt : c.bytesReceived < finish) (hle : finish ≤ c.totalBytes) :
    RecordSound received { c with bytesReceived := finish, updatedAtMillis := at_ } where
  bounded := hle
  staged := h.staged
  verified hv := by
    have hfalse := h.unverified (by omega)
    rw [show c.verified = true from hv] at hfalse
    cases hfalse
  requested := h.requested

theorem Tables.quiet (h : Tables w) (hq : Quiet w w') : Tables w' := by
  cases hq with
  | answer | count | counter | note | resolved | fence | prepared | unstaged | written | copying | placed | pruned
  | marked | unmarked => exact h.congr rfl rfl rfl
  | @begun m resumeFrom at_ hm hle =>
    refine h.upsert ⟨hle, by simp, by simp, ?_⟩
    exact ⟨m, hm, rfl, rfl, rfl, rfl, rfl, rfl⟩
  | progressed hc hlt hle => exact h.upsert ((h.holds hc).progressed hlt hle)
  | remembered hc hlt hle => exact h.remembered hc rfl ((h.holds hc).progressed hlt hle) rfl
  | @verified c content at_ hc hall hcontent hhash =>
    have hs := h.holds hc
    exact h.upsert ⟨hs.bounded, fun _ => rfl, fun _ => hall, hs.requested⟩
  | @staged c at_ hc hv =>
    have hs := h.holds hc
    exact h.upsert ⟨hs.bounded, fun _ => hv, hs.verified, hs.requested⟩
  | removed d => exact h.removed d

theorem Tables.handled {failing : Prop} {I : World → Prop} (h : Tables w) (hstep : AStep failing I w w') :
    Tables w' := by
  cases hstep with
  | quiet _ hq => exact h.quiet hq
  | resolved | unmarked | switched | lost | settled | found => exact h.congr rfl rfl rfl

theorem Tables.recovered (h : Tables w) (hstep : RStep w w') : Tables w' := by
  cases hstep with
  | quiet hq _ => exact h.quiet hq
  | resized | dropped | adopted | cleared | identified => exact h.congr rfl rfl rfl
  | checkpointed hc => exact h.upsert (h.holds hc)

end Tables

end Agent

end ConfigurationFabric
