import ConfigurationFabric.AgentTransfers

/-! The committed generation against the live pointers. -/

namespace ConfigurationFabric

open LittleEndian
open Program

namespace Agent

abbrev Pointers := FileMap Directory LiveValue

def pointerAt (p : Pointers) (directory : Directory) : Option PointerValue :=
  match p.lookup directory with
  | some (.pointer v) => some v
  | _ => none

/-- The pointer of the directory names this content, or a later generation. -/
def Reached (p : Pointers) (directory : Directory) (g : Generation) (d : Digest) : Prop :=
  ∃ v, p.lookup directory = some (.pointer v) ∧ (g < v.generation ∨ v.generation = g ∧ v.digest = d)

/-- No live pointer is past the generation. -/
def Ahead (p : Pointers) (g : Generation) : Prop :=
  ∀ directory v, p.lookup directory = some (.pointer v) → v.generation ≤ g

/-- The records of activations are no further than the pointers. -/
structure Backed (p : Pointers) (s : AgentState) : Prop where
  findings : ∀ f ∈ s.findings, Reached p (liveKeyDirectory f.key) f.generation f.digest
  committed : s.committedGeneration ≠ 0 → ∃ directory, Reached p directory s.committedGeneration s.committedDigest

/-- At the moment of the answer the key's pointer and the committed record named the content. -/
def LiveThen (a : Answered) (key : ConfigKey) (g : Generation) (d : Digest) : Prop :=
  (∃ v ∈ pointerAt a.live (liveKeyDirectory key), v.generation = g ∧ v.digest = d) ∧
    a.state.committedGeneration = g ∧ a.state.committedDigest = d

/-- What the claims of activation in an answer rest on. -/
def Supported (received : List Message) (a : Answered) : Prop :=
  match a.request, a.reply with
  | .prepare m, .prepareAck r => r.duplicateSuppressed = true → LiveThen a m.key m.generation m.digest
  | .applyCommit m, .applyCommitAck r => r.committed = true →
    ∃ q, Message.prepare q ∈ received ∧ q.generation = m.generation ∧ q.digest = m.digest ∧
      LiveThen a q.key m.generation m.digest
  | _, _ => True

structure Fenced (w : World) : Prop where
  tables : Tables w
  pointers : ∀ directory value, w.files.current.lookup directory = some value →
    ∃ v q, value = .pointer v ∧ Message.prepare q ∈ w.received ∧ directory = liveKeyDirectory q.key ∧
      v.generation = q.generation ∧ v.digest = q.digest
  distinct : ∀ directory directory' v v', w.files.current.lookup directory = some (.pointer v) →
    w.files.current.lookup directory' = some (.pointer v') → v.generation = v'.generation → directory = directory'
  mem : Backed w.files.current w.mem
  dur : Backed w.files.current w.dur
  switched : ∀ e ∈ w.switched, Reached w.files.current (liveKeyDirectory e.1) e.2.generation e.2.digest
  ordered : w.switched.Pairwise fun a b =>
    liveKeyDirectory a.1 = liveKeyDirectory b.1 → a.2.generation ≤ b.2.generation
  answered : ∀ a ∈ w.sent, Supported w.received a

/-- The fence of a running agent. -/
def Guarded (w : World) : Prop := Ahead w.files.current w.mem.committedGeneration

/-- The walk of a start ends at the newest live pointer; where nothing is walked, the newest is recorded. -/
def EndsAtNewest (order : List Directory) (w : World) : Prop :=
  match (walk order w.files).getLast? with
  | some directory => ∃ v ∈ pointerAt w.files.current directory, Ahead w.files.current v.generation
  | none => Ahead w.files.current w.dur.committedGeneration

/-- The payload behind the last pointer of the walk can be verified. -/
def EndsVerifiable (o : AgentOptions) (order : List Directory) (f : Files) : Prop :=
  ∀ directory ∈ (walk order f).getLast?, ∀ v ∈ pointerAt f.current directory, Verifiable o f directory v

/-- The payload of every live pointer is present and verifiable. -/
def Intact (f : Files) : Prop := ∀ directory v, f.current.lookup directory = some (.pointer v) →
  hashFile (f.payload.lookup (payloadName directory v.generation v.digest)) 0 = .ok v.digest

/-! The conditions can be evaluated. -/

def OnPointer (P : PointerValue → Prop) : LiveValue → Prop
  | .pointer v => P v
  | .unreadable => True

instance {P : PointerValue → Prop} [DecidablePred P] : DecidablePred (OnPointer P)
  | .pointer v => inferInstanceAs (Decidable (P v))
  | .unreadable => .isTrue trivial

theorem forall_entries_iff {p : Pointers} {P : Directory → PointerValue → Prop} :
    (∀ e ∈ p.entries, OnPointer (P e.1) e.2) ↔
      ∀ directory v, p.lookup directory = some (.pointer v) → P directory v := by
  constructor
  · intro h directory v hv
    exact h ⟨directory, .pointer v⟩ (AList.mem_lookup_iff.mp hv)
  · rintro h ⟨directory, value⟩ he
    cases value with
    | pointer v => exact h directory v (AList.mem_lookup_iff.mpr he)
    | unreadable => trivial

instance (p : Pointers) (g : Generation) : Decidable (Ahead p g) :=
  decidable_of_iff (∀ e ∈ p.entries, OnPointer (fun v => v.generation ≤ g) e.2)
    (forall_entries_iff (P := fun _ v => v.generation ≤ g))

instance (f : Files) : Decidable (Intact f) :=
  decidable_of_iff
    (∀ e ∈ f.current.entries, OnPointer (fun v =>
      hashFile (f.payload.lookup (payloadName e.1 v.generation v.digest)) 0 = .ok v.digest) e.2)
    (forall_entries_iff (P := fun directory v =>
      hashFile (f.payload.lookup (payloadName directory v.generation v.digest)) 0 = .ok v.digest))

instance (order : List Directory) (w : World) : Decidable (EndsAtNewest order w) := by
  unfold EndsAtNewest
  split <;> infer_instance

instance (o : AgentOptions) (f : Files) (directory : Directory) (v : PointerValue) :
    Decidable (Verifiable o f directory v) := inferInstanceAs (Decidable (_ → _))

instance (o : AgentOptions) (order : List Directory) (f : Files) : Decidable (EndsVerifiable o order f) :=
  inferInstanceAs (Decidable (∀ directory ∈ (walk order f).getLast?, ∀ v ∈ pointerAt f.current directory,
    Verifiable o f directory v))

section Fenced

variable {w w' : World} {c : TransferRecord} {p p' : Pointers} {s s' : AgentState}

theorem mem_pointerAt {directory : Directory} {v : PointerValue} :
    v ∈ pointerAt p directory ↔ p.lookup directory = some (.pointer v) := by
  unfold pointerAt
  split
  case h_1 v' hv' => simp [hv']
  case h_2 hno => exact ⟨fun h => (by cases h), fun h => absurd h (hno v)⟩

theorem Fenced.readable (h : Fenced w) : Readable w.files := by
  intro directory hbad
  obtain ⟨v, q, hv, -⟩ := h.pointers directory _ hbad
  cases hv

theorem Fenced.pointer_ne_zero (h : Fenced w) {directory : Directory} {v : PointerValue}
    (hv : w.files.current.lookup directory = some (.pointer v)) : v.generation ≠ 0 := by
  obtain ⟨v', q, hv', hq, -, hg, -⟩ := h.pointers directory _ hv
  cases hv'
  have hvalid : (Message.prepare q).Valid := h.tables.valid _ hq
  rw [hg]
  exact hvalid.2.2.2.1

/-- Everything the invariant reads is as it was, but for answers that are supported. -/
theorem Fenced.congr (h : Fenced w) (ht : Tables w') (hreceived : w'.received = w.received)
    (hcurrent : w'.files.current = w.files.current) (hmem : Backed w.files.current w'.mem)
    (hdur : Backed w.files.current w'.dur) (hswitched : w'.switched = w.switched) (hsent : w'.sent = w.sent) :
    Fenced w' where
  tables := ht
  pointers := by rw [hcurrent, hreceived]; exact h.pointers
  distinct := by rw [hcurrent]; exact h.distinct
  mem := hcurrent ▸ hmem
  dur := hcurrent ▸ hdur
  switched := by rw [hcurrent, hswitched]; exact h.switched
  ordered := hswitched ▸ h.ordered
  answered := by rw [hsent, hreceived]; exact h.answered

theorem Backed.congr (h : Backed p s) (hf : s'.findings = s.findings)
    (hg : s'.committedGeneration = s.committedGeneration) (hd : s'.committedDigest = s.committedDigest) :
    Backed p s' where
  findings := hf ▸ h.findings
  committed := by rw [hg, hd]; exact h.committed

/-- Between a grounded answer and what it claims stands the fence. -/
theorem Fenced.live_of_finding (h : Fenced w) (hg : Guarded w) {key : ConfigKey} {g : Generation} {d : Digest}
    (hstale : stale w.mem g = false) (hr : Reached w.files.current (liveKeyDirectory key) g d) :
    (∃ v ∈ pointerAt w.files.current (liveKeyDirectory key), v.generation = g ∧ v.digest = d) ∧
      w.mem.committedGeneration = g ∧ w.mem.committedDigest = d := by
  obtain ⟨v, hv, hpast⟩ := hr
  have hle := hg _ v hv
  have hne := h.pointer_ne_zero hv
  have hcommitted : w.mem.committedGeneration ≠ 0 := by
    intro h0
    rw [h0] at hle
    exact hne (Nat.le_zero.mp hle)
  have hge : w.mem.committedGeneration ≤ g := by
    simpa [stale, hcommitted] using hstale
  have hsame : v.generation = g ∧ v.digest = d := by
    obtain hlt | hsame := hpast
    · exact absurd (lt_of_lt_of_le hlt (hle.trans hge)) (lt_irrefl g)
    · exact hsame
  have hgen : w.mem.committedGeneration = g := le_antisymm hge (hsame.1 ▸ hle)
  obtain ⟨directory, v', hv', hpast'⟩ := h.mem.committed hcommitted
  have hdigest : w.mem.committedDigest = d := by
    obtain hlt | ⟨hg', hd'⟩ := hpast'
    · exact absurd (lt_of_lt_of_le hlt (hg _ v' hv')) (lt_irrefl _)
    · have hdir := h.distinct _ _ v v' hv hv' (by rw [hsame.1, hg', hgen])
      rw [hdir, hv'] at hv
      cases hv
      exact hd'.symm.trans hsame.2
  exact ⟨⟨v, mem_pointerAt.mpr hv, hsame⟩, hgen, hdigest⟩

theorem Fenced.committed_live (h : Fenced w) (hg : Guarded w) {g : Generation} {d : Digest}
    (hc : Committed w.mem g d) : ∃ q, Message.prepare q ∈ w.received ∧ q.generation = g ∧ q.digest = d ∧
      ∃ v ∈ pointerAt w.files.current (liveKeyDirectory q.key), v.generation = g ∧ v.digest = d := by
  obtain ⟨hne, rfl, rfl⟩ := hc
  obtain ⟨directory, v, hv, hpast⟩ := h.mem.committed hne
  obtain hlt | ⟨hgen, hdig⟩ := hpast
  · exact absurd (lt_of_lt_of_le hlt (hg _ v hv)) (lt_irrefl _)
  · obtain ⟨v', q, hv', hq, hdir, hqg, hqd⟩ := h.pointers directory _ hv
    cases hv'
    exact ⟨q, hq, hqg.symm.trans hgen, hqd.symm.trans hdig, v, mem_pointerAt.mpr (hdir ▸ hv), hgen, hdig⟩

/-- A recorded activation is never past the fence. -/
theorem Fenced.not_fresh (h : Fenced w) (hg : Guarded w) {g : Generation} (hfresh : Fresh w.mem g)
    {f : AppliedFinding} (hf : f ∈ w.mem.findings) (hfg : f.generation = g) : False := by
  obtain ⟨v, hv, hpast⟩ := h.mem.findings f hf
  have hle := hg _ v hv
  have hne := h.pointer_ne_zero hv
  have hge : g ≤ v.generation := by
    obtain hlt | ⟨heq, -⟩ := hpast
    · exact hfg ▸ hlt.le
    · exact (hfg ▸ heq).ge
  obtain h0 | hlt := hfresh
  · rw [h0] at hle
    exact hne (Nat.le_zero.mp hle)
  · exact absurd (hlt.trans_le (hge.trans hle)) (lt_irrefl _)

theorem Fenced.supported (h : Fenced w) (hg : Guarded w) {m : Message} {r : Reply} (hground : Grounded w m r) :
    Supported w.received ⟨m, r, w.files.current, w.mem⟩ := by
  unfold Supported
  split
  case h_1 m r hreq hrep =>
    obtain rfl : _ = Message.prepare m := hreq
    obtain rfl : _ = Reply.prepareAck r := hrep
    intro hdup
    obtain ⟨hstale, f, hfind, -, hfg⟩ := hground hdup
    have hmem := List.mem_of_find?_eq_some hfind
    have hmatch := List.find?_some hfind
    simp only [Bool.and_eq_true, beq_iff_eq] at hmatch
    have hreached := h.mem.findings f hmem
    rw [hmatch.1, hmatch.2, hfg] at hreached
    exact h.live_of_finding hg hstale hreached
  case h_2 m r hreq hrep =>
    obtain rfl : _ = Message.applyCommit m := hreq
    obtain rfl : _ = Reply.applyCommitAck r := hrep
    intro hcommitted
    obtain hproven | ⟨hfresh, f, hf, hfg, -⟩ := hground hcommitted
    · obtain ⟨q, hq, hqg, hqd, hlive⟩ := h.committed_live hg hproven
      exact ⟨q, hq, hqg, hqd, hlive, hproven.2.1.symm, hproven.2.2.symm⟩
    · exact (h.not_fresh hg hfresh hf hfg).elim
  case h_3 => trivial

theorem Supported.mono {received : List Message} {a : Answered} (h : Supported received a) (m : Message) :
    Supported (received ++ [m]) a := by
  unfold Supported at h ⊢
  split
  case h_1 hreq hrep => rw [hreq, hrep] at h; exact h
  case h_2 hreq hrep =>
    rw [hreq, hrep] at h
    intro hc
    obtain ⟨q, hq, hrest⟩ := h hc
    exact ⟨q, List.mem_append_left _ hq, hrest⟩
  case h_3 => trivial

theorem Fenced.answer (h : Fenced w) (hg : Guarded w) {m : Message} {r : Reply} (hground : Grounded w m r) :
    Fenced (w.answer m r) where
  tables := h.tables.congr rfl rfl rfl
  pointers := h.pointers
  distinct := h.distinct
  mem := h.mem
  dur := h.dur
  switched := h.switched
  ordered := h.ordered
  answered a ha := by
    obtain ha | ha := List.mem_append.mp ha
    · exact h.answered a ha
    · exact List.mem_singleton.mp ha ▸ h.supported hg hground

theorem Fenced.quiet (h : Fenced w) (hq : Quiet w w') (hsent : w'.sent = w.sent) : Fenced w' := by
  have ht := h.tables.quiet hq
  cases hq with
  | answer _ =>
    have hlength := congrArg List.length hsent
    simp [World.answer] at hlength
  | count | counter | note | resolved | fence | prepared | begun | progressed | remembered | verified | staged
  | removed | unstaged | written | copying | placed | pruned | marked | unmarked =>
    exact h.congr ht rfl rfl (h.mem.congr rfl rfl rfl) (h.dur.congr rfl rfl rfl) rfl rfl

/-! Activation. -/

/-- A pointer moves forward and the others stay. -/
structure Moved (p : Pointers) (directory : Directory) (v : PointerValue) (p' : Pointers) : Prop where
  lookup : ∀ directory', p'.lookup directory' =
    if directory' = directory then some (.pointer v) else p.lookup directory'
  past : ∀ directory' v', p.lookup directory' = some (.pointer v') → v'.generation < v.generation

theorem Moved.reached {directory directory' : Directory} {v : PointerValue} {g : Generation} {d : Digest}
    (h : Moved p directory v p') (hr : Reached p directory' g d) : Reached p' directory' g d := by
  obtain ⟨v', hv', hpast⟩ := hr
  by_cases hd : directory' = directory
  · refine ⟨v, by rw [h.lookup, if_pos hd], .inl ?_⟩
    have hlt := h.past _ v' hv'
    obtain hg | ⟨hg, -⟩ := hpast
    · exact hg.trans hlt
    · exact hg ▸ hlt
  · exact ⟨v', by rw [h.lookup, if_neg hd]; exact hv', hpast⟩

theorem Moved.backed {directory : Directory} {v : PointerValue} (h : Moved p directory v p') (hb : Backed p s) :
    Backed p' s where
  findings f hf := h.reached (hb.findings f hf)
  committed hne := by
    obtain ⟨directory', hr⟩ := hb.committed hne
    exact ⟨directory', h.reached hr⟩

theorem Fenced.moved (h : Fenced w) (hg : Guarded w) (hf : Fresh w.mem c.generation) :
    Moved w.files.current (liveKeyDirectory c.key) c.pointer (w.switch c).files.current where
  lookup directory := lookup_putCurrent _ _ _ _
  past directory v hv := by
    have hle := hg _ v hv
    obtain h0 | hlt := hf
    · rw [h0] at hle
      exact absurd (Nat.le_zero.mp hle) (h.pointer_ne_zero hv)
    · exact hle.trans_lt hlt

theorem Fenced.switch (h : Fenced w) (hg : Guarded w) (hc : Holds w c) (hf : Fresh w.mem c.generation) :
    Fenced (w.switch c) where
  tables := h.tables.congr rfl rfl rfl
  pointers directory value hvalue := by
    rw [(h.moved hg hf).lookup] at hvalue
    split at hvalue
    case isTrue hd =>
      obtain ⟨q, hq, -, hkey, -, hgen, hdig, -⟩ := (h.tables.holds hc).requested
      exact ⟨c.pointer, q, (Option.some.inj hvalue).symm, hq, by rw [hd, hkey], hgen.symm, hdig.symm⟩
    case isFalse => exact h.pointers directory value hvalue
  distinct directory directory' v v' hv hv' heq := by
    have hmoved := h.moved hg hf
    rw [hmoved.lookup] at hv hv'
    split at hv
    case isTrue hd =>
      split at hv'
      case isTrue hd' => rw [hd, hd']
      case isFalse =>
        have hlt := hmoved.past _ v' hv'
        cases hv
        exact absurd (heq ▸ hlt) (lt_irrefl _)
    case isFalse =>
      split at hv'
      case isTrue =>
        have hlt := hmoved.past _ v hv
        cases hv'
        exact absurd (heq ▸ hlt) (lt_irrefl _)
      case isFalse => exact h.distinct _ _ v v' hv hv' heq
  mem := (h.moved hg hf).backed h.mem
  dur := (h.moved hg hf).backed h.dur
  switched e he := by
    obtain he | he := List.mem_append.mp he
    · exact (h.moved hg hf).reached (h.switched e he)
    · obtain rfl := List.mem_singleton.mp he
      exact ⟨c.pointer, by rw [(h.moved hg hf).lookup, if_pos rfl], .inr ⟨rfl, rfl⟩⟩
  ordered := by
    refine List.pairwise_append.mpr ⟨h.ordered, List.pairwise_singleton _ _, fun a ha b hb _ => ?_⟩
    obtain rfl := List.mem_singleton.mp hb
    obtain ⟨v, hv, hpast⟩ := h.switched a ha
    have hlt := (h.moved hg hf).past _ v hv
    obtain hlt' | ⟨heq, -⟩ := hpast
    · exact (hlt'.trans hlt).le
    · exact heq ▸ hlt.le
  answered := h.answered

theorem Backed.commit (h : Backed p s) {directory : Directory} {v : PointerValue}
    (hv : p.lookup directory = some (.pointer v)) :
    Backed p (AgentRecord.apply s (.targetCommit v.generation v.digest v.artifact)) where
  findings := h.findings
  committed _ := ⟨directory, v, hv, .inr ⟨rfl, rfl⟩⟩

theorem Backed.clear (h : Backed p s) : Backed p (AgentRecord.apply s (.targetCommit 0 (.zero 32) [])) where
  findings := h.findings
  committed hne := absurd rfl hne

theorem Backed.find (h : Backed p s) {at_ : ℤ} (hc : p.lookup (liveKeyDirectory c.key) = some (.pointer c.pointer)) :
    Backed p (AgentRecord.apply s (.findingUpsert (findingOf c at_))) where
  findings f hf := by
    obtain rfl | hf := AgentState.mem_insertFinding hf
    · exact ⟨c.pointer, hc, .inr ⟨rfl, rfl⟩⟩
    · exact h.findings f hf
  committed := h.committed

theorem Fenced.handled {failing : Prop} (hcalm : ¬ failing) (h : Fenced w) (hstep : AStep failing Guarded w w') :
    Fenced w' := by
  have ht := h.tables.handled hstep
  cases hstep with
  | quiet hg hq =>
    by_cases hsent : w'.sent = w.sent
    · exact h.quiet hq hsent
    · cases hq with
      | answer hground => exact h.answer hg hground
      | count | counter | note | resolved | fence | prepared | begun | progressed | remembered | verified | staged
      | removed | unstaged | written | copying | placed | pruned | marked | unmarked => exact absurd rfl hsent
  | resolved | unmarked => exact h.congr ht rfl rfl (h.mem.congr rfl rfl rfl) (h.dur.congr rfl rfl rfl) rfl rfl
  | switched hg hc _ hf => exact h.switch hg hc hf
  | lost _ hfailing _ => exact absurd hfailing hcalm
  | settled _ hs => exact h.congr ht rfl rfl (h.mem.commit hs.1) (h.dur.commit hs.1) rfl rfl
  | found _ hs _ _ => exact h.congr ht rfl rfl (h.mem.find hs.1) (h.dur.find hs.1) rfl rfl

theorem Fenced.recovered (h : Fenced w) (hstep : RStep w w') : Fenced w' := by
  have ht := h.tables.recovered hstep
  cases hstep with
  | quiet hq hsent => exact h.quiet hq hsent
  | resized | checkpointed | identified =>
    exact h.congr ht rfl rfl (h.mem.congr rfl rfl rfl) (h.dur.congr rfl rfl rfl) rfl rfl
  | dropped hbad => exact absurd hbad (h.readable _)
  | adopted hv => exact h.congr ht rfl rfl (h.mem.commit hv) (h.dur.commit hv) rfl rfl
  | cleared => exact h.congr ht rfl rfl h.mem.clear h.dur.clear rfl rfl

theorem Fenced.restart (h : Fenced w) : Fenced w.restart :=
  ⟨h.tables.restart, h.pointers, h.distinct, h.dur, h.dur, h.switched, h.ordered, h.answered⟩

theorem Fenced.receive (h : Fenced w) {m : Message} (hm : m.Valid) : Fenced (w.receive m) where
  tables := h.tables.receive hm
  pointers directory value hvalue := by
    obtain ⟨v, q, hv, hq, hrest⟩ := h.pointers directory value hvalue
    exact ⟨v, q, hv, List.mem_append_left _ hq, hrest⟩
  distinct := h.distinct
  mem := h.mem
  dur := h.dur
  switched := h.switched
  ordered := h.ordered
  answered a ha := (h.answered a ha).mono m

theorem guarded_stable (failing : Prop) : Stable failing Guarded where
  quiet hg hq := by
    cases hq <;> exact hg
  lost _ w directory hg directory' v hv := by
    simp only [World.onFiles, lookup_dropCurrent] at hv
    split at hv
    · cases hv
    · exact hg directory' v hv
  activated hg _ _ hf hdone directory v hv := by
    rw [hdone.generation]
    rw [hdone.current] at hv
    split at hv
    · cases hv
      exact le_refl _
    · have hle := hg directory v hv
      obtain h0 | hlt := hf
      · exact hle.trans (h0 ▸ Nat.zero_le _)
      · exact hle.trans hlt.le

theorem Reopened.guarded {o : AgentOptions} {order : List Directory} {failing : Prop}
    (h : Reopened o order failing w.restart w') (hcalm : ¬ failing) (hnewest : EndsAtNewest order w)
    (hver : EndsVerifiable o order w.files) : Guarded w' := by
  unfold EndsAtNewest at hnewest
  rw [Guarded, h.current]
  split at hnewest
  case h_1 directory hlast =>
    obtain ⟨v, hv, hahead⟩ := hnewest
    rw [(h.adopted directory v hlast (mem_pointerAt.mp hv) hcalm (hver directory hlast v hv)).1]
    exact hahead
  case h_2 hnone =>
    rw [(h.kept (List.getLast?_eq_none_iff.mp hnone)).1]
    exact hnewest

theorem fenced_empty : Fenced {} where
  tables := ⟨by simp, ⟨.nil, by simp, by simp⟩, ⟨.nil, by simp, by simp⟩, fun _ => rfl⟩
  pointers := by simp
  distinct := by simp
  mem := ⟨by simp, by simp⟩
  dur := ⟨by simp, by simp⟩
  switched := by simp
  ordered := by simp
  answered := by simp

/-- Runs in which no file operation fails and every start ends at the newest pointer. -/
theorem fenced_inductive (o : AgentOptions) {allowed : Env → Prop} {meets : World → Event → Prop}
    (hcalm : ¬ Failing allowed)
    (hstart : ∀ w order, meets w (.start order) → EndsAtNewest order w ∧ EndsVerifiable o order w.files) :
    Inductive o allowed meets Fenced Guarded where
  empty := fenced_empty
  kept h := ⟨h.tables.mem.kept, h.tables.dur.kept⟩
  readable h := h.readable
  restart h := h.restart
  hello h hg := ⟨h.receive trivial, hg⟩
  receive _ hm h hg := ⟨h.receive hm, hg⟩
  handled hstep h := h.handled hcalm hstep
  recovered hstep h := h.recovered hstep
  stable := guarded_stable _
  started hmeets _ _ hdone := hdone.guarded hcalm (hstart _ _ hmeets).1 (hstart _ _ hmeets).2

end Fenced

/-! Activations of one pointer file. -/

def Calm (e : Env) : Prop := e.ok = true

theorem not_failing_calm : ¬ Failing Calm := fun ⟨_, hok, hfail⟩ => by
  rw [Calm, hfail] at hok
  cases hok

def NeverBackward (w : World) : Prop :=
  w.switched.Pairwise fun a b => liveKeyDirectory a.1 = liveKeyDirectory b.1 → a.2.generation ≤ b.2.generation

instance (w : World) : Decidable (NeverBackward w) := inferInstanceAs (Decidable (w.switched.Pairwise _))

/-- Every live payload stays verifiable. -/
def StaysIntact (w : World) (_ : Event) : Prop := Intact w.files

instance (w : World) (e : Event) : Decidable (StaysIntact w e) := inferInstanceAs (Decidable (Intact w.files))

def StartsAtNewest (w : World) : Event → Prop
  | .start order => EndsAtNewest order w
  | _ => True

instance (w : World) : DecidablePred (StartsAtNewest w)
  | .start order => inferInstanceAs (Decidable (EndsAtNewest order w))
  | .hello _ | .message _ _ | .crash => .isTrue trivial

/-- Two keys, a restart whose walk comes to them in the given order, and one of them again. -/
def twoKeys (order : List Directory) (g : Generation) : List Event :=
  .start [] :: delivery (text "d1") (text "b") 3 66 ++ delivery (text "d2") (text "a") 5 65 ++
    [.crash, .start order] ++ delivery (text "d3") (text "a") g 67

end Agent

end ConfigurationFabric
