import ConfigurationFabric.AgentSteps

namespace ConfigurationFabric

open LittleEndian
open Program

namespace Agent

variable {allowed : Env → Prop}

/-! Start-up. -/

/-- Every update of start-up recovery. -/
inductive RStep : World → World → Prop
  | quiet {w w' : World} : Quiet w w' → w'.sent = w.sent → RStep w w'
  | resized {w : World} {c : TransferRecord} {content : Bytes} :
      Holds w c → w.files.staging.lookup (stagingPath c.deployment) = some content →
      c.bytesReceived < content.length →
      RStep w (w.writeStaging (stagingPath c.deployment) (content.take c.bytesReceived))
  | checkpointed {w : World} {c : TransferRecord} : Holds w c → RStep w (w.commit (.transferUpsert c))
  | dropped {w : World} {directory : Directory} :
      w.files.current.lookup directory = some .unreadable → RStep w (w.onFiles (·.dropCurrent directory))
  | adopted {w : World} {directory : Directory} {value : PointerValue} :
      w.files.current.lookup directory = some (.pointer value) →
      RStep w (w.commit (.targetCommit value.generation value.digest value.artifact))
  | cleared {w : World} : RStep w (w.commit (.targetCommit 0 (.zero 32) []))
  | identified {w : World} (target : TargetId) (klass : TargetClass) (guarantee : ApplyGuarantee) (term : Term)
      (incarnation : IncarnationId) (restartCount : ℕ) : w.mem.term < term →
      RStep w (w.commit (.identity target klass guarantee term incarnation restartCount))

theorem Quiet.term {w w' : World} (h : Quiet w w') : w'.mem.term = w.mem.term ∧ w'.dur.term = w.dur.term := by
  cases h <;> exact ⟨rfl, rfl⟩

theorem RStep.term_le {w w' : World} (h : RStep w w') : w.mem.term ≤ w'.mem.term := by
  cases h with
  | quiet hq _ => rw [hq.term.1]
  | resized | checkpointed | dropped | adopted | cleared => exact le_rfl
  | identified _ _ _ _ _ _ hlt => exact hlt.le

/-- What recovery of the transfers leaves alone. -/
structure SameLive (w w' : World) : Prop where
  current : w'.files.current = w.files.current
  pending : w'.files.pending = w.files.pending
  payload : w'.files.payload = w.files.payload
  generation : w'.mem.committedGeneration = w.mem.committedGeneration
  digest : w'.mem.committedDigest = w.mem.committedDigest
  findings : w'.mem.findings = w.mem.findings
  switched : w'.switched = w.switched
  sent : w'.sent = w.sent
  received : w'.received = w.received

theorem SameLive.refl (w : World) : SameLive w w := ⟨rfl, rfl, rfl, rfl, rfl, rfl, rfl, rfl, rfl⟩

theorem SameLive.trans {w w' w'' : World} (h : SameLive w w') (h' : SameLive w' w'') : SameLive w w'' :=
  ⟨h'.current.trans h.current, h'.pending.trans h.pending, h'.payload.trans h.payload,
    h'.generation.trans h.generation, h'.digest.trans h.digest, h'.findings.trans h.findings,
    h'.switched.trans h.switched, h'.sent.trans h.sent, h'.received.trans h.received⟩

section Recovery

variable {o : AgentOptions}

theorem steps_removeUnknownStaging {known : List DeploymentId} {paths : List Directory} {recovery : LiveRecovery}
    {w : World} {Q : LiveRecovery → World → Prop}
    (hQ : ∀ recovery w', SameLive w w' → w'.mem = w.mem → Q recovery w') :
    (removeUnknownStaging known paths recovery).Steps allowed RStep Q w := by
  induction paths generalizing recovery w with
  | nil => exact hQ _ w (.refl w) rfl
  | cons path paths ih =>
    rw [removeUnknownStaging.eq_def]
    split
    · contradiction
    case h_2 name rest _ heq =>
      obtain ⟨-, rfl⟩ := List.cons.inj heq
      split
      · exact ih hQ
      simp only [Prog.steps_bind, steps_succeeds]
      intro e _
      split
      · simp only [Prog.steps_bind, steps_setFiles]
        refine ⟨.quiet (.unstaged _) rfl, ih fun recovery w' hw hmem => hQ recovery w' (.trans ?_ hw) hmem⟩
        exact ⟨rfl, rfl, rfl, rfl, rfl, rfl, rfl, rfl, rfl⟩
      · exact ih hQ
    case h_3 rest _ heq =>
      obtain ⟨-, rfl⟩ := List.cons.inj heq
      exact ih hQ

/-- What becomes of the transfers whose bytes are looked at one after the other. -/
theorem steps_fitTransfers {rs : List TransferRecord} {w : World} (hrs : ∀ r ∈ rs, Holds w r)
    (hnodup : (rs.map (·.deployment)).Nodup) {Q : List DeploymentId × List TransferRecord → World → Prop}
    (hQ : ∀ discard resized w', SameLive w w' → w'.mem = w.mem → (∀ d ∈ discard, d ∈ rs.map (·.deployment)) →
      (∀ r ∈ resized, r ∈ rs ∧ r.deployment ∉ discard) → Q (discard, resized) w') :
    (fitTransfers rs).Steps allowed RStep Q w := by
  induction rs generalizing w Q with
  | nil => exact hQ [] [] w (.refl w) rfl (by simp) (by simp)
  | cons r rs ih =>
    obtain ⟨hr, hrs⟩ := List.forall_mem_cons.mp hrs
    rw [List.map_cons, List.nodup_cons] at hnodup
    obtain ⟨hnot, hnodup⟩ := hnodup
    have hdiscard (w : World) (hrs : ∀ r ∈ rs, Holds w r) (Q : List DeploymentId × List TransferRecord → World → Prop)
        (hQ : ∀ discard resized w', SameLive w w' → w'.mem = w.mem →
          (∀ d ∈ discard, d ∈ (r :: rs).map (·.deployment)) →
          (∀ q ∈ resized, q ∈ r :: rs ∧ q.deployment ∉ discard) → Q (discard, resized) w') :
        (fitTransfers rs >>= fun fitted => pure (r.deployment :: fitted.1, fitted.2)).Steps allowed RStep Q w := by
      rw [Prog.steps_bind]
      refine ih hrs hnodup fun discard resized w' hw hmem hd hq => ?_
      refine hQ _ _ w' hw hmem ?_ ?_
      · intro d hd'
        obtain rfl | hd' := List.mem_cons.mp hd'
        · simp
        · exact List.mem_cons_of_mem _ (hd d hd')
      · intro q hq'
        obtain ⟨hmem', hnot'⟩ := hq q hq'
        refine ⟨List.mem_cons_of_mem _ hmem', fun h => ?_⟩
        obtain h | h := List.mem_cons.mp h
        · exact hnot (h ▸ List.mem_map_of_mem hmem')
        · exact hnot' h
    have hkeep (discard : List DeploymentId) (resized : List TransferRecord)
        (hq : ∀ q ∈ resized, q ∈ rs ∧ q.deployment ∉ discard) :
        ∀ q ∈ resized, q ∈ r :: rs ∧ q.deployment ∉ discard :=
      fun q hq' => ⟨List.mem_cons_of_mem _ (hq q hq').1, (hq q hq').2⟩
    simp only [fitTransfers, Prog.steps_bind, Prog.steps_read]
    split
    · exact hdiscard w hrs Q hQ
    case h_2 content hcontent =>
      split
      · exact hdiscard w hrs Q hQ
      split
      case isTrue hlong =>
        simp only [Prog.steps_bind, steps_succeeds]
        intro e _
        split
        · simp only [Prog.steps_bind, Prog.steps_modify]
          have hrs' : ∀ q ∈ rs, Holds (w.writeStaging (stagingPath r.deployment) (content.take r.bytesReceived)) q := hrs
          refine ⟨.resized hr hcontent hlong, ih hrs' hnodup fun discard resized w' hw hmem hd hq => ?_⟩
          refine hQ _ _ w' (.trans ?_ hw) hmem (fun d hd' => List.mem_cons_of_mem _ (hd d hd')) ?_
          · exact ⟨rfl, rfl, rfl, rfl, rfl, rfl, rfl, rfl, rfl⟩
          · intro q hq'
            obtain rfl | hq' := List.mem_cons.mp hq'
            · exact ⟨List.mem_cons_self, fun h => hnot (hd _ h)⟩
            · exact hkeep discard resized hq q hq'
        · exact hdiscard w hrs Q hQ
      case isFalse =>
        refine ih hrs hnodup fun discard resized w' hw hmem hd hq => ?_
        exact hQ _ _ w' hw hmem (fun d hd' => List.mem_cons_of_mem _ (hd d hd')) (hkeep discard resized hq)

theorem steps_destroyTransfers {discard : List DeploymentId} {w : World} {Q : Unit → World → Prop}
    (hQ : ∀ w', SameLive w w' → (∀ d, d ∉ discard → w'.mem.transfers.find d = w.mem.transfers.find d) → Q () w') :
    (destroyTransfers discard).Steps allowed RStep Q w := by
  induction discard generalizing w with
  | nil => exact hQ w (.refl w) fun _ _ => rfl
  | cons d ds ih =>
    have hnext (w' : World) (hw : SameLive w w')
        (hfind : ∀ d', d' ≠ d → w'.mem.transfers.find d' = w.mem.transfers.find d') :
        (destroyTransfers ds).Steps allowed RStep Q w' := by
      refine ih fun w'' hw' hrest => hQ w'' (hw.trans hw') fun d' hd' => ?_
      obtain ⟨hne, hnot⟩ := not_or.mp fun h => hd' (List.mem_cons.mpr h)
      exact (hrest d' hnot).trans (hfind d' hne)
    have hremove (w' : World) (hw : SameLive w w') (hmem : w'.mem = w.mem) : (do
        if ((← state).transfers.find d).isSome then commit (.transferRemove d) : Agent Unit).Steps allowed RStep
          (fun _ => (destroyTransfers ds).Steps allowed RStep Q) w' := by
      simp only [Prog.steps_bind, steps_state]
      split
      · refine ⟨.quiet (.removed d) rfl, hnext _ (hw.trans ⟨rfl, rfl, rfl, rfl, rfl, rfl, rfl, rfl, rfl⟩) ?_⟩
        intro d' hne
        change (w'.mem.transfers.erase d).find d' = _
        rw [SortedMap.find_erase, if_neg hne, hmem]
      · exact hnext _ hw fun d' _ => by rw [hmem]
    simp only [destroyTransfers, destroyTransfer, Prog.steps_bind]
    refine steps_remove (.quiet (.unstaged _) rfl) ?_ ?_
    · exact hremove _ ⟨rfl, rfl, rfl, rfl, rfl, rfl, rfl, rfl, rfl⟩ rfl
    · exact hremove _ (.refl w) rfl

theorem steps_checkpointTransfers {rs : List TransferRecord} {w : World} (hrs : ∀ r ∈ rs, Holds w r)
    {Q : Unit → World → Prop} (hQ : ∀ w', SameLive w w' → Q () w') :
    (checkpointTransfers rs).Steps allowed RStep Q w := by
  induction rs generalizing w with
  | nil => exact hQ w (.refl w)
  | cons r rs ih =>
    obtain ⟨hr, hrs⟩ := List.forall_mem_cons.mp hrs
    simp only [checkpointTransfers, checkpointTransfer, Prog.steps_bind, steps_commit]
    refine ⟨.checkpointed hr, ih (fun q hq => ?_) fun w' hw => hQ w' (.trans ?_ hw)⟩
    · change (w.mem.transfers.insert r.deployment r).find q.deployment = some q
      rw [SortedMap.find_insert]
      split
      case isTrue h =>
        have := hrs q hq
        rw [Holds, h, hr] at this
        exact this
      case isFalse => exact hrs q hq
    · exact ⟨rfl, rfl, rfl, rfl, rfl, rfl, rfl, rfl, rfl⟩

theorem nodup_deployments {s : AgentState} (hk : Kept s) : ((s.transfers.map (·.2)).map (·.deployment)).Nodup := by
  have hmap : (s.transfers.map (·.2)).map (·.deployment) = s.transfers.map (·.1) := by
    rw [List.map_map]
    exact List.map_congr_left fun e he => hk.keyed e he
  rw [hmap]
  exact List.Pairwise.map _ (fun a b hab heq => Std.Irrefl.irrefl (r := ((· < ·) : Bytes → Bytes → Prop)) a.1
    (by have := hab; rw [← heq] at this; exact this)) hk.sorted

theorem steps_recoverTransfers {w : World} (hk : Kept w.mem) {Q : LiveRecovery → World → Prop}
    (hQ : ∀ recovery w', SameLive w w' → Q recovery w') : recoverTransfers.Steps allowed RStep Q w := by
  simp only [recoverTransfers, Prog.steps_bind, Prog.steps_read]
  refine steps_removeUnknownStaging fun recovery w₁ h₁ hm₁ => ?_
  simp only [Prog.steps_bind, steps_state]
  have hall : ∀ r ∈ w₁.mem.transfers.map (·.2), Holds w₁ r := by
    intro r hr
    obtain ⟨e, he, rfl⟩ := List.mem_map.mp hr
    rw [hm₁] at he
    rw [Holds, hm₁, hk.keyed e he]
    exact SortedMap.find_of_mem hk.sorted he
  refine steps_fitTransfers hall (by rw [hm₁]; exact nodup_deployments hk) fun discard resized w₂ h₂ hm₂ _ hq => ?_
  simp only [Prog.steps_bind]
  refine steps_destroyTransfers fun w₃ h₃ hfind => ?_
  have hheld : ∀ r ∈ resized, Holds w₃ r := by
    intro r hr
    obtain ⟨hmem, hnot⟩ := hq r hr
    rw [Holds, hfind _ hnot, hm₂]
    exact hall r hmem
  simp only [Prog.steps_bind]
  exact steps_checkpointTransfers hheld fun w₄ h₄ => hQ recovery w₄ (h₁.trans (h₂.trans (h₃.trans h₄)))

/-! The live area. -/

/-- Start-up verification accepts the payload a pointer names. -/
def Verifiable (o : AgentOptions) (f : Files) (directory : Directory) (v : PointerValue) : Prop :=
  o.verifyCommittedPayloadOnStart = true →
    hashFile (f.payload.lookup (payloadName directory v.generation v.digest)) 0 = .ok v.digest

def Readable (f : Files) : Prop := ∀ directory, f.current.lookup directory ≠ some .unreadable

/-- What the walk over the live area leaves alone. -/
structure Walked (w w' : World) : Prop where
  current : Readable w.files → w'.files.current = w.files.current
  payload : w'.files.payload = w.files.payload
  findings : w'.mem.findings = w.mem.findings
  transfers : w'.mem.transfers = w.mem.transfers
  switched : w'.switched = w.switched
  sent : w'.sent = w.sent
  received : w'.received = w.received

theorem Walked.refl (w : World) : Walked w w := ⟨fun _ => rfl, rfl, rfl, rfl, rfl, rfl, rfl⟩

theorem Walked.readable {w w' : World} (h : Walked w w') (hr : Readable w.files) : Readable w'.files := by
  intro directory
  rw [h.current hr]
  exact hr directory

theorem Walked.trans {w w' w'' : World} (h : Walked w w') (h' : Walked w' w'') : Walked w w'' where
  current hr := (h'.current (h.readable hr)).trans (h.current hr)
  payload := h'.payload.trans h.payload
  findings := h'.findings.trans h.findings
  transfers := h'.transfers.trans h.transfers
  switched := h'.switched.trans h.switched
  sent := h'.sent.trans h.sent
  received := h'.received.trans h.received

/-- The committed record names what the pointer names. -/
def Adopts (w : World) (v : PointerValue) : Prop :=
  w.mem.committedGeneration = v.generation ∧ w.mem.committedDigest = v.digest

theorem steps_readPointer {directory : Directory} {recovery : LiveRecovery} {w : World}
    {Q : Option PointerValue × LiveRecovery → World → Prop}
    (hnone : ∀ recovery w', Walked w w' → Q (none, recovery) w')
    (hpointer : ∀ v, w.files.current.lookup directory = some (.pointer v) → Q (some v, recovery) w) :
    (readPointer directory recovery).Steps allowed RStep Q w := by
  simp only [readPointer, Prog.steps_bind, Prog.steps_read]
  split
  case h_1 => exact hnone _ w (.refl w)
  case h_2 v hv => exact hpointer v hv
  case h_3 hbad =>
    rw [Prog.steps_bind]
    refine steps_remove (.dropped hbad) (hnone _ _ ?_) (hnone _ _ (.refl w))
    exact ⟨fun hr => absurd hbad (hr directory), rfl, rfl, rfl, rfl, rfl, rfl⟩

theorem steps_noteRollback {recovery : LiveRecovery} {w : World} {Q : LiveRecovery → World → Prop}
    (hQ : ∀ recovery w', Walked w w' → w'.files = w.files →
      w'.mem.committedGeneration = w.mem.committedGeneration → w'.mem.committedDigest = w.mem.committedDigest →
      Q recovery w') :
    (noteRollback recovery).Steps allowed RStep Q w := by
  simp only [noteRollback, Prog.steps_bind, steps_setState, steps_state, steps_commit]
  refine ⟨.quiet (.count _ _ _ _ _) rfl, .quiet (.note _ _ _ _) rfl, hQ _ _ ?_ rfl rfl rfl⟩
  exact ⟨fun _ => rfl, rfl, rfl, rfl, rfl, rfl, rfl⟩

theorem steps_resolvePending {directory : Directory} {pointer : Option PointerValue} {recovery : LiveRecovery}
    {w : World} {Q : LiveRecovery → World → Prop}
    (hQ : ∀ recovery w', Walked w w' → w'.files.current = w.files.current → Q recovery w') :
    (resolvePending directory pointer recovery).Steps allowed RStep Q w := by
  have hresolve (recovery : LiveRecovery) (w' : World) (hw : Walked w w')
      (hc : w'.files.current = w.files.current) : (do
        let s ← state
        if s.applyPrepared then commit (.applyResolved s.activations)
        return recovery : Agent LiveRecovery).Steps allowed RStep Q w' := by
    simp only [Prog.steps_bind, steps_state]
    split
    · rw [Prog.steps_bind, steps_commit]
      exact ⟨.quiet (.resolved _) rfl, hQ _ _ (hw.trans ⟨fun _ => rfl, rfl, rfl, rfl, rfl, rfl, rfl⟩) hc⟩
    · exact hQ _ _ hw hc
  have hmarker (recovery : LiveRecovery) (w' : World) (hw : Walked w w')
      (hc : w'.files.current = w.files.current) : (do
        remove (·.dropPending directory)
        let s ← state
        if s.applyPrepared then commit (.applyResolved s.activations)
        return recovery : Agent LiveRecovery).Steps allowed RStep Q w' := by
    rw [Prog.steps_bind]
    refine steps_remove (.quiet (.unmarked _) rfl) (hresolve _ _ (hw.trans ?_) hc) (hresolve _ _ hw hc)
    exact ⟨fun _ => rfl, rfl, rfl, rfl, rfl, rfl, rfl⟩
  simp only [resolvePending, Prog.steps_bind, steps_state]
  split
  · exact hmarker _ w (.refl w) rfl
  · rw [Prog.steps_bind]
    exact steps_noteRollback fun recovery w' hw hf _ _ => hmarker recovery w' hw (by rw [hf])

theorem steps_clearCommit {recovery : LiveRecovery} {w : World} {Q : LiveRecovery → World → Prop}
    (hQ : ∀ recovery w', Walked w w' → Q recovery w') : (clearCommit recovery).Steps allowed RStep Q w := by
  simp only [clearCommit, Prog.steps_bind, steps_commit]
  exact ⟨.cleared, hQ _ _ ⟨fun _ => rfl, rfl, rfl, rfl, rfl, rfl, rfl⟩⟩

theorem steps_adoptPointer {directory : Directory} {pointer : Option PointerValue} {recovery : LiveRecovery}
    {w : World} (hp : ∀ v, pointer = some v → w.files.current.lookup directory = some (.pointer v))
    {Q : LiveRecovery → World → Prop}
    (hQ : ∀ recovery w', Walked w w' → (∀ v, pointer = some v → ¬ Failing allowed →
      Verifiable o w.files directory v → Adopts w' v) → Q recovery w') :
    (adoptPointer o directory pointer recovery).Steps allowed RStep Q w := by
  cases pointer with
  | none =>
    simp only [adoptPointer, Prog.steps_bind, steps_state]
    split
    · exact steps_clearCommit fun recovery w' hw => hQ recovery w' hw (by simp)
    · exact hQ _ w (.refl w) (by simp)
  | some value =>
    have hrest (recovery : LiveRecovery) (actual : Result Digest)
        (hactual : ¬ Failing allowed → Verifiable o w.files directory value → actual = .ok value.digest) : (do
          let s ← state
          if actual ≠ .ok value.digest then clearCommit recovery
          else if value.generation = s.committedGeneration ∧ value.digest = s.committedDigest ∧
              s.committedGeneration ≠ 0 then
            return recovery
          else
            commit (.targetCommit value.generation value.digest value.artifact)
            return { recovery with adoptedCompletedSwitch := true } : Agent LiveRecovery).Steps allowed RStep Q w := by
      simp only [Prog.steps_bind, steps_state]
      split
      case isTrue hne =>
        refine steps_clearCommit fun recovery w' hw => hQ recovery w' hw fun v hv hnot hver => ?_
        exact absurd (hactual hnot (Option.some.inj hv ▸ hver)) hne
      case isFalse =>
        split
        case isTrue hsame =>
          refine hQ _ w (.refl w) fun v hv _ _ => ?_
          obtain rfl := Option.some.inj hv
          exact ⟨hsame.1.symm, hsame.2.1.symm⟩
        case isFalse =>
          rw [Prog.steps_bind, steps_commit]
          refine ⟨.adopted (hp value rfl), hQ _ _ ⟨fun _ => rfl, rfl, rfl, rfl, rfl, rfl, rfl⟩ ?_⟩
          rintro v hv - -
          obtain rfl := Option.some.inj hv
          exact ⟨rfl, rfl⟩
    simp only [adoptPointer, Prog.steps_bind, Prog.steps_read]
    split
    case isTrue hon =>
      simp only [hashStagingFile, Prog.steps_bind, steps_succeeds]
      intro e he
      split
      case isTrue hfail =>
        refine hrest _ _ fun hnot => absurd ⟨e, he, ?_⟩ hnot
        simpa using hfail
      case isFalse => exact hrest _ _ fun _ hver => hver hon
    case isFalse => exact hrest _ _ fun _ _ => rfl

theorem steps_recoverDirectory {directory : Directory} {recovery : LiveRecovery} {w : World}
    {Q : LiveRecovery → World → Prop}
    (hQ : ∀ recovery w', Walked w w' → (∀ v, w.files.current.lookup directory = some (.pointer v) →
      ¬ Failing allowed → Verifiable o w.files directory v → Adopts w' v) → Q recovery w') :
    (recoverDirectory o directory recovery).Steps allowed RStep Q w := by
  have hadopt (pointer : Option PointerValue) (recovery : LiveRecovery) (w' : World) (hw : Walked w w')
      (hp : ∀ v, pointer = some v → w'.files.current.lookup directory = some (.pointer v))
      (hp' : ∀ v, w.files.current.lookup directory = some (.pointer v) → pointer = some v) :
      (adoptPointer o directory pointer recovery).Steps allowed RStep Q w' := by
    refine steps_adoptPointer hp fun recovery w'' hw' hadopts => hQ recovery w'' (hw.trans hw') ?_
    intro v hv hnot hver
    refine hadopts v (hp' v hv) hnot fun hon => ?_
    rw [hw.payload]
    exact hver hon
  have hresolve (pendingPresent : Bool) (pointer : Option PointerValue) (recovery : LiveRecovery) (w' : World)
      (hw : Walked w w')
      (hp : ∀ v, pointer = some v → w'.files.current.lookup directory = some (.pointer v))
      (hp' : ∀ v, w.files.current.lookup directory = some (.pointer v) → pointer = some v) :
      (do
        let recovery ← if pendingPresent then resolvePending directory pointer recovery else pure recovery
        adoptPointer o directory pointer recovery : Agent LiveRecovery).Steps allowed RStep Q w' := by
    simp only
    split
    · rw [Prog.steps_bind]
      refine steps_resolvePending fun recovery w'' hw' hc => hadopt _ _ w'' (hw.trans hw') ?_ hp'
      intro v hv
      rw [hc]
      exact hp v hv
    · exact hadopt _ _ w' hw hp hp'
  simp only [recoverDirectory, Prog.steps_bind, Prog.steps_read]
  cases hcurrent : w.files.current.lookup directory with
  | none =>
    simp only [readPointer, Prog.steps_bind, Prog.steps_read, hcurrent]
    exact hresolve _ none recovery w (.refl w) (by simp) (by simp [hcurrent])
  | some value =>
    cases value with
    | pointer v =>
      simp only [readPointer, Prog.steps_bind, Prog.steps_read, hcurrent]
      refine hresolve _ (some v) recovery w (.refl w) ?_ ?_
      · rintro v' hv
        obtain rfl := Option.some.inj hv
        exact hcurrent
      · rintro v' hv
        rw [hcurrent] at hv
        obtain ⟨rfl⟩ := hv
        rfl
    | unreadable =>
      refine steps_readPointer ?_ fun v hv => by rw [hcurrent] at hv; cases hv
      exact fun recovery w' hw => hresolve _ none recovery w' hw (by simp) (by simp [hcurrent])

theorem steps_recoverDirectories {directories : List Directory} {recovery : LiveRecovery} {w : World}
    (hr : Readable w.files) {Q : LiveRecovery → World → Prop}
    (hQ : ∀ recovery w', Walked w w' → (directories = [] → w' = w) →
      (∀ directory v, directories.getLast? = some directory → w.files.current.lookup directory = some (.pointer v) →
        ¬ Failing allowed → Verifiable o w.files directory v → Adopts w' v) → Q recovery w') :
    (recoverDirectories o directories recovery).Steps allowed RStep Q w := by
  induction directories generalizing recovery w Q with
  | nil => exact hQ recovery w (.refl w) (fun _ => rfl) (by simp)
  | cons directory rest ih =>
    simp only [recoverDirectories, Prog.steps_bind]
    refine steps_recoverDirectory fun recovery₁ w₁ h₁ hadopts => ?_
    refine ih (h₁.readable hr) fun recovery₂ w₂ h₂ hnil hlast => hQ recovery₂ w₂ (h₁.trans h₂) (by simp) ?_
    intro last v hlast' hv hnot hver
    cases rest with
    | nil =>
      obtain rfl : directory = last := by simpa using hlast'
      obtain rfl := hnil rfl
      exact hadopts v hv hnot hver
    | cons next rest =>
      rw [List.getLast?_cons_cons] at hlast'
      refine hlast last v hlast' (by rw [h₁.current hr]; exact hv) hnot fun hon => ?_
      rw [h₁.payload]
      exact hver hon

/-- What a finished start-up has made of the world. -/
structure Reopened (o : AgentOptions) (order : List Directory) (failing : Prop) (w w' : World) : Prop where
  current : w'.files.current = w.files.current
  findings : w'.mem.findings = w.mem.findings
  switched : w'.switched = w.switched
  sent : w'.sent = w.sent
  received : w'.received = w.received
  kept : walk order w.files = [] → w'.mem.committedGeneration = w.mem.committedGeneration ∧
    w'.mem.committedDigest = w.mem.committedDigest
  adopted : ∀ directory v, (walk order w.files).getLast? = some directory →
    w.files.current.lookup directory = some (.pointer v) → ¬ failing → Verifiable o w.files directory v → Adopts w' v

theorem walk_congr {order : List Directory} {f f' : Files} (hc : f'.current = f.current)
    (hp : f'.pending = f.pending) : walk order f' = walk order f := by
  rw [walk, walk, keyDirectories, keyDirectories, hc, hp]

theorem steps_recoverLiveArea {order : List Directory} (horder : ∀ e, allowed e → e.order = order) {w : World}
    (hk : Kept w.mem) (hr : Readable w.files) {Q : LiveRecovery → World → Prop}
    (hQ : ∀ recovery w', Reopened o order (Failing allowed) w w' → Q recovery w') :
    (recoverLiveArea o).Steps allowed RStep Q w := by
  simp only [recoverLiveArea, Prog.steps_bind]
  refine steps_recoverTransfers hk fun recovery w₁ h₁ => ?_
  simp only [Prog.steps_bind, Prog.steps_ask, Prog.steps_read]
  intro e he
  rw [horder e he]
  have hr₁ : Readable w₁.files := by
    intro directory
    rw [h₁.current]
    exact hr directory
  have hwalk : walk order w₁.files = walk order w.files := walk_congr h₁.current h₁.pending
  refine steps_recoverDirectories hr₁ fun recovery w₂ h₂ hnil hlast => ?_
  have hdone : Reopened o order (Failing allowed) w w₂ :=
    { current := (h₂.current hr₁).trans h₁.current
      findings := h₂.findings.trans h₁.findings
      switched := h₂.switched.trans h₁.switched
      sent := h₂.sent.trans h₁.sent
      received := h₂.received.trans h₁.received
      kept := fun h => by
        rw [hnil (hwalk.trans h)]
        exact ⟨h₁.generation, h₁.digest⟩
      adopted := fun directory v hd hv hnot hver => by
        refine hlast directory v (hwalk ▸ hd) (by rw [h₁.current]; exact hv) hnot fun hon => ?_
        rw [h₁.payload]
        exact hver hon }
  simp only [Prog.steps_bind, steps_state]
  split
  · rw [Prog.steps_bind]
    refine steps_noteRollback fun recovery w₃ h₃ hf hg hd => ?_
    simp only [Prog.steps_bind, steps_state, steps_commit]
    refine ⟨.quiet (.resolved _) rfl, hQ _ _ ?_⟩
    exact
      { current := (congrArg Files.current hf).trans hdone.current
        findings := h₃.findings.trans hdone.findings
        switched := h₃.switched.trans hdone.switched
        sent := h₃.sent.trans hdone.sent
        received := h₃.received.trans hdone.received
        kept := fun h => ⟨hg.trans (hdone.kept h).1, hd.trans (hdone.kept h).2⟩
        adopted := fun directory v hdir hv hnot hver =>
          have hadopts := hdone.adopted directory v hdir hv hnot hver
          ⟨hg.trans hadopts.1, hd.trans hadopts.2⟩ }
  · exact hQ _ _ hdone

theorem steps_open {order : List Directory} (horder : ∀ e, allowed e → e.order = order) {w : World}
    (hk : Kept w.mem) (hr : Readable w.files) {Q : Result LiveRecovery → World → Prop}
    (hok : ∀ recovery w', Reopened o order (Failing allowed) w w' → w.mem.term < w'.mem.term → Q (.ok recovery) w')
    (herr : ∀ e, Q (.error e) w) : («open» o).Steps allowed RStep Q w := by
  rw [«open»]
  split
  · exact herr _
  split
  · exact herr _
  simp only [Prog.steps_bind, steps_succeeds]
  intro e _
  split
  · exact herr _
  simp only [Prog.steps_bind, steps_state]
  split
  · exact herr _
  split
  · exact herr _
  split
  · exact herr _
  split
  case h_1 => exact herr _
  case h_2 nextTerm hnext =>
    simp only [checkedAdd, Option.ite_none_left_eq_some, Option.some.injEq] at hnext
    split
    · exact herr _
    simp only [Prog.steps_bind, Prog.steps_ask, steps_commit]
    intro e _
    let w₁ := w.commit (.identity o.target o.klass o.guarantee nextTerm e.incarnation (w.mem.restartCount + 1))
    have hk' : Kept w₁.mem := ⟨hk.sorted, hk.keyed, hk.bounded⟩
    have hterm : w.mem.term < nextTerm := hnext.2 ▸ Nat.lt_succ_self w.mem.term
    have hrest := steps_recoverLiveArea (o := o) horder hk' hr (Q := fun _ => Reopened o order (Failing allowed) w₁)
      fun _ _ h => h
    refine ⟨.identified _ _ _ _ _ _ hterm, (hrest.keep (P := fun w' => w.mem.term < w'.mem.term) ?_ hterm).mono ?_⟩
    · exact fun w' w'' hstep hlt => lt_of_lt_of_le hlt hstep.term_le
    · rintro recovery w' ⟨h, hlt⟩
      exact hok recovery w' ⟨h.current, h.findings, h.switched, h.sent, h.received, h.kept, h.adopted⟩ hlt

end Recovery

end Agent

end ConfigurationFabric
