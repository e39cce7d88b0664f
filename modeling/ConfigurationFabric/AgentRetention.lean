import Mathlib.Data.List.TakeWhile
import ConfigurationFabric.Library.Ranking
import ConfigurationFabric.AgentFindings
import ConfigurationFabric.AgentSteady

/-! The payloads that pruning leaves, and the ones the live pointers name. -/

namespace ConfigurationFabric

open LittleEndian
open Program
open Ranking

namespace Agent

/-! The payload directories. -/

def nameOf (c : TransferRecord) : PayloadName := payloadName (liveKeyDirectory c.key) c.generation c.digest

/-- The files of a payload directory. -/
def crowd (f : Files) (directory : Directory) : ℕ :=
  f.payload.keys.countP (fun name => decide (name.directory = directory)) +
    f.parts.countP fun part => decide (part.1 = directory)

/-- Those that may be newer than a payload: what has been staged since, and the copies left unfinished. -/
def newer (f : Files) (name : PayloadName) : ℕ :=
  (f.payload.keys.takeWhile (· ≠ name)).countP (fun other => decide (other.directory = name.directory)) +
    f.parts.countP fun part => decide (part.1 = name.directory)

/-- In a payload directory what was staged later has the later time. -/
def Dated (f : Files) (e : Env) : Prop :=
  f.payload.keys.Pairwise fun x y => x.directory = y.directory → ∀ s ∈ e.stamps x, ∀ t ∈ e.stamps y, t < s

section Entries

variable {f : Files} {name : PayloadName} {e : Env} {o : AgentOptions}

theorem present_of_newer {n : ℕ} (h : newer f name < n) (hcrowd : name ∈ f.payload ∨ n ≤ crowd f name.directory) :
    name ∈ f.payload := by
  obtain hpresent | hcrowd := hcrowd
  · exact hpresent
  by_contra hmissing
  have hnot : ∀ x ∈ f.payload.keys, decide (x ≠ name) = true := by
    intro x hx
    have hne : x ≠ name := fun heq => hmissing (AList.mem_keys.mpr (heq ▸ hx))
    simpa using hne
  have hall : newer f name = crowd f name.directory := by
    rw [newer, List.takeWhile_eq_self_iff.mpr hnot]
    rfl
  omega

theorem length_payloadEntries (directory : Directory) : (payloadEntries e f directory).length ≤ crowd f directory := by
  rw [payloadEntries, List.length_append, crowd, List.countP_eq_length_filter, List.countP_eq_length_filter]
  exact Nat.add_le_add (List.length_filterMap_le _ _) (List.length_filterMap_le _ _)

theorem directory_payloadEntries {directory : Directory} {x : (PayloadName ⊕ Directory × Bytes) × ℤ}
    (hx : x ∈ payloadEntries e f directory) :
    (∃ other, x.1 = .inl other ∧ other.directory = directory) ∨ ∃ part, x.1 = .inr part ∧ part.1 = directory := by
  rw [payloadEntries, List.mem_append, List.mem_filterMap, List.mem_filterMap] at hx
  obtain ⟨other, hother, hx⟩ | ⟨part, hpart, hx⟩ := hx
  · obtain ⟨t, -, rfl⟩ := Option.map_eq_some_iff.mp hx
    exact .inl ⟨other, rfl, by simpa using (List.mem_filter.mp hother).2⟩
  · obtain ⟨t, -, rfl⟩ := Option.map_eq_some_iff.mp hx
    exact .inr ⟨part, rfl, by simpa using (List.mem_filter.mp hpart).2⟩

/-- The payloads staged since stand before this one. -/
theorem keys_split (hpresent : name ∈ f.payload) : ∃ pre post, f.payload.keys = pre ++ name :: post ∧
    f.payload.keys.takeWhile (· ≠ name) = pre := by
  obtain ⟨pre, post, hkeys⟩ := List.append_of_mem (AList.mem_keys.mp hpresent)
  have hnot : ∀ x ∈ pre, decide (x ≠ name) = true := by
    intro x hx
    have hnodup := f.payload.keys_nodup
    rw [hkeys] at hnodup
    have hne := (List.nodup_append.mp hnodup).2.2 x hx name List.mem_cons_self
    simpa using hne
  refine ⟨pre, post, hkeys, ?_⟩
  rw [hkeys, List.takeWhile_append_of_pos hnot, List.takeWhile_cons_of_neg (by simp), List.append_nil]

/-- No more entries are as late as that of a payload than are newer, itself apart. -/
theorem late_entries (hdated : Dated f e) (hpresent : name ∈ f.payload) {t : ℤ} (ht : t ∈ e.stamps name) :
    (payloadEntries e f name.directory).countP (fun y => decide (t ≤ y.2)) ≤ newer f name + 1 := by
  obtain ⟨pre, post, hkeys, htake⟩ := keys_split hpresent
  have hbefore : ((pre.filter (·.directory = name.directory)).filterMap fun n => (e.stamps n).map
      (Sum.inl (β := Directory × Bytes) n, ·)).countP (fun y => decide (t ≤ y.2)) ≤
      pre.countP fun other => decide (other.directory = name.directory) := by
    rw [List.countP_eq_length_filter (l := pre)]
    exact List.countP_le_length.trans (List.length_filterMap_le _ _)
  have hafter : ((post.filter (·.directory = name.directory)).filterMap fun n => (e.stamps n).map
      (Sum.inl (β := Directory × Bytes) n, ·)).countP (fun y => decide (t ≤ y.2)) = 0 := by
    refine List.countP_eq_zero.mpr fun y hy => ?_
    obtain ⟨other, hother, hy⟩ := List.mem_filterMap.mp hy
    obtain ⟨s, hs, rfl⟩ := Option.map_eq_some_iff.mp hy
    obtain ⟨hmem, hdirectory⟩ := List.mem_filter.mp hother
    rw [Dated, hkeys] at hdated
    have hlater := (List.pairwise_cons.mp (List.pairwise_append.mp hdated).2.1).1 other hmem
    have hearlier := hlater (by simpa using Eq.symm (of_decide_eq_true hdirectory)) t ht s hs
    simpa using hearlier
  have hparts : ((f.parts.filter (·.1 = name.directory)).filterMap fun p => (e.partStamps p).map
      (Sum.inr (α := PayloadName) p, ·)).countP (fun y => decide (t ≤ y.2)) ≤
      f.parts.countP fun part => decide (part.1 = name.directory) := by
    rw [List.countP_eq_length_filter (l := f.parts)]
    exact List.countP_le_length.trans (List.length_filterMap_le _ _)
  have hself : ((e.stamps name).map (Sum.inl (β := Directory × Bytes) name, ·)) = some (.inl name, t) :=
    Option.map_eq_some_iff.mpr ⟨t, ht, rfl⟩
  rw [payloadEntries, hkeys, List.countP_append, List.filter_append, List.filterMap_append, List.countP_append,
    List.filter_cons_of_pos (by simp), List.filterMap_cons, hself, List.countP_cons_of_pos (by simp), hafter, newer, htake]
  omega

/-- A payload with fewer newer files in its directory than are retained is not pruned. -/
theorem retained_payload (hdated : Dated f e) (hpresent : name ∈ f.payload)
    (hnewer : newer f name < o.retainedPayloadsPerKey) {x : (PayloadName ⊕ Directory × Bytes) × ℤ}
    (hx : x ∈ ((payloadEntries e f name.directory).mergeSort fun a b => b.2 ≤ a.2).drop o.retainedPayloadsPerKey) :
    x.1 ≠ .inl name := by
  intro hname
  have hmem := (List.mergeSort_perm _ _).mem_iff.mp (List.mem_of_mem_drop hx)
  have hlate := mem_drop_mergeSort (fun a : (PayloadName ⊕ Directory × Bytes) × ℤ => a.2) hx
  have hstamp : x.2 ∈ e.stamps name := by
    rw [payloadEntries, List.mem_append, List.mem_filterMap, List.mem_filterMap] at hmem
    obtain ⟨other, -, hother⟩ | ⟨part, -, hpart⟩ := hmem
    · obtain ⟨t, ht, rfl⟩ := Option.map_eq_some_iff.mp hother
      obtain rfl := Sum.inl.inj hname
      exact ht
    · obtain ⟨t, -, rfl⟩ := Option.map_eq_some_iff.mp hpart
      cases hname
  have hfew := late_entries hdated hpresent hstamp
  omega

end Entries

/-! What every update keeps. -/

/-- Live payloads are there; a staged one that is not has been pruned from a directory that stays full. -/
structure Provisioned (o : AgentOptions) (w : World) : Prop where
  live : ∀ d v, w.files.current.lookup d = some (.pointer v) → payloadName d v.generation v.digest ∈ w.files.payload
  staged : ∀ d c, w.mem.transfers.find d = some c → c.staged = true →
    nameOf c ∈ w.files.payload ∨ o.retainedPayloadsPerKey ≤ crowd w.files (liveKeyDirectory c.key)

/-- No pointer appears, nothing becomes staged and no payload comes or goes. -/
structure Tidy (w w' : World) : Prop where
  current : ∀ d v, w'.files.current.lookup d = some (.pointer v) → w.files.current.lookup d = some (.pointer v)
  payload : w'.files.payload = w.files.payload
  parts : w'.files.parts = w.files.parts
  staged : ∀ d c', w'.mem.transfers.find d = some c' → c'.staged = true →
    ∃ c, w.mem.transfers.find d = some c ∧ c.staged = true ∧ c.key = c'.key ∧ c.pointer = c'.pointer

section Tidy

variable {w w' w'' : World} {allowed : Env → Prop} {o : AgentOptions} {c : TransferRecord}

theorem Steady.tidy (h : Steady w w') : Tidy w w' where
  current _ _ hv := h.current ▸ hv
  payload := h.payload
  parts := h.parts
  staged := h.staged

theorem Tidy.same (hcurrent : w'.files.current = w.files.current) (hpayload : w'.files.payload = w.files.payload)
    (hparts : w'.files.parts = w.files.parts) (htransfers : w'.mem.transfers = w.mem.transfers) : Tidy w w' where
  current _ _ hv := hcurrent ▸ hv
  payload := hpayload
  parts := hparts
  staged _ c' hc hstaged := ⟨c', htransfers ▸ hc, hstaged, rfl, rfl⟩

theorem Tidy.refl (w : World) : Tidy w w := .same rfl rfl rfl rfl

theorem Tidy.dropCurrent (w : World) (directory : Directory) : Tidy w (w.onFiles (·.dropCurrent directory)) where
  current d v hv := by
    rw [World.onFiles, lookup_dropCurrent] at hv
    split at hv
    · cases hv
    · exact hv
  payload := rfl
  parts := rfl
  staged _ c' hc hstaged := ⟨c', hc, hstaged, rfl, rfl⟩

theorem Tidy.trans (h : Tidy w w') (h' : Tidy w' w'') : Tidy w w'' where
  current d v hv := h.current d v (h'.current d v hv)
  payload := h'.payload.trans h.payload
  parts := h'.parts.trans h.parts
  staged d c'' hc hstaged := by
    obtain ⟨c', hc', hstaged', hkey', hpointer'⟩ := h'.staged d c'' hc hstaged
    obtain ⟨c, hc, hstaged, hkey, hpointer⟩ := h.staged d c' hc' hstaged'
    exact ⟨c, hc, hstaged, hkey.trans hkey', hpointer.trans hpointer'⟩

theorem nameOf_congr {c c' : TransferRecord} (hkey : c.key = c'.key) (hpointer : c.pointer = c'.pointer) :
    nameOf c = nameOf c' := by
  obtain ⟨hgeneration, hdigest, -⟩ := PointerValue.mk.inj hpointer
  rw [nameOf, nameOf, hkey, hgeneration, hdigest]

theorem Provisioned.tidy (h : Provisioned o w) (ht : Tidy w w') : Provisioned o w' where
  live d v hv := by
    rw [ht.payload]
    exact h.live d v (ht.current d v hv)
  staged d c' hc hstaged := by
    obtain ⟨c, hc, hstaged, hkey, hpointer⟩ := ht.staged d c' hc hstaged
    rw [← nameOf_congr hkey hpointer, ← hkey, ht.payload, crowd, ht.payload, ht.parts]
    exact h.staged d c hc hstaged

/-- Such updates find and leave the payloads in place wherever they are cut. -/
theorem provisioned_tidy {α : Type} {p : Agent α} (hw : Provisioned o w)
    (hp : p.Steps allowed Tidy (fun _ _ => True) w) :
    p.Steps allowed (fun _ w' => Provisioned o w') (fun _ w' => Provisioned o w') w :=
  (hp.visits (fun _ _ ht h => h.tidy ht) hw).mono fun _ _ h => h.2

theorem provisioned_steady {α : Type} {p : Agent α} (hw : Provisioned o w)
    (hp : p.Steps allowed Steady (fun _ _ => True) w) :
    p.Steps allowed (fun _ w' => Provisioned o w') (fun _ w' => Provisioned o w') w :=
  provisioned_tidy hw (hp.rel_mono fun _ _ h => h.tidy)

theorem tidy_openWindow {marker : PointerValue} :
    (openWindow c marker).Steps allowed Tidy (fun _ _ => True) w := by
  simp only [openWindow, Prog.steps_bind]
  refine steps_writeFileAtomic (.same rfl rfl rfl rfl) ⟨.same rfl rfl rfl rfl, trivial⟩ (fun _ => trivial) fun _ => ?_
  exact ⟨.same rfl rfl rfl rfl, .same rfl rfl rfl rfl, ⟨.same rfl rfl rfl rfl, trivial⟩, fun _ => trivial⟩

theorem tidy_send {request : Message} {reply : Reply} :
    (send request reply).Steps allowed Tidy (fun _ _ => True) w := steady_send.rel_mono fun _ _ h => h.tidy

theorem tidy_onApplyPrepare {m : ApplyPrepareMessage} :
    (onApplyPrepare m).Steps allowed Tidy (fun _ _ => True) w := by
  simp only [onApplyPrepare, Prog.steps_bind, steps_state]
  split
  · exact tidy_send
  split
  · exact tidy_send
  split
  · exact tidy_send
  split
  · exact tidy_send
  split
  · exact tidy_send
  rw [Prog.steps_bind]
  refine tidy_openWindow.mono fun r w' _ => ?_
  split
  · exact tidy_send
  · exact tidy_send

theorem tidy_onApplyAbort {m : ApplyAbortMessage} : (onApplyAbort m).Steps allowed Tidy (fun _ _ => True) w := by
  have hrest (w' : World) : (do
      setState fun s => { s with applyRollbacks := increment s.applyRollbacks }
      commit (rollbackPayload (← state))
      commit (.applyResolved (← state).activations)
      send (.applyAbort m) (.applyAbortAck { deployment := m.deployment, aborted := true, code := .ok }) :
        Agent Status).Steps allowed Tidy (fun _ _ => True) w' := by
    simp only [Prog.steps_bind, steps_setState, steps_state, steps_commit]
    exact ⟨.same rfl rfl rfl rfl, .same rfl rfl rfl rfl, .same rfl rfl rfl rfl, tidy_send⟩
  simp only [onApplyAbort, Prog.steps_bind, steps_state]
  split
  · exact tidy_send
  split
  · exact tidy_send
  split
  · rw [Prog.steps_bind]
    exact steps_remove (.same rfl rfl rfl rfl) (hrest _) (hrest _)
  · exact hrest _

end Tidy

/-! Payloads that come and go. -/

section Payloads

variable {w w' w'' : World} {allowed : Env → Prop} {o : AgentOptions} {c : TransferRecord}

theorem Provisioned.grow (h : Provisioned o w) (hmem : w'.mem = w.mem) (hcurrent : w'.files.current = w.files.current)
    (hpayload : ∀ name ∈ w.files.payload, name ∈ w'.files.payload)
    (hcrowd : ∀ d, crowd w.files d ≤ crowd w'.files d) : Provisioned o w' where
  live d v hv := hpayload _ (h.live d v (hcurrent ▸ hv))
  staged d c hc hstaged := by
    rw [hmem] at hc
    exact (h.staged d c hc hstaged).imp (hpayload _) (le_trans · (hcrowd _))

theorem crowd_insert (f : Files) (name : PayloadName) (content : Bytes) (d : Directory) :
    crowd f d ≤ crowd { f with payload := f.payload.insert name content } d := by
  have hkeys : f.payload.keys.countP (fun n => decide (n.directory = d)) ≤
      (name :: f.payload.keys.erase name).countP fun n => decide (n.directory = d) := by
    by_cases hname : name ∈ f.payload.keys
    · exact (List.perm_cons_erase hname).countP_eq _ |>.le
    · rw [List.erase_of_not_mem hname]
      exact (List.sublist_cons_self _ _).countP_le
  rw [crowd, crowd, AList.keys_insert]
  exact Nat.add_le_add_right hkeys _

theorem provisioned_copyFileAtomic {source : Directory} {name : PayloadName} {Q : Status → World → Prop}
    (hw : Provisioned o w) (herr : ∀ e w', Provisioned o w' → w'.mem = w.mem → Q (.error e) w')
    (hok : ∀ w', Provisioned o w' → w'.mem = w.mem → name ∈ w'.files.payload → Q (.ok ()) w') :
    (copyFileAtomic source name).Steps allowed (fun _ w' => Provisioned o w') Q w := by
  simp only [copyFileAtomic, Prog.steps_bind, Prog.steps_ask, Prog.steps_read]
  intro e _
  split
  · exact herr _ _ hw rfl
  case h_2 content _ =>
  simp only [Prog.steps_bind, steps_succeeds]
  intro e₁ _
  split
  · exact herr _ _ hw rfl
  simp only [Prog.steps_bind, steps_setFiles, steps_succeeds]
  have hcopying : Provisioned o (w.onFiles fun f => { f with parts := (name.directory, e.random) :: f.parts }) :=
    hw.grow rfl rfl (fun _ h => h) fun d =>
      Nat.add_le_add_left ((List.sublist_cons_self _ _).countP_le (p := fun part : Directory × Bytes => decide (part.1 = d))) _
  have hdiscarded : Provisioned o ((w.onFiles fun f => { f with parts := (name.directory, e.random) :: f.parts }).onFiles
      fun f => { f with parts := f.parts.erase (name.directory, e.random) }) := by
    refine hw.grow rfl rfl (fun _ h => h) fun d => ?_
    simp only [World.onFiles, List.erase_cons_head]
    exact le_rfl
  refine ⟨hcopying, fun e₂ _ => ?_⟩
  split
  · rw [Prog.steps_bind]
    exact steps_remove hdiscarded (herr _ _ hdiscarded rfl) (herr _ _ hcopying rfl)
  simp only [Prog.steps_bind, steps_succeeds]
  intro e₃ _
  split
  · rw [Prog.steps_bind]
    exact steps_remove hdiscarded (herr _ _ hdiscarded rfl) (herr _ _ hcopying rfl)
  · simp only [Prog.steps_bind, steps_setFiles]
    have hplaced : Provisioned o ((w.onFiles fun f => { f with parts := (name.directory, e.random) :: f.parts }).onFiles
        fun f => { f with
          parts := f.parts.erase (name.directory, e.random), payload := f.payload.insert name content }) := by
      refine hdiscarded.grow rfl rfl (fun n h => ?_) fun d => ?_
      · exact (AList.mem_insert _).mpr (.inr h)
      · exact crowd_insert _ name content d
    exact ⟨hplaced, hok _ hplaced rfl ((AList.mem_insert _).mpr (.inl rfl))⟩

theorem Provisioned.stage (h : Provisioned o w) (hplaced : nameOf c ∈ w.files.payload) :
    Provisioned o (w.commit (.transferUpsert c)) where
  live := h.live
  staged d c' hc' hstaged' := by
    change (w.mem.transfers.insert c.deployment c).find d = some c' at hc'
    rw [SortedMap.find_insert] at hc'
    split at hc'
    case isTrue =>
      obtain rfl := Option.some.inj hc'
      exact .inl hplaced
    case isFalse => exact h.staged d c' hc' hstaged'

theorem provisioned_onStage {m : StageMessage} (hw : Provisioned o w) :
    (onStage m).Steps allowed (fun _ w' => Provisioned o w') (fun _ w' => Provisioned o w') w := by
  have hrespond (ack : StageAckMessage) {w' : World} (hw' : Provisioned o w') : (send (.stage m) (.stageAck ack)).Steps
      allowed (fun _ w' => Provisioned o w') (fun _ w' => Provisioned o w') w' := provisioned_steady hw' steady_send
  simp only [onStage, Prog.steps_bind, steps_state]
  split
  · exact hrespond _ hw
  case h_2 c _ =>
  split
  · exact hrespond _ hw
  split
  · exact hrespond _ hw
  split
  · exact hrespond _ hw
  simp only [Prog.steps_bind, steps_succeeds]
  intro e _
  split
  · exact hrespond _ hw
  rw [Prog.steps_bind]
  refine provisioned_copyFileAtomic hw (fun e w' hw' _ => hrespond _ hw') fun w' hw' _ hplaced => ?_
  simp only [checkpointTransfer, Prog.steps_bind, steps_now]
  intro e _
  have hstaged := hw'.stage (c := { c with staged := true, updatedAtMillis := e.now }) hplaced
  exact ⟨hstaged, hrespond _ hstaged⟩

/-- One file fewer, and not that of a live pointer. -/
theorem Provisioned.shrink (h : Provisioned o w) (directory : Directory)
    (hcurrent : w'.files.current = w.files.current) (hmem : w'.mem = w.mem)
    (hlive : ∀ v, w.files.current.lookup directory = some (.pointer v) →
      payloadName directory v.generation v.digest ∈ w'.files.payload)
    (hothers : ∀ name ∈ w.files.payload, name.directory ≠ directory → name ∈ w'.files.payload)
    (hcrowds : ∀ d, d ≠ directory → crowd w.files d ≤ crowd w'.files d)
    (hfull : o.retainedPayloadsPerKey ≤ crowd w'.files directory) : Provisioned o w' where
  live d v hv := by
    rw [hcurrent] at hv
    by_cases hd : d = directory
    · subst hd
      exact hlive v hv
    · exact hothers _ (h.live d v hv) hd
  staged d c hc hstaged := by
    rw [hmem] at hc
    by_cases hd : liveKeyDirectory c.key = directory
    · exact .inr (hd ▸ hfull)
    · exact (h.staged d c hc hstaged).imp (fun hpresent => hothers _ hpresent hd) (le_trans · (hcrowds _ hd))

/-- Where at least as many files are in the way as are to be kept, others than the live payload can go one by one. -/
theorem provisioned_removePayloads {names : List (PayloadName ⊕ Directory × Bytes)} (directory : Directory)
    (hw : Provisioned o w)
    (hnames : ∀ x ∈ names, (∃ other, x = .inl other ∧ other.directory = directory) ∨
      ∃ part, x = .inr part ∧ part.1 = directory)
    (hlive : ∀ v, w.files.current.lookup directory = some (.pointer v) →
      .inl (payloadName directory v.generation v.digest) ∉ names)
    (hfull : o.retainedPayloadsPerKey + names.length ≤ crowd w.files directory) :
    (removePayloads names).Steps allowed (fun _ w' => Provisioned o w') (fun _ w' => Provisioned o w') w := by
  induction names generalizing w with
  | nil => exact hw
  | cons x rest ih =>
    obtain ⟨hx, hrest⟩ := List.forall_mem_cons.mp hnames
    rw [List.length_cons] at hfull
    have hkept := ih hw hrest (fun v hv hmem => hlive v hv (List.mem_cons_of_mem _ hmem)) (by omega)
    obtain ⟨name, rfl, hdirectory⟩ | ⟨part, rfl, hdirectory⟩ := hx
    · have hfewer : crowd w.files directory ≤ crowd (w.onFiles fun f => { f with payload := f.payload.erase name }).files
          directory + 1 := by
        have herase := countP_erase_ge (p := fun n : PayloadName => decide (n.directory = directory))
          w.files.payload.keys name
        simp only [crowd, World.onFiles, AList.keys_erase]
        omega
      have hmem (n : PayloadName) (hn : n ∈ w.files.payload) (hne : n ≠ name) :
          n ∈ (w.onFiles fun f => { f with payload := f.payload.erase name }).files.payload :=
        AList.mem_erase.mpr ⟨hne, hn⟩
      have hnext : Provisioned o (w.onFiles fun f => { f with payload := f.payload.erase name }) := by
        refine hw.shrink directory rfl rfl (fun v hv => hmem _ (hw.live _ v hv) ?_) ?_ ?_ (by omega)
        · rintro rfl
          exact hlive v hv List.mem_cons_self
        · rintro n hn hne
          exact hmem n hn fun heq => hne (heq ▸ hdirectory)
        · intro d hd
          simp only [crowd, World.onFiles, AList.keys_erase]
          exact Nat.add_le_add_right (countP_erase_neg _ (by simpa [hdirectory] using Ne.symm hd)).ge _
      simp only [removePayloads, Prog.steps_bind]
      refine steps_remove hnext (ih hnext hrest ?_ (by omega)) hkept
      exact fun v hv hmem => hlive v hv (List.mem_cons_of_mem _ hmem)
    · have hfewer : crowd w.files directory ≤ crowd (w.onFiles fun f => { f with parts := f.parts.erase part }).files
          directory + 1 := by
        have herase := countP_erase_ge (p := fun p : Directory × Bytes => decide (p.1 = directory)) w.files.parts part
        simp only [crowd, World.onFiles]
        omega
      have hnext : Provisioned o (w.onFiles fun f => { f with parts := f.parts.erase part }) := by
        refine hw.shrink directory rfl rfl (fun v hv => hw.live _ v hv) (fun _ h _ => h) ?_ (by omega)
        intro d hd
        simp only [crowd, World.onFiles]
        exact Nat.add_le_add_left (countP_erase_neg _ (by simpa [hdirectory] using Ne.symm hd)).ge _
      simp only [removePayloads, Prog.steps_bind]
      refine steps_remove hnext (ih hnext hrest ?_ (by omega)) hkept
      exact fun v hv hmem => hlive v hv (List.mem_cons_of_mem _ hmem)

end Payloads

/-! Activations. -/

/-- After the switch: the pointer of the key is the record's, whose payload is there. -/
structure Posted (o : AgentOptions) (f : Files) (c : TransferRecord) (w : World) : Prop where
  provisioned : Provisioned o w
  payload : w.files.payload = f.payload
  parts : w.files.parts = f.parts
  live : ∀ v, w.files.current.lookup (liveKeyDirectory c.key) = some (.pointer v) → v = c.pointer

section Activations

variable {w w' w'' : World} {f : Files} {allowed : Env → Prop} {o : AgentOptions} {c : TransferRecord}

theorem Posted.tidy (h : Posted o f c w) (ht : Tidy w w') : Posted o f c w' where
  provisioned := h.provisioned.tidy ht
  payload := ht.payload.trans h.payload
  parts := ht.parts.trans h.parts
  live v hv := h.live v (ht.current _ v hv)

theorem Posted.switch (hw : Provisioned o w) (hpayload : w.files.payload = f.payload) (hparts : w.files.parts = f.parts)
    (hpresent : nameOf c ∈ f.payload) : Posted o f c (w.switch c) where
  provisioned := {
    live := fun d v hv => by
      rw [World.switch, lookup_putCurrent] at hv
      split at hv
      case isTrue hd =>
        cases hv
        rw [hd]
        exact hpayload ▸ hpresent
      case isFalse => exact hw.live d v hv
    staged := hw.staged }
  payload := hpayload
  parts := hparts
  live v hv := by
    rw [World.switch, lookup_putCurrent, if_pos rfl] at hv
    cases hv
    rfl

theorem tidy_commitGeneration : (commitGeneration c).Steps allowed Tidy (fun _ _ => True) w := by
  have hrecord (w' : World) : (recordActivation c).Steps allowed Tidy (fun _ _ => True) w' := by
    simp only [recordActivation, Prog.steps_bind, steps_commit, steps_now, steps_setState, steps_state]
    refine ⟨.same rfl rfl rfl rfl, fun e _ => ⟨.same rfl rfl rfl ?_, .same rfl rfl rfl rfl, .same rfl rfl rfl rfl, trivial⟩⟩
    rfl
  simp only [commitGeneration, Prog.steps_bind, steps_state]
  split
  · rw [Prog.steps_bind, steps_commit]
    exact ⟨.same rfl rfl rfl rfl, hrecord _⟩
  · exact hrecord w

theorem provisioned_prunePayloads (h : Posted o f c w) (hpresent : nameOf c ∈ f.payload)
    (hnewer : newer f (nameOf c) < o.retainedPayloadsPerKey) (hdated : ∀ e, allowed e → Dated f e) :
    (prunePayloads o c.key).Steps allowed (fun _ w' => Provisioned o w') (fun _ w' => Provisioned o w') w := by
  have hsame (e : Env) : payloadEntries e w.files (liveKeyDirectory c.key) =
      payloadEntries e f (liveKeyDirectory c.key) := by
    rw [payloadEntries, payloadEntries, h.payload, h.parts]
  simp only [prunePayloads, Prog.steps_bind, Prog.steps_ask, Prog.steps_read]
  intro e he
  rw [hsame]
  split
  · exact h.provisioned
  case isFalse hmany =>
    have hlength : o.retainedPayloadsPerKey < (payloadEntries e f (liveKeyDirectory c.key)).length := by
      by_contra hfew
      exact hmany (.inr (Nat.le_of_not_lt hfew))
    refine provisioned_removePayloads (liveKeyDirectory c.key) h.provisioned ?_ ?_ ?_
    · intro x hx
      obtain ⟨entry, hentry, rfl⟩ := List.mem_map.mp hx
      exact directory_payloadEntries (List.mem_mergeSort.mp (List.mem_of_mem_drop hentry))
    · intro v hv hmem
      obtain ⟨entry, hentry, hname⟩ := List.mem_map.mp hmem
      rw [h.live v hv] at hname
      exact retained_payload (hdated e he) hpresent hnewer hentry hname
    · have hcrowd := length_payloadEntries (e := e) (f := f) (liveKeyDirectory c.key)
      rw [crowd, ← h.payload, ← h.parts] at hcrowd
      rw [List.length_map, List.length_drop, List.length_mergeSort]
      change _ ≤ crowd w.files (liveKeyDirectory c.key)
      rw [crowd]
      omega

theorem provisioned_activate {explicitPrepare : Bool} (hw : Provisioned o w)
    (hopen : explicitPrepare = true → w.mem.applyPrepared = true) (hpresent : nameOf c ∈ w.files.payload)
    (hnewer : newer w.files (nameOf c) < o.retainedPayloadsPerKey) (hdated : ∀ e, allowed e → Dated w.files e) :
    (activate o c explicitPrepare).Steps allowed (fun _ w' => Provisioned o w') (fun _ w' => Provisioned o w') w := by
  have hready : (explicitPrepare && !w.mem.applyPrepared) = false := by
    cases explicitPrepare with
    | false => rfl
    | true => simp [hopen rfl]
  have hrecord (w' : World) (h : Posted o w.files c w') : (do
      commitGeneration c
      prunePayloads o c.key
      return .ok () : Agent Status).Steps allowed (fun _ w' => Provisioned o w') (fun _ w' => Provisioned o w') w' := by
    rw [Prog.steps_bind]
    have hrecorded : (commitGeneration c).Steps allowed (fun _ w' => Posted o w.files c w')
        (fun _ w' => True ∧ Posted o w.files c w') w' := tidy_commitGeneration.visits (fun _ _ ht h => h.tidy ht) h
    refine (hrecorded.rel_mono fun _ _ h => h.provisioned).mono fun _ w₁ h₁ => ?_
    rw [Prog.steps_bind]
    exact provisioned_prunePayloads h₁.2 hpresent hnewer hdated
  simp only [activate, hready, Bool.false_eq_true, if_false, Prog.steps_bind, steps_state, Prog.steps_pure]
  have hposted (w' : World) (h : Posted o w.files c w') : Prog.Steps allowed (fun _ w' => Provisioned o w') (do
      if explicitPrepare then remove (·.dropPending (liveKeyDirectory c.key))
      commitGeneration c
      prunePayloads o c.key
      return .ok () : Agent Status) (fun _ w' => Provisioned o w') w' := by
    simp only
    split
    · rw [Prog.steps_bind]
      have hunmarked : Posted o w.files c (w'.onFiles (·.dropPending (liveKeyDirectory c.key))) :=
        h.tidy (.same rfl rfl rfl rfl)
      exact steps_remove hunmarked.provisioned (hrecord _ hunmarked) (hrecord _ h)
    · exact hrecord _ h
  have hswitched := Posted.switch (c := c) hw (f := w.files) rfl rfl hpresent
  refine steps_writeFileAtomic hswitched.provisioned (hposted _ hswitched) (fun _ => hw) fun _ => ?_
  have hdropped := hw.tidy (.dropCurrent w (liveKeyDirectory c.key))
  have hretried := Posted.switch (c := c) hdropped (f := w.files) rfl rfl hpresent
  exact ⟨hdropped, hretried.provisioned, hposted _ hretried, fun _ => hdropped⟩

/-- Each record that a commit activates has fewer newer files in its payload directory than are retained. -/
def Spared (o : AgentOptions) (w : World) (m : ApplyCommitMessage) : Prop :=
  ∀ c ∈ activating w.mem m, newer w.files (nameOf c) < o.retainedPayloadsPerKey

theorem provisioned_onApplyCommit {session : Session} {m : ApplyCommitMessage} (hw : Provisioned o w)
    (hspared : Spared o w m) (hdated : ∀ e, allowed e → Dated w.files e) :
    (onApplyCommit o session m).Steps allowed (fun _ w' => Provisioned o w') (fun _ w' => Provisioned o w') w := by
  have hrefuse {ack : ApplyCommitAckMessage} {key : ConfigKey} {detail : String} {w' : World}
      (hw' : Provisioned o w') : (refuseCommit m ack key detail).Steps allowed (fun _ w' => Provisioned o w')
        (fun _ w' => Provisioned o w') w' := provisioned_steady hw' steady_refuseCommit
  have hconfirm {ack : ApplyCommitAckMessage} {key : ConfigKey} {bytes : ℕ} {w' : World} (hw' : Provisioned o w') :
      (confirmCommit session m ack key bytes).Steps allowed (fun _ w' => Provisioned o w')
        (fun _ w' => Provisioned o w') w' := provisioned_steady hw' steady_confirmCommit
  have hcounted {f : AgentState → AgentState} (hf : (f w.mem).transfers = w.mem.transfers) :
      Provisioned o { w with mem := f w.mem } ∧
        Provisioned o (World.commit (rollbackPayload (f w.mem)) { w with mem := f w.mem }) :=
    ⟨hw.tidy (.same rfl rfl rfl hf), hw.tidy (.same rfl rfl rfl hf)⟩
  simp only [onApplyCommit, Prog.steps_bind, steps_state]
  split
  · simp only [Prog.steps_bind, steps_setState, steps_state, steps_commit]
    obtain ⟨h₁, h₂⟩ := hcounted (f := fun s => { s with staleOffersRefused := increment s.staleOffersRefused }) rfl
    exact ⟨h₁, h₂, hrefuse h₂⟩
  case isFalse hstale =>
  split
  · simp only [Prog.steps_bind, steps_setState, steps_state, steps_commit]
    obtain ⟨h₁, h₂⟩ := hcounted (f := fun s => { s with duplicatesSuppressed := increment s.duplicatesSuppressed }) rfl
    exact ⟨h₁, h₂, hconfirm h₂⟩
  case isFalse hsame =>
  split
  · exact hrefuse hw
  case isFalse hconflict =>
  split
  · split
    · exact hconfirm hw
    · exact hrefuse hw
  case h_2 c hfind =>
  obtain ⟨hfind, hstaged⟩ := Option.filter_eq_some_iff.mp hfind
  split
  · exact hrefuse hw
  case isFalse hcontent =>
  split
  · exact hrefuse hw
  case isFalse hexplicit =>
  split
  · exact hrefuse hw
  case isFalse hmine =>
  have hnewer := hspared c (activating_eq hstale hsame hconflict hfind hstaged hcontent hexplicit hmine)
  have hpresent := present_of_newer hnewer (hw.staged _ c hfind hstaged)
  rw [Prog.steps_bind]
  have hopen : (w.mem.guarantee == .prepareCommitAbort) = true → w.mem.applyPrepared = true := by
    intro hguarantee
    by_contra hclosed
    exact hexplicit ⟨beq_iff_eq.mp hguarantee, by simpa using hclosed⟩
  refine (provisioned_activate hw hopen hpresent hnewer hdated).mono fun r w' hw' => ?_
  split
  · exact hrefuse hw'
  · simp only [Prog.steps_bind, steps_state]
    exact hconfirm hw'

end Activations

/-! An activation behind too many newer files. -/

/-- Files do as they are told, and the times of the payloads can be read. -/
structure Legible (f : Files) (e : Env) : Prop where
  ok : e.ok = true
  dated : Dated f e
  stamps : ∀ name ∈ f.payload, (e.stamps name).isSome = true

section Displaced

variable {w w' : World} {f : Files} {e : Env} {allowed : Env → Prop} {o : AgentOptions} {c : TransferRecord}

/-- Without unfinished copies the payloads are already in the order pruning takes them in. -/
theorem sorted_payloadEntries {directory : Directory} (hdated : Dated f e) (hparts : f.parts = []) :
    ((payloadEntries e f directory).mergeSort fun a b => b.2 ≤ a.2) = payloadEntries e f directory := by
  refine List.mergeSort_of_pairwise ?_
  rw [payloadEntries, hparts, List.filter_nil, List.filterMap_nil, List.append_nil, List.pairwise_filterMap,
    List.pairwise_filter]
  refine hdated.imp fun {x y} hxy hx hy a ha b hb => ?_
  obtain ⟨s, hs, rfl⟩ := Option.map_eq_some_iff.mp ha
  obtain ⟨t, ht, rfl⟩ := Option.map_eq_some_iff.mp hb
  have hlater := hxy ((of_decide_eq_true hx).trans (of_decide_eq_true hy).symm) s hs t ht
  simpa using hlater.le

theorem mem_pruned (he : Legible f e) (hparts : f.parts = []) (hpresent : nameOf c ∈ f.payload)
    (hmany : o.retainedPayloadsPerKey ≤ newer f (nameOf c)) :
    .inl (nameOf c) ∈ (((payloadEntries e f (liveKeyDirectory c.key)).mergeSort fun a b => b.2 ≤ a.2).drop
      o.retainedPayloadsPerKey).map (·.1) := by
  obtain ⟨pre, post, hkeys, htake⟩ := keys_split hpresent
  obtain ⟨t, ht⟩ := Option.isSome_iff_exists.mp (he.stamps _ hpresent)
  have hself : ((e.stamps (nameOf c)).map (Sum.inl (β := Directory × Bytes) (nameOf c), ·)) = some (.inl (nameOf c), t) :=
    Option.map_eq_some_iff.mpr ⟨t, ht, rfl⟩
  have hlength : ((pre.filter (·.directory = liveKeyDirectory c.key)).filterMap fun n => (e.stamps n).map
      (Sum.inl (β := Directory × Bytes) n, ·)).length = newer f (nameOf c) := by
    rw [List.length_filterMap_eq_countP, newer, htake, hparts, List.countP_nil, Nat.add_zero,
      List.countP_eq_length_filter (l := pre)]
    refine List.countP_eq_length.mpr fun n hn => ?_
    have hmem : n ∈ f.payload := by
      refine AList.mem_keys.mpr ?_
      rw [hkeys]
      exact List.mem_append_left _ (List.mem_of_mem_filter hn)
    rw [Option.isSome_map]
    exact he.stamps n hmem
  rw [sorted_payloadEntries he.dated hparts, payloadEntries, hparts, List.filter_nil, List.filterMap_nil,
    List.append_nil, hkeys, List.filter_append, List.filterMap_append, List.filter_cons_of_pos (by simp [nameOf, payloadName]),
    List.filterMap_cons, hself, List.drop_append_of_le_length (hlength ▸ hmany)]
  exact List.mem_map.mpr ⟨_, List.mem_append_right _ List.mem_cons_self, rfl⟩

theorem removed_removePayloads {names : List (PayloadName ⊕ Directory × Bytes)} {name : PayloadName}
    {p : Pointers} (hsure : ∀ e, allowed e → e.ok = true) (hcurrent : w.files.current = p)
    (hname : .inl name ∈ names ∨ name ∉ w.files.payload) :
    (removePayloads names).Steps allowed Any (fun _ w' => w'.files.current = p ∧ name ∉ w'.files.payload) w := by
  induction names generalizing w with
  | nil => exact ⟨hcurrent, hname.resolve_left List.not_mem_nil⟩
  | cons x rest ih =>
    cases x with
    | inl other =>
      simp only [removePayloads, Prog.steps_bind]
      refine any_remove hsure (ih hcurrent ?_)
      by_cases hother : other = name
      · right
        intro hmem
        exact (AList.mem_erase.mp hmem).1 hother.symm
      · obtain hmem | hgone := hname
        · left
          obtain heq | hmem := List.mem_cons.mp hmem
          · exact absurd (Sum.inl.inj heq).symm hother
          · exact hmem
        · right
          exact fun hmem => hgone (AList.mem_erase.mp hmem).2
    | inr part =>
      simp only [removePayloads, Prog.steps_bind]
      refine any_remove hsure (ih hcurrent (hname.imp_left fun hmem => ?_))
      obtain heq | hmem := List.mem_cons.mp hmem
      · cases heq
      · exact hmem

theorem removed_prunePayloads (hlegible : ∀ e, allowed e → Legible w.files e) (hparts : w.files.parts = [])
    (hpresent : nameOf c ∈ w.files.payload) (hmany : o.retainedPayloadsPerKey ≤ newer w.files (nameOf c)) :
    (prunePayloads o c.key).Steps allowed Any
      (fun _ w' => w'.files.current = w.files.current ∧ nameOf c ∉ w'.files.payload) w := by
  simp only [prunePayloads, Prog.steps_bind, Prog.steps_ask, Prog.steps_read]
  intro e he
  have hmem := mem_pruned (hlegible e he) hparts hpresent hmany
  split
  case isTrue hfew =>
    obtain hfail | hfew := hfew
    · rw [(hlegible e he).ok] at hfail
      cases hfail
    · rw [List.drop_eq_nil_of_le (by rwa [List.length_mergeSort])] at hmem
      cases hmem
  case isFalse => exact removed_removePayloads (fun e he => (hlegible e he).ok) rfl (.inl hmem)

theorem sure_writeFileAtomic {put : World → World} {drop : Files → Files} {Q : Status → World → Prop}
    (hsure : ∀ e, allowed e → e.ok = true) (hok : Q (.ok ()) (put w)) :
    (writeFileAtomic put drop).Steps allowed Any Q w := by
  simp only [writeFileAtomic, Prog.steps_bind, steps_succeeds]
  intro e₁ he₁
  rw [if_neg (by simp [hsure e₁ he₁])]
  simp only [Prog.steps_bind, steps_succeeds]
  intro e₂ he₂
  rw [if_neg (by simp [hsure e₂ he₂])]
  simp only [Prog.steps_bind, steps_succeeds]
  intro e₃ he₃
  rw [if_pos (hsure e₃ he₃)]
  exact ⟨trivial, hok⟩

/-- A pointer to a payload that has gone. -/
def Dangling (c : TransferRecord) (w : World) : Prop :=
  w.files.current.lookup (liveKeyDirectory c.key) = some (.pointer c.pointer) ∧ nameOf c ∉ w.files.payload

theorem Dangling.steady (h : Dangling c w) (hs : Steady w w') : Dangling c w' := by
  rw [Dangling, hs.current, hs.payload]
  exact h

theorem files_commitGeneration :
    (commitGeneration c).Steps allowed Any (fun _ w' => w'.files = w.files) w := by
  have hrecord (w' : World) : (recordActivation c).Steps allowed Any (fun _ w'' => w''.files = w'.files) w' := by
    simp only [recordActivation, Prog.steps_bind, steps_commit, steps_now, steps_setState, steps_state]
    exact ⟨trivial, fun e _ => ⟨trivial, trivial, trivial, rfl⟩⟩
  simp only [commitGeneration, Prog.steps_bind, steps_state]
  split
  · rw [Prog.steps_bind, steps_commit]
    exact ⟨trivial, hrecord _⟩
  · exact hrecord w

theorem dangling_activate {explicitPrepare : Bool} (hopen : explicitPrepare = true → w.mem.applyPrepared = true)
    (hlegible : ∀ e, allowed e → Legible w.files e) (hparts : w.files.parts = [])
    (hpresent : nameOf c ∈ w.files.payload) (hmany : o.retainedPayloadsPerKey ≤ newer w.files (nameOf c)) :
    (activate o c explicitPrepare).Steps allowed Any (fun r w' => r = .ok () ∧ Dangling c w') w := by
  have hready : (explicitPrepare && !w.mem.applyPrepared) = false := by
    cases explicitPrepare with
    | false => rfl
    | true => simp [hopen rfl]
  have hsure (e : Env) (he : allowed e) : e.ok = true := (hlegible e he).ok
  have hrecord (w' : World) (hcurrent : w'.files.current = (w.switch c).files.current)
      (hpayload : w'.files.payload = w.files.payload) (hparts' : w'.files.parts = w.files.parts) : (do
        commitGeneration c
        prunePayloads o c.key
        return .ok () : Agent Status).Steps allowed Any (fun r w' => r = .ok () ∧ Dangling c w') w' := by
    rw [Prog.steps_bind]
    refine files_commitGeneration.mono fun _ w₁ hfiles => ?_
    rw [Prog.steps_bind]
    have hnewer : newer w₁.files (nameOf c) = newer w.files (nameOf c) := by
      rw [newer, newer, hfiles, hpayload, hparts']
    have hlegible' (e : Env) (he : allowed e) : Legible w₁.files e := by
      obtain ⟨hok, hdated, hstamps⟩ := hlegible e he
      refine ⟨hok, ?_, ?_⟩
      · rw [Dated, hfiles, hpayload]
        exact hdated
      · rw [hfiles, hpayload]
        exact hstamps
    refine (removed_prunePayloads hlegible' ?_ ?_ (hnewer ▸ hmany)).mono fun _ w₂ h₂ => ⟨rfl, ?_, h₂.2⟩
    · rw [hfiles, hparts', hparts]
    · rw [hfiles, hpayload]
      exact hpresent
    · rw [h₂.1, hfiles, hcurrent, World.switch, lookup_putCurrent, if_pos rfl]
  simp only [activate, hready, Bool.false_eq_true, if_false, Prog.steps_bind, steps_state, Prog.steps_pure]
  refine sure_writeFileAtomic hsure ?_
  simp only
  split
  · rw [Prog.steps_bind]
    exact any_remove hsure (hrecord _ rfl rfl rfl)
  · exact hrecord _ rfl rfl rfl

/-- Where as many files are newer as are retained, and nothing fails, the commit leaves its pointer without payload. -/
theorem dangling_onApplyCommit {session : Session} {m : ApplyCommitMessage} (hactivates : c ∈ activating w.mem m)
    (hlegible : ∀ e, allowed e → Legible w.files e) (hparts : w.files.parts = [])
    (hpresent : nameOf c ∈ w.files.payload) (hmany : o.retainedPayloadsPerKey ≤ newer w.files (nameOf c)) :
    (onApplyCommit o session m).Steps allowed Any (fun _ => Dangling c) w := by
  rw [activating] at hactivates
  split at hactivates
  · cases hactivates
  case isFalse hfresh =>
  obtain ⟨hstale, hrest⟩ := not_or.mp hfresh
  obtain ⟨hsame, hconflict⟩ := not_or.mp hrest
  obtain ⟨hfind, hchecks⟩ := Option.filter_eq_some_iff.mp hactivates
  simp only [Bool.and_eq_true, Bool.or_eq_true, beq_iff_eq, bne_iff_ne, Bool.not_eq_true'] at hchecks
  obtain ⟨⟨⟨⟨hstaged, hdigest⟩, hgeneration⟩, hexplicit⟩, hmine⟩ := hchecks
  have hopen : (w.mem.guarantee == .prepareCommitAbort) = true → w.mem.applyPrepared = true :=
    fun hguarantee => hexplicit.resolve_left fun h => h (beq_iff_eq.mp hguarantee)
  have hfound : (w.mem.transfers.find m.deployment).filter (·.staged) = some c :=
    Option.filter_eq_some_iff.mpr ⟨hfind, hstaged⟩
  simp only [onApplyCommit, Prog.steps_bind, steps_state]
  rw [if_neg hstale, if_neg hsame, if_neg hconflict, hfound]
  simp only
  rw [if_neg (by simp [hdigest, hgeneration]), if_neg (fun h => by simp [hopen (beq_iff_eq.mpr h.1)] at h),
    if_neg (fun h => h.2 (hmine.resolve_left (by simp [h.1]))), Prog.steps_bind]
  refine (dangling_activate hopen hlegible hparts hpresent hmany).mono fun r w' h => ?_
  obtain ⟨rfl, hdangling⟩ := h
  simp only [Prog.steps_bind, steps_state]
  exact steady_any steady_confirmCommit fun _ _ hs => hdangling.steady hs

end Displaced

/-! Start-up. -/

section Startup

variable {w w' : World} {allowed : Env → Prop} {o : AgentOptions} {directory : Directory}
  {pointer : Option PointerValue} {recovery : LiveRecovery}

theorem tidy_removeUnknownStaging {known : List DeploymentId} {paths : List Directory} :
    (removeUnknownStaging known paths recovery).Steps allowed Tidy (fun _ w' => w'.mem = w.mem) w := by
  induction paths generalizing recovery w with
  | nil => exact rfl
  | cons path paths ih =>
    rw [removeUnknownStaging.eq_def]
    split
    · contradiction
    case h_2 name rest _ heq =>
      obtain ⟨-, rfl⟩ := List.cons.inj heq
      split
      · exact ih
      simp only [Prog.steps_bind, steps_succeeds]
      intro e _
      split
      · simp only [Prog.steps_bind, steps_setFiles]
        exact ⟨.same rfl rfl rfl rfl, ih.mono fun _ _ h => h⟩
      · exact ih
    case h_3 rest _ heq =>
      obtain ⟨-, rfl⟩ := List.cons.inj heq
      exact ih

theorem tidy_fitTransfers {rs : List TransferRecord} :
    (fitTransfers rs).Steps allowed Tidy (fun fitted _ => ∀ r ∈ fitted.2, r ∈ rs) w := by
  induction rs generalizing w with
  | nil => exact fun r hr => hr
  | cons r rs ih =>
    have hskip {fitted : List DeploymentId × List TransferRecord} (h : ∀ q ∈ fitted.2, q ∈ rs) :
        ∀ q ∈ fitted.2, q ∈ r :: rs := fun q hq => List.mem_cons_of_mem _ (h q hq)
    simp only [fitTransfers, Prog.steps_bind, Prog.steps_read]
    split
    · rw [Prog.steps_bind]
      exact ih.mono fun fitted _ h => hskip h
    · split
      · rw [Prog.steps_bind]
        exact ih.mono fun fitted _ h => hskip h
      split
      · simp only [Prog.steps_bind, steps_succeeds]
        intro e _
        split
        · simp only [Prog.steps_bind, Prog.steps_modify]
          refine ⟨.same rfl rfl rfl rfl, ih.mono fun fitted _ h q hq => ?_⟩
          obtain rfl | hq := List.mem_cons.mp hq
          · exact List.mem_cons_self
          · exact hskip h q hq
        · rw [Prog.steps_bind]
          exact ih.mono fun fitted _ h => hskip h
      · exact ih.mono fun fitted _ h => hskip h

theorem tidy_destroyTransfers {ds : List DeploymentId} :
    (destroyTransfers ds).Steps allowed Tidy (fun _ _ => True) w := by
  induction ds generalizing w with
  | nil => exact trivial
  | cons d ds ih =>
    simp only [destroyTransfers, Prog.steps_bind]
    exact ((steady_destroyTransfer d).rel_mono fun _ _ h => h.tidy).mono fun _ _ _ => ih

/-- Records written back as they stood at the start add nothing to what was staged then. -/
theorem tidy_checkpointTransfers {rs : List TransferRecord}
    (hrs : ∀ r ∈ rs, w.mem.transfers.find r.deployment = some r) (hw : Tidy w w') :
    (checkpointTransfers rs).Steps allowed (fun _ w'' => Tidy w w'') (fun _ w'' => Tidy w w'') w' := by
  induction rs generalizing w' with
  | nil => exact hw
  | cons r rs ih =>
    obtain ⟨hr, hrs⟩ := List.forall_mem_cons.mp hrs
    have hnext : Tidy w (w'.commit (.transferUpsert r)) := by
      refine ⟨hw.current, hw.payload, hw.parts, fun d c' hc hstaged => ?_⟩
      change (w'.mem.transfers.insert r.deployment r).find d = some c' at hc
      rw [SortedMap.find_insert] at hc
      split at hc
      case isTrue hd =>
        obtain rfl := Option.some.inj hc
        exact ⟨r, hd ▸ hr, hstaged, rfl, rfl⟩
      case isFalse => exact hw.staged d c' hc hstaged
    simp only [checkpointTransfers, checkpointTransfer, Prog.steps_bind, steps_commit]
    exact ⟨hnext, ih hrs hnext⟩

theorem tidied {α : Type} {p : Agent α} {Q : α → World → Prop} (hp : p.Steps allowed Tidy Q w') (hw : Tidy w w') :
    p.Steps allowed (fun _ w'' => Tidy w w'') (fun a w'' => Q a w'' ∧ Tidy w w'') w' :=
  hp.visits (fun _ _ ht h => h.trans ht) hw

theorem tidied_recoverTransfers (hk : Kept w.mem) :
    recoverTransfers.Steps allowed (fun _ w' => Tidy w w') (fun _ w' => Tidy w w') w := by
  simp only [recoverTransfers, Prog.steps_bind, Prog.steps_read]
  refine (tidied tidy_removeUnknownStaging (.refl w)).mono fun recovery w₁ h₁ => ?_
  simp only [Prog.steps_bind, steps_state]
  refine (tidied tidy_fitTransfers h₁.2).mono fun fitted w₂ h₂ => ?_
  simp only [Prog.steps_bind]
  refine (tidied tidy_destroyTransfers h₂.2).mono fun _ w₃ h₃ => ?_
  have hrs : ∀ r ∈ fitted.2, w.mem.transfers.find r.deployment = some r := by
    intro r hr
    have hmem := h₂.1 r hr
    rw [h₁.1] at hmem
    obtain ⟨e, he, rfl⟩ := List.mem_map.mp hmem
    rw [hk.keyed e he]
    exact SortedMap.find_of_mem hk.sorted he
  simp only [Prog.steps_bind]
  exact (tidy_checkpointTransfers hrs h₃.2).mono fun _ _ h => h

theorem tidy_noteRollback : (noteRollback recovery).Steps allowed Tidy (fun _ _ => True) w := by
  simp only [noteRollback, Prog.steps_bind, steps_setState, steps_state, steps_commit]
  exact ⟨.same rfl rfl rfl rfl, .same rfl rfl rfl rfl, trivial⟩

theorem tidy_resolvePending :
    (resolvePending directory pointer recovery).Steps allowed Tidy (fun _ _ => True) w := by
  have hresolve (recovery : LiveRecovery) (w' : World) : (do
      let s ← state
      if s.applyPrepared then commit (.applyResolved s.activations)
      return recovery : Agent LiveRecovery).Steps allowed Tidy (fun _ _ => True) w' := by
    simp only [Prog.steps_bind, steps_state]
    split
    · rw [Prog.steps_bind, steps_commit]
      exact ⟨.same rfl rfl rfl rfl, trivial⟩
    · trivial
  have hmarker (recovery : LiveRecovery) (w' : World) : (do
      remove (·.dropPending directory)
      let s ← state
      if s.applyPrepared then commit (.applyResolved s.activations)
      return recovery : Agent LiveRecovery).Steps allowed Tidy (fun _ _ => True) w' := by
    rw [Prog.steps_bind]
    exact steps_remove (.same rfl rfl rfl rfl) (hresolve _ _) (hresolve _ _)
  simp only [resolvePending, Prog.steps_bind, steps_state]
  split
  · exact hmarker _ w
  · rw [Prog.steps_bind]
    exact tidy_noteRollback.mono fun recovery w' _ => hmarker recovery w'

theorem tidy_adoptPointer :
    (adoptPointer o directory pointer recovery).Steps allowed Tidy (fun _ _ => True) w := by
  have hclear (recovery : LiveRecovery) : (clearCommit recovery).Steps allowed Tidy (fun _ _ => True) w :=
    ⟨.same rfl rfl rfl rfl, trivial⟩
  cases pointer with
  | none =>
    simp only [adoptPointer, Prog.steps_bind, steps_state]
    split
    · exact hclear _
    · trivial
  | some value =>
    have hrest (actual : Result Digest) (recovery : LiveRecovery) : (do
        let s ← state
        if actual ≠ .ok value.digest then clearCommit recovery
        else if value.generation = s.committedGeneration ∧ value.digest = s.committedDigest ∧
            s.committedGeneration ≠ 0 then
          return recovery
        else
          commit (.targetCommit value.generation value.digest value.artifact)
          return { recovery with adoptedCompletedSwitch := true } : Agent LiveRecovery).Steps allowed Tidy
            (fun _ _ => True) w := by
      simp only [Prog.steps_bind, steps_state]
      split
      · exact hclear _
      split
      · trivial
      · exact ⟨.same rfl rfl rfl rfl, trivial⟩
    simp only [adoptPointer, Prog.steps_bind, Prog.steps_read]
    split
    · simp only [hashStagingFile, Prog.steps_bind, steps_succeeds]
      intro e _
      split
      · exact hrest _ _
      · exact hrest _ _
    · exact hrest _ _

theorem tidy_recoverDirectories {directories : List Directory} :
    (recoverDirectories o directories recovery).Steps allowed Tidy (fun _ _ => True) w := by
  induction directories generalizing recovery w with
  | nil => exact trivial
  | cons directory rest ih =>
    have hread : (readPointer directory recovery).Steps allowed Tidy (fun _ _ => True) w := by
      simp only [readPointer, Prog.steps_bind, Prog.steps_read]
      split
      · trivial
      · trivial
      · rw [Prog.steps_bind]
        exact steps_remove (.dropCurrent w directory) trivial trivial
    simp only [recoverDirectories, recoverDirectory, Prog.steps_bind, Prog.steps_read]
    refine hread.mono fun r w₁ _ => ?_
    split
    · rw [Prog.steps_bind]
      exact tidy_resolvePending.mono fun _ w₂ _ => tidy_adoptPointer.mono fun _ w₃ _ => ih
    · rw [Prog.steps_bind]
      exact tidy_adoptPointer.mono fun _ w₂ _ => ih

theorem tidied_recoverLiveArea (hk : Kept w.mem) :
    (recoverLiveArea o).Steps allowed (fun _ w' => Tidy w w') (fun _ w' => Tidy w w') w := by
  simp only [recoverLiveArea, Prog.steps_bind]
  refine (tidied_recoverTransfers hk).mono fun recovery w₁ h₁ => ?_
  simp only [Prog.steps_bind, Prog.steps_ask, Prog.steps_read]
  intro e _
  refine (tidied tidy_recoverDirectories h₁).mono fun recovery w₂ h₂ => ?_
  simp only [Prog.steps_bind, steps_state]
  split
  · rw [Prog.steps_bind]
    refine (tidied tidy_noteRollback h₂.2).mono fun recovery w₃ h₃ => ?_
    simp only [Prog.steps_bind, steps_state, steps_commit]
    have hresolved := h₃.2.trans (.same rfl rfl rfl rfl : Tidy w₃ (w₃.commit (.applyResolved w₃.mem.activations)))
    exact ⟨hresolved, hresolved⟩
  · exact h₂.2

theorem tidied_open (hk : Kept w.mem) : («open» o).Steps allowed (fun _ w' => Tidy w w') (fun _ w' => Tidy w w') w := by
  have hstart := Tidy.refl w
  have hrecovered (w' : World) (hw' : Tidy w w') (hk' : Kept w'.mem) : (recoverLiveArea o).Steps allowed
      (fun _ w' => Tidy w w') (fun _ w' => Tidy w w') w' :=
    ((tidied_recoverLiveArea hk').rel_mono fun _ _ h => hw'.trans h).mono fun _ _ h => hw'.trans h
  rw [«open»]
  split
  · exact hstart
  split
  · exact hstart
  simp only [Prog.steps_bind, steps_succeeds]
  intro e _
  split
  · exact hstart
  simp only [Prog.steps_bind, steps_state]
  split
  · exact hstart
  split
  · exact hstart
  split
  · exact hstart
  split
  · exact hstart
  split
  · exact hstart
  simp only [Prog.steps_bind, Prog.steps_ask, steps_commit]
  intro e _
  have hidentified (record : AgentRecord) (hrecord : (record.apply w.mem).transfers = w.mem.transfers) :
      Tidy w (w.commit record) := .same rfl rfl rfl hrecord
  exact ⟨hidentified _ rfl, hrecovered _ (hidentified _ rfl) ⟨hk.sorted, hk.keyed, hk.bounded⟩⟩

end Startup

/-! Runs. -/

/-- At an activation the payload is not displaced by newer files. -/
def Sparing (o : AgentOptions) (w : World) : Event → Prop
  | .message _ (.applyCommit m) => Spared o w m
  | _ => True

/-- While a commit is handled, the file system tells the order in which payloads were staged. -/
def Telling (w : World) : Event → Env → Prop
  | .message _ (.applyCommit _), env => Dated w.files env
  | _, _ => True

/-- The machines that runs come to whose events meet a condition, on such a file system. -/
inductive Timed (o : AgentOptions) (meets : World → Event → Prop) : Machine → Prop
  | empty : Timed o meets {}
  | step {M M' : Machine} {e : Event} :
      Timed o meets M → meets M.world e → Step o (Telling M.world e) M e M' → Timed o meets M'

section Runs

variable {o : AgentOptions} {M M' : Machine} {e : Event} {w : World}

/-- Wherever a program is cut. -/
theorem exec_visits {α : Type} {allowed : Env → Prop} {p : Agent α} {P : World → Prop} {w w' : World} {r : Option α}
    (h : p.Steps allowed (fun _ w' => P w') (fun _ w' => P w') w) (hw : P w) (hexec : Prog.Exec allowed p w r w') :
    P w' := along (h.exec hexec).1 (fun _ _ h _ => h) hw

theorem Provisioned.restart (h : Provisioned o w) (ht : Tables w) : Provisioned o w.restart where
  live := h.live
  staged d c hc hstaged := by
    change w.dur.transfers.find d = some c at hc
    have hsame := ht.same d
    rw [hc] at hsame
    obtain ⟨c', hc', hstill⟩ := Option.map_eq_some_iff.mp hsame
    have hkey : c'.key = c.key := congrArg (fun r => r.key) hstill
    have hpointer : c'.pointer = c.pointer := congrArg (fun r => r.pointer) hstill
    have hstaged' : c'.staged = true := (congrArg (fun r => r.staged) hstill).trans hstaged
    rw [← nameOf_congr hkey hpointer, ← hkey]
    exact h.staged d c' hc' hstaged'

theorem provisioned_step (ho : Ordered M.world) (hw : Provisioned o M.world) (hmeets : Sparing o M.world e)
    (hstep : Step o (Telling M.world e) M e M') : Provisioned o M'.world := by
  cases hstep with
  | @start w w' order r hexec =>
    have hrestart := hw.restart ho.tables
    exact hrestart.tidy (exec_visits (tidied_open ho.tables.restart.mem.kept) (.refl _) hexec)
  | @hello w w' m r hexec =>
    have hreceived : Provisioned o (w.receive (.hello m)) := ⟨hw.live, hw.staged⟩
    exact exec_visits (provisioned_steady hreceived steady_acceptHello) hreceived hexec
  | @message w w' session m r hvalid hexec =>
    have hreceived : Provisioned o (w.receive m) := ⟨hw.live, hw.staged⟩
    have hk := (ho.tables.receive hvalid).mem.kept
    refine exec_visits ?_ hreceived hexec
    by_cases hbooks : keepsBooks m = true
    · exact provisioned_steady hreceived (steady_dispatch hk hbooks)
    · cases m with
      | stage m => exact provisioned_onStage hreceived
      | applyPrepare m => exact provisioned_tidy hreceived tidy_onApplyPrepare
      | applyCommit m => exact provisioned_onApplyCommit hreceived hmeets fun _ he => he
      | applyAbort m => exact provisioned_tidy hreceived tidy_onApplyAbort
      | _ => exact absurd rfl hbooks
  | crash => exact hw

theorem provisioned_empty : Provisioned o {} := ⟨by simp, by simp [SortedMap.find]⟩

theorem Timed.provisioned (h : Timed o (Sparing o) M) : Ordered M.world ∧ Provisioned o M.world := by
  induction h with
  | empty => exact ⟨ordered_empty, provisioned_empty⟩
  | step _ hmeets hstep ih =>
    have hordered := (ordered_inductive.step ⟨ih.1, fun _ => trivial⟩ trivial hstep).1
    exact ⟨hordered, provisioned_step ih.1 ih.2 hmeets hstep⟩

/-- The payload that the live pointer of a key names is there. -/
theorem live_payload_retained (h : Timed o (Sparing o) M) {key : ConfigKey} {v : PointerValue}
    (hlive : M.world.files.current.lookup (liveKeyDirectory key) = some (.pointer v)) :
    payloadName (liveKeyDirectory key) v.generation v.digest ∈ M.world.files.payload :=
  h.provisioned.2.live _ v hlive

/-! Runs on fixed inputs. -/

instance (f : Files) (e : Env) : Decidable (Dated f e) := inferInstanceAs (Decidable (List.Pairwise
  (fun x y => x.directory = y.directory → ∀ s ∈ e.stamps x, ∀ t ∈ e.stamps y, t < s) f.payload.keys))

instance (w : World) (e : Env) : DecidablePred fun m => Telling w m e
  | .message _ (.applyCommit _) => inferInstanceAs (Decidable (Dated w.files e))
  | .start _ | .hello _ | .crash | .message _ (.hello _) | .message _ (.prepare _) | .message _ (.chunk _)
  | .message _ (.transferComplete _) | .message _ (.stage _) | .message _ (.applyPrepare _)
  | .message _ (.applyAbort _) | .message _ (.reconcileRequest _) | .message _ (.retire _) | .message _ (.ping _)
  | .message _ .goodbye | .message _ .unexpected => .isTrue trivial

instance (o : AgentOptions) (w : World) : DecidablePred (Sparing o w)
  | .message _ (.applyCommit m) => inferInstanceAs (Decidable (∀ c ∈ activating w.mem m, newer w.files (nameOf c) < _))
  | .start _ | .hello _ | .crash | .message _ (.hello _) | .message _ (.prepare _) | .message _ (.chunk _)
  | .message _ (.transferComplete _) | .message _ (.stage _) | .message _ (.applyPrepare _)
  | .message _ (.applyAbort _) | .message _ (.reconcileRequest _) | .message _ (.retire _) | .message _ (.ping _)
  | .message _ .goodbye | .message _ .unexpected => .isTrue trivial

/-- Every event of the list meets the condition where it comes, and finds the times in order. -/
def TimedAll (o : AgentOptions) (meets : World → Event → Prop) (i : Env) : Machine → List Event → Prop
  | _, [] => True
  | M, e :: es => (meets M.world e ∧ Telling M.world e i) ∧
      TimedAll o meets i (advance o (List.replicate 60 i) 200 M e) es

instance decidableTimedAll {o : AgentOptions} {meets : World → Event → Prop} [∀ w e, Decidable (meets w e)] {i : Env} :
    ∀ (M : Machine) (es : List Event), Decidable (TimedAll o meets i M es)
  | _, [] => .isTrue trivial
  | M, e :: es =>
    @instDecidableAnd (meets M.world e ∧ Telling M.world e i) (TimedAll o meets i (advance o (List.replicate 60 i) 200 M e) es)
      _ (decidableTimedAll (advance o (List.replicate 60 i) 200 M e) es)

theorem telling_order {i : Env} (order : List Directory) (h : Telling w e i) : Telling w e { i with order } := by
  unfold Telling at h ⊢
  split
  · exact h
  · trivial

theorem timed_foldl {meets : World → Event → Prop} {i : Env} {es : List Event} (h : Timed o meets M)
    (hes : TimedAll o meets i M es) : Timed o meets (es.foldl (advance o (List.replicate 60 i) 200) M) := by
  induction es generalizing M with
  | nil => exact h
  | cons e es ih =>
    obtain ⟨⟨hmeets, htells⟩, hes⟩ := hes
    have htelling : ∀ j ∈ List.replicate 60 i, ∀ order, Telling M.world e { j with order } ∧ Telling M.world e j := by
      intro j hj order
      obtain rfl := List.eq_of_mem_replicate hj
      exact ⟨telling_order order htells, htells⟩
    obtain heq | hstep := step_advance (n := 200) htelling
    · exact ih (heq.symm ▸ h) hes
    · exact ih (h.step hmeets hstep) hes

def timedRun (o : AgentOptions) (i : Env) (es : List Event) : Machine :=
  es.foldl (advance o (List.replicate 60 i) 200) {}

def frugal : AgentOptions := { target := text "t", retainedPayloadsPerKey := 1 }

/-- Two generations of a key, the later one committed with the earlier one staged behind it. -/
def bothRetained : Machine := timedRun { target := text "t", retainedPayloadsPerKey := 2 }
  { stamps := fun name => some (-name.generation) }
  (.start [] :: (delivery (text "d2") (text "k") 2 67).dropLast ++ (delivery (text "d1") (text "k") 1 66).dropLast ++
    [.message {} (.applyCommit ⟨text "d2", 2, Digest.ofContent [67]⟩)])

theorem bothRetained_timed : Timed { target := text "t", retainedPayloadsPerKey := 2 }
    (Sparing { target := text "t", retainedPayloadsPerKey := 2 }) bothRetained :=
  timed_foldl .empty (by decide +kernel)

theorem bothRetained_live :
    payloadName (liveKeyDirectory (text "k")) 2 (Digest.ofContent [67]) ∈ bothRetained.world.files.payload := by
  have hlive : bothRetained.world.files.current.lookup (liveKeyDirectory (text "k")) =
      some (.pointer ⟨2, Digest.ofContent [67], text "artifact"⟩) := by decide +kernel
  exact live_payload_retained bothRetained_timed hlive

/-- The commit of a payload that is displaced can be completed, whatever has happened before. -/
theorem displaced_commit {meets : World → Event → Prop} {session : Session} {m : ApplyCommitMessage} {c : TransferRecord}
    {i : Env} (h : Timed o meets M) (hrun : M.running = true)
    (hmeets : meets M.world (.message session (.applyCommit m))) (hvalid : (Message.applyCommit m).Valid)
    (hactivates : c ∈ activating M.world.mem m) (hlegible : Legible M.world.files i) (hparts : M.world.files.parts = [])
    (hpresent : nameOf c ∈ M.world.files.payload)
    (hmany : o.retainedPayloadsPerKey ≤ newer M.world.files (nameOf c)) :
    ∃ M', Timed o meets M' ∧ Dangling c M'.world := by
  obtain ⟨w, running⟩ := M
  obtain rfl : running = true := hrun
  have hcomplete : ∃ r t, Prog.Exec (· = i) (dispatch o session (.applyCommit m)) (w.receive (.applyCommit m)) (some r) t :=
    @Prog.Exec.complete _ _ _ (· = i) i rfl _ _
  obtain ⟨r, t, hexec⟩ := hcomplete
  have hcommit : (onApplyCommit o session m).Steps (· = i) Any (fun _ => Dangling c) (w.receive (.applyCommit m)) :=
    dangling_onApplyCommit hactivates (fun e he => he ▸ hlegible) hparts hpresent hmany
  refine ⟨⟨t, true⟩, h.step hmeets (.message hvalid (hexec.mono fun e he => ?_)), (hcommit.exec hexec).2 r rfl⟩
  subst he
  exact hlegible.dated

def backwards : Env := { stamps := fun name => some (-name.generation) }

/-- The later generation is staged first; the earlier one is staged behind it. -/
def stagedBehind : Machine := timedRun frugal backwards
  (.start [] :: (delivery (text "d2") (text "k") 2 67).dropLast ++ (delivery (text "d1") (text "k") 1 66).dropLast)

def commitAhead : ApplyCommitMessage := ⟨text "d2", 2, Digest.ofContent [67]⟩

theorem staged_behind_dangles : ¬ ∀ (o : AgentOptions) (M : Machine) (key : ConfigKey) (v : PointerValue),
    1 ≤ o.retainedPayloadsPerKey → Timed o (fun _ _ => True) M →
    M.world.files.current.lookup (liveKeyDirectory key) = some (.pointer v) →
    payloadName (liveKeyDirectory key) v.generation v.digest ∈ M.world.files.payload := by
  intro h
  have hstaged : Timed frugal (fun _ _ => True) stagedBehind := timed_foldl .empty (by decide +kernel)
  obtain ⟨c, hactivates⟩ : ∃ c, c ∈ activating stagedBehind.world.mem commitAhead :=
    Option.isSome_iff_exists.mp (by decide +kernel)
  have hfiles : ∀ c ∈ activating stagedBehind.world.mem commitAhead, nameOf c ∈ stagedBehind.world.files.payload ∧
      1 ≤ newer stagedBehind.world.files (nameOf c) := by decide +kernel
  obtain ⟨hpresent, hmany⟩ := hfiles c hactivates
  have hlegible : Legible stagedBehind.world.files backwards := ⟨rfl, by decide +kernel, fun _ _ => rfl⟩
  have hparts : stagedBehind.world.files.parts = [] := List.length_eq_zero_iff.mp (by decide +kernel)
  have hdisplaced : ∃ M', Timed frugal (fun _ _ => True) M' ∧ Dangling c M'.world :=
    @displaced_commit frugal stagedBehind _ {} commitAhead c backwards hstaged (by decide +kernel) trivial
      (by decide +kernel) hactivates hlegible hparts hpresent hmany
  obtain ⟨M', hM', hlive, hgone⟩ := hdisplaced
  exact hgone (h frugal M' c.key c.pointer (by decide) hM' hlive)

end Runs

end Agent

end ConfigurationFabric
