import ConfigurationFabric.AgentFencing

/-! What the agent says is active. -/

namespace ConfigurationFabric

open LittleEndian
open Program

namespace Agent

instance (a : Answered) (key : ConfigKey) (g : Generation) (d : Digest) : Decidable (LiveThen a key g d) :=
  inferInstanceAs (Decidable (_ ∧ _))

/-- A commit is answered for the key its deployment was offered for. -/
def HoldsFor (a : Answered) (m : ApplyCommitMessage) : Message → Prop
  | .prepare q => q.deployment = m.deployment → q.generation = m.generation → q.digest = m.digest →
    LiveThen a q.key m.generation m.digest
  | _ => True

instance (a : Answered) (m : ApplyCommitMessage) : DecidablePred (HoldsFor a m)
  | .prepare q => inferInstanceAs (Decidable (q.deployment = m.deployment → q.generation = m.generation →
    q.digest = m.digest → LiveThen a q.key m.generation m.digest))
  | .hello _ | .chunk _ | .transferComplete _ | .stage _ | .applyPrepare _ | .applyCommit _ | .applyAbort _
  | .reconcileRequest _ | .retire _ | .ping _ | .goodbye | .unexpected => .isTrue trivial

/-- A duplicate or a commit is confirmed only of what was live for its key at that moment. -/
def Truthful (received : List Message) (a : Answered) : Prop :=
  match a.request, a.reply with
  | .prepare m, .prepareAck r => r.duplicateSuppressed = true → LiveThen a m.key m.generation m.digest
  | .applyCommit m, .applyCommitAck r => r.committed = true → ∀ q ∈ received, HoldsFor a m q
  | _, _ => True

instance (received : List Message) (a : Answered) : Decidable (Truthful received a) := by
  unfold Truthful
  split <;> infer_instance

/-- Two offers of one content and generation are for one pointer file. -/
def OneKey (p : PrepareMessage) : Message → Prop
  | .prepare q => q.generation = p.generation → q.digest = p.digest → liveKeyDirectory q.key = liveKeyDirectory p.key
  | _ => True

instance (p : PrepareMessage) : DecidablePred (OneKey p)
  | .prepare q => inferInstanceAs (Decidable (q.generation = p.generation → q.digest = p.digest →
    liveKeyDirectory q.key = liveKeyDirectory p.key))
  | .hello _ | .chunk _ | .transferComplete _ | .stage _ | .applyPrepare _ | .applyCommit _ | .applyAbort _
  | .reconcileRequest _ | .retire _ | .ping _ | .goodbye | .unexpected => .isTrue trivial

/-- Starts end at the newest pointer, verified, every key has a directory of its own, and no two of them are offered
the same content and generation. -/
def Unambiguous (o : AgentOptions) (w : World) : Event → Prop
  | .start order => EndsAtNewest order w ∧ EndsVerifiable o order w.files
  | .message _ (.prepare p) => isKeyDirectory (liveKeyDirectory p.key) = true ∧ ∀ m ∈ w.received, OneKey p m
  | _ => True

instance (o : AgentOptions) (w : World) : DecidablePred (Unambiguous o w)
  | .start order => inferInstanceAs (Decidable (EndsAtNewest order w ∧ EndsVerifiable o order w.files))
  | .message _ (.prepare p) => inferInstanceAs (Decidable
      (isKeyDirectory (liveKeyDirectory p.key) = true ∧ ∀ m ∈ w.received, OneKey p m))
  | .hello _ | .crash | .message _ (.hello _) | .message _ (.chunk _) | .message _ (.transferComplete _)
  | .message _ (.stage _) | .message _ (.applyPrepare _) | .message _ (.applyCommit _) | .message _ (.applyAbort _)
  | .message _ (.reconcileRequest _) | .message _ (.retire _) | .message _ (.ping _) | .message _ .goodbye
  | .message _ .unexpected => .isTrue trivial

def OneKeyEach (received : List Message) : Prop :=
  ∀ p q, Message.prepare p ∈ received → Message.prepare q ∈ received → q.generation = p.generation →
    q.digest = p.digest → liveKeyDirectory q.key = liveKeyDirectory p.key

theorem OneKeyEach.append {received : List Message} (h : OneKeyEach received) {m : Message}
    (hm : ∀ p, m = .prepare p → ∀ m' ∈ received, OneKey p m') : OneKeyEach (received ++ [m]) := by
  intro p q hp hq hg hd
  obtain hp | hp := List.mem_append.mp hp
  · obtain hq | hq := List.mem_append.mp hq
    · exact h p q hp hq hg hd
    · exact (hm q (List.mem_singleton.mp hq).symm _ hp hg.symm hd.symm).symm
  · obtain hq | hq := List.mem_append.mp hq
    · exact hm p (List.mem_singleton.mp hp).symm _ hq hg hd
    · have hsame := (List.mem_singleton.mp hp).trans (List.mem_singleton.mp hq).symm
      cases hsame
      rfl

theorem unambiguous_inductive (o : AgentOptions) :
    Inductive o Calm (Unambiguous o) (fun w => Fenced w ∧ OneKeyEach w.received) Guarded := by
  refine (fenced_inductive o not_failing_calm fun w order hmeets => hmeets).andReceived ?_ ?_ ?_
  · intro p q hp
    cases hp
  · exact fun received m h => h.append (by simp)
  · intro w session m hmeets h
    refine h.append ?_
    rintro p rfl
    exact hmeets.2

theorem Supported.truthful {received : List Message} {a : Answered} (h : Supported received a)
    (hkeys : OneKeyEach received) : Truthful received a := by
  unfold Supported at h
  unfold Truthful
  split
  case h_1 hreq hrep => rw [hreq, hrep] at h; exact h
  case h_2 m r hreq hrep =>
    rw [hreq, hrep] at h
    intro hc message hmessage
    obtain ⟨q, hq, hqg, hqd, hlive⟩ := h hc
    cases message with
    | prepare p =>
      intro _ hpg hpd
      have hdirectory := hkeys p q hmessage hq (hqg.trans hpg.symm) (hqd.trans hpd.symm)
      rw [LiveThen, ← hdirectory]
      exact hlive
    | _ => trivial
  case h_3 => trivial

theorem answers_truthful {o : AgentOptions} {M : Machine} (h : Reachable o Calm (Unambiguous o) M) :
    ∀ a ∈ M.world.sent, Truthful M.world.received a := by
  obtain ⟨⟨hfenced, hkeys⟩, -⟩ := (unambiguous_inductive o).reachable h
  exact fun a ha => (hfenced.answered a ha).truthful hkeys

/-- One content delivered for a key and again for a key. -/
def sameContentTwice (key key' : ConfigKey) : List Event :=
  .start [] :: delivery (text "d1") key 3 66 ++ delivery (text "d2") key' 3 66

theorem duplicate_truthful_for_one_key :
    ((run { target := text "t" } (sameContentTwice (text "b") (text "b"))).world.sent.any fun a =>
      match a.reply with
      | .prepareAck r => r.duplicateSuppressed
      | _ => false) = true ∧
    ∀ a ∈ (run { target := text "t" } (sameContentTwice (text "b") (text "b"))).world.sent,
      Truthful (run { target := text "t" } (sameContentTwice (text "b") (text "b"))).world.received a :=
  ⟨by decide +kernel, answers_truthful (reachable_run (fun _ => rfl) (by decide +kernel))⟩

/-- The second key gets a commit confirmed and has no live pointer. -/
theorem commit_confirmed_for_other_key :
    ¬ ∀ M, Reachable { target := text "t" } Calm (fun _ _ => True) M →
      ∀ a ∈ M.world.sent, Truthful M.world.received a := by
  intro h
  have hreach : Reachable { target := text "t" } Calm (fun _ _ => True)
      (run { target := text "t" } (sameContentTwice (text "b") (text "a"))) :=
    reachable_run (fun _ => rfl) (by decide)
  exact absurd (h _ hreach) (by decide +kernel)

end Agent

end ConfigurationFabric
