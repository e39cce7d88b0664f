import ConfigurationFabric.AgentTransfers
import ConfigurationFabric.Handshake

/-! Whom the agent takes for its controller, and which terms it claims itself, over the lives of its processes. -/

namespace ConfigurationFabric

open LittleEndian
open Program

namespace Agent

/-- What happens to an agent's directory. A peer may leave at any frame, and a program that is cut leaves the process
dead. -/
inductive Life (allowed : Env → Prop) : Machine → Machine → Prop
  | start {o : AgentOptions} {w w' : World} {order : List Directory} {r : Option (Result LiveRecovery)} :
      Prog.Exec (fun e => allowed e ∧ e.order = order) («open» o) w.restart r w' →
      Life allowed ⟨w, false⟩ ⟨w', opened r⟩
  | handshake {a : Authentication} {peer : Peer} {w w' : World} {r : Option (Result Session)} :
      Prog.Exec allowed (handshake a peer) w r w' → Life allowed ⟨w, true⟩ ⟨w', r.isSome⟩
  | message {o : AgentOptions} {session : Session} {m : Message} {w w' : World} {r : Option Status} :
      m.Valid → Prog.Exec allowed (dispatch o session m) (w.receive m) r w' →
      Life allowed ⟨w, true⟩ ⟨w', r.isSome⟩
  | crash {w : World} : Life allowed ⟨w, true⟩ ⟨w, false⟩

abbrev Lives (allowed : Env → Prop) : Machine → Machine → Prop := Relation.ReflTransGen (Life allowed)

section Steps

variable {allowed : Env → Prop} {w w' : World}

theorem steps_awaitConfirm {a : Authentication} {peer : Peer} {hello : HelloMessage} {encoded : Bytes} :
    (awaitConfirm a peer hello encoded).Steps allowed Quiet (fun _ _ => True) w := by
  rw [awaitConfirm]
  split
  · exact trivial
  split
  · exact trivial
  split
  · exact trivial
  rw [checkConfirm]
  split
  · split
    · exact steps_refuseHello fun _ _ _ => trivial
    · exact trivial
  · split
    · exact steps_refuseHello fun _ _ _ => trivial
    · exact trivial

theorem steps_handshake {a : Authentication} {peer : Peer} :
    (handshake a peer).Steps allowed Quiet (fun _ _ => True) w := by
  rw [handshake]
  split
  · exact trivial
  split
  · exact trivial
  split
  · exact trivial
  split
  · exact steps_refuseHello fun _ _ _ => trivial
  split
  · exact steps_refuseHello fun _ _ _ => trivial
  rw [Prog.steps_bind]
  refine steps_adoptAuthority (fun ack w' hground => ?_) fun e w' => trivial
  dsimp only
  split
  · exact trivial
  · rw [Prog.steps_bind]
    exact steps_send (.answer hground) steps_awaitConfirm fun _ => trivial

/-- Nothing is required between messages. -/
theorem stable_true {failing : Prop} : Stable failing fun _ => True :=
  ⟨fun _ _ => trivial, fun _ _ _ _ => trivial, fun _ _ _ _ _ => trivial⟩

/-! What start-up needs of the directory. -/

structure Ordered (w : World) : Prop where
  tables : Tables w
  readable : Readable w.files

theorem ordered_empty : Ordered {} where
  tables := ⟨by simp, ⟨.nil, by simp, by simp⟩, ⟨.nil, by simp, by simp⟩, fun _ => rfl⟩
  readable _ := by simp

theorem Quiet.current (h : Quiet w w') : w'.files.current = w.files.current := by
  cases h <;> rfl

theorem Readable.congr {f f' : Files} (h : Readable f) (hc : f'.current = f.current) : Readable f' := by
  intro directory
  rw [hc]
  exact h directory

theorem Readable.dropCurrent {f : Files} (h : Readable f) (directory : Directory) :
    Readable (f.dropCurrent directory) := by
  intro directory'
  rw [lookup_dropCurrent]
  split
  · simp
  · exact h directory'

theorem Readable.putCurrent {f : Files} (h : Readable f) (directory : Directory) (value : PointerValue) :
    Readable (f.putCurrent directory value) := by
  intro directory'
  rw [lookup_putCurrent]
  split
  · simp
  · exact h directory'

theorem Ordered.quiet (h : Ordered w) (hq : Quiet w w') : Ordered w' :=
  ⟨h.tables.quiet hq, h.readable.congr hq.current⟩

theorem Ordered.handled {failing : Prop} {I : World → Prop} (h : Ordered w) (hstep : AStep failing I w w') :
    Ordered w' := by
  refine ⟨h.tables.handled hstep, ?_⟩
  cases hstep with
  | quiet _ hq => exact h.readable.congr hq.current
  | resolved | unmarked | settled | found => exact h.readable.congr rfl
  | switched => exact h.readable.putCurrent _ _
  | lost directory => exact h.readable.dropCurrent directory

theorem Ordered.recovered (h : Ordered w) (hstep : RStep w w') : Ordered w' := by
  refine ⟨h.tables.recovered hstep, ?_⟩
  cases hstep with
  | quiet hq _ => exact h.readable.congr hq.current
  | resized | checkpointed | adopted | cleared | identified => exact h.readable.congr rfl
  | dropped => exact h.readable.dropCurrent _

end Steps

/-! What every step of a life keeps, it keeps to the end. -/

/-- A condition no single update breaks. -/
structure Lasting (allowed : Env → Prop) (P : World → Prop) : Prop where
  restart : ∀ {w : World}, P w → P w.restart
  receive : ∀ {w : World} {m : Message}, P w → P (w.receive m)
  handled : ∀ {w w' : World}, AStep (Failing allowed) (fun _ => True) w w' → P w → P w'
  recovered : ∀ {w w' : World}, RStep w w' → P w → P w'

section Rule

variable {allowed : Env → Prop} {P : World → Prop} {M M' : Machine}

theorem Lasting.life (h : Lasting allowed P) (hlife : Life allowed M M') (hM : Ordered M.world ∧ P M.world) :
    Ordered M'.world ∧ P M'.world := by
  obtain ⟨ho, hP⟩ := hM
  have hhandled (w w' : World) (hstep : AStep (Failing allowed) (fun _ => True) w w') (hw : Ordered w ∧ P w) :
      Ordered w' ∧ P w' := ⟨hw.1.handled hstep, h.handled hstep hw.2⟩
  cases hlife with
  | @start o w w' order r hexec =>
    have ho₀ : Ordered w.restart := ⟨ho.tables.restart, ho.readable⟩
    have hsteps : («open» o).Steps (fun e => allowed e ∧ e.order = order) RStep (fun _ _ => True) w.restart :=
      steps_open (fun e he => he.2) ho₀.tables.mem.kept ho₀.readable (fun _ _ _ _ => trivial) fun _ => trivial
    have hrecovered (w w' : World) (hstep : RStep w w') (hw : Ordered w ∧ P w) : Ordered w' ∧ P w' :=
      ⟨hw.1.recovered hstep, h.recovered hstep hw.2⟩
    exact along (hsteps.exec hexec).1 hrecovered ⟨ho₀, h.restart hP⟩
  | @handshake a peer w w' r hexec =>
    have hreach := ((steps_quiet stable_true trivial (@steps_handshake allowed w a peer)).exec hexec).1
    exact along hreach hhandled ⟨ho, hP⟩
  | @message o session m w w' r hvalid hexec =>
    have ho₀ : Ordered (w.receive m) := ⟨ho.tables.receive hvalid, ho.readable⟩
    have hmem : m ∈ (w.receive m).received := by simp [World.receive]
    have hsteps := @steps_dispatch allowed _ o session m _ stable_true trivial ho₀.tables.mem.kept hvalid hmem
    exact along (hsteps.exec hexec).1 hhandled ⟨ho₀, h.receive hP⟩
  | crash => exact ⟨ho, hP⟩

theorem Ordered.life (h : Ordered M.world) (hlife : Life allowed M M') : Ordered M'.world := by
  have hany : Lasting allowed fun _ => True :=
    ⟨fun _ => trivial, fun _ => trivial, fun _ _ => trivial, fun _ _ => trivial⟩
  exact (hany.life hlife ⟨h, trivial⟩).1

theorem Lasting.lives (h : Lasting allowed P) (hlives : Lives allowed M M') (hM : Ordered M.world ∧ P M.world) :
    Ordered M'.world ∧ P M'.world := by
  induction hlives with
  | refl => exact hM
  | tail _ hlife ih => exact h.life hlife ih

end Rule

/-! The fence. -/

/-- The handshakes in which the agent has answered for its term, in order. -/
def acknowledged (sent : List Answered) : List (HelloMessage × HelloAckMessage) :=
  sent.filterMap fun frame =>
    match frame.request, frame.reply with
    | .hello m, .helloAck ack => some (m, ack)
    | _, _ => none

/-- The authorities accepted so far: the one recorded last, and those of every acknowledged hello. -/
def accepted (w : World) : List Authority := w.dur.authority :: (acknowledged w.sent).map (·.1.authority)

end Agent

namespace Authority

variable {p q r : Authority}

theorem Follows.refl (p : Authority) : p.Follows p := ⟨le_rfl, fun _ _ _ => rfl⟩

theorem Follows.trans (h : r.Follows q) (h' : q.Follows p) : r.Follows p := by
  refine ⟨h'.1.trans h.1, fun hset heq hknown => ?_⟩
  have hq : q.epoch = p.epoch := le_antisymm (heq ▸ h.1) h'.1
  have hqp := h'.2 hset hq hknown
  have hrq := h.2 (by rwa [hq]) (by rw [heq, hq]) (by rwa [hqp])
  rw [hrq, hqp]

/-- One of the two was let in after the other. -/
def Agree (p q : Authority) : Prop := p.Follows q ∨ q.Follows p

theorem Agree.incarnation (h : Agree p q) (hset : p.epoch ≠ 0) (heq : p.epoch = q.epoch)
    (hp : p.incarnation.isSet = true) (hq : q.incarnation.isSet = true) : p.incarnation = q.incarnation := by
  obtain h | h := h
  · exact h.2 (heq ▸ hset) heq hq
  · exact (h.2 hset heq.symm hp).symm

end Authority

namespace Agent

section Fence

variable {allowed : Env → Prop} {w w' : World} {p : Authority}

/-- The authority moves along the fence, and whatever has been accepted since is the one now recorded. -/
structure Advances (w w' : World) : Prop where
  same : w'.mem.authority = w'.dur.authority
  follows : w'.dur.authority.Follows w.dur.authority
  accepted : ∀ p ∈ accepted w', p = w'.dur.authority ∨ p ∈ accepted w

theorem Advances.of_eq (h : w.mem.authority = w.dur.authority) (hmem : w'.mem.authority = w.mem.authority)
    (hdur : w'.dur.authority = w.dur.authority) (hsent : acknowledged w'.sent = acknowledged w.sent) :
    Advances w w' where
  same := by rw [hmem, hdur, h]
  follows := by rw [hdur]; exact .refl _
  accepted p hp := by
    rw [Agent.accepted, hdur, hsent] at hp
    exact .inr hp

theorem acknowledged_append (sent : List Answered) (frame : Answered) :
    acknowledged (sent ++ [frame]) = acknowledged sent ++ acknowledged [frame] := List.filterMap_append

/-- The only frame that acknowledges an authority is sent once that authority is recorded. -/
theorem Advances.answer (h : w.mem.authority = w.dur.authority) {m : Message} {reply : Reply}
    (hground : Grounded w m reply) : Advances w (w.answer m reply) := by
  refine ⟨h, .refl _, fun p hp => ?_⟩
  rw [Agent.accepted, World.answer, acknowledged_append, List.map_append] at hp
  obtain rfl | hp := List.mem_cons.mp hp
  · exact .inl rfl
  obtain hp | hp := List.mem_append.mp hp
  · exact .inr (List.mem_cons_of_mem _ hp)
  · obtain ⟨⟨hello, ack⟩, hmem, rfl⟩ := List.mem_map.mp hp
    obtain ⟨frame, hframe, hack⟩ := List.mem_filterMap.mp hmem
    obtain rfl := List.mem_singleton.mp hframe
    dsimp only at hack
    split at hack
    case h_1 hello' ack' =>
      obtain ⟨rfl, rfl⟩ := Prod.mk.inj (Option.some.inj hack)
      exact .inl (hground.2.2.trans h)
    case h_2 => cases hack

theorem Quiet.advances (hq : Quiet w w') (h : w.mem.authority = w.dur.authority) : Advances w w' := by
  cases hq with
  | answer hground => exact .answer h hground
  | @fence hello hfollows =>
    refine ⟨rfl, h ▸ hfollows, fun p hp => ?_⟩
    obtain rfl | hp := List.mem_cons.mp hp
    · exact .inl rfl
    · exact .inr (List.mem_cons_of_mem _ hp)
  | count | counter | note | resolved | prepared | begun | progressed | remembered | verified | staged | removed
  | unstaged | written | copying | placed | pruned | marked | unmarked => exact .of_eq h rfl rfl rfl

theorem AStep.advances {failing : Prop} {I : World → Prop} (hstep : AStep failing I w w')
    (h : w.mem.authority = w.dur.authority) : Advances w w' := by
  cases hstep with
  | quiet _ hq => exact hq.advances h
  | resolved | unmarked | switched | lost | settled => exact .of_eq h rfl rfl rfl
  | found => exact .of_eq h rfl rfl rfl

theorem RStep.advances (hstep : RStep w w') (h : w.mem.authority = w.dur.authority) : Advances w w' := by
  cases hstep with
  | quiet hq _ => exact hq.advances h
  | resized | checkpointed | dropped | adopted | cleared | identified => exact .of_eq h rfl rfl rfl

/-- Everything accepted so far agrees with `p`, which the recorded authority follows. -/
structure After (p : Authority) (w : World) : Prop where
  same : w.mem.authority = w.dur.authority
  follows : w.dur.authority.Follows p
  agree : ∀ q ∈ accepted w, p.Agree q

theorem After.advances (h : After p w) (hstep : Advances w w') : After p w' where
  same := hstep.same
  follows := hstep.follows.trans h.follows
  agree q hq := by
    obtain rfl | hq := hstep.accepted q hq
    · exact .inr (hstep.follows.trans h.follows)
    · exact h.agree q hq

theorem lasting_after (p : Authority) : Lasting allowed (After p) where
  restart h := ⟨rfl, h.follows, h.agree⟩
  receive h := ⟨h.same, h.follows, h.agree⟩
  handled hstep h := h.advances (hstep.advances h.same)
  recovered hstep h := h.advances (hstep.advances h.same)

/-- The recorded authority follows all that were accepted before it, and these agree with each other. -/
def Fences (w : World) : Prop := w.mem.authority = w.dur.authority ∧ ∀ p ∈ accepted w, After p w

theorem Fences.advances (h : Fences w) (hstep : Advances w w') : Fences w' := by
  have hall (p : Authority) (hp : p ∈ accepted w') : w'.dur.authority.Follows p := by
    obtain rfl | hp := hstep.accepted p hp
    · exact .refl _
    · exact ((h.2 p hp).advances hstep).follows
  refine ⟨hstep.same, fun p hp => ?_⟩
  obtain rfl | hp := hstep.accepted p hp
  · exact ⟨hstep.same, .refl _, fun q hq => .inl (hall q hq)⟩
  · exact (h.2 p hp).advances hstep

theorem lasting_fences : Lasting allowed Fences where
  restart h := ⟨rfl, fun p hp => ⟨rfl, (h.2 p hp).follows, (h.2 p hp).agree⟩⟩
  receive h := ⟨h.1, fun p hp => ⟨h.1, (h.2 p hp).follows, (h.2 p hp).agree⟩⟩
  handled hstep h := h.advances (hstep.advances h.1)
  recovered hstep h := h.advances (hstep.advances h.1)

theorem fences_empty : Fences {} := by
  have hone (p : Authority) (hp : p ∈ accepted {}) : p = AgentState.authority {} := List.mem_singleton.mp hp
  refine ⟨rfl, fun p hp => ?_⟩
  rw [hone p hp]
  refine ⟨rfl, .refl _, fun q hq => ?_⟩
  rw [hone q hq]
  exact .inl (.refl _)

/-- The epoch on record never goes down, and no epoch is ever held by two incarnations. -/
theorem controller_fencing {M M' : Machine} (hM : Lives allowed {} M) (hM' : Lives allowed M M') :
    M.world.dur.lastControllerEpoch ≤ M'.world.dur.lastControllerEpoch ∧
      ∀ p ∈ accepted M.world, ∀ q ∈ accepted M'.world, p.epoch ≠ 0 → p.epoch = q.epoch →
        p.incarnation.isSet = true → q.incarnation.isSet = true → p.incarnation = q.incarnation := by
  obtain ⟨ho, hfences⟩ := lasting_fences.lives hM ⟨ordered_empty, fences_empty⟩
  have hafter (p : Authority) (hp : p ∈ accepted M.world) : After p M'.world :=
    ((lasting_after p).lives hM' ⟨ho, hfences.2 p hp⟩).2
  refine ⟨(hafter _ List.mem_cons_self).follows.1, fun p hp q hq hset heq hp' hq' => ?_⟩
  exact ((hafter p hp).agree q hq).incarnation hset heq hp' hq'

end Fence

/-! Terms. -/

section Terms

variable {allowed : Env → Prop} {n : Term} {frames : List Answered} {w w' : World} {M M' : Machine}

theorem RStep.sent (h : RStep w w') : w'.sent = w.sent := by
  cases h with
  | quiet _ hsent => exact hsent
  | resized | checkpointed | dropped | adopted | cleared | identified => rfl

theorem RStep.term_eq (h : RStep w w') (heq : w.mem.term = w.dur.term) : w'.mem.term = w'.dur.term := by
  cases h with
  | quiet hq _ => rw [hq.term.1, hq.term.2, heq]
  | resized | checkpointed | dropped | adopted | cleared => exact heq
  | identified => rfl

/-- A handler changes no term, and what it acknowledges carries the one in memory. -/
structure SameTerm (w w' : World) : Prop where
  mem : w'.mem.term = w.mem.term
  dur : w'.dur.term = w.dur.term
  sent : ∃ later, w'.sent = w.sent ++ later ∧ ∀ x ∈ acknowledged later, x.2.term = w.mem.term

theorem Quiet.sameTerm (h : Quiet w w') : SameTerm w w' := by
  refine ⟨h.term.1, h.term.2, ?_⟩
  cases h with
  | @answer m reply hground =>
    refine ⟨_, rfl, fun x hx => ?_⟩
    obtain ⟨frame, hframe, hack⟩ := List.mem_filterMap.mp hx
    obtain rfl := List.mem_singleton.mp hframe
    dsimp only at hack
    split at hack
    case h_1 =>
      obtain rfl := Option.some.inj hack
      exact hground.2.1
    case h_2 => cases hack
  | count | counter | note | resolved | fence | prepared | begun | progressed | remembered | verified | staged
  | removed | unstaged | written | copying | placed | pruned | marked | unmarked =>
    exact ⟨[], (List.append_nil _).symm, by simp [acknowledged]⟩

theorem AStep.sameTerm {failing : Prop} {I : World → Prop} (h : AStep failing I w w') : SameTerm w w' := by
  cases h with
  | quiet _ hq => exact hq.sameTerm
  | resolved | unmarked | switched | lost | settled | found =>
    exact ⟨rfl, rfl, [], (List.append_nil _).symm, by simp [acknowledged]⟩

/-- Every term acknowledged so far is at most the recorded one. -/
structure Claimed (w : World) : Prop where
  same : w.mem.term = w.dur.term
  bound : ∀ x ∈ acknowledged w.sent, x.2.term ≤ w.dur.term

theorem lasting_claimed : Lasting allowed Claimed where
  restart h := ⟨rfl, h.bound⟩
  receive h := ⟨h.same, h.bound⟩
  handled hstep h := by
    obtain ⟨hmem, hdur, later, hsent, hterm⟩ := hstep.sameTerm
    refine ⟨by rw [hmem, hdur, h.same], fun x hx => ?_⟩
    rw [hsent, acknowledged, List.filterMap_append] at hx
    rw [hdur]
    obtain hx | hx := List.mem_append.mp hx
    · exact h.bound x hx
    · rw [hterm x hx, h.same]
  recovered hstep h := by
    have hsame := hstep.term_eq h.same
    refine ⟨hsame, fun x hx => ?_⟩
    rw [hstep.sent] at hx
    rw [← hsame]
    exact (h.bound x hx).trans (h.same ▸ hstep.term_le)

/-- The frames sent since then acknowledge only terms above `n`. -/
def SentAbove (n : Term) (frames : List Answered) (w : World) : Prop :=
  ∃ later, w.sent = frames ++ later ∧ ∀ x ∈ acknowledged later, n < x.2.term

structure Above (n : Term) (frames : List Answered) (w : World) : Prop where
  same : w.mem.term = w.dur.term
  above : n < w.dur.term
  sent : SentAbove n frames w

theorem lasting_above : Lasting allowed (Above n frames) where
  restart h := ⟨rfl, h.above, h.sent⟩
  receive h := ⟨h.same, h.above, h.sent⟩
  handled hstep h := by
    obtain ⟨hmem, hdur, later, hsent, hterm⟩ := hstep.sameTerm
    obtain ⟨earlier, hearlier, habove⟩ := h.sent
    refine ⟨by rw [hmem, hdur, h.same], hdur ▸ h.above, earlier ++ later, ?_, fun x hx => ?_⟩
    · rw [hsent, hearlier, List.append_assoc]
    · rw [acknowledged, List.filterMap_append] at hx
      obtain hx | hx := List.mem_append.mp hx
      · exact habove x hx
      · rw [hterm x hx, h.same]
        exact h.above
  recovered hstep h := by
    have hsame := hstep.term_eq h.same
    refine ⟨hsame, ?_, ?_⟩
    · rw [← hsame]
      exact lt_of_lt_of_le (h.same ▸ h.above) hstep.term_le
    · rw [SentAbove, hstep.sent]
      exact h.sent

/-- A process that is up has recorded a term above `n`; one that is down may not have. -/
structure Later (n : Term) (frames : List Answered) (M : Machine) : Prop where
  up : M.running = true → Above n frames M.world
  down : n ≤ M.world.dur.term ∧ SentAbove n frames M.world

theorem Above.later (h : Above n frames M.world) : Later n frames M := ⟨fun _ => h, h.above.le, h.sent⟩

theorem Later.start {o : AgentOptions} {order : List Directory} {r : Option (Result LiveRecovery)} (ho : Ordered w)
    (hn : n ≤ w.dur.term) (hsent : SentAbove n frames w)
    (hexec : Prog.Exec (fun e => allowed e ∧ e.order = order) («open» o) w.restart r w') :
    Later n frames ⟨w', opened r⟩ := by
  have hsteps : («open» o).Steps (fun e => allowed e ∧ e.order = order) RStep
      (fun r w' => opened (some r) = true → w.dur.term < w'.mem.term) w.restart := by
    refine steps_open (fun e he => he.2) ho.tables.restart.mem.kept ho.readable (fun _ _ _ hlt _ => hlt) ?_
    exact fun e hopened => by cases hopened
  obtain ⟨hreach, hdone⟩ := hsteps.exec hexec
  have hkept : w'.mem.term = w'.dur.term ∧ n ≤ w'.mem.term ∧ SentAbove n frames w' := by
    refine along hreach (W := fun w' => w'.mem.term = w'.dur.term ∧ n ≤ w'.mem.term ∧ SentAbove n frames w') ?_ ?_
    · rintro w₁ w₂ hstep ⟨hsame, hle, hs⟩
      refine ⟨hstep.term_eq hsame, hle.trans hstep.term_le, ?_⟩
      rw [SentAbove, hstep.sent]
      exact hs
    · exact ⟨rfl, hn, hsent⟩
  obtain ⟨hsame, hle, hs⟩ := hkept
  refine ⟨fun hopened => ⟨hsame, ?_, hs⟩, hsame ▸ hle, hs⟩
  cases r with
  | none => cases hopened
  | some r =>
    rw [← hsame]
    exact lt_of_le_of_lt hn (hdone r rfl hopened)

theorem Later.life (h : Later n frames M) (ho : Ordered M.world) (hlife : Life allowed M M') : Later n frames M' := by
  cases hlife with
  | start hexec => exact .start ho h.down.1 h.down.2 hexec
  | handshake hexec => exact (lasting_above.life (.handshake hexec) ⟨ho, h.up rfl⟩).2.later
  | message hvalid hexec => exact (lasting_above.life (.message hvalid hexec) ⟨ho, h.up rfl⟩).2.later
  | crash =>
    refine ⟨fun hup => ?_, h.down⟩
    cases hup

/-- Once a process is gone, every term acknowledged is above all it has acknowledged. -/
theorem terms_increase (hM : Lives allowed {} M) (hdown : M.running = false) (hM' : Lives allowed M M') :
    ∃ later, M'.world.sent = M.world.sent ++ later ∧
      ∀ x ∈ acknowledged M.world.sent, ∀ y ∈ acknowledged later, x.2.term < y.2.term := by
  have hclaimed : Claimed {} := ⟨rfl, by simp [acknowledged]⟩
  obtain ⟨ho, hbound⟩ := lasting_claimed.lives hM ⟨ordered_empty, hclaimed⟩
  have hlater : Ordered M'.world ∧ Later M.world.dur.term M.world.sent M' := by
    induction hM' with
    | refl =>
      refine ⟨ho, fun hup => ?_, le_rfl, [], (List.append_nil _).symm, by simp [acknowledged]⟩
      rw [hdown] at hup
      cases hup
    | tail _ hlife ih => exact ⟨ih.1.life hlife, ih.2.life ih.1 hlife⟩
  obtain ⟨later, hsent, habove⟩ := hlater.2.down.2
  exact ⟨later, hsent, fun x hx y hy => lt_of_le_of_lt (hbound.bound x hx) (habove y hy)⟩

end Terms

/-! A run of two processes. -/

/-- A controller that sends this hello and confirms without a tag. -/
def plainPeer (m : HelloMessage) : Peer where
  hello := (encodeHello m).map (Frame.mk .hello)
  confirm _ := .ok ⟨.helloConfirm, List.replicate 32 0⟩

def started (o : AgentOptions) (M : Machine) : Machine := advance o calm 200 M (.start [])

def visited (m : HelloMessage) (M : Machine) : Machine :=
  if M.running then
    let r := Prog.run (handshake { authenticate := false, mac := fun _ => .zero 32 } (plainPeer m)) calm 200 M.world
    ⟨r.2, r.1.isSome⟩
  else M

def crashed (M : Machine) : Machine := ⟨M.world, false⟩

theorem lives_started (o : AgentOptions) (M : Machine) : Lives (fun _ => True) M (started o M) := by
  obtain ⟨w, running⟩ := M
  cases running with
  | true => exact .refl
  | false =>
    refine .single (@Life.start _ o w _ [] _ (Prog.exec_run _ (fun i hi => ?_) 200 _))
    obtain ⟨j, -, rfl⟩ := List.mem_map.mp hi
    exact ⟨trivial, rfl⟩

theorem lives_visited (m : HelloMessage) (M : Machine) : Lives (fun _ => True) M (visited m M) := by
  obtain ⟨w, running⟩ := M
  cases running with
  | true => exact .single (.handshake (Prog.exec_run _ (fun _ _ => trivial) 200 _))
  | false => exact .refl

theorem lives_crashed (M : Machine) : Lives (fun _ => True) M (crashed M) := by
  obtain ⟨w, running⟩ := M
  cases running with
  | true => exact .single .crash
  | false => exact .refl

/-- The first controller is accepted. -/
def onceAccepted : Machine := visited firstHello (started { target := text "t" } {})

/-- After a restart, another incarnation comes with the same epoch. -/
def rivalRefused : Machine :=
  visited { firstHello with incarnation := .fill 16 3 }
    (started { target := text "t" } (crashed onceAccepted))

theorem lives_onceAccepted : Lives (fun _ => True) {} onceAccepted := (lives_started _ _).trans (lives_visited _ _)

theorem lives_rivalRefused : Lives (fun _ => True) onceAccepted rivalRefused :=
  (lives_crashed _).trans ((lives_started _ _).trans (lives_visited _ _))

theorem rival_incarnation_refused : firstHello.authority ∈ accepted onceAccepted.world ∧
    ∀ q ∈ accepted rivalRefused.world, q.epoch = 1 → q.incarnation.isSet = true →
      q.incarnation = firstHello.incarnation := by
  have haccepted : firstHello.authority ∈ accepted onceAccepted.world := by decide
  refine ⟨haccepted, fun q hq hone hset => ?_⟩
  exact ((controller_fencing lives_onceAccepted lives_rivalRefused).2 _ haccepted q hq (by decide) hone.symm (by decide)
    hset).symm

end Agent

end ConfigurationFabric
