import ConfigurationFabric.DistributorControl
import ConfigurationFabric.RecordFields
import Mathlib.Data.Finset.Erase
import Mathlib.Data.Finset.Insert
import Mathlib.Data.List.Chain

/-! The worker threads: what each of them picks, and which targets they hold. -/

namespace ConfigurationFabric

open LittleEndian
open Threads

namespace Distributor

/-- What the workers share beside the store. -/
structure Scheduler where
  verificationRequests : SortedMap TargetId Unit := []
  claimedTargets : Finset TargetId := ∅
  lastSessionAttemptMillis : SortedMap TargetId ℤ := []

namespace Scheduler

def mayDial (p : DistributorPolicy) (s : Scheduler) (target : TargetId) (nowMillis : ℤ) : Bool :=
  if target ∈ s.claimedTargets then false
  else
    match s.lastSessionAttemptMillis.find target with
    | none => true
    | some last => decide (nowMillis - last ≥ p.sessionMinIntervalMillis)

def claim (target : TargetId) (nowMillis : ℤ) (s : Scheduler) : Scheduler :=
  { s with
    claimedTargets := insert target s.claimedTargets
    lastSessionAttemptMillis := s.lastSessionAttemptMillis.insert target nowMillis }

def release (target : TargetId) (s : Scheduler) : Scheduler :=
  { s with claimedTargets := s.claimedTargets.erase target }

def requestVerification (state : ControllerState) (target : TargetId) (s : Scheduler) : Status × Scheduler :=
  match state.findTarget target with
  | none => (.fail .notFound "no such target" (textString target), s)
  | some _ => (.ok (), { s with verificationRequests := s.verificationRequests.insert target () })

end Scheduler

def endpointOfTarget (state : ControllerState) (target : TargetId) : Endpoint :=
  match state.findTarget target with
  | none => ⟨[], 0⟩
  | some runtime =>
    if runtime.endpoint = [] then ⟨[], 0⟩
    else
      match parseEndpoint runtime.endpoint with
      | .error _ => ⟨[], 0⟩
      | .ok endpoint => if endpoint.host = [] ∨ endpoint.port = 0 then ⟨[], 0⟩ else endpoint

structure Picked where
  scheduler : Scheduler
  selected : Option (TargetId × Endpoint) := none
  localWork : List DeliveryRecord := []

/-- The first request whose target may be dialled, with the target it names. -/
def pickRequest (p : DistributorPolicy) (nowMillis : ℤ) (s : Scheduler) : Option (TargetId × TargetId) :=
  s.verificationRequests.findSome? fun request =>
    match parseTargetId request.1 with
    | .error _ => none
    | .ok target => if s.mayDial p target nowMillis then some (request.1, target) else none

def dial (p : DistributorPolicy) (state : ControllerState) (nowMillis : ℤ) (target : TargetId) (picked : Picked) :
    Picked :=
  if picked.selected.isSome || !picked.scheduler.mayDial p target nowMillis then picked
  else
    { picked with
      scheduler := picked.scheduler.claim target nowMillis
      selected := some (target, endpointOfTarget state target) }

def pickDelivery (p : DistributorPolicy) (state : ControllerState) (nowMillis : ℤ) (picked : Picked)
    (record : DeliveryRecord) : Picked :=
  if !isPendingState record.state then picked
  else
    let input := buildDecisionInput state p record nowMillis
    match (p.decide input state.epoch record.generation).action with
    | .offer | .resumeTransfer | .activate | .reconcile => dial p state nowMillis record.target picked
    | .reject | .retire | .recordFailureAndRetry => { picked with localWork := picked.localWork ++ [record] }
    -- a slow probe, so that a repaired target can take its delivery up again
    | .giveUp =>
      if input.millisSinceLastAttempt < p.repairProbeMillis then picked
      else dial p state nowMillis record.target picked
    | .wait | .none => picked

/-- The critical section. -/
def pickWork (p : DistributorPolicy) (state : ControllerState) (nowMillis : ℤ) (s : Scheduler) : Picked :=
  match pickRequest p nowMillis s with
  | some (request, target) =>
    let claimed := s.claim request nowMillis
    { scheduler := { claimed with verificationRequests := claimed.verificationRequests.erase request }
      selected := some (target, endpointOfTarget state target) }
  | none => state.deliveries.foldl (fun picked e => pickDelivery p state nowMillis picked e.2) { scheduler := s }

/-- What is left of a pick once the lock is dropped. -/
def localDecisions (p : DistributorPolicy) : List DeliveryRecord → Worker Unit
  | [] => return ()
  | record :: rest => do
    let _ ← applyLocalDecision p record.id
    localDecisions p rest

/-- Where a worker stands in its loop. A selected target goes with the clock its claim was made at. -/
inductive Activity
  | exited
  | idle
  | deciding (selected : Option (TargetId × ℤ)) (work : Worker Unit)
  | session (target : TargetId) (work : Worker Unit)

def Activity.awaiting : Activity → Option (TargetId × ℤ)
  | .deciding selected _ => selected
  | _ => none

/-- From the claim on, until it is given back. -/
def Activity.held : Activity → Option TargetId
  | .deciding selected _ => selected.map (·.1)
  | .session target _ => some target
  | _ => none

/-- The threads of a process; `started` lists the sessions, the newest first, each with the clock of its claim. -/
structure Fleet (ε ι : Type) where
  world : ε × Controller
  scheduler : Scheduler := {}
  workers : ι → Activity
  started : List (TargetId × ℤ) := []

namespace Fleet

variable {ε ι : Type}

/-- The clocks of the sessions with a target. -/
def readings (f : Fleet ε ι) (target : TargetId) : List ℤ := (f.started.filter (·.1 = target)).map (·.2)

/-- A distributor that has just been opened. -/
def Fresh (f : Fleet ε ι) : Prop := f.scheduler = {} ∧ (∀ i, f.workers i = .exited) ∧ f.started = []

variable [DecidableEq ι]

def set (f : Fleet ε ι) (i : ι) (a : Activity) : Fleet ε ι := { f with workers := Function.update f.workers i a }

/-- One thread takes one step; whatever else runs in the process may change the store. -/
inductive Step (o : DistributorOptions) (O : Outside ε Controller Choice Request (Result Incoming)) :
    Fleet ε ι → Fleet ε ι → Prop
  | start {f : Fleet ε ι} (i : ι) : f.workers i = .exited → Step o O f (f.set i .idle)
  | stop {f : Fleet ε ι} (i : ι) : f.workers i = .idle → Step o O f (f.set i .exited)
  | pick {f : Fleet ε ι} {picked : Picked} (i : ι) (nowMillis : ℤ) : f.workers i = .idle →
      pickWork o.policy f.world.2.mem nowMillis f.scheduler = picked →
      Step o O f ({ f with scheduler := picked.scheduler }.set i
        (.deciding (picked.selected.map fun x : TargetId × Endpoint => (x.1, nowMillis))
          (localDecisions o.policy picked.localWork)))
  | decide {f : Fleet ε ι} {selected : Option (TargetId × ℤ)} {work work' : Worker Unit} {copy : Option Copy}
      {world : ε × Controller} (i : ι) : f.workers i = .deciding selected work →
      Thread.Move O work f.world copy work' world → Step o O f ({ f with world }.set i (.deciding selected work'))
  | rest {f : Fleet ε ι} (i : ι) : f.workers i = .deciding none (.ret ()) → Step o O f (f.set i .idle)
  | dial {f : Fleet ε ι} {target : TargetId} {atMillis : ℤ} (i : ι) (rounds : ℕ) :
      f.workers i = .deciding (some (target, atMillis)) (.ret ()) →
      Step o O f ({ f with started := (target, atMillis) :: f.started }.set i
        (.session target (runSession o rounds target)))
  | converse {f : Fleet ε ι} {target : TargetId} {work work' : Worker Unit} {copy : Option Copy}
      {world : ε × Controller} (i : ι) : f.workers i = .session target work →
      Thread.Move O work f.world copy work' world → Step o O f ({ f with world }.set i (.session target work'))
  | release {f : Fleet ε ι} {target : TargetId} (i : ι) : f.workers i = .session target (.ret ()) →
      Step o O f ({ f with scheduler := f.scheduler.release target }.set i .idle)
  | request {f : Fleet ε ι} (target : TargetId) :
      Step o O f { f with scheduler := (f.scheduler.requestVerification f.world.2.mem target).2 }
  | other {f : Fleet ε ι} (world : ε × Controller) : Step o O f { f with world }

abbrev Run (o : DistributorOptions) (O : Outside ε Controller Choice Request (Result Incoming)) :
    Fleet ε ι → Fleet ε ι → Prop := Relation.ReflTransGen (Step o O)

end Fleet

/-! A pick claims at most one target, and one it may dial. -/

namespace Scheduler

variable {p : DistributorPolicy} {s : Scheduler} {target : TargetId} {nowMillis : ℤ}

theorem free_of_mayDial (h : s.mayDial p target nowMillis = true) : target ∉ s.claimedTargets := by
  intro hclaimed
  rw [mayDial, if_pos hclaimed] at h
  cases h

theorem paced_of_mayDial (h : s.mayDial p target nowMillis = true) {last : ℤ}
    (hlast : s.lastSessionAttemptMillis.find target = some last) :
    nowMillis - last ≥ p.sessionMinIntervalMillis := by
  rw [mayDial, if_neg (free_of_mayDial h), hlast] at h
  exact of_decide_eq_true h

end Scheduler

/-- What a pick at this clock leaves of the claims. -/
def Picked.From (p : DistributorPolicy) (nowMillis : ℤ) (s : Scheduler) (picked : Picked) : Prop :=
  match picked.selected with
  | none => picked.scheduler = s
  | some (target, _) =>
    s.mayDial p target nowMillis = true ∧ picked.scheduler.claimedTargets = insert target s.claimedTargets ∧
      picked.scheduler.lastSessionAttemptMillis = s.lastSessionAttemptMillis.insert target nowMillis

section Picking

variable {p : DistributorPolicy} {state : ControllerState} {s : Scheduler} {nowMillis : ℤ} {picked : Picked}

theorem dial_from (h : picked.From p nowMillis s) (target : TargetId) :
    (dial p state nowMillis target picked).From p nowMillis s := by
  rw [dial]
  split
  · exact h
  next hgo =>
    obtain ⟨hnone, hdial⟩ : picked.selected = none ∧ picked.scheduler.mayDial p target nowMillis = true := by
      simpa using hgo
    rw [Picked.From, hnone] at h
    change s.mayDial p target nowMillis = true ∧ _
    dsimp only at h
    rw [← h]
    exact ⟨hdial, rfl, rfl⟩

theorem pickDelivery_from (h : picked.From p nowMillis s) (record : DeliveryRecord) :
    (pickDelivery p state nowMillis picked record).From p nowMillis s := by
  rw [pickDelivery]
  split
  · exact h
  dsimp only
  cases (p.decide (buildDecisionInput state p record nowMillis) state.epoch record.generation).action with
  | offer | resumeTransfer | activate | reconcile => exact dial_from h _
  | reject | retire | recordFailureAndRetry => exact h
  | giveUp =>
    dsimp only
    split
    · exact h
    · exact dial_from h _
  | wait | none => exact h

theorem pickRequest_spec {request target : TargetId} (h : pickRequest p nowMillis s = some (request, target)) :
    request = target ∧ s.mayDial p target nowMillis = true := by
  obtain ⟨e, -, he⟩ := List.exists_of_findSome?_eq_some h
  split at he
  · cases he
  next target' hparse =>
    obtain ⟨hdial, heq⟩ := Option.ite_none_right_eq_some.mp he
    obtain ⟨rfl, rfl⟩ := Prod.mk.inj (Option.some.inj heq)
    exact ⟨((parseId_ok_iff _ _ _).mp hparse).1, hdial⟩

theorem pickWork_from : (pickWork p state nowMillis s).From p nowMillis s := by
  rw [pickWork]
  split
  next request target hrequest =>
    obtain ⟨rfl, hdial⟩ := pickRequest_spec hrequest
    exact ⟨hdial, rfl, rfl⟩
  · have hfold (deliveries : SortedMap DeploymentId DeliveryRecord) {picked : Picked}
        (h : picked.From p nowMillis s) :
        (deliveries.foldl (fun picked e => pickDelivery p state nowMillis picked e.2) picked).From p nowMillis s := by
      induction deliveries generalizing picked with
      | nil => exact h
      | cons e rest ih => exact ih (pickDelivery_from h e.2)
    exact hfold state.deliveries rfl

end Picking

namespace Fleet

variable {ε ι : Type} {o : DistributorOptions} {O : Outside ε Controller Choice Request (Result Incoming)}
  {f f' : Fleet ε ι} {i : ι} {a : Activity}

/-- The claims and the clocks, as the workers stand. -/
structure Exclusive (p : DistributorPolicy) (f : Fleet ε ι) : Prop where
  claimed : ∀ t, t ∈ f.scheduler.claimedTargets ↔ ∃ i, (f.workers i).held = some t
  alone : ∀ i j t, (f.workers i).held = some t → (f.workers j).held = some t → i = j
  awaited : ∀ i t m, (f.workers i).awaiting = some (t, m) →
    f.scheduler.lastSessionAttemptMillis.find t = some m ∧
      ∀ r ∈ (f.readings t).head?, m - r ≥ p.sessionMinIntervalMillis
  latest : ∀ t, ∀ r ∈ (f.readings t).head?, (∀ i m, (f.workers i).awaiting ≠ some (t, m)) →
    f.scheduler.lastSessionAttemptMillis.find t = some r
  paced : ∀ t, (f.readings t).IsChain fun later earlier => later - earlier ≥ p.sessionMinIntervalMillis

namespace Exclusive

variable {p : DistributorPolicy}

theorem fresh (h : f.Fresh) : f.Exclusive p := by
  obtain ⟨hscheduler, hworkers, hstarted⟩ := h
  have hheld (j : ι) : (f.workers j).held = none := by rw [hworkers]; rfl
  have hawaiting (j : ι) : (f.workers j).awaiting = none := by rw [hworkers]; rfl
  have hreadings (t : TargetId) : f.readings t = [] := by rw [readings, hstarted]; rfl
  constructor
  · simp [hscheduler, hheld]
  · simp [hheld]
  · simp [hawaiting]
  · simp [hreadings]
  · simp [hreadings]

/-- A step that moves neither a claim nor a clock. -/
theorem quiet (h : f.Exclusive p) (hclaimed : f'.scheduler.claimedTargets = f.scheduler.claimedTargets)
    (hlast : f'.scheduler.lastSessionAttemptMillis = f.scheduler.lastSessionAttemptMillis)
    (hstarted : f'.started = f.started)
    (hworkers : ∀ i, (f'.workers i).held = (f.workers i).held ∧ (f'.workers i).awaiting = (f.workers i).awaiting) :
    f'.Exclusive p := by
  have hreadings (t : TargetId) : f'.readings t = f.readings t := by rw [readings, hstarted, readings]
  constructor
  · simpa only [hclaimed, hworkers] using h.claimed
  · simpa only [hworkers] using h.alone
  · simpa only [hlast, hreadings, hworkers] using h.awaited
  · simpa only [hlast, hreadings, hworkers] using h.latest
  · simpa only [hreadings] using h.paced

theorem free (h : f.Exclusive p) {t : TargetId} (ht : t ∉ f.scheduler.claimedTargets) (j : ι) :
    (f.workers j).held ≠ some t := fun hheld => ht ((h.claimed t).mpr ⟨j, hheld⟩)

end Exclusive

variable [DecidableEq ι]

theorem workers_set_self : (f.set i a).workers i = a := Function.update_self ..

theorem workers_set_of_ne {j : ι} (h : j ≠ i) : (f.set i a).workers j = f.workers j := Function.update_of_ne h ..

namespace Exclusive

variable {p : DistributorPolicy}

/-- The same, when one worker goes on. -/
theorem quiet_set (h : f.Exclusive p) (hclaimed : f'.scheduler.claimedTargets = f.scheduler.claimedTargets)
    (hlast : f'.scheduler.lastSessionAttemptMillis = f.scheduler.lastSessionAttemptMillis)
    (hstarted : f'.started = f.started) (hworkers : f'.workers = f.workers)
    (hheld : a.held = (f.workers i).held) (hawaiting : a.awaiting = (f.workers i).awaiting) :
    (f'.set i a).Exclusive p := by
  refine h.quiet hclaimed hlast hstarted fun j => ?_
  by_cases hj : j = i
  · subst hj
    rw [workers_set_self]
    exact ⟨hheld, hawaiting⟩
  · rw [workers_set_of_ne hj, hworkers]
    exact ⟨rfl, rfl⟩

end Exclusive

theorem held_of_awaiting {t : TargetId} {m : ℤ} (h : a.awaiting = some (t, m)) : a.held = some t := by
  cases a with
  | deciding selected work =>
    change selected = _ at h
    rw [h]
    rfl
  | _ => cases h

namespace Exclusive

variable {p : DistributorPolicy} {t : TargetId} {m : ℤ}

theorem claim (h : f.Exclusive p) {s : Scheduler} {work : Worker Unit} (hidle : f.workers i = .idle)
    (hdial : f.scheduler.mayDial p t m = true)
    (hclaimed : s.claimedTargets = insert t f.scheduler.claimedTargets)
    (hlast : s.lastSessionAttemptMillis = f.scheduler.lastSessionAttemptMillis.insert t m) :
    ({ f with scheduler := s }.set i (.deciding (some (t, m)) work)).Exclusive p := by
  have hfree := h.free (Scheduler.free_of_mayDial hdial)
  have hheld : (f.workers i).held = none := by rw [hidle]; rfl
  constructor
  · intro u
    change u ∈ s.claimedTargets ↔ _
    rw [hclaimed, Finset.mem_insert, h.claimed]
    constructor
    · rintro (rfl | ⟨j, hj⟩)
      · exact ⟨i, by rw [workers_set_self]; rfl⟩
      · have hne : j ≠ i := by
          rintro rfl
          rw [hheld] at hj
          cases hj
        exact ⟨j, by rw [workers_set_of_ne hne]; exact hj⟩
    · rintro ⟨j, hj⟩
      by_cases hne : j = i
      · rw [hne, workers_set_self] at hj
        exact .inl (Option.some.inj hj).symm
      · rw [workers_set_of_ne hne] at hj
        exact .inr ⟨j, hj⟩
  · intro j k u hj hk
    by_cases hji : j = i <;> by_cases hki : k = i
    · rw [hji, hki]
    · rw [hji, workers_set_self] at hj
      rw [workers_set_of_ne hki] at hk
      obtain rfl : t = u := Option.some.inj hj
      exact absurd hk (hfree k)
    · rw [hki, workers_set_self] at hk
      rw [workers_set_of_ne hji] at hj
      obtain rfl : t = u := Option.some.inj hk
      exact absurd hj (hfree j)
    · rw [workers_set_of_ne hji] at hj
      rw [workers_set_of_ne hki] at hk
      exact h.alone j k u hj hk
  · intro j u n hj
    change s.lastSessionAttemptMillis.find u = some n ∧ _
    rw [hlast, SortedMap.find_insert]
    by_cases hji : j = i
    · rw [hji, workers_set_self] at hj
      obtain ⟨rfl, rfl⟩ : t = u ∧ m = n := Prod.mk.inj (Option.some.inj hj)
      rw [if_pos rfl]
      refine ⟨rfl, fun r hr => Scheduler.paced_of_mayDial hdial (h.latest t r hr fun k n hk => ?_)⟩
      exact hfree k (held_of_awaiting hk)
    · rw [workers_set_of_ne hji] at hj
      have hne : u ≠ t := by
        rintro rfl
        exact hfree j (held_of_awaiting hj)
      rw [if_neg hne]
      exact h.awaited j u n hj
  · intro u r hr hnone
    change s.lastSessionAttemptMillis.find u = some r
    have hne : u ≠ t := by
      rintro rfl
      exact hnone i m (by rw [workers_set_self]; rfl)
    rw [hlast, SortedMap.find_insert, if_neg hne]
    refine h.latest u r hr fun j n hj => hnone j n ?_
    have hji : j ≠ i := by
      rintro rfl
      rw [hidle] at hj
      cases hj
    rw [workers_set_of_ne hji]
    exact hj
  · exact h.paced

theorem dial (h : f.Exclusive p) {selected work : Worker Unit}
    (hi : f.workers i = .deciding (some (t, m)) selected) :
    ({ f with started := (t, m) :: f.started }.set i (.session t work)).Exclusive p := by
  have hawaiting : (f.workers i).awaiting = some (t, m) := by rw [hi]; rfl
  have hheld (j : ι) : (({ f with started := (t, m) :: f.started }.set i (.session t work)).workers j).held =
      (f.workers j).held := by
    by_cases hj : j = i
    · rw [hj, workers_set_self, hi]
      rfl
    · rw [workers_set_of_ne hj]
  have hothers {j : ι} {u : TargetId} {n : ℤ} (hj : (({ f with started := (t, m) :: f.started }.set i
      (.session t work)).workers j).awaiting = some (u, n)) : u ≠ t ∧ (f.workers j).awaiting = some (u, n) := by
    by_cases hji : j = i
    · rw [hji, workers_set_self] at hj
      cases hj
    · rw [workers_set_of_ne hji] at hj
      refine ⟨?_, hj⟩
      rintro rfl
      exact hji (h.alone j i u (held_of_awaiting hj) (held_of_awaiting hawaiting))
  have hreadings (u : TargetId) : ({ f with started := (t, m) :: f.started }.set i (.session t work)).readings u =
      if t = u then m :: f.readings u else f.readings u := by
    change ((((t, m) :: f.started).filter (·.1 = u)).map (·.2)) = _
    by_cases htu : t = u
    · rw [List.filter_cons_of_pos (by simpa using htu), if_pos htu]
      rfl
    · rw [List.filter_cons_of_neg (by simpa using htu), if_neg htu]
      rfl
  obtain ⟨hlast, hpaced⟩ := h.awaited i t m hawaiting
  constructor
  · intro u
    simp only [hheld]
    exact h.claimed u
  · simpa only [hheld] using h.alone
  · intro j u n hj
    obtain ⟨hne, hj⟩ := hothers hj
    rw [hreadings, if_neg hne.symm]
    exact h.awaited j u n hj
  · intro u r hr hnone
    rw [hreadings] at hr
    split at hr
    next htu =>
      obtain rfl : m = r := Option.some.inj hr
      rw [← htu]
      exact hlast
    next htu =>
      refine h.latest u r hr fun j n hj => ?_
      by_cases hji : j = i
      · rw [hji, hawaiting] at hj
        exact htu (Prod.mk.inj (Option.some.inj hj)).1
      · refine hnone j n ?_
        rw [workers_set_of_ne hji]
        exact hj
  · intro u
    rw [hreadings]
    split
    next htu =>
      subst htu
      exact List.isChain_cons.mpr ⟨hpaced, h.paced t⟩
    · exact h.paced u

theorem release (h : f.Exclusive p) {work : Worker Unit} (hi : f.workers i = .session t work) :
    ({ f with scheduler := f.scheduler.release t }.set i .idle).Exclusive p := by
  have hheld : (f.workers i).held = some t := by rw [hi]; rfl
  have hothers {j : ι} {u : TargetId} (hj : (({ f with scheduler := f.scheduler.release t }.set i .idle).workers j).held =
      some u) : j ≠ i ∧ (f.workers j).held = some u := by
    by_cases hji : j = i
    · rw [hji, workers_set_self] at hj
      cases hj
    · rw [workers_set_of_ne hji] at hj
      exact ⟨hji, hj⟩
  have hawaiting (j : ι) : (({ f with scheduler := f.scheduler.release t }.set i .idle).workers j).awaiting =
      (f.workers j).awaiting := by
    by_cases hj : j = i
    · rw [hj, workers_set_self, hi]
      rfl
    · rw [workers_set_of_ne hj]
  constructor
  · intro u
    change u ∈ f.scheduler.claimedTargets.erase t ↔ _
    rw [Finset.mem_erase, h.claimed]
    constructor
    · rintro ⟨hne, j, hj⟩
      have hji : j ≠ i := by
        rintro rfl
        rw [hheld] at hj
        exact hne (Option.some.inj hj).symm
      exact ⟨j, by rw [workers_set_of_ne hji]; exact hj⟩
    · rintro ⟨j, hj⟩
      obtain ⟨hji, hholds⟩ := hothers hj
      refine ⟨?_, j, hholds⟩
      rintro rfl
      exact hji (h.alone j i u hholds hheld)
  · intro j k u hj hk
    exact h.alone j k u (hothers hj).2 (hothers hk).2
  · intro j u n hj
    rw [hawaiting] at hj
    exact h.awaited j u n hj
  · intro u r hr hnone
    refine h.latest u r hr fun j n hj => hnone j n ?_
    rw [hawaiting]
    exact hj
  · exact h.paced

theorem step (h : f.Exclusive o.policy) (hstep : Step o O f f') : f'.Exclusive o.policy := by
  cases hstep with
  | start _ hi => exact h.quiet_set rfl rfl rfl rfl (by rw [hi]; rfl) (by rw [hi]; rfl)
  | stop _ hi => exact h.quiet_set rfl rfl rfl rfl (by rw [hi]; rfl) (by rw [hi]; rfl)
  | @pick picked i nowMillis hi hpick =>
    have hfrom : picked.From o.policy nowMillis f.scheduler := hpick ▸ pickWork_from
    obtain ⟨scheduler, selected, localWork⟩ := picked
    cases selected with
    | none =>
      obtain rfl : scheduler = f.scheduler := hfrom
      exact h.quiet_set rfl rfl rfl rfl (by rw [hi]; rfl) (by rw [hi]; rfl)
    | some dialled =>
      obtain ⟨hdial, hclaimed, hlast⟩ := hfrom
      exact h.claim hi hdial hclaimed hlast
  | decide _ hi => exact h.quiet_set rfl rfl rfl rfl (by rw [hi]; rfl) (by rw [hi]; rfl)
  | rest _ hi => exact h.quiet_set rfl rfl rfl rfl (by rw [hi]; rfl) (by rw [hi]; rfl)
  | dial _ _ hi => exact h.dial hi
  | converse _ hi => exact h.quiet_set rfl rfl rfl rfl (by rw [hi]; rfl) (by rw [hi]; rfl)
  | release _ hi => exact h.release hi
  | request target =>
    have hsame : (f.scheduler.requestVerification f.world.2.mem target).2.claimedTargets = f.scheduler.claimedTargets ∧
        (f.scheduler.requestVerification f.world.2.mem target).2.lastSessionAttemptMillis =
          f.scheduler.lastSessionAttemptMillis := by
      rw [Scheduler.requestVerification]
      split <;> exact ⟨rfl, rfl⟩
    exact h.quiet hsame.1 hsame.2 rfl fun _ => ⟨rfl, rfl⟩
  | other => exact h.quiet rfl rfl rfl fun _ => ⟨rfl, rfl⟩

theorem run (h : f.Exclusive o.policy) (hrun : Run o O f f') : f'.Exclusive o.policy := by
  induction hrun with
  | refl => exact h
  | tail _ hstep ih => exact ih.step hstep

end Exclusive

/-- No target is with two workers, the claims are what the workers hold, and the sessions with one target keep their
distance by the clocks of their claims. -/
theorem sessions_exclusive_paced (hfresh : f.Fresh) (hrun : Run o O f f') :
    (∀ i j t, (f'.workers i).held = some t → (f'.workers j).held = some t → i = j) ∧
      (∀ t, t ∈ f'.scheduler.claimedTargets ↔ ∃ i, (f'.workers i).held = some t) ∧
      ∀ t, (f'.readings t).IsChain fun later earlier => later - earlier ≥ o.policy.sessionMinIntervalMillis := by
  have h : f'.Exclusive o.policy := (Exclusive.fresh hfresh).run hrun
  exact ⟨h.alone, h.claimed, h.paced⟩

/-- A session as far as it comes when it runs alone. -/
theorem run_session {target : TargetId} {work work' : Worker Unit} {world world' : ε × Controller}
    (hreach : Relation.ReflTransGen (fun x y => ∃ c, Thread.Move O x.1 x.2 c y.1 y.2) (work, world) (work', world')) :
    Run o O ({ f with world }.set i (.session target work)) ({ f with world := world' }.set i (.session target work')) := by
  generalize hy : (work', world') = y at hreach
  induction hreach generalizing work' world' with
  | refl =>
    obtain ⟨rfl, rfl⟩ := Prod.mk.inj hy
    exact .refl
  | @tail y z _ hstep ih =>
    subst hy
    obtain ⟨c, hmove⟩ := hstep
    have hnext := Step.converse (o := o) (f := { f with world := y.2 }.set i (.session target y.1)) i workers_set_self hmove
    simp only [set, Function.update_idem] at hnext
    exact (ih rfl).tail hnext

/-- Nothing of what goes on outside is ruled out. -/
def anything : Outside Unit Controller Choice Request (Result Incoming) :=
  ⟨fun _ _ _ => True, fun _ _ _ => True, fun _ _ => True⟩

def anyhow : Driver anything where
  file _ _ := some ()
  i₀ := {}
  r₀ _ := none
  hears _ _ := some ()
  chooses _ _ := true
  emits _ _ _ _ := trivial
  receives _ _ _ _ := trivial
  inputs _ _ _ := trivial

/-- A session that cannot connect, with a target the store does not know. -/
theorem unconnected {o : DistributorOptions} {rounds : ℕ} {target : TargetId} :
    Relation.ReflTransGen (fun x y => ∃ c, Thread.Move anything x.1 x.2 c y.1 y.2) (runSession o rounds target, ((), {}))
      (.ret (), ((), {})) := by
  have h : (runSession o rounds target).advance anyhow (fun _ _ _ => true) 4
      [.inl { status := .fail .ioFailure "no route" }] ((), {}) = some (.ret (), ((), {})) := rfl
  exact Thread.advance_reaches h

/-- Two requests for one target, each served by another worker. -/
theorem verified_twice : ∃ f f' : Fleet Unit Bool, f.Fresh ∧ f.Run { nodeId := text "n" } anything f' ∧
    f'.readings (text "a") = [60, 0] ∧
      (∀ i j t, (f'.workers i).held = some t → (f'.workers j).held = some t → i = j) ∧
      (∀ t, t ∈ f'.scheduler.claimedTargets ↔ ∃ i, (f'.workers i).held = some t) ∧
      ∀ t, (f'.readings t).IsChain fun later earlier => later - earlier ≥ 50 := by
  let known : Controller := { mem := { targets := [(text "a", { id := text "a" })] } }
  let f : Fleet Unit Bool := { world := ((), known), workers := fun _ => .exited }
  have hfresh : f.Fresh := ⟨rfl, fun _ => rfl, rfl⟩
  obtain ⟨f', hrun, hreadings⟩ : ∃ f', f.Run { nodeId := text "n" } anything f' ∧ f'.readings (text "a") = [60, 0] := by
    exact ⟨_, .head (.start false rfl) <| .head (.start true rfl) <| .head (.request (text "a")) <|
      .head (.pick false 0 rfl rfl) <| .head (.dial false 0 rfl) <| .head (.other ((), {})) <|
      .trans (run_session unconnected) <| .head (.release false rfl) <| .head (.other ((), known)) <|
      .head (.request (text "a")) <| .head (.pick true 60 rfl rfl) <| .single (.dial true 0 rfl), rfl⟩
  exact ⟨f, f', hfresh, hrun, hreadings, sessions_exclusive_paced hfresh hrun⟩

end Fleet

end Distributor

end ConfigurationFabric
