import Spacegate.AiGateway.QueueSteps
import Spacegate.Foundation.Trace

/-!
# Leases on jobs

A call that has taken the lease of its job keeps it as long as the lease is valid, if no
other call deletes it.  But the key is deleted without a look at its owner: a call that has
outlived its lease deletes the one of its successor.

A lease excludes two calls at a time only.  A call whose copy of the entry waits while
another one completes the job takes the lease after it and does the job again.

A call whose command fails before `process_job` or after it returns at once.  Its lease stays
behind until it expires.
-/

namespace Spacegate.AiGateway.Queue

open Foundation Redis
open Foundation.Expiring

variable {ι : Type} {cfg : Config} {s : State ι}

/-- `process_job` of this call runs for the job, and its lease is still valid. -/
def running (cfg : Config) (s : State ι) (jobId : String) (i : ι) : Bool :=
  match s.calls i with
  | .idle => false
  | .working copy leasedAt phase =>
    copy.jobId == jobId && phase.inProcessJob && s.redis.now < leasedAt + cfg.leaseMs

/-- A call deletes the lease of its job only while there is none or it is its own. -/
def releasesOwn [DecidableEq ι] (s : State ι) : Action ι → Bool
  | .operate i input =>
    match s.calls i with
    | .working copy _ (.release _) =>
      input.outcome == .failed || (s.redis.leaseOf copy.jobId).all (· == i)
    | _ => true
  | _ => true

/-- A call that has not given up its lease finds it under the key until it expires. -/
def Held (cfg : Config) (s : State ι) : Prop :=
  ∀ i copy leasedAt phase, s.calls i = .working copy leasedAt phase →
    phase.holdsLease = true → s.redis.now < leasedAt + cfg.leaseMs →
    s.redis.leases (jobLeaseKey copy.jobId) =
      some { value := i, deadline := some (leasedAt + cfg.leaseMs) }

theorem held_init : Held cfg (State.init : State ι) := by
  intro i copy leasedAt phase hc
  cases hc

variable {phase : Phase}

theorem Held.eq (h : Held cfg s) {i j : ι} {copy copy' : Copy} {leasedAt leasedAt' : Nat}
    {phase' : Phase} (hi : s.calls i = .working copy leasedAt phase)
    (hj : s.calls j = .working copy' leasedAt' phase') (hJob : copy.jobId = copy'.jobId)
    (hh : phase.holdsLease = true) (hh' : phase'.holdsLease = true)
    (hv : s.redis.now < leasedAt + cfg.leaseMs)
    (hv' : s.redis.now < leasedAt' + cfg.leaseMs) : i = j := by
  have hl := h i copy leasedAt phase hi hh hv
  have hl' := h j copy' leasedAt' phase' hj hh' hv'
  rw [hJob, hl'] at hl
  exact (congrArg Timed.value (Option.some.inj hl)).symm

theorem holdsLease_of_inProcessJob (h : phase.inProcessJob = true) : phase.holdsLease = true := by
  cases phase <;> first | rfl | cases h

variable {copy : Copy} {input : Input}

/-- A call holds a lease after an operation if it did before, or has just taken it. -/
theorem holdsLease_nextPhase {r : Redis ι}
    (h : (nextPhase cfg copy input r phase).holdsLease = true) :
    (phase.holdsLease = true ∧ phase ≠ .acquire ∧ ∀ outcome, phase ≠ .release outcome) ∨
      phase = .acquire ∧ input.outcome = .done ∧ r.leaseOf copy.jobId = none := by
  cases phase with
  | acquire =>
    unfold nextPhase at h
    split_ifs at h with hd
    · simp only [proceed] at h
      split_ifs at h with hl
      · cases h
      · exact .inr ⟨rfl, hd, by simpa using hl⟩
    · cases h
  | release outcome =>
    unfold nextPhase at h
    split_ifs at h <;> cases h
  | returned outcome =>
    unfold nextPhase at h
    split_ifs at h <;> cases h
  | _ => exact .inl ⟨rfl, by simp, by simp⟩

theorem Held.quiet {s' : State ι} (h : Held cfg s) (hq : Quiet cfg s s') : Held cfg s' := by
  intro i copy leasedAt phase hc hh hv
  rw [hq.leases]
  rw [hq.now] at hv
  rcases hq.working hc with hb | ⟨hBegin, -⟩
  · exact h i copy leasedAt phase hb hh hv
  · rw [(begin_eq_working hBegin).2] at hh
    cases hh

variable [DecidableEq ι] {leasedAt : Nat}

/-- The lease of another call is not touched. -/
theorem leases_effect_of_held {i : ι} (hc : s.calls i = .working copy leasedAt phase)
    (hOwn : releasesOwn s (.operate i input) = true) (hp : input.outcome ≠ .failed) {j : ι}
    {key : String} (hj : j ≠ i) {deadline : Nat}
    (hl : s.redis.leases key = some { value := j, deadline := some deadline })
    (hv : s.redis.now < deadline) :
    (effect cfg i copy input s.redis phase).leases key = s.redis.leases key := by
  have hGet : get s.redis.now s.redis.leases key = some j := get_of_deadline hl hv
  cases phase with
  | acquire =>
    simp only [effect]
    split_ifs with ht
    · rfl
    · refine Function.update_of_ne ?_ _ _
      rintro rfl
      rw [leaseOf, hGet] at ht
      exact ht rfl
  | release outcome =>
    refine Function.update_of_ne ?_ _ _
    rintro rfl
    simp only [releasesOwn, hc, leaseOf, hGet, Option.all_some, Bool.or_eq_true, beq_iff_eq] at hOwn
    exact hOwn.elim hp hj
  | _ => rfl

theorem Held.operate {i : ι} (h : Held cfg s) (hc : s.calls i = .working copy leasedAt phase)
    (hOwn : releasesOwn s (.operate i input) = true) :
    Held cfg (operate cfg s i copy leasedAt phase input) := by
  intro j copy' leasedAt' phase' hc' hh hv
  rw [(unmoved_operate ..).now] at hv
  rw [redis_operate]
  rcases calls_operate_cases _ _ _ _ _ _ hc' with ⟨rfl, rfl, rfl, rfl⟩ | ⟨hj, hc'⟩
  · rcases holdsLease_nextPhase hh with ⟨hb, ha, hr⟩ | ⟨rfl, hd, hFree⟩
    · -- the lease is the one the call had before
      rw [leaseTime_of_ne_acquire ha] at hv ⊢
      have hl := h j copy' leasedAt phase hc hb hv
      split_ifs
      · exact hl
      · rw [leases_effect cfg j copy' input s.redis phase ha hr]
        exact hl
    · simp [hd, effect, hFree, setLease, leaseTime]
  · have hl := h j copy' leasedAt' phase' hc' hh hv
    split_ifs with hf
    · exact hl
    · rw [leases_effect_of_held hc hOwn hf hj hl hv]
      exact hl

variable {action : Action ι}

theorem Held.step (h : Held cfg s) (hOwn : releasesOwn s action = true) :
    Held cfg (step cfg s action) := by
  rcases step_cases cfg s action with hq | ⟨ms, rfl⟩ | ⟨stream, fields, rfl⟩ |
    ⟨i, input, copy, leasedAt, phase, rfl, hc, hs⟩
  · exact h.quiet hq
  · intro i copy leasedAt phase hc hh hv
    exact h i copy leasedAt phase hc hh (lt_of_le_of_lt (Nat.le_add_right _ ms) hv)
  · exact h
  · rw [hs]
    exact h.operate hc hOwn

theorem Held.run {actions : List (Action ι)} (h : Held cfg s)
    (hOwn : Trace.Along (Queue.step cfg) (fun s action => releasesOwn s action = true) s actions) :
    Held cfg (run cfg s actions) :=
  hOwn.foldl h fun _ _ h => h.step

/-- At most one `process_job` runs for a job under a valid lease. -/
def Exclusive (cfg : Config) (s : State ι) : Prop :=
  ∀ jobId i j, running cfg s jobId i = true → running cfg s jobId j = true → i = j

omit [DecidableEq ι] in
theorem Held.exclusive (h : Held cfg s) : Exclusive cfg s := by
  intro jobId i j hi hj
  unfold running at hi hj
  split at hi
  · cases hi
  · rename_i copy leasedAt phase hc
    split at hj
    · cases hj
    · rename_i copy' leasedAt' phase' hc'
      simp only [Bool.and_eq_true, beq_iff_eq, decide_eq_true_eq] at hi hj
      exact h.eq hc hc' (hi.1.1.trans hj.1.1.symm)
        (holdsLease_of_inProcessJob hi.1.2) (holdsLease_of_inProcessJob hj.1.2) hi.2 hj.2

/-- As long as no call deletes the lease of another one, leases exclude each other. -/
theorem exclusive_of_releasesOwn {actions : List (Action ι)}
    (hOwn : Trace.Along (step cfg) (fun s action => releasesOwn s action = true) State.init actions)
    (earlier later : List (Action ι)) (hActions : actions = earlier ++ later) :
    Exclusive cfg (run cfg State.init earlier) := by
  rw [hActions, Trace.along_append] at hOwn
  have hh : Held cfg (run cfg State.init earlier) := held_init.run hOwn.1
  exact hh.exclusive

/-! ## Leases that are left behind -/

section Released

/-- No call that has returned has a lease. -/
def Released (s : State ι) : Prop :=
  ∀ i copy leasedAt outcome, s.calls i = .working copy leasedAt (.returned outcome) →
    s.redis.leaseOf copy.jobId ≠ some i

/-- The operation does not end the call while it has a lease. -/
def GivesUp (s : State ι) : Action ι → Prop
  | .operate i input =>
    ∀ copy leasedAt phase, s.calls i = .working copy leasedAt phase →
      match phase with
      | .acquire =>
        -- the lease is taken, and the call does not learn of it
        input.outcome = .lost → (s.redis.leaseOf copy.jobId).isSome = true
      | .increment | .expire _ | .addDlq _ | .trimDlq | .ackDlq | .ack =>
        input.outcome ≠ .done → s.redis.leaseOf copy.jobId ≠ some i
      | .release _ => input.outcome = .failed → s.redis.leaseOf copy.jobId ≠ some i
      | _ => True
  | _ => True

/-- What the steps keep. -/
structure Leased (s : State ι) : Prop where
  released : Released s
  /-- A call has no lease before it has taken one. -/
  fresh : ∀ i, (∀ copy leasedAt phase, s.calls i = .working copy leasedAt phase →
    phase = .acquire) → ∀ key timed, s.redis.leases key = some timed → timed.value ≠ i

omit [DecidableEq ι] in
theorem leased_init : Leased (State.init : State ι) where
  released := fun _ _ _ _ hc => by cases hc
  fresh := fun _ _ _ _ hl => by cases hl

omit [DecidableEq ι] in
theorem Leased.leaseOf_ne (h : Leased s) {i : ι}
    (hc : s.calls i = .working copy leasedAt .acquire) (jobId : String) :
    s.redis.leaseOf jobId ≠ some i := by
  intro hl
  obtain ⟨timed, ht, -, hv⟩ := get_eq_some_iff.mp hl
  refine h.fresh i (fun copy' leasedAt' phase' hc' => ?_) _ timed ht hv
  rw [hc] at hc'
  cases hc'
  rfl

omit [DecidableEq ι] in
theorem Leased.quiet {s' : State ι} (h : Leased s) (hq : Quiet cfg s s') : Leased s' := by
  have hi : ∀ i, s.calls i = .idle → ∀ key timed, s.redis.leases key = some timed →
      timed.value ≠ i := by
    intro i hc
    refine h.fresh i (fun _ _ _ hw => ?_)
    rw [hc] at hw
    cases hw
  constructor
  · intro i copy leasedAt outcome hc
    rw [leaseOf, hq.leases, hq.now]
    rcases hq.calls i with hs | ⟨hb, -⟩
    · rw [hs] at hc
      exact h.released i copy leasedAt outcome hc
    · intro hl
      obtain ⟨timed, ht, -, hv⟩ := get_eq_some_iff.mp hl
      exact hi i hb _ timed ht hv
  · intro i hCalls
    rw [hq.leases]
    rcases hq.calls i with hs | ⟨hb, -⟩
    · rw [hs] at hCalls
      exact h.fresh i hCalls
    · exact hi i hb

variable {i : ι} {copy : Copy} {leasedAt : Nat} {input : Input}

/-- A lease after an operation was there before, or has just been taken. -/
theorem leases_operate_cases {key : String} {timed : Timed ι}
    (h : (operate cfg s i copy leasedAt phase input).redis.leases key = some timed) :
    s.redis.leases key = some timed ∨ timed.value = i ∧ phase = .acquire := by
  rw [redis_operate] at h
  split_ifs at h
  · exact .inl h
  · cases phase with
    | acquire =>
      simp only [effect] at h
      split_ifs at h
      · exact .inl h
      · simp only [setLease, Function.update_apply] at h
        split_ifs at h
        · cases h
          exact .inr ⟨rfl, rfl⟩
        · exact .inl h
    | release outcome =>
      simp only [effect, setLease, Function.update_apply] at h
      split_ifs at h
      exact .inl h
    | _ => exact .inl h

/-- The condition is that the call does not return with a lease. -/
theorem Leased.givesUp_iff (cfg : Config) (h : Leased s)
    (hc : s.calls i = .working copy leasedAt phase) :
    GivesUp s (.operate i input) ↔
      ∀ outcome, nextPhase cfg copy input s.redis phase = .returned outcome →
        (operate cfg s i copy leasedAt phase input).redis.leaseOf copy.jobId ≠ some i := by
  have hgu : GivesUp s (.operate i input) ↔ _ :=
    ⟨fun hg => hg copy leasedAt phase hc, fun hg _ _ _ hc' => by
      rw [hc] at hc'
      cases hc'
      exact hg⟩
  have hs : phase ≠ .acquire → (∀ outcome, phase ≠ .release outcome) →
      (effect cfg i copy input s.redis phase).leaseOf copy.jobId = s.redis.leaseOf copy.jobId := by
    intro ha hr
    rw [leaseOf, leases_effect cfg i copy input s.redis phase ha hr, (unmoved_effect ..).now,
      leaseOf]
  rw [hgu, redis_operate]
  cases phase with
  | acquire =>
    have hNe := h.leaseOf_ne hc copy.jobId
    have hPos : s.redis.now < s.redis.now + cfg.leaseMs := by
      unfold Config.leaseMs
      omega
    cases ho : input.outcome with
    | lost =>
      by_cases hl : (s.redis.leaseOf copy.jobId).isSome = true
      · simp [effect, hl, hNe]
      · have ht : (s.redis.setLease (jobLeaseKey copy.jobId) (some
            { value := i, deadline := some (s.redis.now + cfg.leaseMs) })).leaseOf
              copy.jobId = some i :=
          get_of_deadline (Function.update_self _ _ _) hPos
        simp [effect, nextPhase, recover, ho, hl, ht]
    | done =>
      by_cases hl : (s.redis.leaseOf copy.jobId).isSome = true <;>
        simp [effect, nextPhase, proceed, ho, hl, hNe]
    | failed => simp [hNe]
  | release outcome =>
    have hGone : (s.redis.setLease (jobLeaseKey copy.jobId) none).leaseOf copy.jobId = none := by
      simp [leaseOf, setLease, Expiring.get]
    cases ho : input.outcome <;> simp [effect, nextPhase, proceed, recover, ho, hGone]
  | returned outcome =>
    have hNe := h.released i copy leasedAt outcome hc
    simp [effect, hNe]
  | _ =>
    have hs := hs (by simp) (by simp)
    cases ho : input.outcome <;> simp [hs, nextPhase, proceed, recover, ho] <;> split_ifs <;> simp

/-- An operation keeps what is known of the leases if it does not end the call with one. -/
theorem Leased.operate (h : Leased s) (hCall : s.calls i = .working copy leasedAt phase)
    (hg : GivesUp s (.operate i input)) : Leased (operate cfg s i copy leasedAt phase input) := by
  constructor
  · intro j copy' leasedAt' outcome hc'
    rcases calls_operate_cases _ _ _ _ _ _ hc' with ⟨rfl, rfl, -, hn⟩ | ⟨hj, hb⟩
    · exact (h.givesUp_iff cfg hCall).mp hg outcome hn.symm
    · intro hl
      rw [leaseOf, (unmoved_operate ..).now] at hl
      obtain ⟨timed, ht, hLive, hv⟩ := get_eq_some_iff.mp hl
      rcases leases_operate_cases ht with ht | ⟨hOwn, -⟩
      · exact h.released j copy' leasedAt' outcome hb (get_eq_some_iff.mpr ⟨timed, ht, hLive, hv⟩)
      · exact hj (hv.symm.trans hOwn)
  · intro j hc key timed ht hv
    by_cases hj : j = i
    · -- after an operation a call is no more to take its lease
      subst hj
      have hp := hc _ _ _ (calls_operate_self cfg s copy leasedAt phase input)
      unfold nextPhase at hp
      cases phase <;> simp only [proceed, recover] at hp <;> split_ifs at hp
    · rw [calls_operate_of_ne _ _ _ _ _ _ hj] at hc
      rcases leases_operate_cases ht with ht | ⟨hOwn, -⟩
      · exact h.fresh j hc key timed ht hv
      · exact hj (hv.symm.trans hOwn)

theorem Leased.step (h : Leased s) (hg : GivesUp s action) : Leased (step cfg s action) := by
  rcases step_cases cfg s action with hq | ⟨ms, rfl⟩ | ⟨stream, fields, rfl⟩ |
    ⟨i, input, copy, leasedAt, phase, rfl, hc, hs⟩
  · exact h.quiet hq
  · refine ⟨fun i copy leasedAt outcome hc hl => ?_, h.fresh⟩
    exact h.released i copy leasedAt outcome hc (get_of_get_later (Nat.le_add_right _ ms) hl)
  · exact ⟨h.released, h.fresh⟩
  · rw [hs]
    exact h.operate hc hg

theorem Leased.givesUp_of_released (h : Leased s)
    (hr : Released (Queue.step cfg s action)) : GivesUp s action := by
  cases action with
  | operate i input =>
    cases hc : s.calls i with
    | idle =>
      intro copy leasedAt phase hw
      rw [hc] at hw
      cases hw
    | working copy leasedAt phase =>
      refine (h.givesUp_iff cfg hc).mpr ?_
      intro outcome hn
      simp only [Queue.step, hc] at hr
      have hs := @calls_operate_self _ _ cfg s i copy leasedAt phase input
      rw [hn] at hs
      exact hr i copy _ outcome hs
  | _ => trivial

/-- Every call that returns has given up its lease exactly if no operation ends a call that
still has one. -/
theorem released_iff_givesUp (cfg : Config) (actions : List (Action ι)) :
    (∀ earlier later, actions = earlier ++ later → Released (run cfg State.init earlier)) ↔
      Trace.Along (step cfg) GivesUp State.init actions := by
  have hs : ∀ (s : State ι) (action : Action ι), Leased s → GivesUp s action →
      Leased (step cfg s action) := fun _ _ => Leased.step
  exact Trace.reached_iff_along (fun _ => Leased.released) hs
    (fun _ _ => Leased.givesUp_of_released) leased_init

end Released

/-! ## Runs of a few calls -/

/-- Leases of two minutes. -/
def twoMinutes : Config where
  upstreamBaseUrl := some "http://upstream"
  jobMaxDeliveryAttempts := 5
  jobProcessLeaseSecs := 120
  resultTtlSecs := 3600
  resultKeyPrefix := "ai:result:"
  callbackRetryInitialDelayMs := 1000
  streamMaxLen := 0

/-- An operation that ends like this; the upstream responds with an empty body. -/
def ending (outcome : Outcome) : Input where
  outcome := outcome
  message := "timed out"
  clock := 0
  upstream := .responded 200 [] (some [])
  removed := 0

/-- The next operations of a call, all of them performed. -/
def operations (i : ι) (n : Nat) : List (Action ι) :=
  List.replicate n (.operate i (ending .done))

/-- A worker takes the lease and is to load the body of the job. -/
def firstWorker : List (Action (Fin 3)) :=
  [.add "jobs" [("job_id", .text "j1")], .read 0 "jobs"] ++ operations 0 3

/-- A reclaimer takes the entry over. -/
def takenOver (i : Fin 3) : List (Action (Fin 3)) :=
  .claim i { stream := "jobs", id := 1 } :: operations i 3

/-- A worker is to store its result when a reclaimer takes a copy of the entry. -/
def copied : List (Action (Fin 3)) :=
  firstWorker ++ operations 0 2 ++ [.tick 30000, .claim 1 { stream := "jobs", id := 1 }]

/-- The body cannot be loaded, and the lease is given up. -/
def givenUp (i : Fin 3) : List (Action (Fin 3)) :=
  [.operate i (ending .failed), .operate i (ending .done)]

/-- The worker gives up before its lease expires. -/
theorem takenOver_exclusive :
    let actions := firstWorker ++ givenUp 0 ++ takenOver 1
    running twoMinutes (run twoMinutes State.init actions) "j1" 1 = true ∧
      Exclusive twoMinutes (run twoMinutes State.init actions) :=
  ⟨by decide +kernel, exclusive_of_releasesOwn (by decide +kernel) _ [] (List.append_nil _).symm⟩

/-- The worker outlives its lease and gives up the one of a reclaimer, so that a second
reclaimer takes a lease while that of the first one is still valid.  The entry was idle for
half a minute at least whenever it was taken over. -/
def overtaken : List (Action (Fin 3)) :=
  firstWorker ++ [.tick 120000] ++ takenOver 1 ++ [.tick 30000] ++ givenUp 0 ++ takenOver 2

/-- The attempt is not counted, and the call returns. -/
theorem uncounted_not_released :
    ¬ Released (run twoMinutes State.init ([.add "jobs" [("job_id", .text "j1")], .read 0 "jobs"] ++
      operations (0 : Fin 1) 1 ++ [.operate 0 (ending .failed)])) :=
  fun h => absurd (h 0 _ _ _ rfl) (by decide +kernel)

theorem overtaken_not_exclusive :
    running twoMinutes (run twoMinutes State.init overtaken) "j1" 1 = true ∧
      running twoMinutes (run twoMinutes State.init overtaken) "j1" 2 = true ∧
      ¬ Exclusive twoMinutes (run twoMinutes State.init overtaken) := by
  have hf : running twoMinutes (run twoMinutes State.init overtaken) "j1" 1 = true := by
    decide +kernel
  have hs : running twoMinutes (run twoMinutes State.init overtaken) "j1" 2 = true := by
    decide +kernel
  refine ⟨hf, hs, ?_⟩
  intro he
  exact absurd (he "j1" 1 2 hf hs) (by decide)

end Spacegate.AiGateway.Queue
