import Spacegate.AiGateway.QueueLease

/-!
# Delivery attempts

A call counts its attempt under a key of the job before it begins `process_job`, and puts the
job into the DLQ instead once the count exceeds the maximum.  Whatever other calls do, and
wherever they stop, no two calls get the same count, so `process_job` begins at most as often
as the maximum allows before the job is completed.  But the count is cut to 32 bits, and a
job that is delivered more often than that begins anew.
-/

namespace Spacegate.AiGateway.Queue

open Foundation Redis Function List
open Foundation.Expiring

variable {ι : Type} {cfg : Config} {jobId : String}

/-- The attempt with which `process_job` begins for the job. -/
def startsJob (cfg : Config) (jobId : String) (s : State ι) : Action ι → Option Nat
  | .operate i input =>
    match s.calls i with
    | .working copy _ (.expire n) =>
      if copy.jobId = jobId ∧ input.outcome = .done ∧ n ≤ cfg.jobMaxDeliveryAttempts then some n
      else none
    | _ => none
  | _ => none

/-- `process_job` ends for the job without an error. -/
def completesJob (cfg : Config) (jobId : String) (s : State ι) : Action ι → Bool
  | .operate i input =>
    match s.calls i with
    | .working copy _ phase =>
      match nextPhase cfg copy input s.redis phase with
      | .ack => copy.jobId == jobId
      | _ => false
    | .idle => false
  | _ => false

/-- The queue, with the attempts with which `process_job` has begun for the job. -/
structure Attempted (ι : Type) where
  state : State ι
  started : List Nat

def Attempted.init : Attempted ι where
  state := .init
  started := []

/-- The attempts are counted for this job alone, and the count does not expire. -/
def KeepsCount (jobId : String) (s : State ι) : Action ι → Prop
  | .tick ms => ∀ timed, s.redis.attempts (jobAttemptKey jobId) = some timed →
      timed.Live (s.redis.now + ms)
  | .operate i _ => ∀ copy leasedAt phase, s.calls i = .working copy leasedAt phase →
      jobAttemptKey copy.jobId = jobAttemptKey jobId → copy.jobId = jobId
  | _ => True

/-- The job is not completed, and its count is kept. -/
def Uncompleted (cfg : Config) (jobId : String) (a : Attempted ι) (action : Action ι) : Prop :=
  KeepsCount jobId a.state action ∧ completesJob cfg jobId a.state action = false

/-- The count fits into 32 bits. -/
def CountFits (jobId : String) (a : Attempted ι) : Action ι → Prop
  | .operate i _ => ∀ copy leasedAt, a.state.calls i = .working copy leasedAt .increment →
      copy.jobId = jobId → a.state.redis.attemptsOf jobId + 1 < 2 ^ 32
  | _ => True

variable [DecidableEq ι]

def record (cfg : Config) (jobId : String) (a : Attempted ι) (action : Action ι) : Attempted ι where
  state := step cfg a.state action
  started := (startsJob cfg jobId a.state action).toList ++ a.started

/-- `process_job` has not begun too often, and once it has begun as often as it may, a call
that counts one more attempt puts the job into the DLQ. -/
structure AttemptsBounded (cfg : Config) (jobId : String) (a : Attempted ι) : Prop where
  bounded : a.started.length ≤ cfg.jobMaxDeliveryAttempts
  deadLettered : a.started.length = cfg.jobMaxDeliveryAttempts → ∀ i copy leasedAt attempt,
    a.state.calls i = .working copy leasedAt (.expire attempt) → copy.jobId = jobId →
    ∀ input input' : Input, input.outcome = .done → input'.outcome = .done →
      dlqEntry copy attempt input'.clock ∈
        (run cfg a.state [.operate i input, .operate i input']).redis.dlq

/-! ## What the steps keep -/

/-- The calls in these phases matter to the count. -/
def Phase.counts : Phase → Bool
  | .expire _ | .ack | .clearAttempt => true
  | _ => false

/-- Attempts that began and those that wait for it have different numbers up to the count. -/
structure Counted (cfg : Config) (jobId : String) (a : Attempted ι) : Prop where
  live : ∀ timed, a.state.redis.attempts (jobAttemptKey jobId) = some timed →
    timed.Live a.state.redis.now
  nodup : a.started.Nodup
  started : ∀ n ∈ a.started,
    1 ≤ n ∧ n ≤ cfg.jobMaxDeliveryAttempts ∧ n ≤ a.state.redis.attemptsOf jobId
  waiting : ∀ i copy leasedAt n, a.state.calls i = .working copy leasedAt (.expire n) →
    copy.jobId = jobId → 1 ≤ n ∧ n ≤ a.state.redis.attemptsOf jobId ∧ n ∉ a.started
  distinct : ∀ i j copy copy' leasedAt leasedAt' n,
    a.state.calls i = .working copy leasedAt (.expire n) → copy.jobId = jobId →
    a.state.calls j = .working copy' leasedAt' (.expire n) → copy'.jobId = jobId → i = j
  uncompleted : ∀ i copy leasedAt phase, a.state.calls i = .working copy leasedAt phase →
    copy.jobId = jobId → phase ≠ .ack ∧ phase ≠ .clearAttempt

variable {a : Attempted ι}

omit [DecidableEq ι] in
theorem counted_init : Counted cfg jobId (Attempted.init : Attempted ι) := by
  refine ⟨?_, nodup_nil, ?_, ?_, ?_, ?_⟩
  · rintro timed ⟨⟩
  · rintro n ⟨⟩
  · rintro i copy leasedAt n ⟨⟩
  · rintro i j copy copy' leasedAt leasedAt' n ⟨⟩
  · rintro i copy leasedAt phase ⟨⟩

omit [DecidableEq ι] in
theorem Counted.subset_range (h : Counted cfg jobId a) :
    a.started ⊆ range' 1 cfg.jobMaxDeliveryAttempts := by
  intro n hn
  have hLe := h.started n hn
  exact mem_range'_1.mpr (by omega)

theorem Counted.attemptsBounded (h : Counted cfg jobId a) : AttemptsBounded cfg jobId a := by
  have hs := subperm_of_subset h.nodup h.subset_range
  constructor
  · simpa using hs.length_le
  · intro hMax i copy leasedAt n hc hJob input input' hd hd'
    obtain ⟨hPos, -, hNot⟩ := h.waiting i copy leasedAt n hc hJob
    have hLt : cfg.jobMaxDeliveryAttempts < n := by
      -- all numbers up to the maximum have been used
      by_contra hLe
      have hp := hs.perm_of_length_le (by simp [hMax])
      exact hNot (hp.mem_iff.mpr (mem_range'_1.mpr (by omega)))
    simp [run, step, hc, operate, nextPhase, proceed, hd, hd', hLt, effect]

omit [DecidableEq ι] in
/-- Nothing changes while no call enters a phase that matters. -/
theorem Counted.mono {s : State ι} (h : Counted cfg jobId a)
    (hl : ∀ timed, s.redis.attempts (jobAttemptKey jobId) = some timed → timed.Live s.redis.now)
    (hCount : a.state.redis.attemptsOf jobId ≤ s.redis.attemptsOf jobId)
    (hc : ∀ i copy leasedAt phase, s.calls i = .working copy leasedAt phase →
      copy.jobId = jobId → phase.counts = true → a.state.calls i = .working copy leasedAt phase) :
    Counted cfg jobId { a with state := s } := by
  refine ⟨hl, h.nodup, ?_, ?_, ?_, ?_⟩
  · intro n hn
    obtain ⟨hPos, hMax, hLe⟩ := h.started n hn
    exact ⟨hPos, hMax, hLe.trans hCount⟩
  · intro i copy leasedAt n hCall hJob
    obtain ⟨hPos, hLe, hNot⟩ := h.waiting i copy leasedAt n (hc i _ _ _ hCall hJob rfl) hJob
    exact ⟨hPos, hLe.trans hCount, hNot⟩
  · intro i j copy copy' leasedAt leasedAt' n hi hJob hj hj'
    exact h.distinct i j copy copy' leasedAt leasedAt' n (hc i _ _ _ hi hJob rfl) hJob
      (hc j _ _ _ hj hj' rfl) hj'
  · intro i copy leasedAt phase hCall hJob
    by_cases hCounts : phase.counts = true
    · exact h.uncompleted i copy leasedAt phase (hc i _ _ _ hCall hJob hCounts) hJob
    · constructor <;> rintro rfl <;> exact hCounts rfl

/-! ## Operations -/

section Effect

variable {i : ι} {copy : Copy} {input : Input} {r : Redis ι} {phase : Phase}

omit [DecidableEq ι]

theorem counts_nextPhase (h : (nextPhase cfg copy input r phase).counts = true) :
    phase = .increment ∧ input.outcome = .done ∨ nextPhase cfg copy input r phase = .ack ∨
      phase = .ack := by
  unfold nextPhase at h ⊢
  cases phase <;> simp only [proceed, recover] at h ⊢ <;> split_ifs at h ⊢ <;>
    simp_all [Phase.counts]

theorem attempts_effect_of_ne {key : String} (h : jobAttemptKey copy.jobId ≠ key) :
    (effect cfg i copy input r phase).attempts key = r.attempts key := by
  cases phase with
  | acquire =>
    simp only [effect]
    split_ifs <;> rfl
  | increment | expire attempt | clearAttempt => exact update_of_ne h.symm _ _
  | _ => rfl

/-- The count under the key of the job is this one, and it has not expired. -/
def Redis.Counts (r : Redis ι) (jobId : String) (n : Nat) : Prop :=
  r.attemptsOf jobId = n ∧
    ∀ timed, r.attempts (jobAttemptKey jobId) = some timed → timed.Live r.now

theorem counts_increment :
    (effect cfg i copy input r .increment).Counts copy.jobId (r.attemptsOf copy.jobId + 1) := by
  have hl : Timed.Live r.now { value := r.attemptsOf copy.jobId + 1
                               deadline := (r.liveAttempts copy.jobId).bind (·.deadline) } := by
    intro deadline hd
    obtain ⟨timed, ht, hMem⟩ := Option.bind_eq_some_iff.mp hd
    exact of_decide_eq_true (Option.filter_eq_some_iff.mp ht).2 deadline hMem
  constructor
  · have hGet : get r.now (effect cfg i copy input r .increment).attempts
        (jobAttemptKey copy.jobId) = some (r.attemptsOf copy.jobId + 1) :=
      get_eq_some_iff.mpr ⟨_, update_self _ _ _, hl, rfl⟩
    exact congrArg (·.getD 0) hGet
  · intro timed ht
    simp only [effect, setAttempt, update_self] at ht
    cases ht
    exact hl

theorem counts_expire {n : Nat} :
    (effect cfg i copy input r (.expire n)).Counts copy.jobId (r.attemptsOf copy.jobId) := by
  have hl : ∀ timed : Timed Nat, Timed.Live r.now { timed with
      deadline := some (r.now + max cfg.resultTtlSecs 300 * 1000) } := by
    rintro timed deadline ⟨⟩
    omega
  constructor
  · simp only [effect, attemptsOf, setAttempt, Expiring.get, update_self, liveAttempts]
    cases ht : r.attempts (jobAttemptKey copy.jobId) with
    | none => rfl
    | some timed =>
      have hLater := hl timed
      by_cases hNow : timed.Live r.now <;> simp [Option.filter, hNow, hLater]
  · intro timed ht
    simp only [effect, setAttempt, update_self] at ht
    obtain ⟨before, -, rfl⟩ := Option.map_eq_some_iff.mp ht
    exact hl before

/-- The count is cleared only by calls that have completed the job. -/
theorem counts_effect {n : Nat} (h : r.Counts jobId n)
    (hKey : jobAttemptKey copy.jobId = jobAttemptKey jobId → copy.jobId = jobId)
    (hc : copy.jobId = jobId → phase ≠ .clearAttempt) :
    ∃ m, n ≤ m ∧ (effect cfg i copy input r phase).Counts jobId m := by
  obtain ⟨rfl, hl⟩ := h
  by_cases hJob : copy.jobId = jobId
  · subst hJob
    cases phase with
    | increment => exact ⟨_, Nat.le_succ _, counts_increment⟩
    | expire attempt => exact ⟨_, le_rfl, counts_expire⟩
    | clearAttempt => exact absurd rfl (hc rfl)
    | acquire =>
      refine ⟨_, le_rfl, ?_⟩
      simp only [effect]
      split_ifs <;> exact ⟨rfl, hl⟩
    | _ => exact ⟨_, le_rfl, rfl, hl⟩
  · have hs := @attempts_effect_of_ne _ cfg i copy input r phase _ (mt hKey hJob)
    refine ⟨_, le_rfl, ?_, ?_⟩
    · rw [attemptsOf, (unmoved_effect ..).now, get_congr hs, attemptsOf]
    · rw [hs, (unmoved_effect ..).now]
      exact hl

end Effect

section Operate

variable {i : ι} {copy : Copy} {leasedAt : Nat} {phase : Phase} {input : Input}

variable (h : Counted cfg jobId a)
include h

theorem Counted.operate (hCall : a.state.calls i = .working copy leasedAt phase)
    (hKey : jobAttemptKey copy.jobId = jobAttemptKey jobId → copy.jobId = jobId)
    (hn : copy.jobId = jobId → (nextPhase cfg copy input a.state.redis phase).counts = false) :
    Counted cfg jobId { a with state := operate cfg a.state i copy leasedAt phase input } := by
  obtain ⟨n, hLe, hCount, hl⟩ : ∃ n, a.state.redis.attemptsOf jobId ≤ n ∧
      (Queue.operate cfg a.state i copy leasedAt phase input).redis.Counts jobId n := by
    rw [redis_operate]
    split_ifs
    · exact ⟨_, le_rfl, rfl, h.live⟩
    · exact counts_effect ⟨rfl, h.live⟩ hKey fun hJob => (h.uncompleted i _ _ _ hCall hJob).2
  refine h.mono hl (hCount ▸ hLe) ?_
  intro j copy' leasedAt' phase' hc' hJob hc
  rcases calls_operate_cases _ _ _ _ _ _ hc' with ⟨-, rfl, -, rfl⟩ | ⟨-, hb⟩
  · rw [hn hJob] at hc
    cases hc
  · exact hb

/-- The call has the next number. -/
theorem Counted.increment (hJob : copy.jobId = jobId)
    (hd : input.outcome = .done) (hf : a.state.redis.attemptsOf jobId + 1 < 2 ^ 32) :
    Counted cfg jobId
      { a with state := Queue.operate cfg a.state i copy leasedAt .increment input } := by
  subst hJob
  obtain ⟨hCount, hl⟩ : (Queue.operate cfg a.state i copy leasedAt .increment input).redis.Counts
      copy.jobId (a.state.redis.attemptsOf copy.jobId + 1) := by
    rw [redis_operate, if_neg (by simp [hd])]
    exact counts_increment
  have hc : ∀ {j copy' leasedAt' phase'},
      (Queue.operate cfg a.state i copy leasedAt .increment input).calls j =
        .working copy' leasedAt' phase' →
      j = i ∧ phase' = .expire (a.state.redis.attemptsOf copy.jobId + 1) ∨
        a.state.calls j = .working copy' leasedAt' phase' := by
    intro j copy' leasedAt' phase' hCall
    rcases calls_operate_cases _ _ _ _ _ _ hCall with ⟨rfl, -, -, rfl⟩ | ⟨-, hb⟩
    · exact .inl ⟨rfl, by rw [nextPhase, if_pos hd, proceed, Nat.mod_eq_of_lt hf]⟩
    · exact .inr hb
  refine ⟨hl, h.nodup, ?_, ?_, ?_, ?_⟩
  · intro n hn
    have hLe := h.started n hn
    exact ⟨hLe.1, hLe.2.1, by rw [hCount]; omega⟩
  · intro j copy' leasedAt' n hCall hJob
    rw [hCount]
    rcases hc hCall with ⟨-, hp⟩ | hb
    · cases hp
      refine ⟨by omega, le_rfl, fun hn => ?_⟩
      have hLe := h.started _ hn
      omega
    · obtain ⟨hPos, hLe, hNot⟩ := h.waiting j copy' leasedAt' n hb hJob
      exact ⟨hPos, by omega, hNot⟩
  · intro j k copy' copy'' leasedAt' leasedAt'' n hj hJob hk hj'
    rcases hc hj with ⟨rfl, hp⟩ | hb
    · cases hp
      rcases hc hk with ⟨rfl, -⟩ | hb
      · rfl
      · have hw := h.waiting k copy'' leasedAt'' _ hb hj'
        omega
    · rcases hc hk with ⟨rfl, hp⟩ | hb'
      · cases hp
        have hw := h.waiting j copy' leasedAt' _ hb hJob
        omega
      · exact h.distinct j k copy' copy'' leasedAt' leasedAt'' n hb hJob hb' hj'
  · intro j copy' leasedAt' phase' hCall hJob
    rcases hc hCall with ⟨-, rfl⟩ | hb
    · simp
    · exact h.uncompleted j copy' leasedAt' phase' hb hJob

/-- The number of a call that begins is used up. -/
theorem Counted.start {n : Nat}
    (hc : a.state.calls i = .working copy leasedAt (.expire n)) (hJob : copy.jobId = jobId)
    (hd : input.outcome = .done) (hn : n ≤ cfg.jobMaxDeliveryAttempts) :
    Counted cfg jobId { state := Queue.operate cfg a.state i copy leasedAt (.expire n) input
                        started := n :: a.started } := by
  obtain ⟨hPos, hLe, hNot⟩ := h.waiting i copy leasedAt n hc hJob
  have hNext : (nextPhase cfg copy input a.state.redis (.expire n)).counts = false := by
    simp only [nextPhase, hd, if_true, proceed]
    split_ifs <;> rfl
  have hk : Counted cfg jobId { a with
      state := Queue.operate cfg a.state i copy leasedAt (.expire n) input } :=
    h.operate hc (fun _ => hJob) fun _ => hNext
  have hCount : (Queue.operate cfg a.state i copy leasedAt (.expire n) input).redis.attemptsOf
      jobId = a.state.redis.attemptsOf jobId := by
    rw [redis_operate, if_neg (by simp [hd]), ← hJob]
    exact counts_expire.1
  refine { hk with nodup := nodup_cons.mpr ⟨hNot, h.nodup⟩, started := ?_, waiting := ?_ }
  · intro m hm
    rcases mem_cons.mp hm with rfl | hm
    · exact ⟨hPos, hn, hCount ▸ hLe⟩
    · exact hk.started m hm
  · intro j copy' leasedAt' m hc' hj'
    obtain ⟨hp', hLe', hn'⟩ := hk.waiting j copy' leasedAt' m hc' hj'
    refine ⟨hp', hLe', fun hm => (mem_cons.mp hm).elim ?_ hn'⟩
    rintro rfl
    -- two calls with the same number are one, and that one has begun
    rcases calls_operate_cases _ _ _ _ _ _ hc' with ⟨-, -, -, hp⟩ | ⟨hj, hb⟩
    · rw [← hp] at hNext
      cases hNext
    · exact hj (h.distinct j i copy' copy leasedAt' leasedAt m hb hj' hc hJob)

theorem Counted.working (hc : a.state.calls i = .working copy leasedAt phase)
    (hKey : jobAttemptKey copy.jobId = jobAttemptKey jobId → copy.jobId = jobId)
    (hf : CountFits jobId a (.operate i input))
    (ho : completesJob cfg jobId a.state (.operate i input) = false) :
    Counted cfg jobId (record cfg jobId a (.operate i input)) := by
  have hr : record cfg jobId a (.operate i input) =
      { state := Queue.operate cfg a.state i copy leasedAt phase input
        started := (startsJob cfg jobId a.state (.operate i input)).toList ++ a.started } := by
    simp [record, step, hc]
  rw [hr]
  cases hs : startsJob cfg jobId a.state (.operate i input) with
  | some n =>
    simp only [startsJob, hc] at hs
    split at hs
    · rename_i hp
      cases hp
      split_ifs at hs with hb
      cases hs
      exact h.start hc hb.1 hb.2.1 hb.2.2
    · cases hs
  | none =>
    by_cases hn : copy.jobId = jobId ∧ (nextPhase cfg copy input a.state.redis phase).counts = true
    · obtain ⟨hJob, hCounts⟩ := hn
      rcases counts_nextPhase hCounts with ⟨rfl, hd⟩ | hAck | rfl
      · exact h.increment hJob hd (hf copy leasedAt hc hJob)
      · simp [completesJob, hc, hAck, hJob] at ho
      · exact absurd rfl (h.uncompleted i _ _ _ hc hJob).1
    · exact h.operate hc hKey fun hJob => by simpa [hJob] using hn

omit h

end Operate

/-! ## Runs -/

omit [DecidableEq ι] in
theorem Counted.quiet {s : State ι} (h : Counted cfg jobId a) (hq : Quiet cfg a.state s) :
    Counted cfg jobId { a with state := s } := by
  refine h.mono ?_ ?_ ?_
  · rw [hq.attempts, hq.now]
    exact h.live
  · rw [attemptsOf, attemptsOf, hq.attempts, hq.now]
  · intro i copy leasedAt phase hCall hJob hc
    rcases hq.working hCall with hb | ⟨hBegin, -⟩
    · exact hb
    · have hh := (begin_eq_working hBegin).2
      cases phase <;> cases hh <;> cases hc

theorem Counted.step {action : Action ι} (h : Counted cfg jobId a)
    (ho : Uncompleted cfg jobId a action) (hf : CountFits jobId a action) :
    Counted cfg jobId (record cfg jobId a action) := by
  obtain ⟨hk, ho⟩ := ho
  cases action with
  | tick ms =>
    refine h.mono hk (le_of_eq ?_) fun _ _ _ _ hc _ _ => hc
    simp only [attemptsOf, Expiring.get, Queue.step]
    cases ht : a.state.redis.attempts (jobAttemptKey jobId) with
    | none => rfl
    | some timed => simp [h.live timed ht, hk timed ht]
  | add stream fields => exact h.mono h.live le_rfl fun _ _ _ _ hc _ _ => hc
  | trim stream removed => exact h.quiet (Quiet.trim stream removed)
  | read i stream => exact h.quiet (Quiet.read i stream)
  | claim i entry => exact h.quiet (Quiet.claim i entry)
  | operate i input =>
    cases hc : a.state.calls i with
    | idle =>
      have hs : record cfg jobId a (.operate i input) = a := by
        simp [record, Queue.step, startsJob, hc]
      rw [hs]
      exact h
    | working copy leasedAt phase => exact h.working hc (hk _ _ _ hc) hf ho

/-- As long as the job is not completed and its attempts fit into 32 bits, `process_job` begins
at most as often as it may, and the job goes to the DLQ afterwards. -/
theorem attemptsBounded_of_countFits {actions : List (Action ι)}
    (hOpen : Trace.Along (record cfg jobId) (Uncompleted cfg jobId) .init actions)
    (hFits : Trace.Along (record cfg jobId) (CountFits jobId) .init actions) :
    AttemptsBounded cfg jobId (actions.foldl (record cfg jobId) .init) := by
  have hRun : ∀ a : Attempted ι, Counted cfg jobId a →
      Trace.Along (record cfg jobId) (Uncompleted cfg jobId) a actions →
      Trace.Along (record cfg jobId) (CountFits jobId) a actions →
      Counted cfg jobId (actions.foldl (record cfg jobId) a) := by
    clear hOpen hFits
    induction actions with
    | nil => exact fun _ h _ _ => h
    | cons action actions ih =>
      intro a h hOpen hFits
      exact ih _ (h.step hOpen.1 hFits.1) hOpen.2 hFits.2
  exact (hRun _ counted_init hOpen hFits).attemptsBounded

def oneJob : Copy where
  entry := { stream := "jobs", id := 1 }
  fields := [("job_id", .text "j1")]

def oneAttempt : Config := { twoMinutes with jobMaxDeliveryAttempts := 1 }

/-- `process_job` begins and stops, and a reclaimer counts one more attempt. -/
def begunOnce : List (Action Nat) :=
  [.add "jobs" oneJob.fields, .read 0 "jobs", .operate 0 (ending .done), .operate 0 (ending .done),
    .operate 0 (ending .done), .tick 120000, .claim 1 oneJob.entry, .operate 1 (ending .done),
    .operate 1 (ending .done)]

/-- It has begun as often as it may, and the reclaimer would put the job into the DLQ. -/
theorem begunOnce_bounded :
    (begunOnce.foldl (record oneAttempt "j1") .init).started = [1] ∧
      AttemptsBounded oneAttempt "j1" (begunOnce.foldl (record oneAttempt "j1") .init) := by
  have hStarted : (begunOnce.foldl (record oneAttempt "j1") .init).started = [1] := by
    decide +kernel
  have hOperate : ∀ (a : Attempted Nat) i input leasedAt phase,
      a.state.calls i = .working oneJob leasedAt phase →
      completesJob oneAttempt "j1" a.state (.operate i input) = false →
        Uncompleted oneAttempt "j1" a (.operate i input) := by
    intro a i input leasedAt phase hc hn
    refine ⟨fun copy leasedAt' phase' hc' _ => ?_, hn⟩
    cases hc.symm.trans hc'
    rfl
  refine ⟨hStarted, attemptsBounded_of_countFits ?_ ?_⟩
  · refine ⟨⟨trivial, rfl⟩, ⟨trivial, rfl⟩, hOperate _ _ _ _ _ rfl rfl, hOperate _ _ _ _ _ rfl rfl,
      hOperate _ _ _ _ _ rfl rfl, ⟨?_, rfl⟩, ⟨trivial, rfl⟩, hOperate _ _ _ _ _ rfl rfl,
      hOperate _ _ _ _ _ rfl rfl, trivial⟩
    rintro timed ⟨⟩
    decide +kernel
  · exact ⟨trivial, trivial, fun _ _ hc => (by cases hc), fun _ _ _ _ => (by decide +kernel),
      fun _ _ hc => (by cases hc), trivial, trivial, fun _ _ hc => (by cases hc),
      fun _ _ _ _ => (by decide +kernel), trivial⟩

/-! ## More deliveries than 32 bits count -/

def noAttempts : Config := { twoMinutes with jobMaxDeliveryAttempts := 0 }

/-- A reclaimer counts an attempt and stops, and its lease expires. -/
def stopped (n : Nat) : List (Action Nat) :=
  [.claim n oneJob.entry, .operate n (ending .done), .operate n (ending .done), .tick 120000]

/-- The job is read once and reclaimed again and again. -/
def stoppedOften : Nat → List (Action Nat)
  | 0 => [.add "jobs" oneJob.fields, .read 0 "jobs"]
  | n + 1 => stoppedOften n ++ stopped (n + 1)

/-- After these deliveries. -/
def counted (n : Nat) : Attempted Nat where
  started := []
  state :=
    { redis := { (State.init : State Nat).redis with
        now := 120000 * n
        nextId := 2
        streams := update (fun _ => []) "jobs" [(1, oneJob.fields)]
        lastDelivered := update (fun _ => 0) "jobs" 1
        pending := [oneJob.entry]
        leases := update (fun _ => none) (jobLeaseKey "j1")
          (if n = 0 then none else some { value := n, deadline := some (120000 * n) })
        attempts := update (fun _ => none) (jobAttemptKey "j1")
          (if n = 0 then none else some { value := n, deadline := none }) }
      calls := fun i =>
        if i = 0 then .working oneJob 0 .acquire
        else if i ≤ n then .working oneJob (120000 * (i - 1)) (.expire (i % 2 ^ 32))
        else .idle
      log := [.added oneJob.entry oneJob.fields] }

/-- The next call is in this phase. -/
def calling (n : Nat) (r : Redis Nat) (leasedAt : Nat) (phase : Phase) : Attempted Nat where
  started := []
  state :=
    { (counted n).state with
      redis := r
      calls := update (counted n).state.calls (n + 1) (.working oneJob leasedAt phase) }

theorem record_calling (n : Nat) (r : Redis Nat) (leasedAt : Nat) {phase : Phase}
    (h : phase = .acquire ∨ phase = .increment) :
    record noAttempts "j1" (calling n r leasedAt phase) (.operate (n + 1) (ending .done)) =
        calling n (effect noAttempts (n + 1) oneJob (ending .done) r phase)
          (leaseTime r.now leasedAt phase) (proceed noAttempts oneJob (ending .done) r phase) ∧
      Uncompleted noAttempts "j1" (calling n r leasedAt phase)
        (.operate (n + 1) (ending .done)) := by
  have hc : (calling n r leasedAt phase).state.calls (n + 1) = .working oneJob leasedAt phase :=
    update_self _ _ _
  refine ⟨?_, ?_, ?_⟩
  · rcases h with rfl | rfl <;>
      simp [record, step, operate, startsJob, nextPhase, ending, begun, performed, calling]
  · intro copy leasedAt' phase' hw _
    rw [hc] at hw
    cases hw
    rfl
  · rcases h with rfl | rfl <;> simp [completesJob, hc, nextPhase, ending, proceed]
    split_ifs <;> rfl

/-- The next call has taken its lease. -/
def leased (n : Nat) : Redis Nat :=
  (counted n).state.redis.setLease (jobLeaseKey "j1")
    (some { value := n + 1, deadline := some (120000 * (n + 1)) })

theorem counted_succ (n : Nat) :
    (stopped (n + 1)).foldl (record noAttempts "j1") (counted n) = counted (n + 1) ∧
      Trace.Along (record noAttempts "j1") (Uncompleted noAttempts "j1") (counted n)
        (stopped (n + 1)) := by
  have hJob : oneJob.jobId = "j1" := rfl
  have hf : (counted n).state.redis.leaseOf "j1" = none := by
    by_cases hn : n = 0 <;> simp [counted, leaseOf, Expiring.get, Timed.Live, hn]
  have hCount : (leased n).attemptsOf "j1" = n := by
    by_cases hn : n = 0 <;>
      simp [leased, setLease, counted, attemptsOf, Expiring.get, Timed.Live, hn]
  have hCalls : update (counted n).state.calls (n + 1)
      (.working oneJob (120000 * n) (.expire ((n + 1) % 2 ^ 32))) =
        (counted (n + 1)).state.calls := by
    funext i
    by_cases hi : i = n + 1
    · simp [hi, counted]
    · have hLe : i ≤ n + 1 ↔ i ≤ n := by omega
      simp [update_of_ne hi, counted, hLe]
  have hc : record noAttempts "j1" (counted n) (.claim (n + 1) oneJob.entry) =
      calling n (counted n).state.redis 0 .acquire := by
    simp [record, step, counted, oneJob, startsJob]
    rfl
  have hl : record noAttempts "j1" (calling n (counted n).state.redis 0 .acquire)
      (.operate (n + 1) (ending .done)) = calling n (leased n) (120000 * n) .increment := by
    rw [(record_calling n (counted n).state.redis 0 (.inl rfl)).1]
    simp only [effect, proceed, hJob, hf, Option.isSome_none, Bool.false_eq_true, if_false]
    rfl
  have ha : record noAttempts "j1" (calling n (leased n) (120000 * n) .increment)
      (.operate (n + 1) (ending .done)) =
      { counted (n + 1) with
        state := { (counted (n + 1)).state with
          redis := { (counted (n + 1)).state.redis with now := 120000 * n } } } := by
    rw [(record_calling n (leased n) (120000 * n) (.inr rfl)).1, calling,
      leaseTime_of_ne_acquire (by simp), proceed, hJob, hCount, hCalls]
    by_cases hn : n = 0 <;>
      simp [effect, hJob, leased, setLease, setAttempt, attemptsOf,
        liveAttempts, counted, Expiring.get, Timed.Live, Option.filter, hn]
  constructor
  · simp only [stopped, foldl_cons, foldl_nil, hc, hl, ha]
    rfl
  · simp only [stopped, Trace.Along, hc, hl, ha]
    refine ⟨⟨trivial, rfl⟩, (record_calling _ _ _ (.inl rfl)).2,
      (record_calling _ _ _ (.inr rfl)).2, ⟨?_, rfl⟩, trivial⟩
    simp [KeepsCount, counted, Timed.Live]

theorem counted_stoppedOften (n : Nat) :
    (stoppedOften n).foldl (record noAttempts "j1") .init = counted n ∧
      Trace.Along (record noAttempts "j1") (Uncompleted noAttempts "j1") .init
        (stoppedOften n) := by
  induction n with
  | zero =>
    refine ⟨?_, ⟨trivial, rfl⟩, ⟨trivial, rfl⟩, trivial⟩
    have hc : update (fun _ => .idle) 0 (.working oneJob 0 .acquire) =
        (counted 0).state.calls := by
      funext i
      by_cases hi : i = 0 <;> simp [counted, hi]
    have hk : ∀ (ν : Type) key, update (fun _ : String => (none : Option (Timed ν))) key
        none = fun _ => none := fun ν key => update_eq_self key _
    show Attempted.mk ⟨_, update (fun _ => .idle) 0 (.working oneJob 0 .acquire), _⟩ _ = _
    rw [hc]
    simp only [counted, if_true, hk]
    rfl
  | succ n ih =>
    obtain ⟨hs, ha⟩ := ih
    rw [stoppedOften, foldl_append, Trace.along_append, hs]
    exact ⟨(counted_succ n).1, ha, (counted_succ n).2⟩

theorem counted_starts {n : Nat} (hPos : 0 < n) (hWrap : n % 2 ^ 32 = 0) :
    Uncompleted noAttempts "j1" (counted n) (.operate n (ending .done)) ∧
      (record noAttempts "j1" (counted n) (.operate n (ending .done))).started = [0] := by
  have hc : (counted n).state.calls n = .working oneJob (120000 * (n - 1)) (.expire 0) := by
    simp only [counted, if_neg hPos.ne', if_pos le_rfl, hWrap]
  have hJob : oneJob.jobId = "j1" := rfl
  refine ⟨⟨?_, ?_⟩, ?_⟩
  · intro copy leasedAt phase hw _
    rw [hc] at hw
    cases hw
    rfl
  · simp [completesJob, hc, nextPhase, ending, proceed, noAttempts, twoMinutes]
  · show (startsJob noAttempts "j1" (counted n).state _).toList ++ [] = [0]
    simp [startsJob, hc, hJob, ending, noAttempts]

/-- The last call goes on. -/
def begunAnew (n : Nat) : List (Action Nat) :=
  stoppedOften n ++ [.operate n (ending .done)]

theorem begunAnew_not_bounded {n : Nat} (hPos : 0 < n) (hw : n % 2 ^ 32 = 0) :
    Trace.Along (record noAttempts "j1") (Uncompleted noAttempts "j1") .init (begunAnew n) ∧
      ¬ AttemptsBounded noAttempts "j1" ((begunAnew n).foldl (record noAttempts "j1") .init) := by
  obtain ⟨hState, ha⟩ := counted_stoppedOften n
  obtain ⟨ho, hs⟩ := counted_starts hPos hw
  rw [begunAnew, Trace.along_append, foldl_append, hState]
  refine ⟨⟨ha, ho, trivial⟩, fun h => ?_⟩
  have hb := h.bounded
  rw [foldl_cons, foldl_nil, hs] at hb
  exact absurd hb (by decide)

/-- No attempt is allowed, and after four billion deliveries `process_job` begins. -/
theorem fourBillion_not_bounded :
    Trace.Along (record noAttempts "j1") (Uncompleted noAttempts "j1") .init (begunAnew (2 ^ 32)) ∧
      ¬ AttemptsBounded noAttempts "j1"
        ((begunAnew (2 ^ 32)).foldl (record noAttempts "j1") .init) :=
  begunAnew_not_bounded (Nat.two_pow_pos 32) (Nat.mod_self _)

end Spacegate.AiGateway.Queue
