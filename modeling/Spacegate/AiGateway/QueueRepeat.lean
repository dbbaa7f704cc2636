import Spacegate.AiGateway.QueueLease

/-!
# Jobs that are done again

A reclaimer works on copies of entries that were pending when it took them over.  When its
turn comes, a worker may have completed the job, acknowledged the entry and given up the
lease.  Nothing is looked at again but the lease, so the job is done once more.  If every
call takes its lease while its entry is not completed, no lease being lost in between, no
job is done again.
-/

namespace Spacegate.AiGateway.Queue

open Foundation
open Foundation.Expiring

variable {ι : Type} {cfg : Config} {s : State ι}

/-- `process_job` begins for an entry that was acknowledged after an earlier one. -/
def repeats (later earlier : Event) : Bool :=
  match later, earlier with
  | .started entry, .acked entry' true => entry == entry'
  | _, _ => false

/-- No `process_job` begins for a completed entry. -/
def Unrepeated (log : List Event) : Prop :=
  log.Pairwise fun later earlier => repeats later earlier = false

instance (log : List Event) : Decidable (Unrepeated log) :=
  inferInstanceAs (Decidable (log.Pairwise fun later earlier => repeats later earlier = false))

/-- The lease of the call, if it has one, is valid. -/
def inTime (cfg : Config) (now : Nat) : Call → Bool
  | .idle => true
  | .working _ leasedAt phase => !phase.holdsLease || now < leasedAt + cfg.leaseMs

/-- No lease expires while the call that has taken it is under way. -/
def KeepsLeases (cfg : Config) (s : State ι) : Action ι → Prop
  | .tick ms => ∀ i, inTime cfg (s.redis.now + ms) (s.calls i) = true
  | _ => True

instance [Fintype ι] (action : Action ι) : Decidable (KeepsLeases cfg s action) :=
  match action with
  | .tick ms => inferInstanceAs (Decidable (∀ i, inTime cfg (s.redis.now + ms) (s.calls i) = true))
  | .add _ _ | .trim _ _ | .read _ _ | .claim _ _ | .operate _ _ => .isTrue trivial

/-- A call takes its lease only while its entry is not completed. -/
def takesOpen (s : State ι) : Action ι → Bool
  | .operate i input =>
    match s.calls i with
    | .working copy _ .acquire =>
      input.outcome != .done || (s.redis.leaseOf copy.jobId).isSome ||
        decide (.acked copy.entry true ∉ s.log)
    | _ => true
  | _ => true

/-- The lease is taken, and `process_job` has not begun. -/
def Phase.beforeStart : Phase → Bool
  | .increment | .expire _ => true
  | _ => false

/-- What the steps keep. -/
structure Open (cfg : Config) (s : State ι) : Prop where
  held : Held cfg s
  entries : Entries s
  inTime : ∀ i, inTime cfg s.redis.now (s.calls i) = true
  waiting : ∀ i copy leasedAt phase, s.calls i = .working copy leasedAt phase →
    phase.beforeStart = true → .acked copy.entry true ∉ s.log
  unrepeated : Unrepeated s.log

theorem open_init : Open cfg (State.init : State ι) where
  held := held_init
  entries := entries_init
  inTime := fun _ => rfl
  waiting := fun _ _ _ _ hc => by cases hc
  unrepeated := List.Pairwise.nil

variable {phase : Phase}

theorem Open.valid (h : Open cfg s) {i : ι} {copy : Copy} {leasedAt : Nat}
    (hc : s.calls i = .working copy leasedAt phase) (hh : phase.holdsLease = true) :
    s.redis.now < leasedAt + cfg.leaseMs := by
  have ht := h.inTime i
  rw [hc] at ht
  simpa [Queue.inTime, hh] using ht

theorem holdsLease_of_beforeStart (h : phase.beforeStart = true) : phase.holdsLease = true := by
  cases phase <;> first | rfl | cases h

/-- A call comes before the start when it takes the lease, and counts the attempt there. -/
theorem beforeStart_nextPhase {copy : Copy} {input : Input} {r : Redis ι}
    (h : (nextPhase cfg copy input r phase).beforeStart = true) :
    (phase = .acquire ∧ input.outcome = .done ∧ r.leaseOf copy.jobId = none) ∨
      phase = .increment := by
  cases phase with
  | acquire =>
    rcases holdsLease_nextPhase (holdsLease_of_beforeStart h) with ⟨-, hNot, -⟩ | hTaken
    · exact absurd rfl hNot
    · exact .inl hTaken
  | increment => exact .inr rfl
  | _ =>
    simp only [nextPhase, proceed, recover] at h
    split_ifs at h <;> cases h

theorem Open.quiet {s' : State ι} (h : Open cfg s) (hq : Quiet cfg s s') : Open cfg s' := by
  refine ⟨h.held.quiet hq, h.entries.quiet hq, ?_, ?_, ?_⟩
  · intro i
    rw [hq.now]
    rcases hq.calls i with hs | ⟨-, copy, hb, -⟩
    · rw [hs]
      exact h.inTime i
    · rw [hb]
      cases hc : Call.begin copy with
      | idle => rfl
      | working copy' leasedAt phase => simp [Queue.inTime, (begin_eq_working hc).2]
  · intro i copy leasedAt phase hc hBefore
    rw [hq.log]
    rcases hq.working hc with hs | ⟨hb, -⟩
    · exact h.waiting i copy leasedAt phase hs hBefore
    · have hh := holdsLease_of_beforeStart hBefore
      rw [(begin_eq_working hb).2] at hh
      cases hh
  · rw [hq.log]
    exact h.unrepeated

theorem Open.add [DecidableEq ι] (h : Open cfg s) (stream : String) (fields : Fields) :
    Open cfg (step cfg s (.add stream fields)) := by
  refine ⟨h.held.step rfl, h.entries.add stream fields, h.inTime, ?_, ?_⟩
  · intro i copy leasedAt phase hc hb ha
    rcases List.mem_cons.mp ha with hEq | hLog
    · cases hEq
    · exact h.waiting i copy leasedAt phase hc hb hLog
  · exact List.pairwise_cons.mpr ⟨fun _ _ => rfl, h.unrepeated⟩

section Operate

variable [DecidableEq ι] {i : ι} {copy : Copy} {leasedAt : Nat} {phase : Phase} {input : Input}

variable (h : Open cfg s)
include h

variable (hc : s.calls i = .working copy leasedAt phase)
include hc

theorem Open.releasesOwn : releasesOwn s (.operate i input) = true := by
  simp only [Queue.releasesOwn, hc]
  cases phase with
  | release outcome =>
    have hv := h.valid hc rfl
    have hl := h.held i copy leasedAt _ hc rfl hv
    simp [Redis.leaseOf, get_of_deadline hl hv]
  | _ => rfl

theorem Open.inTime_operate (j : ι) :
    Queue.inTime cfg (operate cfg s i copy leasedAt phase input).redis.now
      ((operate cfg s i copy leasedAt phase input).calls j) = true := by
  rw [(unmoved_operate ..).now]
  by_cases hj : j = i
  · subst hj
    rw [calls_operate_self]
    simp only [Queue.inTime, Bool.or_eq_true, Bool.not_eq_true', decide_eq_true_eq]
    cases hh : (nextPhase cfg copy input s.redis phase).holdsLease with
    | false => exact .inl rfl
    | true =>
      right
      rcases holdsLease_nextPhase hh with ⟨hb, ha, -⟩ | ⟨rfl, -, -⟩
      · rw [leaseTime_of_ne_acquire ha]
        exact h.valid hc hb
      · have hPos : 0 < cfg.leaseMs := by
          unfold Config.leaseMs
          omega
        show s.redis.now < s.redis.now + cfg.leaseMs
        omega
  · rw [calls_operate_of_ne _ _ _ _ _ _ hj]
    exact h.inTime j

/-- An entry is completed by the call that holds the lease of its job. -/
theorem Open.not_completed_operate {j : ι} {copy' : Copy} {leasedAt' : Nat}
    {phase' : Phase} (hc' : s.calls j = .working copy' leasedAt' phase')
    (hb : phase'.beforeStart = true) :
    .acked copy'.entry true ∉ (operate cfg s i copy leasedAt phase input).log := by
  intro hAcked
  rcases mem_log_operate _ _ _ _ _ _ hAcked with (⟨-, hBegun⟩ | ⟨-, hp⟩) | hLog
  · cases (begun_eq_some hBegun).1
  · have hAck : phase = .ack ∧ copy.entry = copy'.entry := by
      cases phase <;> simp_all [performed]
    obtain ⟨rfl, he⟩ := hAck
    have ha := h.entries.copies i copy leasedAt _ hc
    rw [he] at ha
    have hf : copy.fields = copy'.fields :=
      h.entries.unique _ _ _ ha (h.entries.copies j copy' leasedAt' phase' hc')
    have hJob : copy.jobId = copy'.jobId := by rw [Copy.jobId, Copy.jobId, hf]
    have hh := holdsLease_of_beforeStart hb
    have hs : i = j := h.held.eq hc hc' hJob rfl hh (h.valid hc rfl) (h.valid hc' hh)
    subst hs
    rw [hc] at hc'
    cases hc'
    cases hb
  · exact h.waiting j copy' leasedAt' phase' hc' hb hLog

theorem Open.waiting_operate
    (ho : takesOpen s (.operate i input) = true) {j : ι} {copy' : Copy} {leasedAt' : Nat}
    {phase' : Phase}
    (hc' : (operate cfg s i copy leasedAt phase input).calls j = .working copy' leasedAt' phase')
    (hb : phase'.beforeStart = true) :
    .acked copy'.entry true ∉ (operate cfg s i copy leasedAt phase input).log := by
  rcases calls_operate_cases _ _ _ _ _ _ hc' with ⟨rfl, rfl, rfl, rfl⟩ | ⟨-, hc'⟩
  · rcases beforeStart_nextPhase hb with ⟨rfl, hd, hf⟩ | rfl
    · -- the entry was not completed when the lease was taken
      have hNot : .acked copy'.entry true ∉ s.log := by
        simpa [takesOpen, hc, hd, hf] using ho
      simpa [log_operate, begun, performed] using hNot
    · exact h.not_completed_operate hc hc rfl
  · exact h.not_completed_operate hc hc' hb

theorem Open.unrepeated_operate : Unrepeated (operate cfg s i copy leasedAt phase input).log := by
  rcases log_operate_cases cfg s copy leasedAt phase input with hs | ⟨event, hLog, he⟩
  · rw [hs]
    exact h.unrepeated
  · rw [hLog]
    refine List.pairwise_cons.mpr ⟨?_, h.unrepeated⟩
    intro earlier hEarlier
    rcases he with ⟨-, hb⟩ | ⟨-, hp⟩
    · obtain ⟨rfl, attempt, rfl⟩ := begun_eq_some hb
      have hNot := h.waiting i copy leasedAt _ hc rfl
      cases he : earlier with
      | acked entry completed =>
        subst he
        cases completed with
        | false => rfl
        | true =>
          have hNe : copy.entry ≠ entry := by
            rintro rfl
            exact hNot hEarlier
          simpa [repeats] using hNe
      | _ => rfl
    · cases phase <;> simp [performed] at hp <;> subst hp <;> rfl

omit h

end Operate

theorem Open.step [DecidableEq ι] {action : Action ι} (h : Open cfg s)
    (hl : KeepsLeases cfg s action) (ho : takesOpen s action = true) :
    Open cfg (step cfg s action) := by
  rcases step_cases cfg s action with hq | ⟨ms, rfl⟩ | ⟨stream, fields, rfl⟩ |
    ⟨i, input, copy, leasedAt, phase, rfl, hc, hs⟩
  · exact h.quiet hq
  · exact ⟨h.held.step rfl, h.entries.step _, hl, h.waiting, h.unrepeated⟩
  · exact h.add stream fields
  · rw [hs]
    exact ⟨h.held.operate hc (h.releasesOwn hc), h.entries.operate hc,
      h.inTime_operate hc, fun _ _ _ _ hc' => h.waiting_operate hc ho hc',
      h.unrepeated_operate hc⟩

theorem Open.run [DecidableEq ι] {actions : List (Action ι)} (h : Open cfg s)
    (hl : Trace.Along (Queue.step cfg) (KeepsLeases cfg) s actions)
    (ho : Trace.Along (Queue.step cfg) (fun s action => takesOpen s action = true) s actions) :
    Open cfg (run cfg s actions) := by
  induction actions generalizing s with
  | nil => exact h
  | cons action actions ih => exact ih (h.step hl.1 ho.1) hl.2 ho.2

/-- While no lease expires under way and every call takes its lease for an entry that is not
completed, no job is done again. -/
theorem unrepeated_of_takesOpen [DecidableEq ι] {actions : List (Action ι)}
    (hLeases : Trace.Along (step cfg) (KeepsLeases cfg) State.init actions)
    (hOpen : Trace.Along (step cfg) (fun s action => takesOpen s action = true) State.init
      actions) :
    Unrepeated (run cfg State.init actions).log :=
  (open_init.run hLeases hOpen).unrepeated

/-- The reclaimer finds the lease taken. -/
theorem copied_unrepeated :
    let actions := copied ++ operations 1 1 ++ operations 0 5
    .acked { stream := "jobs", id := 1 } true ∈ (run twoMinutes State.init actions).log ∧
      Unrepeated (run twoMinutes State.init actions).log :=
  ⟨by decide +kernel, unrepeated_of_takesOpen (by decide +kernel) (by decide +kernel)⟩

/-- The worker completes the job first, within its lease. -/
theorem copied_repeated :
    Trace.Along (step twoMinutes) (KeepsLeases twoMinutes) State.init
        (copied ++ operations 0 5 ++ operations 1 3) ∧
      ¬ Unrepeated
        (run twoMinutes State.init (copied ++ operations 0 5 ++ operations 1 3)).log := by
  decide +kernel

end Spacegate.AiGateway.Queue
