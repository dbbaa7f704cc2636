import Spacegate.AiGateway.QueueLease

/-!
# Acknowledged jobs

An entry is acknowledged after the result of its job was stored and its callback taken care
of, or after the job has gone to the DLQ with all its fields.  Whatever fails or crashes, an
entry is in its stream and not acknowledged until then, as long as streams are not trimmed.
-/

namespace Spacegate.AiGateway.Queue

open Foundation List

variable {ι : Type} {cfg : Config} {s : State ι} (log : List Event)

/-- The callback of the result was delivered, or is to be tried again. -/
def CalledBack (url : String) (result : StoredResult) : Prop :=
  .posted url result ∈ log ∨ ∃ retry, .retryAdded retry ∈ log ∧ retry.callbackUrl = url ∧
    retry.jobId = result.jobId ∧ retry.result = result

/-- The result of the job was stored, and its callback taken care of if there is one. -/
def JobDone (copy : Copy) : Prop :=
  ∃ result, .stored result ∈ log ∧ fieldString copy.fields "job_id" = some result.jobId ∧
    (copy.callbackUrl ≠ "" → CalledBack log copy.callbackUrl result)

/-- This entry of the DLQ carries the fields of the job. -/
def Carries (dead : JobDlqEntry) (copy : Copy) : Prop :=
  dead.source = copy.entry ∧ dead.fields = streamFieldsToJson copy.fields

/-- What has to have happened before an acknowledgement. -/
def MayHappen (earlier : List Event) : Event → Prop
  | .acked entry _ => ∃ fields, .added entry fields ∈ earlier ∧
      (JobDone earlier { entry := entry, fields := fields } ∨
        ∃ dead, .deadLettered dead ∈ earlier ∧ Carries dead { entry := entry, fields := fields })
  | _ => True

/-- What has happened before a call stands before an operation, when streams are not
trimmed. -/
def Evidence (log : List Event) (copy : Copy) : Phase → Prop
  | .setResult result => result.jobId = copy.jobId
  | .publish result | .postCallback result | .addRetry result _ =>
    result.jobId = copy.jobId ∧ .stored result ∈ log
  | .ack => JobDone log copy
  | .ackDlq => ∃ dead, .deadLettered dead ∈ log ∧ Carries dead copy
  | .trimRetry | .trimDlq => False
  | _ => True

theorem JobDone.mono {log log' : List Event} {copy : Copy} (h : JobDone log copy)
    (hLog : ∀ event ∈ log, event ∈ log') : JobDone log' copy := by
  obtain ⟨result, hs, hJob, hc⟩ := h
  refine ⟨result, hLog _ hs, hJob, ?_⟩
  intro hUrl
  rcases hc hUrl with hp | ⟨retry, hr, hSame⟩
  · exact .inl (hLog _ hp)
  · exact .inr ⟨retry, hLog _ hr, hSame⟩

variable {phase : Phase}

theorem Evidence.mono {log log' : List Event} {copy : Copy}
    (h : Evidence log copy phase) (hLog : ∀ event ∈ log, event ∈ log') :
    Evidence log' copy phase := by
  cases phase with
  | publish result => exact ⟨h.1, hLog _ h.2⟩
  | postCallback result => exact ⟨h.1, hLog _ h.2⟩
  | addRetry result lastError => exact ⟨h.1, hLog _ h.2⟩
  | ack => exact JobDone.mono h hLog
  | ackDlq =>
    obtain ⟨dead, hd, hc⟩ := h
    exact ⟨dead, hLog _ hd, hc⟩
  | _ => exact h

theorem jobId_storedResult (jobId : String) (clock : Nat) (upstream : Upstream) :
    (storedResult jobId clock upstream).jobId = jobId := by
  cases upstream <;> rfl

/-- A call that is not over has a job. -/
def Phase.isReturned : Phase → Bool
  | .returned _ => true
  | _ => false

/-- The result that is stored for a job. -/
def Event.resultOf (jobId : String) : Event → Option StoredResult
  | .stored result => if result.jobId = jobId then some result else none
  | _ => none

/-- What the log says is written stands in Redis: of the results of a job the latest one, and
every entry of the DLQ and of the callback stream. -/
structure Written (cfg : Config) (s : State ι) : Prop where
  results : ∀ jobId, (s.redis.results (cfg.resultKeyPrefix ++ jobId)).map (·.value) =
    s.log.findSome? (Event.resultOf jobId)
  retries : ∀ retry, .retryAdded retry ∈ s.log → retry ∈ s.redis.retries
  dlq : ∀ dead, .deadLettered dead ∈ s.log → dead ∈ s.redis.dlq

/-- What the steps keep. -/
structure Kept (cfg : Config) (s : State ι) : Prop extends Written cfg s where
  entries : Entries s
  named : ∀ i copy leasedAt phase, s.calls i = .working copy leasedAt phase →
    phase.isReturned = false → fieldString copy.fields "job_id" = some copy.jobId
  evidence : ∀ i copy leasedAt phase, s.calls i = .working copy leasedAt phase →
    Evidence s.log copy phase
  streams : ∀ entry fields, .added entry fields ∈ s.log →
    (entry.id, fields) ∈ s.redis.streams entry.stream
  justified : Trace.Justified MayHappen s.log

theorem kept_init : Kept cfg (State.init : State ι) where
  results := fun _ => rfl
  retries := fun _ h => by cases h
  entries := entries_init
  named := fun _ _ _ _ h => by cases h
  evidence := fun _ _ _ _ h => by cases h
  dlq := fun _ h => by cases h
  streams := fun _ _ h => by cases h
  justified := Trace.justified_nil

theorem named_begin {copy copy' : Copy} {leasedAt : Nat}
    (h : Call.begin copy = .working copy' leasedAt phase) (hr : phase.isReturned = false) :
    fieldString copy'.fields "job_id" = some copy'.jobId := by
  unfold Call.begin at h
  split at h
  · cases h
    cases hr
  · rename_i jobId hJob
    cases h
    rw [Copy.jobId, hJob]
    rfl

theorem evidence_begin {copy copy' : Copy} {leasedAt : Nat}
    (h : Call.begin copy = .working copy' leasedAt phase) : Evidence log copy' phase := by
  unfold Call.begin at h
  split at h <;> cases h <;> trivial

theorem Kept.quiet {s' : State ι} (h : Kept cfg s) (hml : cfg.streamMaxLen = 0)
    (hq : Quiet cfg s s') : Kept cfg s' := by
  refine ⟨⟨?_, ?_, ?_⟩, h.entries.quiet hq, ?_, ?_, ?_, ?_⟩
  · rw [hq.log, hq.results]
    exact h.results
  · rw [hq.log, hq.retries]
    exact h.retries
  · rw [hq.log, hq.dlq]
    exact h.dlq
  · intro i copy leasedAt phase hc hr
    rcases hq.working hc with hb | ⟨hBegin, -⟩
    · exact h.named i copy leasedAt phase hb hr
    · exact named_begin hBegin hr
  · intro i copy leasedAt phase hc
    rw [hq.log]
    rcases hq.working hc with hb | ⟨hBegin, -⟩
    · exact h.evidence i copy leasedAt phase hb
    · exact evidence_begin s.log hBegin
  · rw [hq.log, hq.kept hml]
    exact h.streams
  · rw [hq.log]
    exact h.justified

theorem Kept.add [DecidableEq ι] (h : Kept cfg s) (stream : String) (fields : Fields) :
    Kept cfg (step cfg s (.add stream fields)) := by
  refine ⟨⟨h.results, ?_, ?_⟩, h.entries.add stream fields, h.named, ?_, ?_,
    h.justified.cons trivial⟩
  · intro retry hr
    exact h.retries retry ((mem_cons.mp hr).resolve_left (by simp))
  · intro dead hd
    exact h.dlq dead ((mem_cons.mp hd).resolve_left (by simp))
  · intro i copy leasedAt phase hc
    exact (h.evidence i copy leasedAt phase hc).mono fun _ he =>
      mem_cons_of_mem _ he
  · intro entry fields' ha
    simp only [step, Redis.setStream]
    rcases mem_cons.mp ha with hEq | hLog
    · cases hEq
      simp
    · have hMem := h.streams entry fields' hLog
      by_cases hs : entry.stream = stream
      · rw [hs, Function.update_self]
        rw [hs] at hMem
        exact mem_append_left _ hMem
      · rw [Function.update_of_ne hs]
        exact hMem

section Operate

variable {i : ι} {copy : Copy} {leasedAt : Nat} {phase : Phase} {input : Input}

theorem isReturned_nextPhase {r : Redis ι}
    (h : (nextPhase cfg copy input r phase).isReturned = false) : phase.isReturned = false := by
  cases phase with
  | returned outcome =>
    simp only [nextPhase, proceed, recover] at h
    split_ifs at h <;> cases h
  | _ => rfl

/-- An acknowledgement comes after what it needs. -/
theorem mayHappen_of_event {event : Event} (he : .added copy.entry copy.fields ∈ s.log)
    (h : Evidence s.log copy phase)
    (hEvent : input.outcome = .done ∧ begun cfg copy phase = some event ∨
      input.outcome ≠ .failed ∧ performed cfg copy input phase = some event) :
    MayHappen s.log event := by
  rcases hEvent with ⟨-, hb⟩ | ⟨-, hp⟩
  · rw [(begun_eq_some hb).1]
    trivial
  · cases phase with
    | ack =>
      cases hp
      exact ⟨copy.fields, he, .inl h⟩
    | ackDlq =>
      cases hp
      exact ⟨copy.fields, he, .inr h⟩
    | addDlq | setResult | postCallback | addRetry =>
      cases hp
      trivial
    | _ => cases hp

theorem subset_effect {r : Redis ι} {log : List Event} (h : Evidence log copy phase) :
    r.retries ⊆ (effect cfg i copy input r phase).retries ∧
      r.dlq ⊆ (effect cfg i copy input r phase).dlq := by
  have hSame : r.retries ⊆ r.retries ∧ r.dlq ⊆ r.dlq := ⟨List.Subset.refl _, List.Subset.refl _⟩
  cases phase with
  | acquire =>
    simp only [effect]
    split_ifs <;> exact hSame
  | addDlq attempt => exact ⟨hSame.1, subset_append_left _ _⟩
  | addRetry result lastError => exact ⟨subset_append_left _ _, hSame.2⟩
  | trimDlq | trimRetry => exact h.elim
  | _ => exact hSame

variable [DecidableEq ι]

theorem mem_log_of_performed {event : Event} (h : performed cfg copy input phase = some event)
    (hd : input.outcome = .done) : event ∈ (operate cfg s i copy leasedAt phase input).log := by
  rw [log_operate]
  simp [hd, h]

/-- The evidence for the next operation. -/
theorem evidence_nextPhase (hml : cfg.streamMaxLen = 0)
    (hn : phase.isReturned = false → fieldString copy.fields "job_id" = some copy.jobId)
    (h : Evidence s.log copy phase) : Evidence (operate cfg s i copy leasedAt phase input).log copy
      (nextPhase cfg copy input s.redis phase) := by
  have hg : ∀ event ∈ s.log, event ∈ (operate cfg s i copy leasedAt phase input).log :=
    fun event hEvent => mem_log_operate_of_mem cfg s copy leasedAt phase input hEvent
  have he := h.mono hg
  unfold nextPhase
  split_ifs with hd
  · have hp : ∀ event, performed cfg copy input phase = some event →
        event ∈ (operate cfg s i copy leasedAt phase input).log :=
      fun event hEvent => mem_log_of_performed hEvent hd
    cases phase with
    | acquire =>
      simp only [proceed]
      split_ifs <;> trivial
    | expire attempt =>
      simp only [proceed]
      split_ifs <;> trivial
    | addDlq attempt =>
      simp only [proceed, hml, gt_iff_lt, lt_self_iff_false, if_false]
      exact ⟨_, hp _ rfl, rfl, rfl⟩
    | trimDlq => exact he.elim
    | callUpstream => exact jobId_storedResult _ _ _
    | setResult result => exact ⟨he, hp _ rfl⟩
    | publish result =>
      simp only [proceed]
      split_ifs with hUrl
      · refine ⟨result, he.2, ?_, fun hNe => absurd hUrl hNe⟩
        rw [he.1]
        exact hn rfl
      · exact he
    | postCallback result =>
      refine ⟨result, he.2, ?_, fun _ => .inl (hp _ rfl)⟩
      rw [he.1]
      exact hn rfl
    | addRetry result lastError =>
      simp only [proceed, hml, gt_iff_lt, lt_self_iff_false, if_false]
      refine ⟨result, he.2, ?_, fun _ => .inr ⟨_, hp _ rfl, rfl, ?_, rfl⟩⟩
      · rw [he.1]
        exact hn rfl
      · exact he.1.symm
    | trimRetry => exact he.elim
    | _ => trivial
  · cases phase with
    | callUpstream => exact jobId_storedResult _ _ _
    | postCallback result => exact he
    | _ => trivial

theorem results_operate (h : Written cfg s) (jobId : String) :
    ((operate cfg s i copy leasedAt phase input).redis.results
        (cfg.resultKeyPrefix ++ jobId)).map (·.value) =
      (operate cfg s i copy leasedAt phase input).log.findSome? (Event.resultOf jobId) := by
  have hs := h.results jobId
  rw [redis_operate, log_operate]
  by_cases hf : input.outcome = .failed
  · simpa [hf] using hs
  have hBegun : (if input.outcome = .done then begun cfg copy phase else none).toList.findSome?
      (Event.resultOf jobId) = none := by
    split_ifs
    · cases hb : begun cfg copy phase with
      | none => rfl
      | some event =>
        rw [(begun_eq_some hb).1]
        rfl
    · rfl
  rw [if_neg hf, if_neg hf, findSome?_append, findSome?_append, hBegun, Option.none_or]
  cases phase with
  | setResult result =>
    by_cases hj : jobId = result.jobId
    · simp [performed, effect, Redis.setResult, Event.resultOf, hj]
    · have hKey : cfg.resultKeyPrefix ++ jobId ≠ cfg.resultKeyPrefix ++ result.jobId := by
        simpa [String.append_right_inj] using hj
      simpa [performed, effect, Redis.setResult, Event.resultOf, hKey, Ne.symm hj] using hs
  | acquire =>
    simp only [effect]
    split_ifs <;> exact hs
  | _ => exact hs

theorem Kept.written_operate (h : Kept cfg s) (hc : s.calls i = .working copy leasedAt phase) :
    Written cfg (operate cfg s i copy leasedAt phase input) := by
  have he := h.evidence i copy leasedAt phase hc
  refine ⟨results_operate h.toWritten, fun retry hr => ?_, fun dead hd => ?_⟩ <;> rw [redis_operate]
  · rcases mem_log_operate _ _ _ _ _ _ hr with (⟨-, hb⟩ | ⟨ho, hp⟩) | hLog
    · cases (begun_eq_some hb).1
    · rw [if_neg ho]
      cases phase with
      | addRetry result lastError =>
        cases hp
        simp [effect]
      | _ => cases hp
    · split_ifs
      · exact h.retries retry hLog
      · exact (subset_effect he).1 (h.retries retry hLog)
  · rcases mem_log_operate _ _ _ _ _ _ hd with (⟨-, hb⟩ | ⟨ho, hp⟩) | hLog
    · cases (begun_eq_some hb).1
    · rw [if_neg ho]
      cases phase with
      | addDlq attempt =>
        cases hp
        simp [effect]
      | _ => cases hp
    · split_ifs
      · exact h.dlq dead hLog
      · exact (subset_effect he).2 (h.dlq dead hLog)

theorem Kept.operate (h : Kept cfg s) (hml : cfg.streamMaxLen = 0)
    (hc : s.calls i = .working copy leasedAt phase) :
    Kept cfg (operate cfg s i copy leasedAt phase input) := by
  have hn := h.named i copy leasedAt phase hc
  have he := h.evidence i copy leasedAt phase hc
  refine ⟨h.written_operate hc, h.entries.operate hc, ?_, ?_, ?_, ?_⟩
  · intro j copy' leasedAt' phase' hc' hr
    rcases calls_operate_cases _ _ _ _ _ _ hc' with ⟨-, rfl, -, rfl⟩ | ⟨-, hb⟩
    · exact hn (isReturned_nextPhase hr)
    · exact h.named j copy' leasedAt' phase' hb hr
  · intro j copy' leasedAt' phase' hc'
    rcases calls_operate_cases _ _ _ _ _ _ hc' with ⟨-, rfl, -, rfl⟩ | ⟨-, hb⟩
    · exact evidence_nextPhase hml hn he
    · exact (h.evidence j copy' leasedAt' phase' hb).mono fun _ hEvent =>
        mem_log_operate_of_mem _ _ _ _ _ _ hEvent
  · intro entry fields ha
    have hMem := h.streams entry fields ((added_mem_log_operate ..).mp ha)
    rw [(unmoved_operate ..).streams]
    exact hMem
  · rcases log_operate_cases cfg s copy leasedAt phase input with hs | ⟨event, hLog, hEvent⟩
    · rw [hs]
      exact h.justified
    · rw [hLog]
      exact h.justified.cons
        (mayHappen_of_event (h.entries.copies i copy leasedAt phase hc) he hEvent)

end Operate

theorem Kept.step [DecidableEq ι] (h : Kept cfg s) (hml : cfg.streamMaxLen = 0)
    (action : Action ι) : Kept cfg (step cfg s action) := by
  rcases step_cases cfg s action with hq | ⟨ms, rfl⟩ | ⟨stream, fields, rfl⟩ |
    ⟨i, input, copy, leasedAt, phase, rfl, hc, hs⟩
  · exact h.quiet hml hq
  · exact { h with entries := h.entries.step _ }
  · exact h.add stream fields
  · rw [hs]
    exact h.operate hml hc

theorem Kept.run [DecidableEq ι] (h : Kept cfg s) (hml : cfg.streamMaxLen = 0)
    (actions : List (Action ι)) : Kept cfg (run cfg s actions) := by
  induction actions generalizing s with
  | nil => exact h
  | cons action actions ih => exact ih (h.step hml action)

theorem Kept.result_or_dlq (h : Kept cfg s) {entry : EntryId} {fields : Fields} {completed : Bool}
    (ha : .added entry fields ∈ s.log) (hAcked : .acked entry completed ∈ s.log) :
    (∃ result, .stored result ∈ s.log ∧ fieldString fields "job_id" = some result.jobId) ∨
      ∃ dead ∈ s.redis.dlq, Carries dead { entry := entry, fields := fields } := by
  obtain ⟨later, earlier, hLog⟩ := append_of_mem hAcked
  have he : ∀ event ∈ earlier, event ∈ s.log := by
    intro event hEvent
    rw [hLog]
    exact mem_append_right _ (mem_cons_of_mem _ hEvent)
  obtain ⟨fields', ha', hd⟩ := h.justified later _ earlier hLog
  obtain rfl := h.entries.unique entry fields fields' ha (he _ ha')
  rcases hd with ⟨result, hs, hJob, -⟩ | ⟨dead, hDead, hc⟩
  · exact .inl ⟨result, he _ hs, hJob⟩
  · exact .inr ⟨dead, h.dlq dead (he _ hDead), hc⟩

end Spacegate.AiGateway.Queue
