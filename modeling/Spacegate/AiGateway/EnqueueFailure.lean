import Spacegate.AiGateway.Enqueue

/-!
# Submissions that fail

When `enqueue_job` returns an error, the entry of the job may already be in its stream: the
entry is added while the body is uploaded and before the stream is trimmed, and nothing
removes it.  A failed submission leaves no entry exactly if nothing goes wrong once the entry
may have been added.
-/

namespace Spacegate.AiGateway.Enqueue

open Foundation Effects Queue BodyStore Queue.State List Except
open BodyStore (Bytes Chunk ObjectRequest ObjectStore BodyStoreOutcome PendingUpload storeBody
  finishOffloadUpload Inlined Offloaded UploadSucceeds)

variable {cfg : Config} {env : Surroundings} {request : Request} {ι : Type}

/-! ## The stream -/

/-- The entry is added, and the stream is trimmed if it is to be. -/
def StreamSucceeds (cfg : Config) (env : Surroundings) : Prop :=
  env.xadd.outcome = .done ∧ (cfg.queue.streamMaxLen > 0 → env.xtrim.outcome = .done)

theorem succeeds_command {α : Type} {reply : Reply} {action : Queue.Action ι} {value : α} :
    (command reply action value).Succeeds ↔ reply.outcome = .done := by
  unfold command Effects.Succeeds
  by_cases hd : reply.outcome = .done
  · simp [hd]
  · simp [hd]

theorem result_command_of_ne {α : Type} {reply : Reply} {action : Queue.Action ι} {value : α}
    (h : reply.outcome ≠ .done) : (command reply action value).result =
      .error (.internal ("redis: " ++ reply.message)) :=
  if_neg h

variable {fields : Queue.Fields}

theorem succeeds_addToStream {stream : String} :
    (addToStream cfg env stream fields : Effects (Queue.Action ι) _ _).Succeeds ↔
      StreamSucceeds cfg env := by
  have ht : (trimStream cfg env stream : Effects (Queue.Action ι) _ _).Succeeds ↔
      (cfg.queue.streamMaxLen > 0 → env.xtrim.outcome = .done) := by
    unfold trimStream
    split_ifs with hLen
    · simp [succeeds_command, hLen]
    · simp [succeeds_pure, hLen]
  have hAdd : (command env.xadd (.add stream fields : Queue.Action ι) env.streamId).Succeeds ↔
      env.xadd.outcome = .done := succeeds_command
  unfold addToStream StreamSucceeds
  rw [← hAdd, ← ht]
  refine succeeds_bind_iff_and fun streamId => ?_
  rw [succeeds_bind_iff_and fun _ => iff_true_intro (succeeds_pure _), and_true]

variable (stream : String)

theorem performed_trimStream :
    (trimStream cfg env stream : Effects (Queue.Action ι) _ _).performed = [] ∨
      cfg.queue.streamMaxLen > 0 ∧
        (trimStream cfg env stream : Effects (Queue.Action ι) _ _).performed =
          [.trim stream env.removed] := by
  unfold trimStream
  by_cases hLen : cfg.queue.streamMaxLen > 0
  · rw [if_pos hLen]
    by_cases hf : env.xtrim.outcome = .failed
    · exact .inl (if_pos hf)
    · exact .inr ⟨hLen, if_neg hf⟩
  · rw [if_neg hLen]
    exact .inl rfl

variable (fields : Queue.Fields)

/-- The entry, and after it the trimming if there is one. -/
theorem performed_addToStream (cfg : Config) (h : env.xadd.outcome ≠ .failed) :
    ∃ trims : List (Queue.Action ι),
      (addToStream cfg env stream fields).performed = .add stream fields :: trims ∧
        (trims = [] ∨ cfg.queue.streamMaxLen > 0 ∧ trims = [.trim stream env.removed]) := by
  unfold addToStream
  have ha : (command env.xadd (.add stream fields : Queue.Action ι) env.streamId).performed =
      [.add stream fields] := if_neg h
  cases hAdd : env.xadd.outcome with
  | failed => exact absurd hAdd h
  | lost =>
    rw [bind_of_error (result_command_of_ne (by simp [hAdd])), ha]
    exact ⟨[], rfl, .inl rfl⟩
  | done =>
    have hr : (command env.xadd (.add stream fields : Queue.Action ι) env.streamId).result =
        .ok env.streamId := if_pos hAdd
    rw [bind_of_ok hr, ha]
    refine ⟨_, rfl, ?_⟩
    rw [performed_bind_pure]
    exact performed_trimStream stream

theorem performed_addToStream_of_failed (h : env.xadd.outcome = .failed) :
    (addToStream cfg env stream fields : Effects (Queue.Action ι) _ _).performed = [] := by
  unfold addToStream
  rw [bind_of_error (result_command_of_ne (by simp [h]))]
  exact if_pos h

/-! ## The job -/

/-- What is asked of a request before its body is read. -/
def Submittable (cfg : Config) (env : Surroundings) (request : Request) : Prop :=
  env.permits = true ∧ (optionalHeader request.headers "x-tenant-id").isSome ∧
    validateCallbackUrl cfg request.policy
      ((optionalHeader request.headers "x-callback-url").getD "") = .ok () ∧
    ∃ text, headersToJson env request.headers = .ok text

theorem readJob_ok_iff :
    (∃ job, readJob cfg env request = .ok job) ↔ Submittable cfg env request := by
  unfold readJob Submittable requiredHeader
  cases env.permits with
  | false => simp [throw, throwThe, MonadExceptOf.throw, bind, Except.bind]
  | true =>
    cases optionalHeader request.headers "x-tenant-id" with
    | none => simp [bind, Except.bind]
    | some tenantId =>
      cases hc : validateCallbackUrl cfg request.policy
          ((optionalHeader request.headers "x-callback-url").getD "") with
      | error e => simp [hc, bind, Except.bind]
      | ok _ =>
        cases headersToJson env request.headers with
        | error e => simp [hc, bind, Except.bind]
        | ok text => simp [hc, bind, Except.bind, pure, Except.pure]

/-! ## The submission -/

theorem fieldString_entryFields (job : Job) (priority : QueuePriority)
    (location : BodyStore.BodyLocation) :
    fieldString (entryFields env request job priority location) "job_id" = some env.jobId := rfl

theorem seconds_addAndUpload (pending : Option PendingUpload) :
    seconds (addAndUpload cfg env stream fields pending :
      Effects (ObjectRequest ⊕ Queue.Action ι) _ _).performed =
        (addToStream cfg env stream fields).performed := by
  cases pending with
  | none => exact seconds_map_inr _
  | some upload =>
    unfold addAndUpload
    rw [bind_of_ok rfl, performed_ofExcept_bind, append_nil]
    · exact seconds_merge ..
    · exact fun _ => performed_ofExcept_bind fun _ => rfl

variable {fields}

/-- The entry is added and the rest of the body is uploaded. -/
def Finishes (cfg : Config) (env : Surroundings) (pending : Option PendingUpload) : Prop :=
  StreamSucceeds cfg env ∧ ∀ upload ∈ pending, env.stopped = none ∧
    (finishOffloadUpload env.objectStore cfg.body upload).Succeeds

theorem succeeds_addAndUpload {stream : String} {pending : Option PendingUpload} :
    (addAndUpload cfg env stream fields pending :
      Effects (ObjectRequest ⊕ Queue.Action ι) _ _).Succeeds ↔ Finishes cfg env pending := by
  have hAdd : (addToStream cfg env stream fields : Effects (Queue.Action ι) _ _).Succeeds ↔
    StreamSucceeds cfg env := succeeds_addToStream
  rw [Finishes, ← hAdd]
  cases pending with
  | none => exact (and_iff_left (by simp)).symm
  | some upload =>
    unfold addAndUpload
    rw [succeeds_join_bind, succeeds_bind_iff]
    simp only [Option.mem_some_iff, forall_eq']
    constructor
    · rintro ⟨uploadResult, hj, hr⟩
      rw [succeeds_bind_iff] at hr
      obtain ⟨_, hu, hStream⟩ := hr
      refine ⟨hStream, ?_⟩
      cases hs : env.stopped with
      | some stopped =>
        rw [hs] at hj
        cases hj
      | none =>
        rw [hs] at hj
        exact ⟨rfl, ⟨_, (ok.inj hj).trans hu⟩⟩
    · rintro ⟨hStream, hs, _, hu⟩
      refine ⟨.ok (), ?_, ?_⟩
      · rw [hs, ← hu]
        rfl
      · exact hStream

/-- The job is read, and its body is stored as far as it has to be. -/
def Accepts (cfg : Config) (env : Surroundings) (request : Request) (job : Job)
    (body : BodyStoreOutcome) : Prop :=
  readJob cfg env request = .ok job ∧
    (storeBody env.objectStore cfg.body env.base64 env.jobId request.body).result = .ok body

/-- Nothing of the queue changes before the job and its body are accepted. -/
theorem seconds_enqueueJob_cases :
    (∃ job body, Accepts cfg env request job body ∧
      let route := streamForRequest cfg request.headers job.tenantId job.model
      seconds (enqueueJob cfg env request :
          Effects (ObjectRequest ⊕ Queue.Action ι) _ _).performed =
        (addToStream cfg env route.1
          (entryFields env request job route.2 body.location)).performed) ∨
    (∀ job body, ¬ Accepts cfg env request job body) ∧
      seconds (enqueueJob cfg env request :
        Effects (ObjectRequest ⊕ Queue.Action ι) _ _).performed = [] := by
  unfold enqueueJob Accepts
  rw [seconds_bind rfl]
  cases readJob cfg env request with
  | error e => exact .inr ⟨by simp, rfl⟩
  | ok job =>
    show (∃ _ _, _ ∧ seconds (_ >>= _ : Effects _ _ _).performed = _) ∨
      _ ∧ seconds (_ >>= _ : Effects _ _ _).performed = _
    rw [seconds_bind (seconds_map_inl _)]
    simp only [mapEffects]
    cases (storeBody env.objectStore cfg.body env.base64 env.jobId request.body).result with
    | error e => exact .inr ⟨by simp, rfl⟩
    | ok body => exact .inl ⟨job, body, by simp [performed_bind_pure, seconds_addAndUpload]⟩

theorem succeeds_enqueueJob_iff :
    (enqueueJob cfg env request : Effects (ObjectRequest ⊕ Queue.Action ι) _ _).Succeeds ↔
      ∃ job body, Accepts cfg env request job body ∧ Finishes cfg env body.pendingUpload := by
  unfold enqueueJob
  rw [succeeds_bind_iff]
  constructor
  · rintro ⟨job, hJob, h⟩
    rw [succeeds_bind_iff] at h
    obtain ⟨body, hb, h⟩ := h
    refine ⟨job, body, ⟨hJob, hb⟩, ?_⟩
    rw [succeeds_bind_iff_and fun _ => iff_true_intro (succeeds_pure _), and_true] at h
    exact succeeds_addAndUpload.mp h
  · rintro ⟨job, body, ⟨hJob, hb⟩, h⟩
    refine ⟨job, hJob, succeeds_bind_iff.mpr ⟨body, hb, ?_⟩⟩
    rw [succeeds_bind_iff_and fun _ => iff_true_intro (succeeds_pure _), and_true]
    exact succeeds_addAndUpload.mpr h

/-! ## What is left in the streams -/

/-- No stream has an entry for the job. -/
def Lacks (jobId : String) (s : Queue.State ι) : Prop :=
  ∀ stream, ∀ entry ∈ s.redis.streams stream, Queue.fieldString entry.2 "job_id" ≠ some jobId

theorem mem_trimmed_concat {α : Type} {maxLen : Nat} (h : maxLen > 0) (removed : Nat)
    (entries : List α) (newest : α) : newest ∈ trimmed maxLen removed (entries ++ [newest]) := by
  unfold trimmed
  rw [drop_append_of_le_length]
  · simp
  · rw [length_append, length_singleton]
    omega

variable [DecidableEq ι]

theorem lacks_addToStream_iff {jobId stream : String} {s : Queue.State ι}
    (hf : fieldString fields "job_id" = some jobId) (hFresh : Lacks jobId s) :
    Lacks jobId (run cfg.queue s (addToStream cfg env stream fields).performed) ↔
      env.xadd.outcome = .failed := by
  constructor
  · intro hl
    by_contra hAdd
    obtain ⟨trims, hp, hTrims⟩ := performed_addToStream (ι := ι) stream fields cfg hAdd
    rw [hp] at hl
    have ha : (step cfg.queue s (.add stream fields)).redis.streams stream =
        s.redis.streams stream ++ [(s.redis.nextId, fields)] := Function.update_self ..
    refine hl stream (s.redis.nextId, fields) ?_ hf
    rcases hTrims with rfl | ⟨hLen, rfl⟩
    · show _ ∈ (step cfg.queue s (.add stream fields)).redis.streams stream
      rw [ha]
      simp
    · show _ ∈ (step cfg.queue (step cfg.queue s (.add stream fields))
        (.trim stream env.removed)).redis.streams stream
      have ht : ∀ t : Queue.State ι,
          (step cfg.queue t (.trim stream env.removed)).redis.streams stream =
            trimmed cfg.queue.streamMaxLen env.removed (t.redis.streams stream) := by
        intro t
        simp [step, if_pos hLen, Queue.Redis.setStream]
      rw [ht, ha]
      exact mem_trimmed_concat hLen _ _ _
  · intro hFailed
    rw [performed_addToStream_of_failed stream fields hFailed]
    exact hFresh

/-- The queue after a submission. -/
def after {α : Type} (cfg : Config) (s : Queue.State ι)
    (submission : Effects (ObjectRequest ⊕ Queue.Action ι) ServiceError α) : Queue.State ι :=
  Queue.run cfg.queue s (Effects.seconds submission.performed)

theorem lacks_after_enqueueJob_iff {s : Queue.State ι} (hf : Lacks env.jobId s) :
    Lacks env.jobId (after cfg s (enqueueJob cfg env request)) ↔
      ∀ job body, Accepts cfg env request job body → env.xadd.outcome = .failed := by
  unfold after
  rcases seconds_enqueueJob_cases with ⟨job, body, ha, hp⟩ | ⟨hn, hp⟩
  · rw [hp, lacks_addToStream_iff (fieldString_entryFields job _ body.location) hf]
    exact ⟨fun h _ _ _ => h, fun h => h job body ha⟩
  · rw [hp]
    exact iff_of_true hf fun job body ha => absurd ha (hn job body)

/-- Once the entry may have been added, nothing goes wrong: the entry is not added at all, or
the stream is trimmed if it is to be, and the object store takes the whole body if it goes
there. -/
def NothingFailsLater (cfg : Config) (env : Surroundings) (request : Request) : Prop :=
  Submittable cfg env request →
    (Inlined cfg.body request.body → env.xadd.outcome = .failed ∨ StreamSucceeds cfg env) ∧
    ∀ large rest, cfg.body.objectStoreEndpoint.isSome →
      (∃ uploadId, env.objectStore.initiate = .ok uploadId) →
        Offloaded cfg.body request.body large rest →
          env.xadd.outcome = .failed ∨ StreamSucceeds cfg env ∧ env.stopped = none ∧
            UploadSucceeds env.objectStore cfg.body large.length rest

/-- The same, said of the body that was stored. -/
theorem nothingFailsLater_iff : NothingFailsLater cfg env request ↔
    ∀ job body, Accepts cfg env request job body →
      env.xadd.outcome = .failed ∨ Finishes cfg env body.pendingUpload := by
  unfold NothingFailsLater
  rw [← readJob_ok_iff]
  constructor
  · rintro h job body ⟨hJob, hb⟩
    obtain ⟨hInlined, hOffloaded⟩ := h ⟨job, hJob⟩
    rcases storeBody_cases env.objectStore env.base64 env.jobId cfg.body request.body with
      hi | ⟨large, rest, ho⟩ | ⟨e, he⟩
    · have hAdded := hInlined hi
      obtain ⟨whole, hw, hLe, hf⟩ := hi
      rw [hw, storeBody_of_inlined _ _ _ hLe hf] at hb
      cases ok.inj hb
      simpa [inlineOutcome, Finishes] using hAdded
    · rw [storeBody_of_offloaded _ _ _ ho] at hb
      obtain ⟨he, uploadId, hi, rfl⟩ := offload_ok hb
      have hf := ho.fits
      simpa [objectOutcome, Finishes, succeeds_finishOffloadUpload_iff, hf] using
        hOffloaded _ _ he ⟨uploadId, hi⟩ ho
    · rw [he] at hb
      cases hb
  · rintro h ⟨job, hJob⟩
    constructor
    · rintro ⟨whole, hw, hLe, hf⟩
      have ha : Accepts cfg env request job (inlineOutcome env.base64 whole.flatten) := by
        refine ⟨hJob, ?_⟩
        rw [hw, storeBody_of_inlined _ _ _ hLe hf]
        rfl
      simpa [inlineOutcome, Finishes] using h job _ ha
    · rintro large rest he ⟨uploadId, hi⟩ ho
      have ha : Accepts cfg env request job
          (objectOutcome (cfg.body.objectRef env.jobId) large rest uploadId) := by
        refine ⟨hJob, ?_⟩
        rw [storeBody_of_offloaded _ _ _ ho, (offload_of_isSome he).2, hi]
        rfl
      have hf := ho.fits
      simpa [objectOutcome, Finishes, succeeds_finishOffloadUpload_iff, hf] using h job _ ha

/-- A submission that fails leaves no entry exactly if nothing goes wrong once the entry may
have been added. -/
theorem error_leaves_no_entry_iff (cfg : Config) (env : Surroundings) (request : Request)
    (s : Queue.State ι) (hFresh : Lacks env.jobId s) :
    (∀ e, (enqueueJob cfg env request : Effects (ObjectRequest ⊕ Queue.Action ι) _ _).result =
      .error e → Lacks env.jobId (after cfg s (enqueueJob cfg env request))) ↔
      NothingFailsLater cfg env request := by
  rw [forall_error_iff, lacks_after_enqueueJob_iff hFresh, succeeds_enqueueJob_iff,
    nothingFailsLater_iff]
  constructor
  · rintro (⟨job, body, ha, ht⟩ | hf) job' body' ha'
    · cases ok.inj (ha.1.symm.trans ha'.1)
      cases ok.inj (ha.2.symm.trans ha'.2)
      exact .inr ht
    · exact .inl (hf job' body' ha')
  · intro h
    by_cases hr : ∃ job body, Accepts cfg env request job body
    · obtain ⟨job, body, ha⟩ := hr
      rcases h job body ha with hf | ht
      · exact .inr fun _ _ _ => hf
      · exact .inl ⟨job, body, ha, ht⟩
    · exact .inr fun job body ha => absurd ⟨job, body, ha⟩ hr

/-! ## Three bytes for the object store -/

/-- Every body but the empty one goes to the object store. -/
def offloading : Config :=
  { lowUnweighted.toConfig with
    body :=
      { objectStorePrefix := "jobs"
        objectStoreEndpoint := some "http://objects"
        objectMultipartPartSize := 0
        maxBodyBytes := 1024
        inlineThreshold := 0 }
    queue :=
      { upstreamBaseUrl := none, jobMaxDeliveryAttempts := 3, jobProcessLeaseSecs := 60
        resultTtlSecs := 60, resultKeyPrefix := "", callbackRetryInitialDelayMs := 0
        streamMaxLen := 10 }
    enablePriorityStreams := false }

def threeBytes : Request where
  policy := .wait
  headers := [("x-tenant-id", some "acme")]
  path := "/"
  body := [.ok [1, 2, 3]]

/-- The upload can be begun, and no part is taken. -/
def refusing : Surroundings :=
  withStore {
    initiate := .ok "upload"
    part := fun _ => .error (.internal "http: 503")
    complete := .ok () }

def taking : Surroundings :=
  withStore { initiate := .ok "upload", part := fun _ => .ok "tag", complete := .ok () }

theorem lacks_init (jobId : String) : Lacks jobId (init : Queue.State Unit) := by
  intro stream entry he
  simp [init] at he

/-- The client gets an error, and the entry is in the stream. -/
theorem refused_upload_leaves_entry :
    (enqueueJob offloading refusing threeBytes :
      Effects (ObjectRequest ⊕ Queue.Action Unit) _ _).result = .error (.internal "http: 503") ∧
    ¬ Lacks refusing.jobId
      (after offloading (Queue.State.init : Queue.State Unit)
        (enqueueJob offloading refusing threeBytes)) := by
  refine ⟨rfl, ?_⟩
  intro hl
  have he : ((after offloading (init : Queue.State Unit)
      (enqueueJob offloading refusing threeBytes)).redis.streams "jobs").any (fun entry =>
        fieldString entry.2 "job_id" == some "job") = true := by decide +kernel
  obtain ⟨entry, hMem, hJob⟩ := any_eq_true.mp he
  exact hl "jobs" entry hMem (beq_iff_eq.mp hJob)

/-- When the object store takes the three bytes, nothing fails later. -/
theorem taken_upload_leaves_no_error :
    Lacks taking.jobId (Queue.State.init : Queue.State Unit) ∧
    NothingFailsLater offloading taking threeBytes := by
  refine ⟨lacks_init _, ?_⟩
  refine (error_leaves_no_entry_iff offloading taking threeBytes
    (init : Queue.State Unit) (lacks_init _)).mp ?_
  have hr : (enqueueJob offloading taking threeBytes :
      Effects (ObjectRequest ⊕ Queue.Action Unit) _ _).result = .ok
        { jobId := "job", streamId := "1-0", streamKey := "jobs", status := "queued"
          pollUrl := "/jobs/job/status", statusUrl := "/v1/jobs/job", createdAtMs := 0 } := rfl
  intro e he
  rw [hr] at he
  cases he

end Spacegate.AiGateway.Enqueue
