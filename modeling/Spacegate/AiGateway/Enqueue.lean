import Mathlib.Data.String.Basic
import Spacegate.AiGateway.BodyUpload
import Spacegate.Foundation.SortedMap

/-!
# Submitting a job

`enqueue_job` reads the headers, stores the body and adds an entry for the job to one of the
streams.  When the body goes to the object store, the upload and the entry are made side by
side, both to their ends, and only then their results are looked at.  A Redis command may fail,
and it may be performed without the caller learning of it.
-/

namespace Spacegate.AiGateway.Enqueue

open Foundation Text
open ServiceError
open BodyStore (Bytes Chunk ObjectRequest ObjectStore BodyLocation PendingUpload storeBody
  finishOffloadUpload)

structure Config where
  body : BodyStore.Config
  queue : Queue.Config
  requireHttpsCallback : Bool
  enablePriorityStreams : Bool
  streamKey : String
  highPriorityStreamKey : String
  lowPriorityStreamKey : String
  queueHighTenants : String
  queueHighModels : String
  queueLowTenants : String
  queueLowModels : String
  queueDefaultPriority : String

inductive QueuePolicy where
  | queue
  | wait
  deriving DecidableEq, Repr

def QueuePolicy.asStr : QueuePolicy → String
  | .queue => "queue"
  | .wait => "wait"

inductive QueuePriority where
  | high
  | normal
  | low
  deriving DecidableEq, Repr

def QueuePriority.asStr : QueuePriority → String
  | .high => "high"
  | .normal => "normal"
  | .low => "low"

/-- The values of the headers, in order.  Some are no visible text. -/
abbrev Headers := List (String × Option String)

structure Request where
  policy : QueuePolicy
  headers : Headers
  path : String
  body : List Chunk

/-- How a Redis command ends, and the error the caller gets if it does not succeed. -/
structure Reply where
  outcome : Queue.Outcome
  message : String

/-- What a submission meets. -/
structure Surroundings where
  /-- The semaphore for bodies is open. -/
  permits : Bool
  jobId : String
  createdAt : Nat
  base64 : Bytes → String
  toJson : SortedMap String String → Except String String
  objectStore : ObjectStore
  /-- After how many requests the task of the upload is cancelled, if it is. -/
  stopped : Option (Nat × String)
  /-- Which of the two tasks goes on first, the upload being `true`. -/
  order : List Bool
  xadd : Reply
  streamId : String
  xtrim : Reply
  /-- How many entries `XTRIM` would remove. -/
  removed : Nat

variable (cfg : Config) (env : Surroundings) (request : Request)

/-! ## Headers -/

variable (headers : Headers)

def optionalHeader (name : String) : Option String :=
  ((headers.lookup name).join.map trim).filter (· ≠ "")

def requiredHeader (name : String) : Except ServiceError String :=
  match optionalHeader headers name with
  | some value => .ok value
  | none => .error (badRequest ("missing required header `" ++ name ++ "`"))

/-- `headers_to_json`; of several values the last one is kept. -/
def headersToJson : Except ServiceError String :=
  (env.toJson ((∅ : SortedMap String String).insertAll (headers.filterMap fun header =>
    header.2.map fun value => (header.1, value)))).mapError fun e =>
      internal ("serialize headers: " ++ e)

def validateCallbackUrl (policy : QueuePolicy) (callbackUrl : String) : Except ServiceError Unit :=
  if policy = .queue ∧ callbackUrl = "" then
    .error (badRequest "missing required header `x-callback-url` for queue policy")
  else if callbackUrl ≠ "" ∧ cfg.requireHttpsCallback ∧
      (stripStart "https://" callbackUrl).isNone then
    .error (badRequest "x-callback-url must use https")
  else .ok ()

/-! ## Streams -/

def parseQueuePriority (value : String) : Option QueuePriority :=
  match toAsciiLowercase (trim value) with
  | "high" => some .high
  | "normal" | "default" | "medium" => some .normal
  | "low" => some .low
  | _ => none

def containsCsvValue (csv needle : String) : Bool :=
  ((split ',' csv).map trim).any fun value =>
    value ≠ "" && eqIgnoreAsciiCase value needle

def requestPriority (tenant model : String) : QueuePriority :=
  match (optionalHeader headers "x-queue-priority").bind parseQueuePriority with
  | some priority => priority
  | none =>
    if containsCsvValue cfg.queueHighTenants tenant ||
        containsCsvValue cfg.queueHighModels model then .high
    else if containsCsvValue cfg.queueLowTenants tenant ||
        containsCsvValue cfg.queueLowModels model then .low
    else (parseQueuePriority cfg.queueDefaultPriority).getD .normal

def streamForRequest (tenant model : String) : String × QueuePriority :=
  let priority := requestPriority cfg headers tenant model
  if !cfg.enablePriorityStreams then (cfg.streamKey, priority)
  else
    match priority with
    | .high => (cfg.highPriorityStreamKey, priority)
    | .low => (cfg.lowPriorityStreamKey, priority)
    | .normal => (cfg.streamKey, priority)

/-- The streams that have a consumer group and are reclaimed. -/
def configuredStreams : List String :=
  if cfg.enablePriorityStreams then
    [cfg.highPriorityStreamKey, cfg.streamKey, cfg.lowPriorityStreamKey]
  else [cfg.streamKey]

/-- With the weights at which workers poll the streams. -/
structure WorkerConfig extends Config where
  queueHighWeight : Nat
  queueNormalWeight : Nat
  queueLowWeight : Nat

def pushWeighted (out : List String) (stream : String) (weight : Nat) : List String :=
  out ++ List.replicate weight stream

/-- The streams in the order in which a worker polls them. -/
def workerStreamOrder (cfg : WorkerConfig) : List String :=
  if !cfg.enablePriorityStreams then [cfg.streamKey]
  else
    let high := pushWeighted [] cfg.highPriorityStreamKey cfg.queueHighWeight
    let normal := pushWeighted high cfg.streamKey cfg.queueNormalWeight
    let out := pushWeighted normal cfg.lowPriorityStreamKey cfg.queueLowWeight
    if out.isEmpty then [cfg.streamKey] else out

/-- A stream is polled if it is that of a priority with a weight.  The normal one is also
polled when no priority has one. -/
def HasWeight (cfg : WorkerConfig) (stream : String) : Prop :=
  cfg.enablePriorityStreams = true →
    stream = cfg.highPriorityStreamKey ∧ 0 < cfg.queueHighWeight ∨
    stream = cfg.lowPriorityStreamKey ∧ 0 < cfg.queueLowWeight ∨
    stream = cfg.streamKey ∧
      (0 < cfg.queueNormalWeight ∨ cfg.queueHighWeight = 0 ∧ cfg.queueLowWeight = 0)

theorem streamForRequest_mem_configuredStreams (headers : Headers) (tenant model : String) :
    (streamForRequest cfg headers tenant model).1 ∈ configuredStreams cfg := by
  unfold streamForRequest configuredStreams
  cases cfg.enablePriorityStreams with
  | false => simp
  | true => cases requestPriority cfg headers tenant model <;> simp

theorem mem_workerStreamOrder_iff (cfg : WorkerConfig) {stream : String}
    (h : stream ∈ configuredStreams cfg.toConfig) :
    stream ∈ workerStreamOrder cfg ↔ HasWeight cfg stream := by
  unfold workerStreamOrder HasWeight
  cases he : cfg.enablePriorityStreams with
  | false => simpa [configuredStreams, he] using h
  | true =>
    simp only [Bool.not_true, Bool.false_eq_true, if_false, pushWeighted, List.nil_append,
      forall_const, List.isEmpty_iff, List.append_eq_nil_iff, List.replicate_eq_nil_iff]
    by_cases hn : (cfg.queueHighWeight = 0 ∧ cfg.queueNormalWeight = 0) ∧ cfg.queueLowWeight = 0
    · simp [hn]
    · rw [if_neg hn]
      grind

/-- The stream of a request is polled and reclaimed exactly if it has a weight. -/
theorem polled_iff_hasWeight (cfg : WorkerConfig) (headers : Headers) (tenant model : String) :
    (streamForRequest cfg.toConfig headers tenant model).1 ∈ workerStreamOrder cfg ∧
        (streamForRequest cfg.toConfig headers tenant model).1 ∈ configuredStreams cfg.toConfig ↔
      HasWeight cfg (streamForRequest cfg.toConfig headers tenant model).1 := by
  have hc := streamForRequest_mem_configuredStreams cfg.toConfig headers tenant model
  rw [and_iff_left hc]
  exact mem_workerStreamOrder_iff cfg hc

/-- Low priority has the weight zero. -/
def lowUnweighted : WorkerConfig where
  body := ⟨"", none, 0, 0, 0⟩
  queue := ⟨none, 0, 0, 0, "", 0, 0⟩
  requireHttpsCallback := false
  enablePriorityStreams := true
  streamKey := "jobs"
  highPriorityStreamKey := "jobs:high"
  lowPriorityStreamKey := "jobs:low"
  queueHighTenants := ""
  queueHighModels := ""
  queueLowTenants := ""
  queueLowModels := ""
  queueDefaultPriority := "normal"
  queueHighWeight := 3
  queueNormalWeight := 2
  queueLowWeight := 0

/-- A request that asks for low priority goes to a stream no worker reads. -/
theorem lowUnweighted_not_polled :
    (streamForRequest lowUnweighted.toConfig [("x-queue-priority", some "low")] "t" "m").1 ∉
      workerStreamOrder lowUnweighted := by
  decide

/-! ## The submission -/

/-- What is known of the job before its body is read. -/
structure Job where
  tenantId : String
  model : String
  callbackUrl : String
  method : String
  path : String
  headers : String

def readJob : Except ServiceError Job := do
  if !env.permits then
    throw (internal "body semaphore closed")
  let tenantId ← requiredHeader request.headers "x-tenant-id"
  let callbackUrl := (optionalHeader request.headers "x-callback-url").getD ""
  validateCallbackUrl cfg request.policy callbackUrl
  let headers ← headersToJson env request.headers
  return {
    tenantId := tenantId
    model := (optionalHeader request.headers "x-model").getD "default"
    callbackUrl := callbackUrl
    method := (optionalHeader request.headers "x-original-method").getD "POST"
    path := (optionalHeader request.headers "x-original-path").getD request.path
    headers := headers }

/-- `as i64`. -/
def asI64 (n : Nat) : Int :=
  if n % 2 ^ 64 < 2 ^ 63 then (n % 2 ^ 64 : Nat) else (n % 2 ^ 64 : Nat) - 2 ^ 64

/-- The entry as it is stored, where numbers are texts. -/
def entryFields (job : Job) (priority : QueuePriority) (location : BodyLocation) : Queue.Fields :=
  [("job_id", .text env.jobId),
   ("tenant_id", .text job.tenantId),
   ("policy", .text request.policy.asStr),
   ("model", .text job.model),
   ("priority", .text priority.asStr),
   ("method", .text job.method),
   ("path", .text job.path),
   ("headers", .text job.headers),
   ("body", .text location.bodyBase64),
   ("ref", .text location.objectRef),
   ("size", .text (toString (asI64 location.size))),
   ("storage", .text location.storage),
   ("callback_url", .text job.callbackUrl),
   ("created_at", .text (toString (asI64 env.createdAt)))]

variable {ι α : Type}

/-- A Redis command, as what it does to the queue. -/
def command (reply : Reply) (action : Queue.Action ι) (value : α) :
    Effects (Queue.Action ι) ServiceError α where
  performed := if reply.outcome = .failed then [] else [action]
  result :=
    if reply.outcome = .done then .ok value else .error (internal ("redis: " ++ reply.message))

def trimStream (stream : String) : Effects (Queue.Action ι) ServiceError Unit :=
  if cfg.queue.streamMaxLen > 0 then command env.xtrim (.trim stream env.removed) ()
  else pure ()

def addToStream (stream : String) (fields : Queue.Fields) :
    Effects (Queue.Action ι) ServiceError String := do
  let streamId ← command env.xadd (.add stream fields) env.streamId
  trimStream cfg env stream
  return streamId

/-- What the handle of a spawned task yields: the task's own result, or that it was
cancelled. -/
def awaited (stopped : Option (Nat × String)) {η ε : Type} (task : Effects η ε α) :
    Effects η String (Except ε α) :=
  match stopped with
  | none => { performed := task.performed, result := .ok task.result }
  | some (count, error) => { performed := task.performed.take count, result := .error error }

/-- The entry and, if there is one, the upload. -/
def addAndUpload (stream : String) (fields : Queue.Fields) (pending : Option PendingUpload) :
    Effects (ObjectRequest ⊕ Queue.Action ι) ServiceError String :=
  match pending with
  | some upload => do
      let (uploadJoin, streamIdResult) ← .join env.order
        (awaited env.stopped (finishOffloadUpload env.objectStore cfg.body upload))
        (addToStream cfg env stream fields)
      let uploadResult ← .ofExcept (uploadJoin.mapError fun e =>
        internal ("body upload task failed: " ++ e))
      .ofExcept uploadResult
      .ofExcept streamIdResult
  | none => .mapEffects .inr (addToStream cfg env stream fields)

structure AcceptedJob where
  jobId : String
  streamId : String
  streamKey : String
  status : String
  pollUrl : String
  statusUrl : String
  createdAtMs : Nat
  deriving DecidableEq, Repr

def enqueueJob : Effects (ObjectRequest ⊕ Queue.Action ι) ServiceError AcceptedJob := do
  let job ← .ofExcept (readJob cfg env request)
  let body ← .mapEffects .inl
    (storeBody env.objectStore cfg.body env.base64 env.jobId request.body)
  let route := streamForRequest cfg request.headers job.tenantId job.model
  let streamId ← addAndUpload cfg env route.1
    (entryFields env request job route.2 body.location) body.pendingUpload
  return {
    jobId := env.jobId
    streamId := streamId
    streamKey := route.1
    status := "queued"
    pollUrl := "/jobs/" ++ env.jobId ++ "/status"
    statusUrl := "/v1/jobs/" ++ env.jobId
    createdAtMs := env.createdAt }

/-- Redis does what it is told; the object store is given. -/
def withStore (objectStore : ObjectStore) : Surroundings where
  permits := true
  jobId := "job"
  createdAt := 0
  base64 := fun _ => ""
  toJson := fun _ => .ok ""
  objectStore := objectStore
  stopped := none
  order := [true, false]
  xadd := { outcome := .done, message := "" }
  streamId := "1-0"
  xtrim := { outcome := .done, message := "" }
  removed := 0

end Spacegate.AiGateway.Enqueue
