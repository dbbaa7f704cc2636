import Mathlib.Algebra.Group.Nat.Defs
import Mathlib.Data.List.Basic
import Spacegate.Foundation.Expiring

/-!
# The job queue of the AI gateway

Jobs are entries of Redis streams.  Workers read new entries, and reclaimers take over
entries that were read long ago and are still pending.  Both hand a copy of the entry to
`process_stream_entry`, which takes a lease on the job, counts the attempt, calls the
upstream, stores the result, calls back, acknowledges the entry and gives up the lease.

Every call of `process_stream_entry` is a party of its own, in whatever task and replica it
runs, and stands before its next operation.  An operation may fail, and a Redis command may
also be performed without the caller learning of it.  A call that makes no further step has
crashed.
-/

namespace Spacegate.AiGateway.Queue

open Foundation Function
open Foundation.Expiring

structure Config where
  upstreamBaseUrl : Option String
  jobMaxDeliveryAttempts : Nat
  jobProcessLeaseSecs : Nat
  resultTtlSecs : Nat
  resultKeyPrefix : String
  callbackRetryInitialDelayMs : Nat
  streamMaxLen : Nat

/-! ## Entries -/

/-- A value of a stream entry: a text, or another one as it is printed for debugging. -/
inductive Value where
  | text (s : String)
  | other (debug : String)
  deriving DecidableEq, Repr

abbrev Fields := List (String × Value)

/-- `field_string`. -/
def fieldString (fields : Fields) (key : String) : Option String :=
  match fields.lookup key with
  | some (.text s) => some s
  | _ => none

/-- `stream_fields_to_json`, as the map that is written. -/
def streamFieldsToJson (fields : Fields) : List (String × String) :=
  fields.map fun field =>
    match field.2 with
    | .text s => (field.1, s)
    | .other debug => (field.1, debug)

/-- `sanitize_key`. -/
def sanitizeKey (input : String) : String :=
  String.ofList (input.toList.map fun c =>
    if c.isAlphanum || c == ':' || c == '_' || c == '-' || c == '.' then c else '_')

def jobLeaseKey (jobId : String) : String :=
  "ai:job:lease:" ++ sanitizeKey jobId

def jobAttemptKey (jobId : String) : String :=
  "ai:job:attempt:" ++ sanitizeKey jobId

structure EntryId where
  stream : String
  id : Nat
  deriving DecidableEq, Repr

/-- What a call of `process_stream_entry` is given. -/
structure Copy where
  entry : EntryId
  fields : Fields
  deriving DecidableEq, Repr

/-- The id of the job.  A copy without one is not processed. -/
def Copy.jobId (copy : Copy) : String :=
  (fieldString copy.fields "job_id").getD ""

def Copy.callbackUrl (copy : Copy) : String :=
  (fieldString copy.fields "callback_url").getD ""

/-! ## What is written -/

/-- `StoredResult`; the body stands for its base64 text. -/
structure StoredResult where
  jobId : String
  status : String
  httpStatus : Nat
  headers : List (String × String)
  body : List UInt8
  completedAtMs : Nat
  error : Option String
  deriving DecidableEq, Repr

structure JobDlqEntry where
  jobId : String
  source : EntryId
  attempts : Nat
  reason : String
  fields : List (String × String)
  failedAt : Nat
  deriving DecidableEq, Repr

/-- The body is `callback_body` of the result. -/
structure CallbackRetryEntry where
  jobId : String
  callbackUrl : String
  result : StoredResult
  attempt : Nat
  nextAttemptAtMs : Nat
  lastError : String
  createdAt : Nat
  deriving DecidableEq, Repr

/-- How the upstream behaves.  The body may break off while it is read. -/
inductive Upstream where
  | failed (error : String)
  | responded (status : Nat) (headers : List (String × String)) (body : Option (List UInt8))
  deriving DecidableEq, Repr

/-- The result `process_job` makes of it. -/
def storedResult (jobId : String) (clock : Nat) : Upstream → StoredResult
  | .failed error =>
    { jobId := jobId, status := "failed", httpStatus := 502, headers := [], body := [],
      completedAtMs := clock, error := some error }
  | .responded status headers body =>
    { jobId := jobId, status := "completed", httpStatus := status, headers := headers,
      body := body.getD [], completedAtMs := clock, error := none }

/-! ## One call -/

/-- The next operation of a call, with what the later ones need. -/
inductive Phase where
  | acquire
  | increment
  | expire (attempt : Nat)
  | addDlq (attempt : Nat)
  | trimDlq
  | ackDlq
  | loadBody
  | callUpstream
  | setResult (result : StoredResult)
  | publish (result : StoredResult)
  | postCallback (result : StoredResult)
  | addRetry (result : StoredResult) (lastError : String)
  | trimRetry
  | ack
  | clearAttempt
  | release (outcome : Except String Bool)
  | returned (outcome : Except String Bool)

/-- `process_job` is under way. -/
def Phase.inProcessJob : Phase → Bool
  | .loadBody | .callUpstream | .setResult _ | .publish _ | .postCallback _ | .addRetry _ _
  | .trimRetry => true
  | _ => false

/-- The lease was taken, and not yet given up. -/
def Phase.holdsLease : Phase → Bool
  | .acquire | .returned _ => false
  | _ => true

/-- Whether an operation was performed, and whether the caller knows. -/
inductive Outcome where
  | done
  | lost
  | failed
  deriving DecidableEq, Repr

/-- What a call meets in its next operation: how it ends, with which error, the time of the
caller, and what the upstream does and a trimming removes. -/
structure Input where
  outcome : Outcome
  message : String
  clock : Nat
  upstream : Upstream
  removed : Nat

/-- The part of Redis the queue uses. -/
structure Redis (ι : Type) where
  now : Nat
  nextId : Nat
  streams : String → List (Nat × Fields)
  lastDelivered : String → Nat
  pending : List EntryId
  /-- The calls that have taken the leases. -/
  leases : String → Option (Timed ι)
  attempts : String → Option (Timed Nat)
  results : String → Option (Timed StoredResult)
  dlq : List JobDlqEntry
  retries : List CallbackRetryEntry

/-- `XTRIM MAXLEN ~`: some of the oldest entries, as long as enough stay. -/
def trimmed {α : Type} (maxLen removed : Nat) (entries : List α) : List α :=
  entries.drop (min removed (entries.length - maxLen))

namespace Redis

variable {ι : Type} (r : Redis ι)

def setLease (key : String) (lease : Option (Timed ι)) : Redis ι :=
  { r with leases := update r.leases key lease }

def setAttempt (key : String) (attempt : Option (Timed Nat)) : Redis ι :=
  { r with attempts := update r.attempts key attempt }

def setResult (key : String) (result : Timed StoredResult) : Redis ι :=
  { r with results := update r.results key (some result) }

def setStream (stream : String) (entries : List (Nat × Fields)) : Redis ι :=
  { r with streams := update r.streams stream entries }

def leaseOf (jobId : String) : Option ι :=
  get r.now r.leases (jobLeaseKey jobId)

def attemptsOf (jobId : String) : Nat :=
  (get r.now r.attempts (jobAttemptKey jobId)).getD 0

/-- The attempts under their key, unless they have expired. -/
def liveAttempts (jobId : String) : Option (Timed Nat) :=
  (r.attempts (jobAttemptKey jobId)).filter fun timed => timed.Live r.now

end Redis

variable {ι : Type} (cfg : Config)

/-- How long a lease is valid, in milliseconds. -/
def Config.leaseMs : Nat :=
  max cfg.jobProcessLeaseSecs 1 * 1000

def dlqEntry (copy : Copy) (attempt clock : Nat) : JobDlqEntry where
  jobId := copy.jobId
  source := copy.entry
  attempts := attempt
  reason := "max_delivery_attempts_exceeded"
  fields := streamFieldsToJson copy.fields
  failedAt := clock

/-- `enqueue_callback_retry`. -/
def retryEntry (copy : Copy) (result : StoredResult) (lastError : String)
    (clock : Nat) : CallbackRetryEntry where
  jobId := copy.jobId
  callbackUrl := copy.callbackUrl
  result := result
  attempt := 1
  nextAttemptAtMs := clock + cfg.callbackRetryInitialDelayMs
  lastError := lastError
  createdAt := clock

/-- What the operation does to Redis when it is performed. -/
def effect (i : ι) (copy : Copy) (input : Input) (r : Redis ι) : Phase → Redis ι
  | .acquire =>
    -- `SET` with `NX` and `EX`
    if (r.leaseOf copy.jobId).isSome then r
    else r.setLease (jobLeaseKey copy.jobId)
      (some { value := i, deadline := some (r.now + cfg.leaseMs) })
  | .increment =>
    r.setAttempt (jobAttemptKey copy.jobId)
      (some { value := r.attemptsOf copy.jobId + 1
              deadline := (r.liveAttempts copy.jobId).bind (·.deadline) })
  | .expire _ =>
    r.setAttempt (jobAttemptKey copy.jobId) ((r.liveAttempts copy.jobId).map fun timed =>
      { timed with deadline := some (r.now + max cfg.resultTtlSecs 300 * 1000) })
  | .addDlq attempt => { r with dlq := r.dlq ++ [dlqEntry copy attempt input.clock] }
  | .trimDlq => { r with dlq := trimmed cfg.streamMaxLen input.removed r.dlq }
  | .setResult result =>
    r.setResult (cfg.resultKeyPrefix ++ result.jobId)
      { value := result, deadline := some (r.now + cfg.resultTtlSecs * 1000) }
  | .addRetry result lastError =>
    { r with retries := r.retries ++ [retryEntry cfg copy result lastError input.clock] }
  | .trimRetry => { r with retries := trimmed cfg.streamMaxLen input.removed r.retries }
  | .ack | .ackDlq => { r with pending := r.pending.erase copy.entry }
  | .clearAttempt => r.setAttempt (jobAttemptKey copy.jobId) none
  | .release _ => r.setLease (jobLeaseKey copy.jobId) none
  | .loadBody | .callUpstream | .publish _ | .postCallback _ | .returned _ => r

/-- The next operation after one that has succeeded, which was performed on `r`. -/
def proceed (copy : Copy) (input : Input) (r : Redis ι) : Phase → Phase
  | .acquire =>
    if (r.leaseOf copy.jobId).isSome then .returned (.ok false) else .increment
  | .increment =>
    -- the count is cut to 32 bits
    .expire ((r.attemptsOf copy.jobId + 1) % 2 ^ 32)
  | .expire attempt =>
    if attempt > cfg.jobMaxDeliveryAttempts then .addDlq attempt
    else if cfg.upstreamBaseUrl.isNone then
      .release (.error "upstream base URL is not configured")
    else .loadBody
  | .addDlq _ => if cfg.streamMaxLen > 0 then .trimDlq else .ackDlq
  | .trimDlq => .ackDlq
  | .ackDlq => .release (.ok true)
  | .loadBody => .callUpstream
  | .callUpstream => .setResult (storedResult copy.jobId input.clock input.upstream)
  | .setResult result => .publish result
  | .publish result => if copy.callbackUrl = "" then .ack else .postCallback result
  | .postCallback _ => .ack
  | .addRetry _ _ => if cfg.streamMaxLen > 0 then .trimRetry else .ack
  | .trimRetry => .ack
  | .ack => .clearAttempt
  | .clearAttempt => .release (.ok true)
  | .release outcome => .returned outcome
  | .returned outcome => .returned outcome

/-- The next operation after one that has failed. -/
def recover (copy : Copy) (input : Input) : Phase → Phase
  | .acquire | .increment | .expire _ | .addDlq _ | .trimDlq | .ackDlq | .ack =>
    -- the lease stays until it expires
    .returned (.error input.message)
  | .loadBody | .setResult _ | .publish _ | .addRetry _ _ | .trimRetry =>
    .release (.error input.message)
  | .callUpstream => .setResult (storedResult copy.jobId input.clock input.upstream)
  | .postCallback result => .addRetry result input.message
  -- these two are not looked at
  | .clearAttempt => .release (.ok true)
  | .release outcome => .returned outcome
  | .returned outcome => .returned outcome

def nextPhase (copy : Copy) (input : Input) (r : Redis ι) (phase : Phase) : Phase :=
  if input.outcome = .done then proceed cfg copy input r phase else recover copy input phase

/-- The time of the lease, which is taken with the first operation. -/
def leaseTime (now leasedAt : Nat) : Phase → Nat
  | .acquire => now
  | _ => leasedAt

/-! ## All calls -/

/-- What has happened. -/
inductive Event where
  | added (entry : EntryId) (fields : Fields)
  /-- `process_job` begins. -/
  | started (entry : EntryId)
  | stored (result : StoredResult)
  /-- A callback was delivered. -/
  | posted (url : String) (result : StoredResult)
  | retryAdded (retry : CallbackRetryEntry)
  | deadLettered (dead : JobDlqEntry)
  /-- An acknowledgement, after `process_job` or after the job has gone to the DLQ. -/
  | acked (entry : EntryId) (completed : Bool)
  deriving DecidableEq

/-- What happens when the operation is performed. -/
def performed (copy : Copy) (input : Input) : Phase → Option Event
  | .addDlq attempt => some (.deadLettered (dlqEntry copy attempt input.clock))
  | .ackDlq => some (.acked copy.entry false)
  | .setResult result => some (.stored result)
  | .postCallback result => some (.posted copy.callbackUrl result)
  | .addRetry result lastError =>
    some (.retryAdded (retryEntry cfg copy result lastError input.clock))
  | .ack => some (.acked copy.entry true)
  | _ => none

/-- What happens when the call goes on after an operation. -/
def begun (copy : Copy) : Phase → Option Event
  | .expire attempt =>
    if attempt > cfg.jobMaxDeliveryAttempts then none else some (.started copy.entry)
  | _ => none

/-- A call, with the time at which it took the lease. -/
inductive Call where
  | idle
  | working (copy : Copy) (leasedAt : Nat) (phase : Phase)

structure State (ι : Type) where
  redis : Redis ι
  calls : ι → Call
  /-- The latest event first. -/
  log : List Event

def State.init : State ι where
  redis :=
    { now := 0, nextId := 1, streams := fun _ => [], lastDelivered := fun _ => 0, pending := []
      leases := fun _ => none, attempts := fun _ => none, results := fun _ => none
      dlq := [], retries := [] }
  calls := fun _ => .idle
  log := []

inductive Action (ι : Type) where
  | tick (ms : Nat)
  /-- `enqueue_job` adds an entry. -/
  | add (stream : String) (fields : Fields)
  /-- `enqueue_job` trims the stream. -/
  | trim (stream : String) (removed : Nat)
  /-- A worker reads the next entry of a stream and begins a call for it. -/
  | read (i : ι) (stream : String)
  /-- A reclaimer takes over a pending entry and begins a call for it. -/
  | claim (i : ι) (entry : EntryId)
  | operate (i : ι) (input : Input)

/-- A call of `process_stream_entry` begins. -/
def Call.begin (copy : Copy) : Call :=
  match fieldString copy.fields "job_id" with
  | none => .working copy 0 (.returned (.error "job missing job_id"))
  | some _ => .working copy 0 .acquire

variable [DecidableEq ι]

def State.setCall (s : State ι) (i : ι) (call : Call) : State ι :=
  { s with calls := update s.calls i call }

/-- One operation of one call. -/
def operate (s : State ι) (i : ι) (copy : Copy) (leasedAt : Nat) (phase : Phase)
    (input : Input) : State ι :=
  { redis := if input.outcome = .failed then s.redis else effect cfg i copy input s.redis phase
    calls := update s.calls i (.working copy (leaseTime s.redis.now leasedAt phase)
      (nextPhase cfg copy input s.redis phase))
    log := (if input.outcome = .done then begun cfg copy phase else none).toList ++
      (if input.outcome = .failed then none else performed cfg copy input phase).toList ++ s.log }

def step (s : State ι) : Action ι → State ι
  | .tick ms => { s with redis := { s.redis with now := s.redis.now + ms } }
  | .add stream fields =>
    let entries := s.redis.streams stream ++ [(s.redis.nextId, fields)]
    { s with
      redis := { s.redis.setStream stream entries with nextId := s.redis.nextId + 1 }
      log := .added { stream := stream, id := s.redis.nextId } fields :: s.log }
  | .trim stream removed =>
    let entries := trimmed cfg.streamMaxLen removed (s.redis.streams stream)
    if cfg.streamMaxLen > 0 then { s with redis := s.redis.setStream stream entries } else s
  | .read i stream =>
    match s.calls i, (s.redis.streams stream).find? (s.redis.lastDelivered stream < ·.1) with
    | .idle, some (id, fields) =>
      let entry : EntryId := { stream := stream, id := id }
      let delivered : Redis ι := { s.redis with
        lastDelivered := update s.redis.lastDelivered stream id
        pending := s.redis.pending ++ [entry] }
      { s with redis := delivered }.setCall i (.begin { entry := entry, fields := fields })
    | _, _ => s
  | .claim i entry =>
    match s.calls i, (s.redis.streams entry.stream).find? (·.1 == entry.id) with
    | .idle, some (_, fields) =>
      if entry ∈ s.redis.pending then
        s.setCall i (.begin { entry := entry, fields := fields })
      else s
    | _, _ => s
  | .operate i input =>
    match s.calls i with
    | .idle => s
    | .working copy leasedAt phase => operate cfg s i copy leasedAt phase input

def run (s : State ι) (actions : List (Action ι)) : State ι :=
  actions.foldl (step cfg) s

end Spacegate.AiGateway.Queue
