import Spacegate.AiGateway.Enqueue

/-!
# Callbacks that are tried again

When the first delivery of a callback has failed, `process_job` adds an entry for it to the
retry stream.  The workers of `callback_retry_once` read new entries and take over entries that
were read long ago and are still pending.  Both hand a copy of the entry to
`process_callback_retry_entry`.  An entry that is not due yet is added once more; otherwise the
callback is posted, and if that fails, it is added with the next attempt, or to the DLQ when it
was the last one.  Only then is the entry acknowledged.

Every call of `process_callback_retry_entry` is a party of its own, as in `Queue`.
-/

namespace Spacegate.AiGateway.CallbackRetry

open Foundation
open Queue (Fields Outcome fieldString trimmed)
open Enqueue (asI64)

structure Config where
  callbackMaxRetryAttempts : Nat
  callbackRetryInitialDelayMs : Nat
  callbackRetryMaxDelayMs : Nat
  streamMaxLen : Nat

/-- JSON values, with the texts they are written as and read from. -/
structure Json (V : Type) where
  toString : V → String
  fromStr : String → Option V
  /-- `{ "body": body }`. -/
  ofBody : String → V

structure Callback (V : Type) where
  callbackUrl : String
  jobId : String
  body : V
  deriving DecidableEq

/-! ## Entries -/

def fieldU64 (fields : Fields) (key : String) : Option Nat :=
  (fieldString fields key).bind (Text.parseUnsigned 64)

def fieldU32 (fields : Fields) (key : String) : Option Nat :=
  (fieldU64 fields key).filter (· < 2 ^ 32)

def saturatingAdd (width a b : Nat) : Nat :=
  min (a + b) (2 ^ width - 1)

/-- What `enqueue_callback_retry_raw` adds, where numbers are texts. -/
def retryFields (callbackUrl jobId body : String) (attempt nextAttemptAtMs : Nat)
    (lastError : String) (clock : Nat) : Fields :=
  [("job_id", .text jobId),
   ("callback_url", .text callbackUrl),
   ("body", .text body),
   ("attempt", .text (toString (asI64 attempt))),
   ("next_attempt_at_ms", .text (toString (asI64 nextAttemptAtMs))),
   ("last_error", .text lastError),
   ("created_at", .text (toString (asI64 clock)))]

/-- What `enqueue_callback_dlq` adds. -/
def dlqFields (callbackUrl jobId body : String) (attempts : Nat) (finalError : String)
    (clock : Nat) : Fields :=
  [("job_id", .text jobId),
   ("callback_url", .text callbackUrl),
   ("body", .text body),
   ("attempts", .text (toString (asI64 attempts))),
   ("final_error", .text finalError),
   ("failed_at", .text (toString (asI64 clock)))]

/-- An entry of the retry stream.  `origin` is the first entry of the callback, and `previous`
the one that this entry was made from; Redis knows of neither. -/
structure Entry where
  id : Nat
  fields : Fields
  origin : Nat
  previous : Option Nat
  deriving DecidableEq

namespace Entry

variable (e : Entry)

def jobId : String :=
  (fieldString e.fields "job_id").getD ""

def callbackUrl : String :=
  (fieldString e.fields "callback_url").getD ""

def body : String :=
  (fieldString e.fields "body").getD "\x7b\x7d"

def attempt : Nat :=
  (fieldU32 e.fields "attempt").getD 1

def nextAttemptAtMs : Nat :=
  (fieldU64 e.fields "next_attempt_at_ms").getD 0

def lastError : String :=
  (fieldString e.fields "last_error").getD ""

end Entry

/-- An entry of the DLQ, with the one that it was made from and the first one of the callback. -/
structure DeadEntry where
  fields : Fields
  origin : Nat
  previous : Nat
  deriving DecidableEq

structure Redis where
  nextId : Nat
  retries : List Entry
  lastDelivered : Nat
  pending : List Nat
  dlq : List DeadEntry

namespace Redis

variable (r : Redis)

def addRetry (fields : Fields) (origin : Nat) (previous : Option Nat) : Redis :=
  let entry : Entry := { id := r.nextId, fields := fields, origin := origin, previous := previous }
  { r with nextId := r.nextId + 1, retries := r.retries ++ [entry] }

/-- The entry is still to be delivered, or was delivered and not acknowledged. -/
def Unacknowledged (id : Nat) : Prop :=
  r.lastDelivered < id ∨ id ∈ r.pending

end Redis

/-! ## One call -/

variable {V ι : Type} (cfg : Config) (json : Json V)

def callbackRetryDelayMs (initialDelayMs maxDelayMs attempt : Nat) : Nat :=
  min (min (initialDelayMs * 2 ^ min (attempt - 1) 16) (2 ^ 64 - 1)) maxDelayMs

variable (e : Entry)

/-- A body that is no JSON is wrapped. -/
def Entry.parsed : V :=
  (json.fromStr e.body).getD (json.ofBody e.body)

def Entry.callback : Callback V where
  callbackUrl := e.callbackUrl
  jobId := e.jobId
  body := e.parsed json

/-- The next operation of a call, with what the later ones need. -/
inductive Phase where
  /-- The entry is not due and is added once more. -/
  | addAgain
  | post (now : Nat)
  | addNext (now : Nat) (message : String)
  | addDlq (message : String)
  | trimRetry
  | trimDlq
  | ack
  | returned (outcome : Except String Unit)

/-- What a call meets in its next operation. -/
structure Input where
  outcome : Outcome
  message : String
  clock : Nat
  removed : Nat

/-- A call looks at the clock first. -/
def Phase.begin (now : Nat) : Phase :=
  if now < e.nextAttemptAtMs then .addAgain else .post now

/-- What the operation does to Redis when it is performed. -/
def effect (input : Input) (r : Redis) : Phase → Redis
  | .addAgain =>
    r.addRetry (retryFields e.callbackUrl e.jobId e.body e.attempt e.nextAttemptAtMs e.lastError
      input.clock) e.origin (some e.id)
  | .addNext now message =>
    let nextAttempt := saturatingAdd 32 e.attempt 1
    let delayMs := callbackRetryDelayMs cfg.callbackRetryInitialDelayMs
      cfg.callbackRetryMaxDelayMs nextAttempt
    r.addRetry (retryFields e.callbackUrl e.jobId (json.toString (e.parsed json)) nextAttempt
      (saturatingAdd 64 now delayMs) message input.clock) e.origin (some e.id)
  | .addDlq message =>
    let fields := dlqFields e.callbackUrl e.jobId (json.toString (e.parsed json)) e.attempt
      message input.clock
    { r with dlq := r.dlq ++ [{ fields := fields, origin := e.origin, previous := e.id }] }
  | .trimRetry => { r with retries := trimmed cfg.streamMaxLen input.removed r.retries }
  | .trimDlq => { r with dlq := trimmed cfg.streamMaxLen input.removed r.dlq }
  | .ack => { r with pending := r.pending.filter (· ≠ e.id) }
  | .post _ | .returned _ => r

/-- The next operation after one that has succeeded. -/
def proceed : Phase → Phase
  | .addAgain | .addNext _ _ => if cfg.streamMaxLen > 0 then .trimRetry else .ack
  | .addDlq _ => if cfg.streamMaxLen > 0 then .trimDlq else .ack
  | .post _ | .trimRetry | .trimDlq => .ack
  | .ack => .returned (.ok ())
  | .returned outcome => .returned outcome

/-- The next operation after one that has failed. -/
def recover (input : Input) : Phase → Phase
  | .post now =>
    if cfg.callbackMaxRetryAttempts ≤ e.attempt then .addDlq input.message
    else .addNext now input.message
  | .returned outcome => .returned outcome
  | _ => .returned (.error input.message)

def nextPhase (input : Input) (phase : Phase) : Phase :=
  if input.outcome = .done then proceed cfg phase else recover cfg e input phase

/-! ## All calls -/

inductive Event (V : Type) where
  /-- The first entry of a callback was added. -/
  | enqueued (id : Nat) (callback : Callback V)
  /-- A callback was posted for an entry. -/
  | posted (id origin : Nat) (callback : Callback V) (outcome : Outcome)
  deriving DecidableEq

def Phase.events (input : Input) : Phase → List (Event V)
  | .post _ => [.posted e.id e.origin (e.callback json) input.outcome]
  | _ => []

inductive Call where
  | idle
  | working (e : Entry) (phase : Phase)

structure State (V ι : Type) where
  redis : Redis
  calls : ι → Call
  /-- The latest event first. -/
  log : List (Event V)

def State.init : State V ι where
  redis := { nextId := 1, retries := [], lastDelivered := 0, pending := [], dlq := [] }
  calls := fun _ => .idle
  log := []

inductive Action (V ι : Type) where
  /-- `enqueue_callback_retry`, after the first delivery has failed. -/
  | enqueue (callback : Callback V) (lastError : String) (clock : Nat)
  /-- The trimming after it. -/
  | trim (removed : Nat)
  /-- A worker reads the next entry and begins a call for it. -/
  | read (i : ι) (now : Nat)
  /-- A pending entry is taken over, and a call for it begins. -/
  | claim (i : ι) (id now : Nat)
  | operate (i : ι) (input : Input)

variable [DecidableEq ι] (s : State V ι)

def State.setCall (i : ι) (call : Call) : State V ι :=
  { s with calls := Function.update s.calls i call }

/-- One operation of one call. -/
def operate (i : ι) (e : Entry) (phase : Phase) (input : Input) : State V ι where
  redis := if input.outcome = .failed then s.redis else effect cfg json e input s.redis phase
  calls := Function.update s.calls i (.working e (nextPhase cfg e input phase))
  log := phase.events json e input ++ s.log

def enqueue (callback : Callback V) (lastError : String) (clock : Nat) : State V ι :=
  let fields := retryFields callback.callbackUrl callback.jobId (json.toString callback.body) 1
    (saturatingAdd 64 clock cfg.callbackRetryInitialDelayMs) lastError clock
  { s with
    redis := s.redis.addRetry fields s.redis.nextId none
    log := .enqueued s.redis.nextId callback :: s.log }

def step : Action V ι → State V ι
  | .enqueue callback lastError clock => enqueue cfg json s callback lastError clock
  | .trim removed =>
    if cfg.streamMaxLen > 0 then
      { s with redis.retries := trimmed cfg.streamMaxLen removed s.redis.retries }
    else s
  | .read i now =>
    match s.calls i, s.redis.retries.find? (s.redis.lastDelivered < ·.id) with
    | .idle, some e =>
      let delivered : Redis :=
        { s.redis with lastDelivered := e.id, pending := s.redis.pending ++ [e.id] }
      { s with redis := delivered }.setCall i (.working e (.begin e now))
    | _, _ => s
  | .claim i id now =>
    match s.calls i, s.redis.retries.find? (·.id == id) with
    | .idle, some e =>
      if id ∈ s.redis.pending then s.setCall i (.working e (.begin e now)) else s
    | _, _ => s
  | .operate i input =>
    match s.calls i with
    | .idle => s
    | .working e phase => operate cfg json s i e phase input

def run (actions : List (Action V ι)) : State V ι :=
  actions.foldl (step cfg json) .init

end Spacegate.AiGateway.CallbackRetry
