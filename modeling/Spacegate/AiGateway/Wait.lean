import Spacegate.AiGateway.BodyStore

/-!
# Waiting for results

`enqueue_and_wait` looks for the result of its job, and if there is none it registers a sender
in the map of the hub, subscribes the channel of the job and waits for the sender to be used.
A worker's `store_result` writes the result and then publishes on the channel.  Redis keeps no
message for a channel without a subscriber.  The dispatch loop of the hub takes one message
after the other and uses all senders registered for its channel.

All calls share one connection for subscriptions.  The calls and the workers' writes are
parties that perform one operation at a time; one that makes no further step has crashed.  A
call stands here from the moment its job was accepted.
-/

namespace Spacegate.AiGateway.Wait

open Queue (Outcome StoredResult)
open ServiceError Function

structure Config where
  resultKeyPrefix : String
  resultChannelPrefix : String

def Config.resultKey (cfg : Config) (jobId : String) : String :=
  cfg.resultKeyPrefix ++ jobId

def Config.resultChannel (cfg : Config) (jobId : String) : String :=
  cfg.resultChannelPrefix ++ jobId

/-- A call of `enqueue_and_wait`: the job that was accepted, and how long it waits. -/
structure Request where
  jobId : String
  timeoutMs : Nat

inductive Answer where
  | result (result : StoredResult)
  /-- The answer to a notification without a result. -/
  | missing
  /-- The answer after a timeout, with the time at which the waiting was to end. -/
  | timedOut (deadline : Nat)
  | failed (error : ServiceError)
  deriving DecidableEq

/-- The next operation of a call. -/
inductive Phase where
  | check
  | register
  | subscribe
  | waiting (deadline : Nat)
  | reload
  | returned (answer : Answer)
  deriving DecidableEq

def Phase.isReturned : Phase → Bool
  | .returned _ => true
  | _ => false

/-- The next operation of `store_result`. -/
inductive Writing where
  | set
  | publish
  | returned
  deriving DecidableEq

structure State (ι κ : Type) where
  now : Nat
  results : String → Option StoredResult
  /-- The keys that were written, and when. -/
  stores : List (String × Nat)
  subscribed : String → Bool
  /-- The channels of the messages that were received and not yet dispatched. -/
  inbox : List String
  /-- The dispatch loop runs. -/
  listening : Bool
  /-- The calls whose senders are registered for a channel. -/
  waiters : String → List ι
  /-- The sender of the call was used. -/
  notified : ι → Bool
  calls : ι → Phase
  writes : κ → Writing

variable {ι κ : Type}

def State.init : State ι κ where
  now := 0
  results := fun _ => none
  stores := []
  subscribed := fun _ => false
  inbox := []
  listening := true
  waiters := fun _ => []
  notified := fun _ => false
  calls := fun _ => .check
  writes := fun _ => .set

inductive Action (ι κ : Type) where
  | tick (ms : Nat)
  /-- The next operation of a call. -/
  | operate (i : ι) (outcome : Outcome) (message : String)
  /-- The timer of a call fires. -/
  | timer (i : ι)
  /-- The next operation of a `store_result`. -/
  | write (k : κ) (outcome : Outcome)
  /-- The dispatch loop takes a message. -/
  | dispatch
  /-- The dispatch loop gets an error instead of a message. -/
  | receiveError
  /-- The time to live of a result is over. -/
  | expire (key : String)

variable (cfg : Config) (requests : ι → Request) (stored : κ → StoredResult)

/-- `load_result`, and what is done if there is none. -/
def load (s : State ι κ) (jobId : String) (outcome : Outcome) (message : String)
    (absent : Phase) : Phase :=
  if outcome = .done then
    match s.results (cfg.resultKey jobId) with
    | some result => .returned (.result result)
    | none => absent
  else .returned (.failed (internal ("redis: " ++ message)))

section Steps

variable [DecidableEq ι] [DecidableEq κ] (s : State ι κ)

def State.setCall (i : ι) (phase : Phase) : State ι κ :=
  { s with calls := update s.calls i phase }

def State.setWrite (k : κ) (writing : Writing) : State ι κ :=
  { s with writes := update s.writes k writing }

/-- Registering the sender; the map is locked meanwhile. -/
def State.addWaiter (channel : String) (i : ι) : State ι κ :=
  { s with waiters := update s.waiters channel (s.waiters channel ++ [i]) }

def State.addSubscription (channel : String) : State ι κ :=
  { s with subscribed := update s.subscribed channel true }

def operate (i : ι) (outcome : Outcome) (message : String) : Phase → State ι κ
  | .check => s.setCall i (load cfg s (requests i).jobId outcome message .register)
  | .register => (s.addWaiter (cfg.resultChannel (requests i).jobId) i).setCall i .subscribe
  | .subscribe =>
    let s' := if outcome = .failed then s
      else s.addSubscription (cfg.resultChannel (requests i).jobId)
    -- the time begins to run when the subscription is there
    s'.setCall i (if outcome = .done then .waiting (s.now + (requests i).timeoutMs)
      else .returned (.failed (internal ("pubsub subscribe: " ++ message))))
  | .waiting _ => if s.notified i then s.setCall i .reload else s
  | .reload => s.setCall i (load cfg s (requests i).jobId outcome message (.returned .missing))
  | .returned _ => s

/-- A result is written. -/
def State.store (key : String) (result : StoredResult) : State ι κ :=
  { s with
    results := update s.results key (some result)
    stores := (key, s.now) :: s.stores }

/-- A message reaches the hub only if the channel is subscribed. -/
def State.receive (channel : String) : State ι κ :=
  if s.subscribed channel then { s with inbox := s.inbox ++ [channel] } else s

/-- All senders of the channel are taken from the map and used. -/
def State.notify (channel : String) : State ι κ :=
  { s with
    waiters := update s.waiters channel []
    notified := fun i => s.notified i || decide (i ∈ s.waiters channel) }

/-- `store_result`. -/
def write (k : κ) (outcome : Outcome) : Writing → State ι κ
  | .set =>
    let s' := if outcome = .failed then s
      else s.store (cfg.resultKey (stored k).jobId) (stored k)
    s'.setWrite k (if outcome = .done then .publish else .returned)
  | .publish =>
    let s' := if outcome = .failed then s else s.receive (cfg.resultChannel (stored k).jobId)
    s'.setWrite k .returned
  | .returned => s

def step : Action ι κ → State ι κ
  | .tick ms => { s with now := s.now + ms }
  | .operate i outcome message => operate cfg requests s i outcome message (s.calls i)
  | .timer i =>
    match s.calls i with
    | .waiting deadline =>
      -- the receiver is looked at before the timer
      if deadline ≤ s.now ∧ s.notified i = false then
        s.setCall i (.returned (.timedOut deadline))
      else s
    | _ => s
  | .write k outcome => write cfg stored s k outcome (s.writes k)
  | .dispatch =>
    match s.inbox with
    | channel :: inbox => if s.listening then { s with inbox := inbox }.notify channel else s
    | [] => s
  | .receiveError => { s with listening := false }
  | .expire key => { s with results := update s.results key none }

def run (actions : List (Action ι κ)) : State ι κ :=
  actions.foldl (step cfg requests stored) s

end Steps

end Spacegate.AiGateway.Wait
