import Spacegate.AiGateway.Enqueue
import Spacegate.AiGateway.TokenBucket

/-!
# Rate limits of tenants

`check_rate_limit` looks for the rule that fits the tenant, the model, the path and the policy
of a request best, and then takes the cost of the request from the bucket of the tenant.  Rules
are written and deleted through the admin API.  Rules and buckets are values of one store; both
kinds of keys are made from texts that the client sends.
-/

namespace Spacegate.AiGateway.RateLimit

open Foundation Text
open Foundation.Expiring
open ServiceError
open Enqueue (Headers optionalHeader requiredHeader)
open Queue (sanitizeKey)
open TokenBucket (Answer Bucket Call maxDeadline milli ttl refill charge script live)

structure Config where
  rateLimitRps : Nat
  rateLimitBurst : Nat
  rateLimitCost : Nat
  tenantRateLimitPrefix : String

structure TenantRateLimit where
  rps : Nat
  burst : Nat
  cost : Nat
  deriving DecidableEq, Repr

structure StoredTenantRateLimit where
  rps : Nat
  burst : Nat
  cost : Nat
  ttlSecs : Option Nat
  deriving DecidableEq, Repr

structure TenantRateLimitRule where
  tenant : String
  model : Option String
  path : Option String
  policy : Option String
  rps : Nat
  burst : Nat
  cost : Nat
  ttlSecs : Option Nat
  deriving DecidableEq, Repr

/-- A value of the store: a number that the script has written, the JSON text of a limit that
the admin API has written, or any other text. -/
inductive Value where
  | count (n : Nat)
  | stored (limit : StoredTenantRateLimit)
  | text (raw : String)
  deriving DecidableEq, Repr

abbrev Keys := String → Option (Timed Value)

/-- The store at some time. -/
structure Store where
  clock : Nat
  keys : Keys

/-- The readers of texts that are not written by the service: `serde_json::from_str` at the two
types that are tried, and `tonumber` of the script; and the messages that the script fails with.
Both types are read from an object or an array, and a number is neither and has no comma. -/
structure Readers where
  storedFromStr : String → Option StoredTenantRateLimit
  limitFromStr : String → Option TenantRateLimit
  toNumber : String → Option Nat
  numberError : String
  expireError : String
  storedFromStr_of_number : ∀ raw n, toNumber raw = some n → storedFromStr (trim raw) = none
  limitFromStr_of_number : ∀ raw n, toNumber raw = some n → limitFromStr (trim raw) = none
  comma_notMem_of_number : ∀ raw n, toNumber raw = some n → ',' ∉ raw.toList

variable (cfg : Config) (readers : Readers)

/-! ## Rules -/

def globalRateLimit : TenantRateLimit where
  rps := cfg.rateLimitRps
  burst := cfg.rateLimitBurst
  cost := max cfg.rateLimitCost 1

/-- `tenant_rate_limit_candidate_keys`, the most specific one first. -/
def tenantRateLimitCandidateKeys (tenant model path policy : String) : List String :=
  let base := cfg.tenantRateLimitPrefix ++ sanitizeKey tenant
  let model := sanitizeKey model
  let path := sanitizeKey path
  let policy := sanitizeKey policy
  [ base ++ ":model:" ++ model ++ ":path:" ++ path ++ ":policy:" ++ policy,
    base ++ ":model:" ++ model ++ ":path:" ++ path,
    base ++ ":model:" ++ model ++ ":policy:" ++ policy,
    base ++ ":path:" ++ path ++ ":policy:" ++ policy,
    base ++ ":model:" ++ model,
    base ++ ":path:" ++ path,
    base ++ ":policy:" ++ policy,
    base ]

/-- What the candidates add to the prefix and the tenant. -/
def candidateSuffixes (model path policy : String) : List String :=
  [ ":model:" ++ model ++ ":path:" ++ path ++ ":policy:" ++ policy,
    ":model:" ++ model ++ ":path:" ++ path,
    ":model:" ++ model ++ ":policy:" ++ policy,
    ":path:" ++ path ++ ":policy:" ++ policy,
    ":model:" ++ model,
    ":path:" ++ path,
    ":policy:" ++ policy,
    "" ]

theorem candidateKeys_eq_map (tenant model path policy : String) :
    tenantRateLimitCandidateKeys cfg tenant model path policy =
      (candidateSuffixes (sanitizeKey model) (sanitizeKey path) (sanitizeKey policy)).map
        fun suffix => cfg.tenantRateLimitPrefix ++ (sanitizeKey tenant ++ suffix) := by
  simp [tenantRateLimitCandidateKeys, candidateSuffixes, String.append_assoc]

structure ParsedStoredTenantRateLimit where
  limit : TenantRateLimit
  ttlSecs : Option Nat
  deriving DecidableEq, Repr

def parseTenantRateLimitCsv (raw : String) : Option TenantRateLimit := do
  let parts := (split ',' raw).map trim
  let rps ← parts[0]?.bind (parseUnsigned 64)
  let burst ← parts[1]?.bind (parseUnsigned 64)
  let cost := (parts[2]?.bind (parseUnsigned 64)).getD 1
  some { rps := rps, burst := burst, cost := max cost 1 }

def ParsedStoredTenantRateLimit.ofStored (stored : StoredTenantRateLimit) :
    ParsedStoredTenantRateLimit where
  limit := { rps := stored.rps, burst := stored.burst, cost := max stored.cost 1 }
  ttlSecs := stored.ttlSecs

def parseStoredText (raw : String) : Option ParsedStoredTenantRateLimit :=
  let raw := trim raw
  if raw = "" then none
  else
    match readers.storedFromStr raw with
    | some stored => some (.ofStored stored)
    | none =>
      match readers.limitFromStr raw with
      | some limit => some ⟨{ limit with cost := max limit.cost 1 }, none⟩
      | none => (parseTenantRateLimitCsv raw).map fun limit => ⟨limit, none⟩

/-- `parse_stored_tenant_rate_limit`.  A single number is no limit in any of the three forms,
and what the service has written is read back as it was. -/
def parseStoredTenantRateLimit : Value → Option ParsedStoredTenantRateLimit
  | .count _ => none
  | .stored stored => some (.ofStored stored)
  | .text raw => parseStoredText readers raw

namespace Store

def elapse (store : Store) (ms : Nat) : Store :=
  { store with clock := store.clock + ms }

/-- `GET`. -/
def get (store : Store) (key : String) : Option Value :=
  Expiring.get store.clock store.keys key

/-- The limit under a key. -/
def limitAt (store : Store) (key : String) : Option ParsedStoredTenantRateLimit :=
  (store.get key).bind (parseStoredTenantRateLimit readers)

/-- The first of the keys that holds a limit. -/
def findLimit (store : Store) : List String → Option (String × ParsedStoredTenantRateLimit)
  | [] => none
  | key :: rest =>
    match store.limitAt readers key with
    | some parsed => some (key, parsed)
    | none => store.findLimit rest

end Store

variable (store : Store)

/-- The key whose limit is applied to a request, if there is one. -/
def matchedKey (tenant model path policy : String) : Option String :=
  (store.findLimit readers
    (tenantRateLimitCandidateKeys cfg tenant model path policy)).map (·.1)

def resolveRateLimit (tenant model path policy : String) : TenantRateLimit :=
  match store.findLimit readers
      (tenantRateLimitCandidateKeys cfg tenant model path policy) with
  | some found => found.2.limit
  | none => globalRateLimit cfg

/-! ## The bucket -/

def tenantRateLimitKeys (tenant : String) : String × String :=
  let tenantKey := sanitizeKey tenant
  ("ai:ratelimit:" ++ tenantKey ++ ":tokens", "ai:ratelimit:" ++ tenantKey ++ ":ts")

/-- `tonumber(redis.call('GET', key) or default)`.  The JSON text of a limit is no number. -/
def numberOr (default : Nat) : Option Value → Option Nat
  | none => some default
  | some (.count n) => some n
  | some (.stored _) => none
  | some (.text raw) => readers.toNumber raw

def Store.set (key : String) (value : Option (Timed Value)) : Store :=
  { store with keys := Function.update store.keys key value }

theorem Store.keys_set_self (store : Store) (key : String) (value : Option (Timed Value)) :
    (store.set key value).keys key = value :=
  Function.update_self ..

theorem Store.keys_set_of_ne (store : Store) {key other : String} (h : other ≠ key)
    (value : Option (Timed Value)) : (store.set key value).keys other = store.keys other :=
  Function.update_of_ne h ..

/-- `SET key n PX ttl`. -/
def Store.setCount (ttl : Nat) (key : String) (n : Nat) : Store :=
  store.set key (some { value := .count n, deadline := some (store.clock + ttl) })

/-- `TOKEN_BUCKET_LUA` on its two keys. -/
def tokenBucket (limit : TenantRateLimit) (now : Nat) (tokensKey tsKey : String) (store : Store) :
    Except ServiceError Answer × Store :=
  if limit.rps = 0 ∨ limit.burst = 0 ∨ limit.cost = 0 then
    (.ok { allowed := false, remainingTokensMilli := 0, retryAfterMs := 1000 }, store)
  else
    match numberOr readers (milli limit.burst) (store.get tokensKey),
        numberOr readers now (store.get tsKey) with
    | some tokens, some lastTs =>
      let ttl := ttl limit.rps limit.burst
      let result := charge limit.rps limit.cost (refill limit.rps limit.burst tokens lastTs now)
      if store.clock + ttl > maxDeadline then
        (.error (internal ("redis: " ++ readers.expireError)), store)
      else
        (.ok result.1,
          (store.setCount ttl tokensKey result.2).setCount ttl tsKey (Double.num now))
    | _, _ => (.error (internal ("redis: " ++ readers.numberError)), store)

/-- A request to `check_rate_limit`, with the time of the service. -/
structure Check where
  headers : Headers
  uriPath : String
  now : Nat

namespace Check

variable (check : Check)

def tenant : Option String :=
  optionalHeader check.headers "x-tenant-id"

def model : String :=
  (optionalHeader check.headers "x-model").getD "default"

def path : String :=
  (optionalHeader check.headers "x-original-path").getD check.uriPath

def policy : String :=
  (optionalHeader check.headers "x-ratelimit-policy").getD "abandon"

end Check

/-- The limit that is applied to a request of a tenant. -/
def limitOf (check : Check) (store : Store) (tenant : String) : TenantRateLimit :=
  resolveRateLimit cfg readers store tenant check.model check.path check.policy

/-- `check_rate_limit`. -/
def checkRateLimit (check : Check) (store : Store) : Except ServiceError Answer × Store :=
  match requiredHeader check.headers "x-tenant-id" with
  | .error e => (.error e, store)
  | .ok tenant =>
    tokenBucket readers (limitOf cfg readers check store tenant) check.now
      (tenantRateLimitKeys tenant).1 (tenantRateLimitKeys tenant).2 store

/-! ## The admin API -/

def nonEmptyOpt (value : Option String) : Option String :=
  (value.map trim).filter (· ≠ "")

def validateAdminRuleDimension (name value : String) : Except ServiceError Unit :=
  if ':' ∈ value.toList then .error (badRequest (name ++ " must not contain ':'")) else .ok ()

def validatePolicyDimension (policy : String) : Except ServiceError Unit :=
  if policy = "abandon" ∨ policy = "queue" ∨ policy = "wait" then .ok ()
  else .error (badRequest "policy must be abandon, queue, or wait")

variable (rule : TenantRateLimitRule)

def validateTenantRuleDimensions : Except ServiceError Unit := do
  if trim rule.tenant = "" then
    .error (badRequest "tenant is required")
  validateAdminRuleDimension "tenant" (trim rule.tenant)
  match nonEmptyOpt rule.model with
  | some model => validateAdminRuleDimension "model" model
  | none => .ok ()
  match nonEmptyOpt rule.path with
  | some path => validateAdminRuleDimension "path" path
  | none => .ok ()
  match nonEmptyOpt rule.policy with
  | some policy => validatePolicyDimension policy
  | none => .ok ()

def validateTenantRateLimitRule : Except ServiceError Unit := do
  validateTenantRuleDimensions rule
  if rule.rps = 0 then
    .error (badRequest "rps must be greater than 0")
  if rule.burst = 0 then
    .error (badRequest "burst must be greater than 0")
  if rule.cost = 0 then
    .error (badRequest "cost must be greater than 0")
  if rule.cost > rule.burst then
    .error (badRequest "cost must be less than or equal to burst")

theorem limits_of_valid {rule : TenantRateLimitRule}
    (h : validateTenantRateLimitRule rule = .ok ()) :
    rule.rps ≠ 0 ∧ rule.burst ≠ 0 ∧ rule.cost ≠ 0 ∧ rule.cost ≤ rule.burst := by
  unfold validateTenantRateLimitRule at h
  cases hd : validateTenantRuleDimensions rule with
  | error e => simp [hd, bind, Except.bind] at h
  | ok _ =>
    simp only [hd, bind, Except.bind] at h
    split_ifs at h with hr hb hc hl
    exact ⟨hr, hb, hc, not_lt.mp hl⟩

/-- A call that a rule is applied to.  The clock of the store may be ahead. -/
def callOf (rule : TenantRateLimitRule) (ahead t : Nat) : Call :=
  ⟨t + ahead, t, rule.cost⟩

/-- What the script answers to such a call, and the keys after it. -/
def callAt (rule : TenantRateLimitRule) (ahead t : Nat) (bucket : Option Bucket) :
    Option Answer × Option Bucket :=
  let result := script rule.rps rule.burst (callOf rule ahead t) (live (callOf rule ahead t) bucket)
  (result.1, result.2.or bucket)

/-- Where the numbers stay below `2 ^ 53`: after a call that a rule denies, with the time to
wait that it names, a call is denied until that time has passed, and allowed from then on. -/
theorem allowed_iff_waited (rule : TenantRateLimitRule)
    (hValid : validateTenantRateLimitRule rule = .ok ()) (hBurst : rule.burst * 1000 ≤ 2 ^ 53)
    (bucket : Option Bucket) (ahead t t' : Nat) (hLater : t ≤ t') (hTime : t' + ahead ≤ 2 ^ 53)
    (answer : Answer) (hAnswer : (callAt rule ahead t bucket).1 = some answer)
    (hDenied : answer.allowed = false) :
    (callAt rule ahead t' (callAt rule ahead t bucket).2).1.map Answer.allowed =
      some (decide (t + answer.retryAfterMs ≤ t')) := by
  obtain ⟨hr, -, hc, hb⟩ := limits_of_valid hValid
  obtain ⟨δ, rfl⟩ := Nat.exists_eq_add_of_le hLater
  simp only [callAt, callOf] at hAnswer ⊢
  rw [Nat.add_right_comm t δ] at hTime ⊢
  rw [TokenBucket.allowed_iff_of_denied hBurst hr hc hb (by omega) hTime hAnswer hDenied]
  simp

/-- One token per second. -/
def oneToken : TenantRateLimitRule where
  tenant := "acme"
  model := none
  path := none
  policy := none
  rps := 1
  burst := 1
  cost := 1
  ttlSecs := none

/-- An empty bucket has a token again after a second. -/
theorem oneToken_waited :
    (callAt oneToken 0 0 (some ⟨0, 0, 300000⟩)).1 = some ⟨false, 0, 1000⟩ ∧
      (callAt oneToken 0 999 (callAt oneToken 0 0 (some ⟨0, 0, 300000⟩)).2).1.map
        Answer.allowed = some (decide (0 + 1000 ≤ 999)) :=
  ⟨by decide +kernel, allowed_iff_waited oneToken rfl (by decide) _ 0 0 999 (by decide) (by decide)
    ⟨false, 0, 1000⟩ (by decide +kernel) rfl⟩

/-- The thousandths of the burst are eight more than `2 ^ 53`. -/
def largeBurst : TenantRateLimitRule :=
  { oneToken with rps := 393447746243, burst := 9007199254741, cost := 9007199254741 }

/-- After the first call the bucket is empty; the second one is allowed a millisecond before the
time that is named. -/
theorem largeBurst_too_early :
    let empty := (callAt largeBurst 0 0 none).2
    validateTenantRateLimitRule largeBurst = .ok () ∧
      (callAt largeBurst 0 0 empty).1 = some ⟨false, 0, 22894⟩ ∧
      (callAt largeBurst 0 22893 (callAt largeBurst 0 0 empty).2).1.map Answer.allowed =
        some true := by
  exact ⟨rfl, by decide +kernel, by decide +kernel⟩

/-- A part of the key of a rule. -/
def keyPart (name : String) (value : Option String) : String :=
  match nonEmptyOpt value with
  | some value => name ++ sanitizeKey value
  | none => ""

def tenantRateLimitRuleKey : String :=
  cfg.tenantRateLimitPrefix ++ sanitizeKey (trim rule.tenant) ++
    keyPart ":model:" rule.model ++ keyPart ":path:" rule.path ++ keyPart ":policy:" rule.policy

def storedLimit : StoredTenantRateLimit where
  rps := rule.rps
  burst := rule.burst
  cost := max rule.cost 1
  ttlSecs := rule.ttlSecs

/-- When a value written with the expiration `EX(ttl.max(1) as i64)` expires.  A time that does
not fit is refused by the store. -/
def expiration (clock : Nat) : Option Nat → Except ServiceError (Option Nat)
  | none => .ok none
  | some ttl =>
    if clock + max ttl 1 * 1000 ≤ maxDeadline then .ok (some (clock + max ttl 1 * 1000))
    else .error (internal "redis: ERR invalid expire time in 'set' command")

/-- `upsert_tenant_rate_limit_rule`, without the view it returns. -/
def upsertTenantRateLimitRule (store : Store) :
    Except ServiceError Store := do
  validateTenantRateLimitRule rule
  let deadline ← expiration store.clock rule.ttlSecs
  .ok (store.set (tenantRateLimitRuleKey cfg rule)
    (some { value := .stored (storedLimit rule), deadline := deadline }))

/-- `delete_tenant_rate_limit_rule`, without the number of keys that were removed. -/
def deleteTenantRateLimitRule (store : Store) :
    Except ServiceError Store := do
  validateTenantRuleDimensions rule
  .ok (store.set (tenantRateLimitRuleKey cfg rule) none)

/-! ## Runs -/

inductive Event where
  | check (check : Check)
  | upsert (rule : TenantRateLimitRule)
  | delete (rule : TenantRateLimitRule)
  | elapse (ms : Nat)

inductive Reply where
  | checked (answer : Except ServiceError Answer)
  | administered (result : Except ServiceError Unit)
  | elapsed

/-- What the admin API answers, and the store after it; an error leaves the store as it is. -/
def administer : Except ServiceError Store → Reply × Store
  | .ok store' => (.administered (.ok ()), store')
  | .error e => (.administered (.error e), store)

def serve (event : Event) (store : Store) : Reply × Store :=
  match event with
  | .check check =>
    let result := checkRateLimit cfg readers check store
    (.checked result.1, result.2)
  | .upsert rule => administer store (upsertTenantRateLimitRule cfg rule store)
  | .delete rule => administer store (deleteTenantRateLimitRule cfg rule store)
  | .elapse ms => (.elapsed, store.elapse ms)

def Store.init : Store where
  clock := 0
  keys := fun _ => none

end Spacegate.AiGateway.RateLimit
