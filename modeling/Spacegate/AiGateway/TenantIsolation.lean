import Mathlib.Data.Set.Basic
import Spacegate.AiGateway.RateLimit
import Spacegate.Foundation.Noninterference
import Mathlib.Order.CompletePartialOrder

/-!
# Isolation of tenants

The bucket of a tenant is found under keys that are made from the tenant's name, and the name
is made fit for a key by replacing characters.  Two tenants have buckets of their own exactly
if their names are still different after that.

The prefix of the rules is configured, and with an unlucky one the bucket of one tenant may be
where a rule for another one is looked for.  This does no harm: the script fails at a rule, and
a number is no rule.
-/

namespace Spacegate.AiGateway.RateLimit

open Foundation
open Foundation.Expiring
open Foundation.Noninterference
open Enqueue (Headers optionalHeader requiredHeader)
open Queue (sanitizeKey)
open TokenBucket (Answer milli ttl refill charge)

/-- Requests can name the tenant. -/
def Accepted (tenant : String) : Prop :=
  ∃ headers, requiredHeader headers "x-tenant-id" = .ok tenant

def bucketKeys (tenant : String) : Set String :=
  {key | key = (tenantRateLimitKeys tenant).1 ∨ key = (tenantRateLimitKeys tenant).2}

def Event.isFor (tenant : String) : Event → Bool
  | .check request => request.tenant == some tenant
  | _ => false

/-- What requests of the second tenant are answered is the same without the requests of the
first one. -/
def Isolated (tenant₁ tenant₂ : String) : Prop :=
  ∀ (cfg : Config) (readers : Readers) (store : Store) (events : List Event),
    answers (serve cfg readers) (Event.isFor tenant₂) store events =
      answers (serve cfg readers) (Event.isFor tenant₂) store
        (events.filter fun event => !event.isFor tenant₁)

/-! ## Keys -/

variable {tenant₁ tenant₂ raw key tokensKey tsKey tenant : String} {store s s' : Store}
  {hidden : Set String} {check : Check}

theorem tokensKey_inj : (tenantRateLimitKeys tenant₁).1 = (tenantRateLimitKeys tenant₂).1 ↔
      sanitizeKey tenant₁ = sanitizeKey tenant₂ := by
  simp [tenantRateLimitKeys, ← String.toList_inj]

theorem tsKey_inj : (tenantRateLimitKeys tenant₁).2 = (tenantRateLimitKeys tenant₂).2 ↔
      sanitizeKey tenant₁ = sanitizeKey tenant₂ := by
  simp [tenantRateLimitKeys, ← String.toList_inj]

theorem tokensKey_ne_tsKey (tenant₁ tenant₂ : String) :
    (tenantRateLimitKeys tenant₁).1 ≠ (tenantRateLimitKeys tenant₂).2 := by
  intro h
  -- read from the end, the third last characters differ
  have hr := congrArg (fun s : String => s.toList.reverse) h
  simp [tenantRateLimitKeys] at hr

theorem disjoint_bucketKeys_iff (tenant₁ tenant₂ : String) :
    Disjoint (bucketKeys tenant₁) (bucketKeys tenant₂) ↔
      sanitizeKey tenant₁ ≠ sanitizeKey tenant₂ := by
  rw [Set.disjoint_left]
  constructor
  · intro h hs
    exact h (Or.inl rfl) (Or.inl (tokensKey_inj.mpr hs))
  · rintro hNe key (rfl | rfl) (h | h)
    · exact hNe (tokensKey_inj.mp h)
    · exact tokensKey_ne_tsKey tenant₁ tenant₂ h
    · exact tokensKey_ne_tsKey tenant₂ tenant₁ h.symm
    · exact hNe (tsKey_inj.mp h)

/-! ## Numbers are no limits -/

variable {cfg : Config} {readers : Readers}

theorem parseTenantRateLimitCsv_of_notMem (h : ',' ∉ raw.toList) :
    parseTenantRateLimitCsv raw = none := by
  simp [parseTenantRateLimitCsv, Text.split_of_notMem h]

theorem parseStoredText_of_number {n : Nat} (h : readers.toNumber raw = some n) :
    parseStoredText readers raw = none := by
  have hCsv : parseTenantRateLimitCsv (Text.trim raw) = none :=
    parseTenantRateLimitCsv_of_notMem fun hMem =>
      readers.comma_notMem_of_number raw n h (Text.mem_of_mem_trim hMem)
  simp [parseStoredText, readers.storedFromStr_of_number raw n h,
    readers.limitFromStr_of_number raw n h, hCsv]

theorem limitAt_of_numberOr {default n : Nat}
    (h : numberOr readers default (store.get key) = some n) : store.limitAt readers key = none := by
  unfold Store.limitAt
  cases hv : store.get key with
  | none => rfl
  | some value =>
    rw [hv] at h
    cases value with
    | count n => rfl
    | stored limit => simp [numberOr] at h
    | text raw =>
      simp [parseStoredTenantRateLimit, parseStoredText_of_number h]

theorem limitAt_elapse (h : store.limitAt readers key = none) (ms : Nat) :
    (store.elapse ms).limitAt readers key = none := by
  unfold Store.limitAt at h ⊢
  cases hv : (store.elapse ms).get key with
  | none => rfl
  | some value =>
    have hNow : store.get key = some value := get_of_get_later (Nat.le_add_right _ ms) hv
    rwa [hNow] at h

theorem limitAt_setCount (store : Store) (ttl ms : Nat) (key : String) (n : Nat) :
    ((store.setCount ttl key n).elapse ms).limitAt readers key = none := by
  unfold Store.limitAt
  cases hv : ((store.setCount ttl key n).elapse ms).get key with
  | none => rfl
  | some value =>
    obtain ⟨timed, ht, -, rfl⟩ := get_eq_some_iff.mp hv
    have hc : some timed = some { value := .count n, deadline := some (store.clock + ttl) } :=
      ht.symm.trans (Function.update_self ..)
    cases hc
    rfl

theorem limitAt_set_of_ne {other : String} (h : other ≠ key) (ms : Nat)
    (value : Option (Timed Value)) : ((store.set key value).elapse ms).limitAt readers other =
      (store.elapse ms).limitAt readers other :=
  congrArg (Option.bind · (parseStoredTenantRateLimit readers)) (get_update_of_ne h value)

/-! ## Stores that are alike -/

/-- The time is the same, and so is everything that is not in the hidden places.  There, at
least the limits are the same, now and later. -/
structure Alike (readers : Readers) (hidden : Set String) (s s' : Store) : Prop where
  clock : s.clock = s'.clock
  keys : ∀ key, key ∉ hidden → s.keys key = s'.keys key
  limits : ∀ key ms, (s.elapse ms).limitAt readers key = (s'.elapse ms).limitAt readers key

namespace Alike

variable {hidden : Set String} {s s' s'' : Store}

theorem refl (hidden : Set String) (s : Store) : Alike readers hidden s s where
  clock := rfl
  keys := fun _ _ => rfl
  limits := fun _ _ => rfl

variable (h : Alike readers hidden s s')
include h

theorem symm : Alike readers hidden s' s where
  clock := h.clock.symm
  keys := fun key hKey => (h.keys key hKey).symm
  limits := fun key ms => (h.limits key ms).symm

theorem trans (h' : Alike readers hidden s' s'') : Alike readers hidden s s'' where
  clock := h.clock.trans h'.clock
  keys := fun key hKey => (h.keys key hKey).trans (h'.keys key hKey)
  limits := fun key ms => (h.limits key ms).trans (h'.limits key ms)

theorem limitAt_eq (key : String) : s.limitAt readers key = s'.limitAt readers key :=
  h.limits key 0

theorem get_eq {key : String} (hKey : key ∉ hidden) : s.get key = s'.get key := by
  unfold Store.get
  rw [h.clock]
  exact get_congr (h.keys key hKey)

theorem elapse (ms : Nat) : Alike readers hidden (s.elapse ms) (s'.elapse ms) where
  clock := congrArg (· + ms) h.clock
  keys := h.keys
  limits := by
    intro key later
    simpa only [Store.elapse, Nat.add_assoc] using h.limits key (ms + later)

/-- The same value is written to both. -/
theorem set (key : String) (value : Option (Timed Value)) :
    Alike readers hidden (s.set key value) (s'.set key value) where
  clock := h.clock
  keys := by
    intro other ho
    simp [Store.set, Function.update_apply, h.keys other ho]
  limits := by
    intro other ms
    by_cases hEq : other = key
    · subst hEq
      unfold Store.limitAt Store.get
      have hc : ((s.set other value).elapse ms).clock = ((s'.set other value).elapse ms).clock :=
        congrArg (· + ms) h.clock
      rw [hc]
      congr 1
      apply get_congr
      simp [Store.elapse, Store.set]
    · rw [limitAt_set_of_ne hEq, limitAt_set_of_ne hEq]
      exact h.limits other ms

theorem setCount_both (ttl : Nat) (key : String) (n : Nat) :
    Alike readers hidden (s.setCount ttl key n) (s'.setCount ttl key n) := by
  unfold Store.setCount
  rw [h.clock]
  exact h.set key _

omit h

theorem setCount {key : String} (hKey : key ∈ hidden) (hl : s.limitAt readers key = none)
    (ttl n : Nat) : Alike readers hidden (s.setCount ttl key n) s where
  clock := rfl
  keys := by
    intro other ho
    have hNe : other ≠ key := by
      rintro rfl
      exact ho hKey
    exact Function.update_of_ne hNe _ _
  limits := by
    intro other ms
    by_cases hEq : other = key
    · subst hEq
      rw [limitAt_setCount, limitAt_elapse hl]
    · exact limitAt_set_of_ne hEq ms _

end Alike

theorem findLimit_congr {candidates : List String}
    (h : ∀ key, s.limitAt readers key = s'.limitAt readers key) :
    s.findLimit readers candidates = s'.findLimit readers candidates := by
  induction candidates with
  | nil => rfl
  | cons key rest ih => simp [Store.findLimit, h key, ih]

theorem limitOf_congr (h : Alike readers hidden s s') (check : Check) (tenant : String) :
    limitOf cfg readers check s tenant = limitOf cfg readers check s' tenant := by
  simp [limitOf, resolveRateLimit, findLimit_congr h.limitAt_eq]

/-! ## The script -/

theorem tokenBucket_cases (limit : TenantRateLimit) (now : Nat) (store : Store) :
    (tokenBucket readers limit now tokensKey tsKey store).2 = store ∨
      (store.limitAt readers tokensKey = none ∧ store.limitAt readers tsKey = none ∧
        ∃ ttl n ts, (tokenBucket readers limit now tokensKey tsKey store).2 =
          (store.setCount ttl tokensKey n).setCount ttl tsKey ts) := by
  unfold tokenBucket
  split_ifs
  · exact Or.inl rfl
  · split
    case h_1 tokens lastTs ht hTs =>
      dsimp only
      split_ifs
      · exact Or.inl rfl
      · exact Or.inr ⟨limitAt_of_numberOr ht, limitAt_of_numberOr hTs, _, _, _, rfl⟩
    case h_2 => exact Or.inl rfl

theorem alike_tokenBucket (ht : tokensKey ∈ hidden) (hTs : tsKey ∈ hidden)
    (limit : TenantRateLimit) (now : Nat) (store : Store) :
    Alike readers hidden (tokenBucket readers limit now tokensKey tsKey store).2 store := by
  rcases tokenBucket_cases limit now store with hs | ⟨hnt, hNoTs, ttl, n, ts, hSet⟩
  · rw [hs]
    exact Alike.refl hidden store
  · rw [hSet]
    have hf := Alike.setCount ht hnt ttl n
    refine (Alike.setCount hTs ?_ ttl ts).trans hf
    rw [hf.limitAt_eq]
    exact hNoTs

/-- The script on keys that are not hidden. -/
theorem tokenBucket_congr (h : Alike readers hidden s s') (ht : tokensKey ∉ hidden)
    (hTs : tsKey ∉ hidden) (limit : TenantRateLimit) (now : Nat) :
    (tokenBucket readers limit now tokensKey tsKey s).1 =
        (tokenBucket readers limit now tokensKey tsKey s').1 ∧
      Alike readers hidden (tokenBucket readers limit now tokensKey tsKey s).2
        (tokenBucket readers limit now tokensKey tsKey s').2 := by
  unfold tokenBucket
  rw [h.get_eq ht, h.get_eq hTs, h.clock]
  split_ifs
  · exact ⟨rfl, h⟩
  · split
    · dsimp only
      split_ifs
      · exact ⟨rfl, h⟩
      · exact ⟨rfl, (h.setCount_both _ tokensKey _).setCount_both _ tsKey _⟩
    · exact ⟨rfl, h⟩

/-! ## Requests and the admin API -/

theorem requiredHeader_eq_ok_iff {headers : Headers} {name value : String} :
    requiredHeader headers name = .ok value ↔ optionalHeader headers name = some value := by
  unfold requiredHeader
  cases optionalHeader headers name <;> simp

theorem isFor_check_iff : (Event.check check).isFor tenant = true ↔
      requiredHeader check.headers "x-tenant-id" = .ok tenant := by
  rw [requiredHeader_eq_ok_iff, Event.isFor, beq_iff_eq]
  rfl

theorem isFor_of_ne {tenant' : String} (hNe : tenant ≠ tenant')
    (h : (Event.check check).isFor tenant = true) : (Event.check check).isFor tenant' = false := by
  rw [Bool.eq_false_iff, Ne, isFor_check_iff, isFor_check_iff.mp h]
  simpa using hNe

variable (h : requiredHeader check.headers "x-tenant-id" = .ok tenant)
include h

theorem checkRateLimit_of_tenant (store : Store) : checkRateLimit cfg readers check store =
      tokenBucket readers (limitOf cfg readers check store tenant) check.now
        (tenantRateLimitKeys tenant).1 (tenantRateLimitKeys tenant).2 store := by
  simp [checkRateLimit, h]

theorem alike_checkRateLimit {hidden : String}
    (hs : sanitizeKey tenant = sanitizeKey hidden) (store : Store) :
    Alike readers (bucketKeys hidden) (checkRateLimit cfg readers check store).2 store := by
  rw [checkRateLimit_of_tenant h]
  exact alike_tokenBucket (Or.inl (tokensKey_inj.mpr hs)) (Or.inr (tsKey_inj.mpr hs)) _ _ _

omit h

theorem checkRateLimit_congr {hidden : String} (ha : Alike readers (bucketKeys hidden) s s')
    (ho : ∀ tenant, requiredHeader check.headers "x-tenant-id" = .ok tenant →
      sanitizeKey tenant ≠ sanitizeKey hidden) :
    (checkRateLimit cfg readers check s).1 = (checkRateLimit cfg readers check s').1 ∧
      Alike readers (bucketKeys hidden) (checkRateLimit cfg readers check s).2
        (checkRateLimit cfg readers check s').2 := by
  cases ht : requiredHeader check.headers "x-tenant-id" with
  | error e =>
    simp only [checkRateLimit, ht]
    exact ⟨trivial, ha⟩
  | ok tenant =>
    have hd := Set.disjoint_left.mp ((disjoint_bucketKeys_iff tenant hidden).mpr (ho tenant ht))
    rw [checkRateLimit_of_tenant ht, checkRateLimit_of_tenant ht, limitOf_congr ha]
    exact tokenBucket_congr ha (hd (Or.inl rfl)) (hd (Or.inr rfl)) _ _

/-- A change of the admin API fails in the same way for both stores, or it writes the same value. -/
def SameChange (s s' : Store) (change : Store → Except ServiceError Store) : Prop :=
  (∃ e, change s = .error e ∧ change s' = .error e) ∨
    ∃ key value, change s = .ok (s.set key value) ∧ change s' = .ok (s'.set key value)

theorem alike_administer (h : Alike readers hidden s s')
    {change : Store → Except ServiceError Store} (hc : SameChange s s' change) :
    (administer s (change s)).1 = (administer s' (change s')).1 ∧
      Alike readers hidden (administer s (change s)).2 (administer s' (change s')).2 := by
  rcases hc with ⟨e, hs, hs'⟩ | ⟨key, value, hs, hs'⟩
  · rw [hs, hs']
    exact ⟨rfl, h⟩
  · rw [hs, hs']
    exact ⟨rfl, h.set key value⟩

theorem sameChange_upsert (cfg : Config) (rule : TenantRateLimitRule) (h : s.clock = s'.clock) :
    SameChange s s' (upsertTenantRateLimitRule cfg rule) := by
  unfold SameChange upsertTenantRateLimitRule
  rw [h]
  cases validateTenantRateLimitRule rule with
  | error e => exact Or.inl ⟨e, rfl, rfl⟩
  | ok _ =>
    cases expiration s'.clock rule.ttlSecs with
    | error e => exact Or.inl ⟨e, rfl, rfl⟩
    | ok deadline => exact Or.inr ⟨_, _, rfl, rfl⟩

theorem sameChange_delete (cfg : Config) (rule : TenantRateLimitRule) (s s' : Store) :
    SameChange s s' (deleteTenantRateLimitRule cfg rule) := by
  unfold SameChange deleteTenantRateLimitRule
  cases validateTenantRuleDimensions rule with
  | error e => exact Or.inl ⟨e, rfl, rfl⟩
  | ok _ => exact Or.inr ⟨_, _, rfl, rfl⟩

theorem serve_congr {event : Event} {hidden : String} (ha : Alike readers (bucketKeys hidden) s s')
    (ho : ∀ check, event = .check check → ∀ tenant,
      requiredHeader check.headers "x-tenant-id" = .ok tenant →
      sanitizeKey tenant ≠ sanitizeKey hidden) :
    (serve cfg readers event s).1 = (serve cfg readers event s').1 ∧
      Alike readers (bucketKeys hidden) (serve cfg readers event s).2
        (serve cfg readers event s').2 := by
  cases event with
  | check check =>
    obtain ⟨hAnswer, hAfter⟩ := checkRateLimit_congr ha (ho check rfl)
    exact ⟨congrArg Reply.checked hAnswer, hAfter⟩
  | upsert rule => exact alike_administer ha (sameChange_upsert cfg rule ha.clock)
  | delete rule => exact alike_administer ha (sameChange_delete cfg rule s s')
  | elapse ms => exact ⟨rfl, ha.elapse ms⟩

theorem unwinding_of_sanitizeKey_ne (h : sanitizeKey tenant₁ ≠ sanitizeKey tenant₂) :
    Unwinding (serve cfg readers) (Event.isFor tenant₂) (Event.isFor tenant₁)
      (Alike readers (bucketKeys tenant₁)) where
  unnoticed := by
    intro event s s' hFor ha
    cases event with
    | check check =>
      have hNe : tenant₁ ≠ tenant₂ := by
        rintro rfl
        exact h rfl
      exact ⟨isFor_of_ne hNe hFor, (alike_checkRateLimit (isFor_check_iff.mp hFor) rfl s).trans ha⟩
    | upsert rule => simp [Event.isFor] at hFor
    | delete rule => simp [Event.isFor] at hFor
    | elapse ms => simp [Event.isFor] at hFor
  kept := by
    intro event s s' _ ha
    by_cases hShares : ∃ check tenant, event = .check check ∧
        requiredHeader check.headers "x-tenant-id" = .ok tenant ∧
        sanitizeKey tenant = sanitizeKey tenant₁
    · -- another tenant that shares the hidden bucket
      obtain ⟨check, tenant, rfl, ht, hs⟩ := hShares
      exact (alike_checkRateLimit ht hs s).trans (ha.trans (alike_checkRateLimit ht hs s').symm)
    · refine (serve_congr ha fun check hc tenant ht hs => ?_).2
      exact hShares ⟨check, tenant, hc, ht, hs⟩
  answer := by
    intro event s s' hFor ha
    refine (serve_congr ha fun check hc tenant ht hs => ?_).1
    subst hc
    have hEq : (Except.ok tenant : Except ServiceError String) = .ok tenant₂ :=
      ht.symm.trans (isFor_check_iff.mp hFor)
    cases hEq
    exact h hs.symm

theorem isolated_of_sanitizeKey_ne (h : sanitizeKey tenant₁ ≠ sanitizeKey tenant₂) :
    Isolated tenant₁ tenant₂ :=
  fun _ _ store events =>
    (unwinding_of_sanitizeKey_ne h).answers_filter (Alike.refl _ store) events

/-! ## A shared bucket -/

/-- One token per second, and a burst of one. -/
def oneByOne : Config where
  rateLimitRps := 1
  rateLimitBurst := 1
  rateLimitCost := 1
  tenantRateLimitPrefix := "ai:tenant:ratelimit:"

/-- No text is anything. -/
def noReaders : Readers where
  storedFromStr := fun _ => none
  limitFromStr := fun _ => none
  toNumber := fun _ => none
  numberError := ""
  expireError := ""
  storedFromStr_of_number := by simp
  limitFromStr_of_number := by simp
  comma_notMem_of_number := by simp

theorem limitOf_init (check : Check) (tenant : String) :
    limitOf oneByOne noReaders check .init tenant = ⟨1, 1, 1⟩ := by
  rfl

theorem ttl_one : ttl 1 1 = 300000 := by
  decide +kernel

theorem tokenBucket_init (tokensKey tsKey : String) :
    tokenBucket noReaders ⟨1, 1, 1⟩ 0 tokensKey tsKey .init =
      (.ok { allowed := true, remainingTokensMilli := 0, retryAfterMs := 0 },
        (Store.init.setCount 300000 tokensKey 0).setCount 300000 tsKey 0) := by
  have hFull : charge 1 1 (refill 1 1 (milli 1) 0 0) = (⟨true, 0, 0⟩, 0) := by decide +kernel
  have hClock : Store.init.clock = 0 := rfl
  have hNone (key : String) : Store.init.get key = none := rfl
  simp [tokenBucket, hNone, numberOr, hFull, ttl_one, Double.num_eq_self, hClock,
    TokenBucket.maxDeadline]

theorem tokenBucket_taken (hNe : tokensKey ≠ tsKey) :
    (tokenBucket noReaders ⟨1, 1, 1⟩ 0 tokensKey tsKey
      ((Store.init.setCount 300000 tokensKey 0).setCount 300000 tsKey 0)).1 =
      .ok { allowed := false, remainingTokensMilli := 0, retryAfterMs := 1000 } := by
  have ht : ((Store.init.setCount 300000 tokensKey 0).setCount 300000 tsKey 0).get tokensKey =
      some (.count 0) := by
    refine get_of_deadline ?_ (by decide : 0 < 300000)
    simp [Store.setCount, Store.set, Store.init, hNe]
  have hTs : ((Store.init.setCount 300000 tokensKey 0).setCount 300000 tsKey 0).get tsKey =
      some (.count 0) := by
    refine get_of_deadline ?_ (by decide : 0 < 300000)
    simp [Store.setCount, Store.set, Store.init]
  have hEmpty : charge 1 1 (refill 1 1 0 0 0) = (⟨false, 0, 1000⟩, 0) := by decide +kernel
  have hClock : ((Store.init.setCount 300000 tokensKey 0).setCount 300000 tsKey 0).clock = 0 := rfl
  simp [tokenBucket, ht, hTs, numberOr, hEmpty, ttl_one, hClock, TokenBucket.maxDeadline]

/-- A request at the beginning of time. -/
def firstCheck (headers : Headers) : Check where
  headers := headers
  uriPath := "/"
  now := 0

theorem checkRateLimit_init {headers : Headers}
    (h : requiredHeader headers "x-tenant-id" = .ok tenant) :
    checkRateLimit oneByOne noReaders (firstCheck headers) .init =
      (.ok { allowed := true, remainingTokensMilli := 0, retryAfterMs := 0 },
        (Store.init.setCount 300000 (tenantRateLimitKeys tenant).1 0).setCount 300000
          (tenantRateLimitKeys tenant).2 0) := by
  have hNow : (firstCheck headers).now = 0 := rfl
  rw [checkRateLimit_of_tenant h, limitOf_init, hNow, tokenBucket_init]

theorem checkRateLimit_taken {headers₁ headers₂ : Headers}
    (h₁ : requiredHeader headers₁ "x-tenant-id" = .ok tenant₁)
    (h₂ : requiredHeader headers₂ "x-tenant-id" = .ok tenant₂)
    (hs : sanitizeKey tenant₁ = sanitizeKey tenant₂) :
    (checkRateLimit oneByOne noReaders (firstCheck headers₂)
      (checkRateLimit oneByOne noReaders (firstCheck headers₁) .init).2).1 =
      .ok { allowed := false, remainingTokensMilli := 0, retryAfterMs := 1000 } := by
  have hNow : (firstCheck headers₂).now = 0 := rfl
  have hk : tenantRateLimitKeys tenant₁ = tenantRateLimitKeys tenant₂ := by
    simp [tenantRateLimitKeys, hs]
  rw [checkRateLimit_of_tenant h₂, limitOf_congr (alike_checkRateLimit h₁ rfl .init),
    limitOf_init, hNow, checkRateLimit_init h₁, hk,
    tokenBucket_taken (tokensKey_ne_tsKey tenant₂ tenant₂)]

theorem sanitizeKey_ne_of_isolated (h₁ : Accepted tenant₁) (h₂ : Accepted tenant₂)
    (hNe : tenant₁ ≠ tenant₂) (h : Isolated tenant₁ tenant₂) :
    sanitizeKey tenant₁ ≠ sanitizeKey tenant₂ := by
  intro hs
  obtain ⟨headers₁, hh₁⟩ := h₁
  obtain ⟨headers₂, hh₂⟩ := h₂
  have hf₁ : (Event.check (firstCheck headers₁)).isFor tenant₁ = true := isFor_check_iff.mpr hh₁
  have hf₂ : (Event.check (firstCheck headers₂)).isFor tenant₂ = true := isFor_check_iff.mpr hh₂
  have ha := h oneByOne noReaders .init [.check (firstCheck headers₁), .check (firstCheck headers₂)]
  simp only [answers, isFor_of_ne hNe hf₁, hf₁, hf₂, isFor_of_ne hNe.symm hf₂, serve,
    List.filter, Bool.not_true, Bool.not_false, if_true, Bool.false_eq_true, if_false,
    checkRateLimit_taken hh₁ hh₂ hs, checkRateLimit_init hh₂] at ha
  simp at ha

/-- Two tenants do not notice each other, and have buckets of their own, exactly if their names
are different when made fit for a key. -/
theorem isolated_iff_sanitizeKey_ne (tenant₁ tenant₂ : String) (h₁ : Accepted tenant₁)
    (h₂ : Accepted tenant₂) (hNe : tenant₁ ≠ tenant₂) :
    (Isolated tenant₁ tenant₂ ↔ sanitizeKey tenant₁ ≠ sanitizeKey tenant₂) ∧
      (Disjoint (bucketKeys tenant₁) (bucketKeys tenant₂) ↔
        sanitizeKey tenant₁ ≠ sanitizeKey tenant₂) := by
  refine ⟨⟨?_, isolated_of_sanitizeKey_ne⟩, disjoint_bucketKeys_iff tenant₁ tenant₂⟩
  exact sanitizeKey_ne_of_isolated h₁ h₂ hNe

theorem acme_globex_isolated :
    Accepted "acme" ∧ Accepted "globex" ∧ "acme" ≠ "globex" ∧ Isolated "acme" "globex" := by
  have ha : Accepted "acme" := ⟨[("x-tenant-id", some "acme")], by decide +kernel⟩
  have hg : Accepted "globex" := ⟨[("x-tenant-id", some "globex")], by decide +kernel⟩
  refine ⟨ha, hg, by decide, ?_⟩
  exact (isolated_iff_sanitizeKey_ne "acme" "globex" ha hg (by decide)).1.mpr (by decide +kernel)

/-- Two tenants whose names differ in a character that is replaced. -/
theorem team_not_isolated :
    Accepted "team/a" ∧ Accepted "team a" ∧ "team/a" ≠ "team a" ∧ ¬ Isolated "team/a" "team a" ∧
      bucketKeys "team/a" = bucketKeys "team a" := by
  have hs : Accepted "team/a" := ⟨[("x-tenant-id", some "team/a")], by decide +kernel⟩
  have hb : Accepted "team a" := ⟨[("x-tenant-id", some "team a")], by decide +kernel⟩
  have hSame : sanitizeKey "team/a" = sanitizeKey "team a" := by decide +kernel
  refine ⟨hs, hb, by decide, fun h => ?_, ?_⟩
  · exact sanitizeKey_ne_of_isolated hs hb (by decide) h hSame
  · simp only [bucketKeys, tenantRateLimitKeys, hSame]

end Spacegate.AiGateway.RateLimit
