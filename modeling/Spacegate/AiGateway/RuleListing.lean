import Spacegate.AiGateway.TenantRules
import Spacegate.Foundation.Utf8

/-!
# Rules read back from their keys

The key of a rule names its dimensions, with colons between them.  As the admin API refuses
colons, the dimensions can be read back from the key.  So a request without colons is under one
of the most specific rules that fit it (`mostSpecific_or_global`), and a rule that was written is
listed, unless its key looks like one that was used before there were rules
(`listed_iff_visible`).
-/

namespace Spacegate.AiGateway.RateLimit

open Foundation Text Store List Ledger TenantRateLimitRule
open Queue (sanitizeKey)

/-! ## Dimensions -/

/-- The dimensions of a rule, as they stand in its key. -/
structure Dimensions where
  tenant : String
  model : Option String
  path : Option String
  policy : Option String
  deriving DecidableEq

namespace Dimensions

def key (cfg : Config) (d : Dimensions) : String :=
  cfg.tenantRateLimitPrefix ++ (d.tenant ++ (d.model.elim "" (":model:" ++ ·) ++
    (d.path.elim "" (":path:" ++ ·) ++ d.policy.elim "" (":policy:" ++ ·))))

/-- The number of dimensions that are specified. -/
def specificity (d : Dimensions) : Nat :=
  d.model.toList.length + d.path.toList.length + d.policy.toList.length

structure ColonFree (d : Dimensions) : Prop where
  tenant : ':' ∉ d.tenant.toList
  model : ∀ value ∈ d.model, ':' ∉ value.toList
  path : ∀ value ∈ d.path, ':' ∉ value.toList
  policy : ∀ value ∈ d.policy, ':' ∉ value.toList

/-- The dimensions that are specified are those of a request. -/
def Fits (d : Dimensions) (tenant model path policy : String) : Prop :=
  d.tenant = tenant ∧ (∀ value ∈ d.model, value = model) ∧ (∀ value ∈ d.path, value = path) ∧
    ∀ value ∈ d.policy, value = policy

/-- The pieces of a key after the tenant. -/
def pieces (d : Dimensions) : List String :=
  d.model.elim [] (["model", ·]) ++ (d.path.elim [] (["path", ·]) ++
    d.policy.elim [] (["policy", ·]))

/-- The loop of `tenant_rate_limit_rule_from_key`. -/
def read (d : Dimensions) : List String → Dimensions
  | name :: value :: rest =>
    if name = "model" then read { d with model := some value } rest
    else if name = "path" then read { d with path := some value } rest
    else if name = "policy" then read { d with policy := some value } rest
    else read d rest
  | _ => d

theorem read_pieces (d : Dimensions) : read ⟨d.tenant, none, none, none⟩ d.pieces = d := by
  obtain ⟨tenant, model, path, policy⟩ := d
  cases model <;> cases path <;> cases policy <;> rfl

variable {cfg : Config} {d d' : Dimensions}

/-- The pieces, each after a colon. -/
def joined : List String → String
  | [] => ""
  | piece :: pieces => ":" ++ (piece ++ joined pieces)

theorem split_joined (start : String) (hs : ':' ∉ start.toList) {pieces : List String}
    (hp : ∀ piece ∈ pieces, ':' ∉ piece.toList) :
    split ':' (start ++ joined pieces) = start :: pieces := by
  induction pieces generalizing start with
  | nil => simpa [joined] using split_of_notMem hs
  | cons piece pieces ih =>
    have hText : (start ++ joined (piece :: pieces)).toList =
        start.toList ++ ':' :: (piece ++ joined pieces).toList := by
      simp [joined]
    rw [split_eq_cons hText hs, ih piece (hp piece mem_cons_self)]
    exact fun other ho => hp other (mem_cons_of_mem piece ho)

theorem key_eq (d : Dimensions) :
    d.key cfg = cfg.tenantRateLimitPrefix ++ (d.tenant ++ joined d.pieces) := by
  obtain ⟨tenant, model, path, policy⟩ := d
  rw [← String.toList_inj]
  cases model <;> cases path <;> cases policy <;> simp [key, pieces, joined]

theorem ColonFree.pieces (h : d.ColonFree) : ∀ piece ∈ d.pieces, ':' ∉ piece.toList := by
  have hPair (name : String) (hn : ':' ∉ name.toList) {value : Option String}
      (hv : ∀ v ∈ value, ':' ∉ v.toList) :
      ∀ piece ∈ value.elim [] ([name, ·]), ':' ∉ piece.toList := by
    cases value with
    | none => simp
    | some v => simpa [hn] using hv v rfl
  simp only [Dimensions.pieces, forall_mem_append]
  exact ⟨hPair "model" (by decide) h.model, hPair "path" (by decide) h.path,
    hPair "policy" (by decide) h.policy⟩

/-- A key is split into the tenant and the other dimensions. -/
theorem ColonFree.split_key (h : d.ColonFree) :
    (stripStart cfg.tenantRateLimitPrefix (d.key cfg)).map (split ':') =
      some (d.tenant :: d.pieces) := by
  rw [stripStart_eq_some_iff.mpr d.key_eq, Option.map_some, split_joined _ h.tenant h.pieces]

theorem ColonFree.eq_of_key_eq (h : d.ColonFree) (h' : d'.ColonFree) (hk : d.key cfg = d'.key cfg) :
    d = d' := by
  have hs := @ColonFree.split_key cfg d h
  rw [hk, h'.split_key, Option.some.injEq, cons.injEq] at hs
  rw [← d.read_pieces, ← d'.read_pieces, hs.1, hs.2]

end Dimensions

namespace TenantRateLimitRule

/-- The dimensions of a rule in its key. -/
def keyed (rule : TenantRateLimitRule) : Dimensions where
  tenant := sanitizeKey (trim rule.tenant)
  model := (nonEmptyOpt rule.model).map sanitizeKey
  path := (nonEmptyOpt rule.path).map sanitizeKey
  policy := (nonEmptyOpt rule.policy).map sanitizeKey

variable {cfg : Config} {rule : TenantRateLimitRule}

theorem key_keyed (cfg : Config) (rule : TenantRateLimitRule) :
    tenantRateLimitRuleKey cfg rule = rule.keyed.key cfg := by
  have hPart (name : String) (value : Option String) :
      keyPart name value = ((nonEmptyOpt value).map sanitizeKey).elim "" (name ++ ·) := by
    unfold keyPart
    cases nonEmptyOpt value <;> rfl
  rw [ruleKey_eq_dimensions, dimensions, hPart, hPart, hPart]
  rfl

end TenantRateLimitRule

theorem colon_mem_sanitizeKey_iff {s : String} : ':' ∈ (sanitizeKey s).toList ↔ ':' ∈ s.toList := by
  rw [toList_sanitizeKey, mem_map]
  constructor
  · rintro ⟨c, hc, hs⟩
    unfold sanitizeChar at hs
    split_ifs at hs with hk
    · rwa [← hs]
    · exact absurd hs (by decide)
  · intro h
    exact ⟨':', h, rfl⟩

/-- A dimension that is specified is checked before the next one. -/
theorem checked_of_match {value : Option String} {check : String → Except ServiceError Unit}
    {next : Unit → Except ServiceError Unit} (h : (match value with
      | some v => check v >>= next
      | none => Except.ok () >>= next) = .ok ()) :
    (∀ v ∈ value, check v = .ok ()) ∧ next () = .ok () := by
  cases value with
  | none => exact ⟨by simp, h⟩
  | some v =>
    obtain ⟨_, hv, h⟩ := exists_of_bind_eq_ok h
    exact ⟨fun _ hMem => by cases hMem; exact hv, h⟩

theorem colonFree_of_valid {rule : TenantRateLimitRule}
    (h : validateTenantRuleDimensions rule = .ok ()) : rule.keyed.ColonFree := by
  have hDimension {name : String} {value : Option String}
      (hv : ∀ v ∈ value, validateAdminRuleDimension name v = .ok ()) :
      ∀ v ∈ value.map sanitizeKey, ':' ∉ v.toList := by
    intro _ hMem hc
    obtain ⟨v, hw, rfl⟩ := Option.mem_map.mp hMem
    have hv := hv v hw
    rw [validateAdminRuleDimension, if_pos (colon_mem_sanitizeKey_iff.mp hc)] at hv
    cases hv
  have hTenant := colon_notMem_of_valid h
  unfold validateTenantRuleDimensions at h
  split_ifs at h
  · cases h
  obtain ⟨_, -, h⟩ := exists_of_bind_eq_ok h
  obtain ⟨hModel, h⟩ := checked_of_match h
  obtain ⟨hPath, h⟩ := checked_of_match h
  refine ⟨fun hc => hTenant (colon_mem_sanitizeKey_iff.mp hc), hDimension hModel,
    hDimension hPath, ?_⟩
  intro _ hMem
  obtain ⟨v, hw, rfl⟩ := Option.mem_map.mp hMem
  rw [Option.mem_def.mp hw] at h
  change validatePolicyDimension v = .ok () at h
  unfold validatePolicyDimension at h
  split_ifs at h with hp
  rcases hp with rfl | rfl | rfl <;> decide +kernel

/-! ## Resolution -/

/-- The dimensions of the candidates, in their order. -/
def candidateDimensions (tenant model path policy : String) : List Dimensions :=
  [ ⟨tenant, some model, some path, some policy⟩, ⟨tenant, some model, some path, none⟩,
    ⟨tenant, some model, none, some policy⟩, ⟨tenant, none, some path, some policy⟩,
    ⟨tenant, some model, none, none⟩, ⟨tenant, none, some path, none⟩,
    ⟨tenant, none, none, some policy⟩, ⟨tenant, none, none, none⟩ ]

variable (cfg : Config)

theorem candidateKeys_eq_map_key (tenant model path policy : String) :
    tenantRateLimitCandidateKeys cfg tenant model path policy =
      (candidateDimensions (sanitizeKey tenant) (sanitizeKey model) (sanitizeKey path)
        (sanitizeKey policy)).map (·.key cfg) := by
  simp [tenantRateLimitCandidateKeys, candidateDimensions, Dimensions.key, String.append_assoc]

theorem mem_candidateDimensions_iff {d : Dimensions} {tenant model path policy : String} :
    d ∈ candidateDimensions tenant model path policy ↔ d.Fits tenant model path policy := by
  obtain ⟨t, m, p, q⟩ := d
  cases m <;> cases p <;> cases q <;> simp [candidateDimensions, Dimensions.Fits]

theorem pairwise_candidateDimensions (tenant model path policy : String) :
    (candidateDimensions tenant model path policy).Pairwise
      fun d d' => d'.specificity ≤ d.specificity := by
  simp [candidateDimensions, Dimensions.specificity]

variable {store : Store}

/-- The first of the keys that holds a limit is one of the most specific ones that do. -/
theorem findLimit_map_key {cfg : Config} {readers : Readers} {ds : List Dimensions}
    (hs : ds.Pairwise fun d d' => d'.specificity ≤ d.specificity) :
    (store.findLimit readers (ds.map (·.key cfg)) = none ∧
        ∀ d ∈ ds, store.limitAt readers (d.key cfg) = none) ∨
      ∃ d ∈ ds, ∃ parsed, store.limitAt readers (d.key cfg) = some parsed ∧
        store.findLimit readers (ds.map (·.key cfg)) = some (d.key cfg, parsed) ∧
        ∀ d' ∈ ds, store.limitAt readers (d'.key cfg) ≠ none → d'.specificity ≤ d.specificity := by
  induction ds with
  | nil => exact .inl ⟨rfl, by simp⟩
  | cons d ds ih =>
    obtain ⟨hd, hds⟩ := pairwise_cons.mp hs
    rw [map_cons, Store.findLimit]
    cases hl : store.limitAt readers (d.key cfg) with
    | some parsed =>
      refine .inr ⟨d, mem_cons_self, parsed, hl, rfl, fun d' hd' _ => ?_⟩
      rcases mem_cons.mp hd' with rfl | hd'
      · exact le_rfl
      · exact hd d' hd'
    | none =>
      rcases ih hds with ⟨hf, hn⟩ | ⟨found, hMem, parsed, hp, hf, hMax⟩
      · exact .inl ⟨hf, forall_mem_cons.mpr ⟨hl, hn⟩⟩
      · refine .inr ⟨found, mem_cons_of_mem d hMem, parsed, hp, hf, ?_⟩
        exact forall_mem_cons.mpr ⟨fun h => absurd hl h, hMax⟩

variable (readers : Readers)

/-- The rule is in force, and its dimensions are those of the request. -/
def Ledger.Applies (ledger : Ledger) (rule : TenantRateLimitRule)
    (tenant model path policy : String) : Prop :=
  ledger.InForce readers rule ∧ rule.keyed.Fits (sanitizeKey tenant) (sanitizeKey model)
    (sanitizeKey path) (sanitizeKey policy)

/-- The limit of a request is that of a rule that applies and specifies as many dimensions as any
other one that does; if none applies, it is the global limit. -/
def Ledger.Resolves (ledger : Ledger) (tenant model path policy : String) : Prop :=
  (∃ rule, ledger.Applies readers rule tenant model path policy ∧
    (∀ other, ledger.Applies readers other tenant model path policy →
      other.keyed.specificity ≤ rule.keyed.specificity) ∧
    matchedKey cfg readers ledger.store tenant model path policy =
      some (tenantRateLimitRuleKey cfg rule) ∧
    resolveRateLimit cfg readers ledger.store tenant model path policy =
      (ParsedStoredTenantRateLimit.ofStored (storedLimit rule)).limit) ∨
  (∀ rule, ¬ledger.Applies readers rule tenant model path policy) ∧
    matchedKey cfg readers ledger.store tenant model path policy = none ∧
    resolveRateLimit cfg readers ledger.store tenant model path policy = globalRateLimit cfg

theorem mostSpecific_or_global (events : List Event) (tenant model path policy : String)
    (hColon : ':' ∉ (tenant ++ model ++ path ++ policy).toList) :
    (Ledger.init.run cfg readers events).Resolves cfg readers tenant model path policy := by
  have hr : (init.run cfg readers events).Recorded cfg :=
    recorded_run (recorded_init cfg) events
  generalize init.run cfg readers events = ledger at hr ⊢
  simp only [String.toList_append, mem_append, not_or] at hColon
  obtain ⟨⟨⟨ht, hm⟩, hp⟩, hq⟩ := hColon
  -- A rule that applies is one of the candidates.
  have hApplies {rule : TenantRateLimitRule}
      (h : ledger.Applies readers rule tenant model path policy) :
      rule.keyed ∈ candidateDimensions (sanitizeKey tenant) (sanitizeKey model) (sanitizeKey path)
          (sanitizeKey policy) ∧
        ledger.store.limitAt readers (rule.keyed.key cfg) ≠ none := by
    obtain ⟨⟨key, hu, hl⟩, hf⟩ := h
    rw [← key_keyed, hr.key key rule hu]
    exact ⟨mem_candidateDimensions_iff.mpr hf, hl⟩
  unfold Ledger.Resolves matchedKey resolveRateLimit
  rw [candidateKeys_eq_map_key]
  rcases findLimit_map_key (pairwise_candidateDimensions (sanitizeKey tenant) (sanitizeKey model)
    (sanitizeKey path) (sanitizeKey policy)) with ⟨hf, hn⟩ | ⟨d, hMem, parsed, hl, hf, hMax⟩
  · refine .inr ⟨fun rule h => ?_, by rw [hf]; rfl, by rw [hf]⟩
    exact (hApplies h).2 (hn _ (hApplies h).1)
  · obtain ⟨rule, hu, rfl⟩ := hr.exists_of_limitAt hl
    have hKey : rule.keyed.key cfg = d.key cfg := by
      rw [← key_keyed, hr.key _ rule hu]
    have hFits := mem_candidateDimensions_iff.mp hMem
    have hFree : d.ColonFree := by
      have hEach {value : Option String} {text : String} (hc : ':' ∉ text.toList)
          (hEq : ∀ v ∈ value, v = sanitizeKey text) : ∀ v ∈ value, ':' ∉ v.toList := by
        intro v hv
        rwa [hEq v hv, colon_mem_sanitizeKey_iff]
      obtain ⟨hTenant, hModel, hPath, hPolicy⟩ := hFits
      refine ⟨?_, hEach hm hModel, hEach hp hPath, hEach hq hPolicy⟩
      rwa [hTenant, colon_mem_sanitizeKey_iff]
    have hEq : rule.keyed = d := (colonFree_of_valid (hr.valid _ rule hu)).eq_of_key_eq hFree hKey
    subst hEq
    refine .inl ⟨rule, ⟨⟨_, hu, by simp [hl]⟩, hFits⟩, fun other ho => ?_, ?_, by rw [hf]⟩
    · exact hMax _ (hApplies ho).1 (hApplies ho).2
    · rw [hf, key_keyed]
      rfl

theorem acmeRule_resolves : ':' ∉ ("acme" ++ "gpt-4" ++ "/v1/chat" ++ "queue").toList ∧
    (Ledger.init.run oneByOne noReaders [.upsert acmeRule]).Resolves oneByOne noReaders "acme"
      "gpt-4" "/v1/chat" "queue" :=
  ⟨by decide, mostSpecific_or_global _ _ _ _ _ _ _ (by decide)⟩

/-! ## Listing -/

structure TenantRateLimitRuleView where
  key : String
  tenant : String
  model : Option String
  path : Option String
  policy : Option String
  rps : Nat
  burst : Nat
  cost : Nat
  ttlSecs : Option Nat
  ttlRemainingSecs : Option Nat
  deriving DecidableEq

def tenantRateLimitRuleView (key : String) (rule : TenantRateLimitRule)
    (ttlRemainingSecs : Option Nat) : TenantRateLimitRuleView where
  key := key
  tenant := rule.tenant
  model := rule.model
  path := rule.path
  policy := rule.policy
  rps := rule.rps
  burst := rule.burst
  cost := rule.cost
  ttlSecs := rule.ttlSecs
  ttlRemainingSecs := ttlRemainingSecs

def tenantRateLimitRuleFromKey (key : String) (limit : TenantRateLimit)
    (ttlSecs : Option Nat) : Option TenantRateLimitRule :=
  match (stripStart cfg.tenantRateLimitPrefix key).map (split ':') with
  | some (tenant :: parts) =>
    if tenant = "" then none
    else
      let d := Dimensions.read ⟨tenant, none, none, none⟩ parts
      some
        { tenant := d.tenant, model := d.model, path := d.path, policy := d.policy
          rps := limit.rps, burst := limit.burst, cost := max limit.cost 1, ttlSecs := ttlSecs }
  | _ => none

def isLegacyTenantRateLimitKey (key : String) : Bool :=
  (stripEnd ":rps" key).isSome || (stripEnd ":burst" key).isSome || (stripEnd ":cost" key).isSome

def tenantRuleMatchesFilters (rule : TenantRateLimitRule) (filters : List (String × String)) :
    Bool :=
  filters.all fun (name, value) =>
    let value := trim value
    if value = "" then true
    else
      match name with
      | "tenant" => contains value rule.tenant
      | "model" => contains value (rule.model.getD "")
      | "path" => contains value (rule.path.getD "")
      | "policy" => rule.policy.getD "" == value
      | _ => true

/-- `read_ttl_remaining_secs`; `TTL` rounds to the nearest second. -/
def readTtlRemainingSecs (store : Store) (key : String) : Option Nat := do
  let timed ← store.keys key
  let deadline ← timed.deadline
  let ttl := (deadline - store.clock + 500) / 1000
  if ttl > 0 then some ttl else none

def tenantRuleSpecificityRule (view : TenantRateLimitRuleView) : Nat :=
  (nonEmptyOpt view.model).toList.length + (nonEmptyOpt view.path).toList.length +
    (nonEmptyOpt view.policy).toList.length

/-- The entry of a list for a key that the scan has found. -/
def listEntry (store : Store) (filters : List (String × String))
    (key : String) : Option TenantRateLimitRuleView :=
  if isLegacyTenantRateLimitKey key then none
  else do
    let stored ← store.limitAt readers key
    let rule ← tenantRateLimitRuleFromKey cfg key stored.limit stored.ttlSecs
    let rule := { rule with cost := max rule.cost 1 }
    if tenantRuleMatchesFilters rule filters then
      some (tenantRateLimitRuleView key rule (readTtlRemainingSecs store key))
    else none

def listTenantRateLimitRules (store : Store)
    (filters : List (String × String)) (scan : List String) : List TenantRateLimitRuleView :=
  (scan.filterMap (listEntry cfg readers store filters)).insertionSort fun a b =>
    tenantRuleSpecificityRule b < tenantRuleSpecificityRule a ∨
      tenantRuleSpecificityRule a = tenantRuleSpecificityRule b ∧ a.key ≤ b.key

/-- `SCAN` finds the keys that match the pattern, all of them and each at least once. -/
def Scanned (pattern : String → Bool) (store : Store) (scan : List String) : Prop :=
  ∀ key, key ∈ scan ↔ pattern key = true ∧ store.get key ≠ none

def TenantRateLimitRuleView.keyed (view : TenantRateLimitRuleView) : Dimensions :=
  ⟨view.tenant, view.model, view.path, view.policy⟩

/-- A rule is listed once after it was written, and the others as before. -/
structure Listed (rule : TenantRateLimitRule) (before after : List TenantRateLimitRuleView) :
    Prop where
  once : ∃ view, after.filter (·.keyed = rule.keyed) = [view] ∧ view.rps = rule.rps ∧
    view.burst = rule.burst ∧ view.cost = rule.cost ∧ view.ttlSecs = rule.ttlSecs
  others : ∀ view ∈ before, view.keyed ≠ rule.keyed → view ∈ after

/-- The entry of a rule. -/
def TenantRateLimitRule.entry (rule : TenantRateLimitRule) (key : String)
    (ttlRemainingSecs : Option Nat) : TenantRateLimitRuleView where
  key := key
  tenant := rule.keyed.tenant
  model := rule.keyed.model
  path := rule.keyed.path
  policy := rule.keyed.policy
  rps := rule.rps
  burst := rule.burst
  cost := max rule.cost 1
  ttlSecs := rule.ttlSecs
  ttlRemainingSecs := ttlRemainingSecs

variable {cfg : Config} {readers : Readers} {ledger : Ledger} {rule : TenantRateLimitRule}
  {key : String}

theorem tenant_ne_empty (h : validateTenantRuleDimensions rule = .ok ()) :
    rule.keyed.tenant ≠ "" := by
  intro he
  have ht : trim rule.tenant = "" := by
    rw [← String.toList_inj] at he ⊢
    simpa [keyed, toList_sanitizeKey] using he
  simp [validateTenantRuleDimensions, ht, bind, Except.bind] at h

/-- What is listed for the key of a rule. -/
theorem Ledger.Recorded.listEntry_eq (h : ledger.Recorded cfg)
    (hu : ledger.upserted key = some rule)
    (hl : ledger.store.limitAt readers key = some (.ofStored (storedLimit rule))) :
    listEntry cfg readers ledger.store [] key =
      if isLegacyTenantRateLimitKey key then none
      else some (rule.entry key (readTtlRemainingSecs ledger.store key)) := by
  have hv := h.valid key rule hu
  have hs : (stripStart cfg.tenantRateLimitPrefix key).map (split ':') =
      some (rule.keyed.tenant :: rule.keyed.pieces) := by
    rw [← h.key key rule hu, rule.key_keyed]
    exact (colonFree_of_valid hv).split_key
  simp [listEntry, hl, tenantRateLimitRuleFromKey, hs, tenant_ne_empty hv,
    Dimensions.read_pieces, tenantRuleMatchesFilters, tenantRateLimitRuleView,
    entry, ParsedStoredTenantRateLimit.ofStored, storedLimit]

variable {view : TenantRateLimitRuleView}

/-- An entry has the dimensions of a rule, and these make the key. -/
theorem Ledger.Recorded.entry_key (h : ledger.Recorded cfg)
    (hv : listEntry cfg readers ledger.store [] key = some view) :
    view.keyed.ColonFree ∧ view.keyed.key cfg = key := by
  cases hl : ledger.store.limitAt readers key with
  | none => simp [listEntry, hl] at hv
  | some parsed =>
    obtain ⟨rule, hu, rfl⟩ := h.exists_of_limitAt hl
    rw [h.listEntry_eq hu hl] at hv
    split_ifs at hv
    cases hv
    refine ⟨colonFree_of_valid (h.valid key rule hu), ?_⟩
    rw [← h.key key rule hu, rule.key_keyed]
    rfl

theorem filter_filterMap_eq_replicate {f : String → Option TenantRateLimitRuleView}
    {p : TenantRateLimitRuleView → Bool} (hf : f key = some view)
    (hp : p view = true) (hOnly : ∀ k v, f k = some v → p v = true → k = key)
    (scan : List String) : (scan.filterMap f).filter p = replicate (scan.count key) view := by
  induction scan with
  | nil => rfl
  | cons k scan ih =>
    by_cases hk : k = key
    · simp [hk, hf, hp, ih, replicate_succ]
    · rw [count_cons_of_ne hk, ← ih]
      cases hv : f k with
      | none => simp [hv]
      | some v =>
        have hn : p v = false := by
          rw [← Bool.not_eq_true]
          exact fun h => hk (hOnly k v hv h)
        simp [hv, hn]

theorem listEntry_set_of_ne {other : String} (hNe : other ≠ key)
    (value : Option (Expiring.Timed Value)) :
    listEntry cfg readers (store.set key value) [] other =
      listEntry cfg readers store [] other := by
  have hk := store.keys_set_of_ne hNe value
  have hGet : (store.set key value).get other = store.get other := Expiring.get_congr hk
  simp only [listEntry, Store.limitAt, hGet, readTtlRemainingSecs, hk]
  rfl

theorem mem_list_iff {scan : List String} :
    view ∈ listTenantRateLimitRules cfg readers store [] scan ↔
      ∃ key ∈ scan, listEntry cfg readers store [] key = some view := by
  rw [listTenantRateLimitRules, mem_insertionSort, mem_filterMap]

theorem Ledger.run_upsert (events : List Event)
    (h : upsertTenantRateLimitRule cfg rule (init.run cfg readers events).store =
      .ok store) : (init.run cfg readers (events ++ [.upsert rule])).store = store ∧
      (init.run cfg readers (events ++ [.upsert rule])).upserted
        (tenantRateLimitRuleKey cfg rule) = some rule := by
  have hs : init.run cfg readers (events ++ [.upsert rule]) =
      (init.run cfg readers events).step cfg readers (.upsert rule) :=
    foldl_concat ..
  simp [hs, step, serve, h, administer]

/-- A rule that was written is found at once, whenever it expires. -/
theorem limitAt_of_upsert (readers : Readers) {store store' : Store}
    (h : upsertTenantRateLimitRule cfg rule store = .ok store') :
    store'.limitAt readers (tenantRateLimitRuleKey cfg rule) =
      some (.ofStored (storedLimit rule)) := by
  obtain ⟨-, deadline, hd, rfl⟩ := upsert_eq_ok h
  refine Option.bind_eq_some_iff.mpr ⟨_, Expiring.get_eq_some_iff.mpr
    ⟨_, keys_set_self .., fun latest hl => ?_, rfl⟩, rfl⟩
  change store.clock < latest
  cases ht : rule.ttlSecs with
  | none =>
    rw [ht] at hd
    cases hd
    cases hl
  | some ttl =>
    rw [ht, expiration] at hd
    split_ifs at hd
    cases hd
    cases hl
    omega

/-- A rule that was written is listed once and the others are listed as before exactly if its key
does not look like an old one and the scan finds it once. -/
theorem listed_iff_visible (cfg : Config) (readers : Readers) (pattern : String → Bool)
    (events : List Event) (rule : TenantRateLimitRule) (store : Store) (before after : List String)
    (hUpsert : upsertTenantRateLimitRule cfg rule (Ledger.init.run cfg readers events).store =
      .ok store)
    (hBefore : Scanned pattern (Ledger.init.run cfg readers events).store before)
    (hAfter : Scanned pattern store after) :
    Listed rule
        (listTenantRateLimitRules cfg readers (Ledger.init.run cfg readers events).store [] before)
        (listTenantRateLimitRules cfg readers store [] after) ↔
      isLegacyTenantRateLimitKey (tenantRateLimitRuleKey cfg rule) = false ∧
        after.count (tenantRateLimitRuleKey cfg rule) = 1 := by
  have hr : (init.run cfg readers events).Recorded cfg :=
    recorded_run (recorded_init cfg) events
  have hr' : (init.run cfg readers (events ++ [.upsert rule])).Recorded cfg :=
    recorded_run (recorded_init cfg) _
  obtain ⟨hStore, hu⟩ := run_upsert events hUpsert
  have hl := limitAt_of_upsert readers hUpsert
  obtain ⟨hValid, deadline, -, hSet⟩ := upsert_eq_ok hUpsert
  have hEntry := hr'.listEntry_eq hu (hStore ▸ hl)
  rw [hStore] at hEntry
  -- No other key has the dimensions of the rule.
  have hOnly (k : String) (view : TenantRateLimitRuleView)
      (hk : listEntry cfg readers store [] k = some view)
      (hView : decide (view.keyed = rule.keyed) = true) : k = tenantRateLimitRuleKey cfg rule := by
    rw [← hStore] at hk
    rw [← (hr'.entry_key hk).2, of_decide_eq_true hView, rule.key_keyed]
  have hPerm := (perm_insertionSort (fun a b : TenantRateLimitRuleView =>
    tenantRuleSpecificityRule b < tenantRuleSpecificityRule a ∨
      tenantRuleSpecificityRule a = tenantRuleSpecificityRule b ∧ a.key ≤ b.key)
    (after.filterMap (listEntry cfg readers store []))).filter (·.keyed = rule.keyed)
  cases hLegacy : isLegacyTenantRateLimitKey (tenantRateLimitRuleKey cfg rule) with
  | true =>
    refine iff_of_false ?_ (by simp)
    rintro ⟨⟨view, hOnce, -⟩, -⟩
    obtain ⟨hMem, hView⟩ := mem_filter.mp (hPerm.subset (hOnce ▸ mem_cons_self))
    obtain ⟨k, -, hk⟩ := mem_filterMap.mp hMem
    rw [hOnly k view hk hView, hEntry, if_pos hLegacy] at hk
    cases hk
  | false =>
    rw [hLegacy, if_neg Bool.false_ne_true] at hEntry
    rw [filter_filterMap_eq_replicate hEntry (decide_eq_true rfl) hOnly] at hPerm
    refine ⟨?_, ?_⟩
    · rintro ⟨⟨view, hOnce, -⟩, -⟩
      have hLength := hPerm.length_eq
      rw [length_replicate] at hLength
      exact ⟨rfl, hLength ▸ congrArg length hOnce⟩
    rintro ⟨-, hCount⟩
    rw [hCount] at hPerm
    obtain ⟨-, -, hCost, -⟩ := limits_of_valid hValid
    refine ⟨⟨_, perm_singleton.mp hPerm, rfl, rfl, max_eq_left (by omega), rfl⟩, ?_⟩
    intro view hView hOther
    obtain ⟨k, hk, he⟩ := mem_list_iff.mp hView
    obtain ⟨hFree, hKey⟩ := hr.entry_key he
    have hNe : k ≠ tenantRateLimitRuleKey cfg rule := by
      intro hEq
      rw [hEq, rule.key_keyed] at hKey
      exact hOther (hFree.eq_of_key_eq (colonFree_of_valid (dimensions_of_valid hValid)) hKey)
    refine mem_list_iff.mpr ⟨k, (hAfter k).mpr ?_, ?_⟩
    · obtain ⟨hPattern, hGet⟩ := (hBefore k).mp hk
      refine ⟨hPattern, ?_⟩
      rw [hSet, Store.get, Store.set]
      rwa [Expiring.get_update_of_ne hNe]
    · rw [hSet, listEntry_set_of_ne hNe, he]

/-- A rule for a tenant whose name is that of an old key. -/
def rpsRule : TenantRateLimitRule :=
  { acmeRule with tenant := "rps", model := none }

theorem Scanned.set {store : Store} {scan : List String} (h : Scanned (fun _ => true) store scan)
    (key : String) (value : Value) :
    Scanned (fun _ => true) (store.set key (some ⟨value, none⟩)) (key :: scan) := by
  intro other
  by_cases hk : other = key
  · subst hk
    simp [Store.get, Expiring.get, keys_set_self, Expiring.Timed.Live]
  · have hGet : (store.set key (some ⟨value, none⟩)).get other = store.get other :=
      Expiring.get_update_of_ne hk _
    rw [hGet, mem_cons, or_iff_right hk]
    exact h other

/-- The store with the rules of these tenants. -/
def stored (tenants : List String) : Store :=
  (Ledger.init.run oneByOne noReaders
    (tenants.map fun tenant => .upsert { acmeRule with tenant := tenant })).store

/-- There is a rule of another tenant before. -/
theorem acmeRule_listed :
    Listed acmeRule
      (listTenantRateLimitRules oneByOne noReaders (stored ["shop"]) []
        ["ai:tenant:ratelimit:shop:model:gpt-4"])
      (listTenantRateLimitRules oneByOne noReaders (stored ["shop", "acme"]) []
        ["ai:tenant:ratelimit:acme:model:gpt-4", "ai:tenant:ratelimit:shop:model:gpt-4"]) := by
  have hNone : Scanned (fun _ => true) Store.init [] := by
    intro key
    simp [Store.get, Expiring.get, Store.init]
  exact (listed_iff_visible oneByOne noReaders (fun _ => true)
    [.upsert { acmeRule with tenant := "shop" }] acmeRule (stored ["shop", "acme"]) _ _ rfl
    (hNone.set _ _) ((hNone.set _ _).set _ _)).mpr (by decide +kernel)

/-- The rule is accepted, and a list after it is empty. -/
theorem rpsRule_not_listed :
    (Ledger.init.run oneByOne noReaders [.upsert rpsRule]).store.limitAt noReaders
        "ai:tenant:ratelimit:rps" = some (.ofStored (storedLimit rpsRule)) ∧
      ¬Listed rpsRule [] (listTenantRateLimitRules oneByOne noReaders
        (Ledger.init.run oneByOne noReaders [.upsert rpsRule]).store []
        ["ai:tenant:ratelimit:rps"]) := by
  refine ⟨by decide +kernel, fun h => ?_⟩
  obtain ⟨view, hOnce, -⟩ := h.once
  have hEmpty : listTenantRateLimitRules oneByOne noReaders
      (init.run oneByOne noReaders [.upsert rpsRule]).store []
      ["ai:tenant:ratelimit:rps"] = [] := by
    decide +kernel
  rw [hEmpty] at hOnce
  cases hOnce

end Spacegate.AiGateway.RateLimit
