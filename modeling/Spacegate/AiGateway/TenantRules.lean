import Spacegate.AiGateway.TenantIsolation

/-!
# Rules that are found for a request

A rule is stored under a key that joins the tenant and the dimensions of the rule with colons.
The admin API refuses colons in them, but the headers of a request may have colons, and other
characters are replaced in both.  So a request can name a tenant whose key is that of a rule
for another tenant.  Exactly the rules for a tenant as a whole, with a name of letters, digits,
dashes and dots, are not found by such requests.
-/

namespace Spacegate.AiGateway.RateLimit

open Foundation Text Store List Function
open Foundation.Expiring
open Enqueue (Headers optionalHeader requiredHeader)
open Queue (sanitizeKey)

/-! ## Keys -/

/-- A character that stays, and that no other character is replaced by. -/
def isPlain (c : Char) : Bool :=
  c.isAlphanum || c == '-' || c == '.'

def sanitizeChar (c : Char) : Char :=
  if c.isAlphanum || c == ':' || c == '_' || c == '-' || c == '.' then c else '_'

theorem toList_sanitizeKey (s : String) : (sanitizeKey s).toList = s.toList.map sanitizeChar := by
  simp only [sanitizeKey, String.toList_ofList]
  rfl

theorem sanitizeChar_of_isPlain {c : Char} (h : isPlain c = true) : sanitizeChar c = c := by
  simp only [isPlain, Bool.or_eq_true] at h
  simp only [sanitizeChar, Bool.or_eq_true]
  rw [if_pos (by tauto)]

theorem eq_of_sanitizeChar_eq {c d : Char} (hd : isPlain d = true) (h : sanitizeChar c = d) :
    c = d := by
  unfold sanitizeChar at h
  split_ifs at h with hk
  · exact h
  · subst h
    exact absurd hd (by decide)

theorem sanitizeChar_sanitizeChar (c : Char) : sanitizeChar (sanitizeChar c) = sanitizeChar c := by
  by_cases hk : (c.isAlphanum || c == ':' || c == '_' || c == '-' || c == '.') = true
  · have hs : sanitizeChar c = c := if_pos hk
    rw [hs, hs]
  · have hr : sanitizeChar c = '_' := if_neg hk
    rw [hr]
    rfl

theorem sanitizeKey_sanitizeKey (s : String) : sanitizeKey (sanitizeKey s) = sanitizeKey s := by
  rw [← String.toList_inj, toList_sanitizeKey, toList_sanitizeKey, map_map]
  exact map_congr_left fun c _ => sanitizeChar_sanitizeChar c

variable {s plain key model path policy suffix tenant name : String} {rule : TenantRateLimitRule}

theorem sanitizeChar_of_sanitizeKey_eq (h : sanitizeKey s = s) :
    ∀ c ∈ s.toList, sanitizeChar c = c := by
  rw [← String.toList_inj, toList_sanitizeKey] at h
  exact map_eq_map_iff.mp (h.trans (map_id _).symm)

theorem sanitizeKey_append (s t : String) :
    sanitizeKey (s ++ t) = sanitizeKey s ++ sanitizeKey t := by
  simp [← String.toList_inj, toList_sanitizeKey]

theorem eq_of_sanitizeKey_eq (hp : ∀ c ∈ plain.toList, isPlain c = true)
    (h : sanitizeKey s = plain) : s = plain := by
  subst h
  rw [toList_sanitizeKey] at hp
  rw [← String.toList_inj, toList_sanitizeKey]
  have hs : ∀ c ∈ s.toList, sanitizeChar c = id c := fun c hc =>
    (eq_of_sanitizeChar_eq (hp _ (mem_map_of_mem hc)) rfl).symm
  rw [map_congr_left hs, map_id]

theorem sanitizeKey_of_isPlain (hp : ∀ c ∈ plain.toList, isPlain c = true) :
    sanitizeKey plain = plain := by
  have hs : ∀ c ∈ plain.toList, sanitizeChar c = id c := fun c hc =>
    sanitizeChar_of_isPlain (hp c hc)
  rw [← String.toList_inj, toList_sanitizeKey, map_congr_left hs, map_id]

theorem visible_of_isAlphanum {c : Char} (h : c.isAlphanum = true) :
    33 ≤ c.toNat ∧ c.toNat ≤ 126 := by
  delta Char.isAlphanum at h
  delta Char.isAlpha Char.isDigit at h
  delta Char.isUpper Char.isLower at h
  simp only [Bool.or_eq_true, Bool.and_eq_true, decide_eq_true_eq, ge_iff_le,
    UInt32.le_iff_toNat_le] at h
  rcases h with (⟨hf, hTo⟩ | ⟨hf, hTo⟩) | ⟨hf, hTo⟩
  all_goals exact ⟨le_trans (by decide) hf, le_trans hTo (by decide)⟩

theorem isWhitespace_sanitizeChar (c : Char) : isWhitespace (sanitizeChar c) = false := by
  unfold sanitizeChar
  split_ifs with hk
  · simp only [Bool.or_eq_true, beq_iff_eq] at hk
    rcases hk with (((ha | rfl) | rfl) | rfl) | rfl
    · obtain ⟨hf, hTo⟩ := visible_of_isAlphanum ha
      exact isWhitespace_of_visible hf hTo
    all_goals decide
  · decide

/-! ## The ledger -/

/-- The store, and the rule that was written last under each key. -/
structure Ledger where
  store : Store
  upserted : String → Option TenantRateLimitRule

namespace Ledger

variable (cfg : Config) (readers : Readers)

def init : Ledger where
  store := .init
  upserted := fun _ => none

def step (ledger : Ledger) (event : Event) : Ledger where
  store := (serve cfg readers event ledger.store).2
  upserted :=
    match event with
    | .upsert rule =>
      match upsertTenantRateLimitRule cfg rule ledger.store with
      | .ok _ => update ledger.upserted (tenantRateLimitRuleKey cfg rule) (some rule)
      | .error _ => ledger.upserted
    | _ => ledger.upserted

def run (ledger : Ledger) (events : List Event) : Ledger :=
  events.foldl (step cfg readers) ledger

end Ledger

/-- The rule is for the tenant, and its dimensions are those of the request. -/
def TenantRateLimitRule.Fits (rule : TenantRateLimitRule) (tenant model path policy : String) :
    Prop :=
  Text.trim rule.tenant = tenant ∧ (∀ value ∈ nonEmptyOpt rule.model, value = model) ∧
    (∀ value ∈ nonEmptyOpt rule.path, value = path) ∧
      ∀ value ∈ nonEmptyOpt rule.policy, value = policy

/-- Whatever the headers of a request are, the limit that is found for it is the limit of a
rule that fits it. -/
def Ledger.Sound (cfg : Config) (readers : Readers) (ledger : Ledger) : Prop :=
  ∀ (check : Check) (tenant key : String),
    requiredHeader check.headers "x-tenant-id" = .ok tenant →
    matchedKey cfg readers ledger.store tenant check.model check.path check.policy = some key →
    ∃ rule, ledger.upserted key = some rule ∧
      limitOf cfg readers check ledger.store tenant =
        (ParsedStoredTenantRateLimit.ofStored (storedLimit rule)).limit ∧
      rule.Fits tenant check.model check.path check.policy

/-- The rule was the last one to be written under its key, and it is still there. -/
def Ledger.InForce (readers : Readers) (ledger : Ledger) (rule : TenantRateLimitRule) : Prop :=
  ∃ key, ledger.upserted key = some rule ∧ ledger.store.limitAt readers key ≠ none

/-- A rule for a tenant as a whole, whose name has no character that is replaced or that
others are replaced by. -/
def TenantRateLimitRule.Plain (rule : TenantRateLimitRule) : Prop :=
  nonEmptyOpt rule.model = none ∧ nonEmptyOpt rule.path = none ∧ nonEmptyOpt rule.policy = none ∧
    ∀ c ∈ (Text.trim rule.tenant).toList, isPlain c = true

/-! ## What the ledger knows -/

variable {cfg : Config} {readers : Readers} {ledger : Ledger}

/-- The rules are under their keys, and what is in the store is a number or one of them. -/
structure Ledger.Recorded (cfg : Config) (ledger : Ledger) : Prop where
  key : ∀ key rule, ledger.upserted key = some rule → tenantRateLimitRuleKey cfg rule = key
  valid : ∀ key rule, ledger.upserted key = some rule → validateTenantRuleDimensions rule = .ok ()
  stored : ∀ key timed, ledger.store.keys key = some timed →
    (∃ n, timed.value = .count n) ∨
      ∃ rule, ledger.upserted key = some rule ∧ timed.value = .stored (storedLimit rule)
  /-- There are keys that are longer than those of all rules. -/
  bounded : ∃ longest, ∀ key rule, ledger.upserted key = some rule → key.length ≤ longest

theorem recorded_init (cfg : Config) : Ledger.init.Recorded cfg where
  key := by simp [Ledger.init]
  valid := by simp [Ledger.init]
  stored := by simp [Ledger.init, init]
  bounded := ⟨0, by simp [Ledger.init]⟩

theorem Ledger.Recorded.setCount (h : ledger.Recorded cfg) (ttl : Nat) (key : String) (n : Nat) :
    ({ ledger with store := ledger.store.setCount ttl key n } : Ledger).Recorded cfg where
  key := h.key
  valid := h.valid
  stored := by
    intro other timed ht
    by_cases hEq : other = key
    · subst hEq
      left
      cases (keys_set_self ..).symm.trans ht
      exact ⟨n, rfl⟩
    · exact h.stored other timed ((keys_set_of_ne _ hEq _).symm.trans ht)
  bounded := h.bounded

theorem upsert_eq_ok {store store' : Store}
    (h : upsertTenantRateLimitRule cfg rule store = .ok store') :
    validateTenantRateLimitRule rule = .ok () ∧
      ∃ deadline, expiration store.clock rule.ttlSecs = .ok deadline ∧
        store' = store.set (tenantRateLimitRuleKey cfg rule)
          (some { value := .stored (storedLimit rule), deadline := deadline }) := by
  obtain ⟨_, hv, h⟩ := exists_of_bind_eq_ok h
  obtain ⟨deadline, hd, h⟩ := exists_of_bind_eq_ok h
  exact ⟨hv, deadline, hd, (Except.ok.inj h).symm⟩

theorem dimensions_of_valid (h : validateTenantRateLimitRule rule = .ok ()) :
    validateTenantRuleDimensions rule = .ok () := by
  obtain ⟨_, hv, -⟩ := exists_of_bind_eq_ok h
  exact hv

theorem Ledger.Recorded.checked (h : ledger.Recorded cfg) (check : Check) :
    (ledger.step cfg readers (.check check)).Recorded cfg := by
  show ({ ledger with store := (checkRateLimit cfg readers check ledger.store).2 } :
    Ledger).Recorded cfg
  cases ht : requiredHeader check.headers "x-tenant-id" with
  | error e =>
    simp only [checkRateLimit, ht]
    exact h
  | ok tenant =>
    rw [checkRateLimit_of_tenant ht]
    rcases tokenBucket_cases (limitOf cfg readers check ledger.store tenant) check.now
      ledger.store with hs | ⟨-, -, ttl, n, ts, hSet⟩
    · rw [hs]
      exact h
    · rw [hSet]
      exact (h.setCount ttl _ n).setCount ttl _ ts

theorem update_eq_some_cases {α : Type} {f : String → Option α} {key' : String} {a b : α}
    (h : update f key (some a) key' = some b) :
    (key' = key ∧ b = a) ∨ (key' ≠ key ∧ f key' = some b) := by
  by_cases hEq : key' = key
  · subst hEq
    rw [update_self] at h
    exact Or.inl ⟨rfl, (Option.some.inj h).symm⟩
  · rw [update_of_ne hEq] at h
    exact Or.inr ⟨hEq, h⟩

variable (h : ledger.Recorded cfg)
include h

theorem Ledger.Recorded.administered (rule : TenantRateLimitRule) :
    (ledger.step cfg readers (.upsert rule)).Recorded cfg := by
  cases hu : upsertTenantRateLimitRule cfg rule ledger.store with
  | error e =>
    have hs : ledger.step cfg readers (.upsert rule) = ledger := by
      simp [Ledger.step, serve, hu, administer]
    rw [hs]
    exact h
  | ok store' =>
    obtain ⟨hv, deadline, -, rfl⟩ := upsert_eq_ok hu
    obtain ⟨longest, hl⟩ := h.bounded
    have hs : ledger.step cfg readers (.upsert rule) =
        { store := ledger.store.set (tenantRateLimitRuleKey cfg rule)
            (some { value := .stored (storedLimit rule), deadline := deadline })
          upserted := update ledger.upserted (tenantRateLimitRuleKey cfg rule)
            (some rule) } := by
      simp [Ledger.step, serve, hu, administer]
    rw [hs]
    refine ⟨?_, ?_, ?_, max longest (tenantRateLimitRuleKey cfg rule).length, ?_⟩
    · intro key other ho
      rcases update_eq_some_cases ho with ⟨rfl, rfl⟩ | ⟨-, hb⟩
      · rfl
      · exact h.key key other hb
    · intro key other ho
      rcases update_eq_some_cases ho with ⟨-, rfl⟩ | ⟨-, hb⟩
      · exact dimensions_of_valid hv
      · exact h.valid key other hb
    · intro key timed ht
      rcases update_eq_some_cases ht with ⟨rfl, rfl⟩ | ⟨hNe, hb⟩
      · exact Or.inr ⟨rule, update_self .., rfl⟩
      · rcases h.stored key timed hb with hc | ⟨other, ho, hValue⟩
        · exact Or.inl hc
        · exact Or.inr ⟨other, (update_of_ne hNe ..).trans ho, hValue⟩
    · intro key other ho
      rcases update_eq_some_cases ho with ⟨rfl, -⟩ | ⟨-, hb⟩
      · exact le_max_right _ _
      · exact le_max_of_le_left (hl key other hb)

theorem Ledger.Recorded.deleted (rule : TenantRateLimitRule) :
    (ledger.step cfg readers (.delete rule)).Recorded cfg := by
  cases hv : validateTenantRuleDimensions rule with
  | error e =>
    have hd : deleteTenantRateLimitRule cfg rule ledger.store = .error e := by
      simp [deleteTenantRateLimitRule, hv, bind, Except.bind]
    have hs : ledger.step cfg readers (.delete rule) = ledger := by
      simp [Ledger.step, serve, hd, administer]
    rw [hs]
    exact h
  | ok _ =>
    have hd : deleteTenantRateLimitRule cfg rule ledger.store =
        .ok (ledger.store.set (tenantRateLimitRuleKey cfg rule) none) := by
      simp [deleteTenantRateLimitRule, hv, bind, Except.bind]
    have hs : ledger.step cfg readers (.delete rule) =
        { ledger with store := ledger.store.set (tenantRateLimitRuleKey cfg rule) none } := by
      simp [Ledger.step, serve, hd, administer]
    rw [hs]
    refine ⟨h.key, h.valid, ?_, h.bounded⟩
    intro key timed ht
    by_cases hEq : key = tenantRateLimitRuleKey cfg rule
    · subst hEq
      cases (keys_set_self ..).symm.trans ht
    · exact h.stored key timed ((keys_set_of_ne _ hEq _).symm.trans ht)

theorem recorded_step (event : Event) : (ledger.step cfg readers event).Recorded cfg := by
  cases event with
  | check check => exact h.checked check
  | upsert rule => exact h.administered rule
  | delete rule => exact h.deleted rule
  | elapse ms => exact ⟨h.key, h.valid, h.stored, h.bounded⟩

theorem recorded_run (events : List Event) : (ledger.run cfg readers events).Recorded cfg := by
  induction events generalizing ledger with
  | nil => exact h
  | cons event events ih => exact ih (recorded_step h event)

variable {parsed : ParsedStoredTenantRateLimit}

theorem Ledger.Recorded.exists_of_limitAt (hl : ledger.store.limitAt readers key = some parsed) :
    ∃ rule, ledger.upserted key = some rule ∧ parsed = .ofStored (storedLimit rule) := by
  obtain ⟨value, hv, hp⟩ := Option.bind_eq_some_iff.mp hl
  obtain ⟨timed, ht, -, rfl⟩ := get_eq_some_iff.mp hv
  rcases h.stored key timed ht with ⟨n, hc⟩ | ⟨rule, hr, hs⟩
  · rw [hc] at hp
    cases hp
  · rw [hs] at hp
    cases hp
    exact ⟨rule, hr, rfl⟩

omit h

/-! ## Candidates -/

variable {store : Store}

theorem findLimit_eq_some {candidates : List String}
    (h : store.findLimit readers candidates = some (key, parsed)) :
    key ∈ candidates ∧ store.limitAt readers key = some parsed := by
  induction candidates with
  | nil => simp [findLimit] at h
  | cons candidate rest ih =>
    unfold findLimit at h
    cases hl : store.limitAt readers candidate with
    | none =>
      simp only [hl] at h
      obtain ⟨hMem, hf⟩ := ih h
      exact ⟨mem_cons_of_mem candidate hMem, hf⟩
    | some found =>
      simp only [hl, Option.some.injEq, Prod.mk.injEq] at h
      obtain ⟨rfl, rfl⟩ := h
      exact ⟨mem_cons_self, hl⟩

theorem findLimit_append {skipped rest : List String}
    (h : ∀ key ∈ skipped, store.limitAt readers key = none) :
    store.findLimit readers (skipped ++ rest) = store.findLimit readers rest := by
  induction skipped with
  | nil => rfl
  | cons key skipped ih =>
    rw [cons_append, findLimit, h key mem_cons_self]
    exact ih fun later hl => h later (mem_cons_of_mem key hl)

theorem colon_mem_of_mem_candidateSuffixes (h : suffix ∈ candidateSuffixes model path policy) :
    suffix = "" ∨ ':' ∈ suffix.toList := by
  simp only [candidateSuffixes, mem_cons, not_mem_nil, or_false] at h
  rcases h with rfl | rfl | rfl | rfl | rfl | rfl | rfl | rfl <;> simp

/-! ## Plain rules -/

theorem TenantRateLimitRule.Plain.ruleKey_eq (h : rule.Plain) :
    tenantRateLimitRuleKey cfg rule = cfg.tenantRateLimitPrefix ++ trim rule.tenant := by
  obtain ⟨hm, hPath, hp, ht⟩ := h
  simp [tenantRateLimitRuleKey, keyPart, hm, hPath, hp, sanitizeKey_of_isPlain ht]

/-- The key of a plain rule is a candidate for its own tenant only. -/
theorem TenantRateLimitRule.Plain.tenant_eq (h : rule.Plain)
    (hMem : tenantRateLimitRuleKey cfg rule ∈
      tenantRateLimitCandidateKeys cfg tenant model path policy) : trim rule.tenant = tenant := by
  rw [h.ruleKey_eq, candidateKeys_eq_map, mem_map] at hMem
  obtain ⟨suffix, hs, hKey⟩ := hMem
  have hr : sanitizeKey tenant ++ suffix = trim rule.tenant := by
    simpa using hKey
  obtain ⟨-, -, -, hp⟩ := h
  have he : suffix = "" := by
    rcases colon_mem_of_mem_candidateSuffixes hs with he | hc
    · exact he
    · have hMem : ':' ∈ (trim rule.tenant).toList := by
        rw [← hr, String.toList_append]
        exact mem_append_right _ hc
      exact absurd (hp ':' hMem) (by decide)
  rw [he, String.append_empty] at hr
  exact (eq_of_sanitizeKey_eq hp hr).symm

theorem Ledger.Recorded.sound (h : ledger.Recorded cfg)
    (hPlain : ∀ rule, ledger.InForce readers rule → rule.Plain) : ledger.Sound cfg readers := by
  intro check tenant key _ hm
  obtain ⟨⟨_, parsed⟩, hf, rfl⟩ := Option.map_eq_some_iff.mp hm
  obtain ⟨hMem, hl⟩ := findLimit_eq_some hf
  obtain ⟨rule, hr, rfl⟩ := h.exists_of_limitAt hl
  have hrp : rule.Plain := hPlain rule ⟨_, hr, by simp [hl]⟩
  refine ⟨rule, hr, ?_, ?_⟩
  · simp [limitOf, resolveRateLimit, hf]
  · have ht := hrp.tenant_eq (by rw [h.key _ _ hr]; exact hMem)
    obtain ⟨hModel, hPath, hp, -⟩ := hrp
    exact ⟨ht, by simp [hModel], by simp [hPath], by simp [hp]⟩

/-! ## Other rules -/

theorem sanitizeKey_keyPart (hn : sanitizeKey name = name) (value : Option String) :
    sanitizeKey (keyPart name value) = keyPart name value := by
  unfold keyPart
  cases nonEmptyOpt value with
  | none => rfl
  | some value => simp [sanitizeKey_append, hn, sanitizeKey_sanitizeKey]

theorem keyPart_of_none {value : Option String} (name : String) (h : nonEmptyOpt value = none) :
    keyPart name value = "" := by
  simp [keyPart, h]

theorem colon_mem_keyPart {value : Option String} (hn : ':' ∈ name.toList)
    (h : nonEmptyOpt value ≠ none) : ':' ∈ (keyPart name value).toList := by
  unfold keyPart
  cases hv : nonEmptyOpt value with
  | none => exact absurd hv h
  | some value => simp [hn]

theorem colon_notMem_of_valid (h : validateTenantRuleDimensions rule = .ok ()) :
    ':' ∉ (trim rule.tenant).toList := by
  intro hMem
  by_cases he : trim rule.tenant = ""
  · rw [he] at hMem
    simp at hMem
  · simp [validateTenantRuleDimensions, validateAdminRuleDimension, he, hMem, bind,
      Except.bind] at h

/-- The tenant of a request that is not the tenant of the rule, but whose key is that of the
rule. -/
structure Impostor (cfg : Config) (rule : TenantRateLimitRule) (tenant : String) : Prop where
  ne : Text.trim rule.tenant ≠ tenant
  key : cfg.tenantRateLimitPrefix ++ sanitizeKey tenant = tenantRateLimitRuleKey cfg rule
  nonempty : tenant ≠ ""
  visible : ∀ c ∈ tenant.toList, Text.isWhitespace c = false

theorem visible_sanitizeKey (s : String) :
    ∀ c ∈ (sanitizeKey s).toList, isWhitespace c = false := by
  intro c hc
  rw [toList_sanitizeKey, mem_map] at hc
  obtain ⟨d, -, rfl⟩ := hc
  exact isWhitespace_sanitizeChar d

/-- The part of the key of a rule that names its dimensions. -/
def dimensions (rule : TenantRateLimitRule) : String :=
  keyPart ":model:" rule.model ++ (keyPart ":path:" rule.path ++ keyPart ":policy:" rule.policy)

theorem sanitizeKey_dimensions (rule : TenantRateLimitRule) :
    sanitizeKey (dimensions rule) = dimensions rule := by
  have hm := sanitizeKey_keyPart (by decide +kernel : sanitizeKey ":model:" = _) rule.model
  have hPath := sanitizeKey_keyPart (by decide +kernel : sanitizeKey ":path:" = _) rule.path
  have hp := sanitizeKey_keyPart (by decide +kernel : sanitizeKey ":policy:" = _) rule.policy
  simp [dimensions, sanitizeKey_append, hm, hPath, hp]

theorem ruleKey_eq_dimensions (rule : TenantRateLimitRule) :
    tenantRateLimitRuleKey cfg rule =
      cfg.tenantRateLimitPrefix ++ (sanitizeKey (trim rule.tenant) ++ dimensions rule) := by
  simp [tenantRateLimitRuleKey, dimensions, String.append_assoc]

/-- The tenant can be given as it is in the key, with the dimensions of the rule. -/
theorem impostor_of_ne
    (hNe : trim rule.tenant ≠ sanitizeKey (trim rule.tenant) ++ dimensions rule) :
    Impostor cfg rule (sanitizeKey (trim rule.tenant) ++ dimensions rule) := by
  have hs : sanitizeKey (sanitizeKey (trim rule.tenant) ++ dimensions rule) =
      sanitizeKey (trim rule.tenant) ++ dimensions rule := by
    rw [sanitizeKey_append, sanitizeKey_sanitizeKey, sanitizeKey_dimensions]
  refine ⟨hNe, ?_, ?_, ?_⟩
  · rw [hs, ruleKey_eq_dimensions]
  · intro he
    obtain ⟨ht, -⟩ := String.append_eq_empty_iff.mp he
    rw [← String.toList_inj, toList_sanitizeKey] at ht
    exact hNe ((String.toList_inj.mp (by simpa using ht)).trans he.symm)
  · rw [← hs]
    exact visible_sanitizeKey _

/-- An underscore can be given as another character that it is the replacement of. -/
theorem impostor_of_underscore_mem (hw : dimensions rule = "")
    (hs : sanitizeKey (trim rule.tenant) = trim rule.tenant)
    (hMem : '_' ∈ (trim rule.tenant).toList) :
    Impostor cfg rule (String.ofList ((trim rule.tenant).toList.map fun c =>
      if c = '_' then '!' else c)) := by
  have hChars := sanitizeChar_of_sanitizeKey_eq hs
  refine ⟨?_, ?_, ?_, ?_⟩
  · intro hEq
    rw [hEq, String.toList_ofList, mem_map] at hMem
    obtain ⟨c, -, hc⟩ := hMem
    split_ifs at hc with hu
    · exact absurd hc (by decide)
    · exact hu hc
  · have hb : sanitizeKey (String.ofList ((trim rule.tenant).toList.map fun c =>
        if c = '_' then '!' else c)) = trim rule.tenant := by
      rw [← String.toList_inj, toList_sanitizeKey, String.toList_ofList, map_map]
      refine (map_congr_left fun c hc => ?_).trans (map_id _)
      show sanitizeChar (if c = '_' then '!' else c) = c
      split_ifs with hu
      · rw [hu]
        rfl
      · exact hChars c hc
    rw [hb, ruleKey_eq_dimensions, hs, hw, String.append_empty]
  · intro he
    rw [← String.toList_inj, String.toList_ofList] at he
    rw [map_eq_nil_iff.mp he] at hMem
    simp at hMem
  · intro c hc
    rw [String.toList_ofList, mem_map] at hc
    obtain ⟨d, hd, rfl⟩ := hc
    split_ifs
    · decide
    · rw [← hChars d hd]
      exact isWhitespace_sanitizeChar d

theorem dimensions_none (h : ':' ∉ (dimensions rule).toList) :
    nonEmptyOpt rule.model = none ∧ nonEmptyOpt rule.path = none ∧
      nonEmptyOpt rule.policy = none := by
  simp only [dimensions, String.toList_append, mem_append, not_or] at h
  obtain ⟨hm, hPath, hp⟩ := h
  refine ⟨?_, ?_, ?_⟩
  · exact by_contra fun hs => hm (colon_mem_keyPart (by decide) hs)
  · exact by_contra fun hs => hPath (colon_mem_keyPart (by decide) hs)
  · exact by_contra fun hs => hp (colon_mem_keyPart (by decide) hs)

theorem eq_underscore {c : Char} (hs : sanitizeChar c = c) (hc : c ≠ ':')
    (hNot : isPlain c ≠ true) : c = '_' := by
  unfold sanitizeChar at hs
  split_ifs at hs with hk
  · simp only [isPlain, ne_eq, Bool.or_eq_true, beq_iff_eq] at hk hNot
    tauto
  · exact hs.symm

theorem exists_impostor (hv : validateTenantRuleDimensions rule = .ok ()) (hNot : ¬ rule.Plain) :
    ∃ tenant, Impostor cfg rule tenant := by
  by_cases hSame : trim rule.tenant = sanitizeKey (trim rule.tenant) ++ dimensions rule
  · have hColon := colon_notMem_of_valid hv
    obtain ⟨hm, hPath, hp⟩ : _ ∧ _ ∧ nonEmptyOpt rule.policy = none := by
      refine dimensions_none fun hc => hColon ?_
      rw [hSame, String.toList_append]
      exact mem_append_right _ hc
    have hw : dimensions rule = "" := by
      simp only [dimensions, keyPart_of_none _ hm, keyPart_of_none _ hPath, keyPart_of_none _ hp]
      rfl
    have hs : sanitizeKey (trim rule.tenant) = trim rule.tenant := by
      conv_rhs => rw [hSame, hw, String.append_empty]
    obtain ⟨c, hc, hcNot⟩ : ∃ c ∈ (trim rule.tenant).toList, isPlain c ≠ true := by
      by_contra hAll
      push Not at hAll
      exact hNot ⟨hm, hPath, hp, hAll⟩
    refine ⟨_, impostor_of_underscore_mem hw hs ?_⟩
    have hcColon : c ≠ ':' := by
      rintro rfl
      exact hColon hc
    rw [← eq_underscore (sanitizeChar_of_sanitizeKey_eq hs c hc) hcColon hcNot]
    exact hc
  · exact ⟨_, impostor_of_ne hSame⟩

/-! ## Requests of impostors -/

/-- A dimension that is longer than all keys. -/
def longDimension (longest : Nat) : String :=
  String.ofList (List.replicate (longest + 1) 'a')

/-- The request of a tenant with dimensions that no rule has. -/
def impostorCheck (tenant : String) (longest : Nat) : Check where
  headers := [("x-tenant-id", some tenant), ("x-model", some (longDimension longest)),
    ("x-original-path", some (longDimension longest)),
    ("x-ratelimit-policy", some (longDimension longest))]
  uriPath := "/"
  now := 0

theorem optionalHeader_of_visible {headers : Headers} {value : String}
    (hl : headers.lookup name = some (some value)) (hn : value ≠ "")
    (hv : ∀ c ∈ value.toList, isWhitespace c = false) :
    optionalHeader headers name = some value := by
  simp [optionalHeader, hl, trim_eq_self hv, hn]

variable (longest : Nat)

theorem sanitizeKey_longDimension :
    sanitizeKey (longDimension longest) = longDimension longest := by
  refine sanitizeKey_of_isPlain fun c hc => ?_
  rw [longDimension, String.toList_ofList] at hc
  rw [eq_of_mem_replicate hc]
  decide

theorem visible_longDimension : ∀ c ∈ (longDimension longest).toList, isWhitespace c = false := by
  rw [← sanitizeKey_longDimension]
  exact visible_sanitizeKey _

theorem length_longDimension : (longDimension longest).length = longest + 1 := by
  simp [longDimension]

theorem longDimension_ne_empty : longDimension longest ≠ "" := by
  intro he
  have hl := length_longDimension longest
  rw [he] at hl
  simp at hl

theorem length_lt_of_mem_candidateSuffixes {long : String}
    (h : suffix ∈ candidateSuffixes long long long) (hNe : suffix ≠ "") :
    long.length < suffix.length := by
  have hm : ":model:".length = 7 := by decide
  have hPath : ":path:".length = 6 := by decide
  have hp : ":policy:".length = 8 := by decide
  simp only [candidateSuffixes, mem_cons, not_mem_nil, or_false] at h
  rcases h with rfl | rfl | rfl | rfl | rfl | rfl | rfl | rfl
  pick_goal 8
  · exact absurd rfl hNe
  all_goals
    simp only [String.length_append]
    omega

theorem matchedKey_of_long {longest : Nat}
    (hb : ∀ key, store.limitAt readers key ≠ none → key.length ≤ longest)
    (hl : store.limitAt readers (cfg.tenantRateLimitPrefix ++ sanitizeKey tenant) ≠ none) :
    matchedKey cfg readers store tenant (longDimension longest) (longDimension longest)
        (longDimension longest) = some (cfg.tenantRateLimitPrefix ++ sanitizeKey tenant) := by
  obtain ⟨parsed, hp⟩ := Option.ne_none_iff_exists'.mp hl
  have hLength := length_longDimension longest
  have hSame := sanitizeKey_longDimension longest
  generalize longDimension longest = long at hLength hSame ⊢
  -- the last candidate is the one without dimensions, and all before it are too long
  have hSplit : candidateSuffixes long long long =
      (candidateSuffixes long long long).dropLast ++ [""] := rfl
  have hSkipped : ∀ key ∈ ((candidateSuffixes long long long).dropLast.map fun suffix =>
        cfg.tenantRateLimitPrefix ++ (sanitizeKey tenant ++ suffix)),
      store.limitAt readers key = none := by
    intro key hKey
    obtain ⟨suffix, hs, rfl⟩ := mem_map.mp hKey
    by_contra hSome
    have hShort := hb _ hSome
    have hNe : suffix ≠ "" := by
      rintro rfl
      simp [candidateSuffixes] at hs
    have hLong := length_lt_of_mem_candidateSuffixes (dropLast_subset _ hs) hNe
    simp only [String.length_append] at hShort
    omega
  rw [matchedKey, candidateKeys_eq_map, hSame, hSplit, map_append, findLimit_append hSkipped]
  simp [findLimit, hp]

theorem Ledger.Recorded.plain_of_sound (h : ledger.Recorded cfg) (hs : ledger.Sound cfg readers)
    (hr : ledger.InForce readers rule) : rule.Plain := by
  obtain ⟨key, hu, hLimit⟩ := hr
  by_contra hNot
  obtain ⟨tenant, hi⟩ := exists_impostor (h.valid key rule hu) hNot
  obtain ⟨longest, hl⟩ := h.bounded
  have hKey : cfg.tenantRateLimitPrefix ++ sanitizeKey tenant = key :=
    hi.key.trans (h.key key rule hu)
  have hb : ∀ key, ledger.store.limitAt readers key ≠ none → key.length ≤ longest := by
    intro other ho
    obtain ⟨parsed, hp⟩ := Option.ne_none_iff_exists'.mp ho
    obtain ⟨otherRule, hor, -⟩ := h.exists_of_limitAt hp
    exact hl other otherRule hor
  have ht : requiredHeader (impostorCheck tenant longest).headers "x-tenant-id" = .ok tenant :=
    requiredHeader_eq_ok_iff.mpr (optionalHeader_of_visible rfl hi.nonempty hi.visible)
  have hSent {name : String} (hn : (impostorCheck tenant longest).headers.lookup name =
      some (some (longDimension longest))) :=
    optionalHeader_of_visible hn (longDimension_ne_empty longest) (visible_longDimension longest)
  have hModel : (impostorCheck tenant longest).model = longDimension longest := by
    rw [Check.model, hSent rfl]
    rfl
  have hPath : (impostorCheck tenant longest).path = longDimension longest := by
    rw [Check.path, hSent rfl]
    rfl
  have hPolicy : (impostorCheck tenant longest).policy = longDimension longest := by
    rw [Check.policy, hSent rfl]
    rfl
  have hm : matchedKey cfg readers ledger.store tenant (impostorCheck tenant longest).model
      (impostorCheck tenant longest).path (impostorCheck tenant longest).policy = some key := by
    rw [hModel, hPath, hPolicy, ← hKey]
    exact matchedKey_of_long hb (by rw [hKey]; exact hLimit)
  obtain ⟨found, hf, -, hFits⟩ := hs _ tenant key ht hm
  rw [hu] at hf
  cases hf
  exact hi.ne hFits.1

/-- A limit that is found is always that of a rule for the request's tenant and dimensions
exactly if all rules in force are plain. -/
theorem sound_iff_plain (cfg : Config) (readers : Readers) (events : List Event) :
    (Ledger.init.run cfg readers events).Sound cfg readers ↔
      ∀ rule, (Ledger.init.run cfg readers events).InForce readers rule → rule.Plain := by
  have hr : (Ledger.init.run cfg readers events).Recorded cfg :=
    recorded_run (recorded_init cfg) events
  exact ⟨fun hs _ hRule => hr.plain_of_sound hs hRule, hr.sound⟩

/-- A rule of the tenant `acme` for one of its models. -/
def acmeRule : TenantRateLimitRule where
  tenant := "acme"
  model := some "gpt-4"
  path := none
  policy := none
  rps := 100
  burst := 200
  cost := 1
  ttlSecs := none

/-- Another tenant that names the rule. -/
def acmeCheck : Check where
  headers := [("x-tenant-id", some "acme:model:gpt-4")]
  uriPath := "/v1/ratelimit/check"
  now := 0

/-- The rule passes validation, and the request of the other tenant gets its limit, not the
global one. -/
theorem acmeRule_found :
    validateTenantRateLimitRule acmeRule = .ok () ∧
      limitOf oneByOne noReaders acmeCheck
        (Ledger.init.run oneByOne noReaders [.upsert acmeRule]).store "acme:model:gpt-4" =
        ⟨100, 200, 1⟩ ∧
      ¬ (Ledger.init.run oneByOne noReaders [.upsert acmeRule]).Sound oneByOne noReaders := by
  refine ⟨rfl, by decide +kernel, fun hs => ?_⟩
  obtain ⟨rule, hr, -, ht, -⟩ := hs acmeCheck "acme:model:gpt-4"
    "ai:tenant:ratelimit:acme:model:gpt-4" (by decide +kernel) (by decide +kernel)
  have ha : (Ledger.init.run oneByOne noReaders [.upsert acmeRule]).upserted
      "ai:tenant:ratelimit:acme:model:gpt-4" = some acmeRule := by
    decide +kernel
  rw [ha] at hr
  cases hr
  exact absurd ht (by decide +kernel)

end Spacegate.AiGateway.RateLimit
