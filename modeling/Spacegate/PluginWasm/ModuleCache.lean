import Spacegate.Foundation.Traverse
import Spacegate.PluginWasm.Config

/-!
# The cache of compiled modules

`WasmModuleCache::get_or_compile` looks a module up under a key made of the configured url or
cache key and of the expected digest.  The digest is verified only when there is no entry.

An entry is what was compiled under its key, whoever asked for it.  So a call gets bytes with
the digest it expects only if no other call, with another digest or with none, has the same key.
-/

namespace Spacegate.PluginWasm.ModuleCache

open Foundation List Function Text

/-- A compiled module, as the bytes it was compiled from. -/
structure Module where
  bytes : Bytes
  deriving DecidableEq, Repr

abbrev Cache := String → Option Module

/-- What a call meets when it has to fetch the module: the bytes at the url, and whether they
compile. -/
structure Surroundings where
  fetched : Except WasmHostError Bytes
  compiled : Bytes → Except String Unit

/-! ## `get_or_compile` -/

def normalizeSha256 (s : String) : String :=
  (stripStart "sha256:" (trim s)).getD (trim s)

/-- The configured key, or else the url. -/
def cacheBase (cfg : WasmPluginShellConfig) : String :=
  (cfg.moduleCacheKey.filter fun s => trim s ≠ "").getD (trim cfg.url)

def moduleCacheKey (cfg : WasmPluginShellConfig) : String :=
  match cfg.sha256.filter fun s => trim s ≠ "" with
  | some sha256 => cacheBase cfg ++ "#sha256=" ++ normalizeSha256 sha256
  | none => cacheBase cfg

/-- The digest of some bytes in hexadecimal. -/
abbrev Digest := Bytes → String

variable (digest : Digest)

def verifySha256 (bytes : Bytes) (expected : Option String) : Except WasmHostError Unit :=
  match (expected.map normalizeSha256).filter (· ≠ "") with
  | none => .ok ()
  | some expected =>
    let actual := digest bytes
    if eqIgnoreAsciiCase actual expected then .ok ()
    else .error (.fetch ("sha256 mismatch: expected " ++ expected ++ ", actual " ++ actual))

def fetchAndCompile (cfg : WasmPluginShellConfig) (env : Surroundings) :
    Except WasmHostError Module := do
  let bytes ← env.fetched
  verifySha256 digest bytes cfg.sha256
  (env.compiled bytes).mapError .wasmtime
  return { bytes := bytes }

/-- The entry that is used, if there is one. -/
def cached (cache : Cache) (cfg : WasmPluginShellConfig) : Option Module :=
  if cfg.useCache then cache (moduleCacheKey cfg) else none

def insert (cache : Cache) (cfg : WasmPluginShellConfig) (m : Module) : Cache :=
  if cfg.useCache then update cache (moduleCacheKey cfg) (some m) else cache

def getOrCompile (cache : Cache) (cfg : WasmPluginShellConfig) (env : Surroundings) :
    Except WasmHostError Module × Cache :=
  match cached cache cfg with
  | some m => (.ok m, cache)
  | none =>
    match fetchAndCompile digest cfg env with
    | .error e => (.error e, cache)
    | .ok m => (.ok m, insert cache cfg m)

/-! ## Runs -/

inductive Event where
  | call (cfg : WasmPluginShellConfig) (env : Surroundings)
  | evict (key : String)

def step (cache : Cache) : Event → Cache
  | .call cfg env => (getOrCompile digest cache cfg env).2
  | .evict key => update cache key none

def run (events : List Event) : Cache :=
  events.foldl (step digest) fun _ => none

/-- The module was compiled from bytes with the digest that is expected, if one is. -/
def Verified (cfg : WasmPluginShellConfig) (m : Module) : Prop :=
  ∀ sha256, cfg.sha256 = some sha256 → sha256 ≠ "" →
    eqIgnoreAsciiCase (digest m.bytes) (normalizeSha256 sha256) = true

/-- In whatever was run before, a call returns verified modules only. -/
def Sound (events : List Event) : Prop :=
  ∀ earlier cfg env later m, events = earlier ++ .call cfg env :: later →
    (getOrCompile digest (run digest earlier) cfg env).1 = .ok m → Verified digest cfg m

/-! ## Keys -/

def marker : List Char := "#sha256=".toList

/-- The key of the configuration can be read back: the url or cache key does not contain what
separates it from the digest, and a digest that is given is not an empty one. -/
structure Separated (cfg : WasmPluginShellConfig) : Prop where
  base : cfg.useCache = true → ¬ marker <:+: (cacheBase cfg).toList
  sha256 : ∀ sha256, cfg.sha256 = some sha256 → sha256 ≠ "" → normalizeSha256 sha256 ≠ ""

variable {digest} {cfg : WasmPluginShellConfig} {env : Surroundings} {cache : Cache} {m : Module}

theorem normalizeSha256_of_blank {s : String} (h : Text.trim s = "") : normalizeSha256 s = "" := by
  unfold normalizeSha256
  rw [h]
  rfl

theorem moduleCacheKey_of_sha256 {sha256 : String} (hSha : cfg.sha256 = some sha256)
    (hn : normalizeSha256 sha256 ≠ "") : (moduleCacheKey cfg).toList =
      (cacheBase cfg).toList ++ marker ++ (normalizeSha256 sha256).toList := by
  have ht : trim sha256 ≠ "" := fun h => hn (normalizeSha256_of_blank h)
  have hg : (cfg.sha256.filter fun s => trim s ≠ "") = some sha256 := by
    rw [hSha, Option.filter_some, if_pos (decide_eq_true ht)]
  simp only [moduleCacheKey, hg]
  rw [String.toList_append, String.toList_append]
  rfl

theorem moduleCacheKey_cases (cfg : WasmPluginShellConfig) (hs : Separated cfg) :
    (∃ sha256, cfg.sha256 = some sha256 ∧ normalizeSha256 sha256 ≠ "") ∨
      moduleCacheKey cfg = cacheBase cfg := by
  cases hSha : cfg.sha256 with
  | none =>
    simp [moduleCacheKey, hSha]
  | some sha256 =>
    by_cases he : sha256 = ""
    · right
      subst he
      simp only [moduleCacheKey, hSha]
      rfl
    · exact .inl ⟨sha256, rfl, hs.sha256 sha256 hSha he⟩

/-- An entry under a key that is read as one with a digest has that digest. -/
def Certified (digest : Digest) (cache : Cache) : Prop :=
  ∀ (base sha256 : List Char) (key : String) (m : Module), cache key = some m →
    ¬ marker <:+: base → key.toList = base ++ marker ++ sha256 →
      eqIgnoreAsciiCase (digest m.bytes) (String.ofList sha256) = true

theorem verified_of_fetchAndCompile (hs : Separated cfg)
    (h : fetchAndCompile digest cfg env = .ok m) : Verified digest cfg m := by
  obtain ⟨bytes, -, h⟩ := exists_of_bind_eq_ok h
  obtain ⟨_, hv, h⟩ := exists_of_bind_eq_ok h
  obtain ⟨_, -, h⟩ := exists_of_bind_eq_ok h
  cases Except.ok.inj h
  intro sha256 hSha hg
  have hn := hs.sha256 sha256 hSha hg
  simp only [verifySha256, hSha, Option.map_some, Option.filter_some, hn, ne_eq,
    not_false_eq_true, decide_true, if_true] at hv
  split_ifs at hv with hEq
  exact hEq

variable (hc : Certified digest cache)
include hc

theorem certified_insert (hs : Separated cfg)
    (hv : Verified digest cfg m) : Certified digest (insert cache cfg m) := by
  intro base sha256 key m' he hb hKey
  unfold insert at he
  split_ifs at he with hUse
  swap
  · exact hc base sha256 key m' he hb hKey
  by_cases hSame : key = moduleCacheKey cfg
  · subst hSame
    rw [update_self] at he
    cases he
    rcases moduleCacheKey_cases cfg hs with ⟨expected, hSha, hn⟩ | hp
    · rw [moduleCacheKey_of_sha256 hSha hn] at hKey
      obtain ⟨-, rfl⟩ := append_separator_inj (by decide) (hs.base hUse) hb hKey
      rw [String.ofList_toList]
      refine hv expected hSha ?_
      rintro rfl
      exact hn rfl
    · -- the key of a call without a digest is not read as one with a digest
      rw [hp] at hKey
      exact absurd ⟨base, sha256, hKey.symm⟩ (hs.base hUse)
  · rw [update_of_ne hSame] at he
    exact hc base sha256 key m' he hb hKey

/-- What a call does to the cache, and what it returns. -/
theorem getOrCompile_sound (hs : Separated cfg) :
    Certified digest (getOrCompile digest cache cfg env).2 ∧
      ∀ m, (getOrCompile digest cache cfg env).1 = .ok m → Verified digest cfg m := by
  unfold getOrCompile
  cases he : cached cache cfg with
  | some m =>
    refine ⟨hc, ?_⟩
    intro m' hr sha256 hSha hg
    cases hr
    unfold cached at he
    split_ifs at he with hUse
    have hn := hs.sha256 sha256 hSha hg
    have hd := hc _ _ _ m he (hs.base hUse) (moduleCacheKey_of_sha256 hSha hn)
    rwa [String.ofList_toList] at hd
  | none =>
    cases hf : fetchAndCompile digest cfg env with
    | error e => exact ⟨hc, fun m h => by cases h⟩
    | ok m =>
      have hv := verified_of_fetchAndCompile hs hf
      exact ⟨certified_insert hc hs hv, fun m' h => by cases h; exact hv⟩

theorem certified_evict (key : String) : Certified digest (Function.update cache key none) := by
  intro base sha256 key' m he
  by_cases hs : key' = key
  · rw [hs, update_self] at he
    cases he
  · rw [update_of_ne hs] at he
    exact hc base sha256 key' m he

omit hc

def Event.Separated : Event → Prop
  | .call cfg _ => ModuleCache.Separated cfg
  | .evict _ => True

theorem certified_run {events : List Event} (h : ∀ event ∈ events, event.Separated) :
    Certified digest (run digest events) := by
  refine foldlRecOn events (step digest) ?_ ?_
  · intro base sha256 key m he
    cases he
  · intro cache hc event hEvent
    cases event with
    | call cfg env => exact (getOrCompile_sound hc (h _ hEvent)).1
    | evict key => exact certified_evict hc key

/-- Where all keys can be read back, every call gets what it expects. -/
theorem sound_of_separated {events : List Event} (h : ∀ event ∈ events, event.Separated) :
    Sound digest events := by
  rintro earlier cfg env later m rfl hr
  have he : Certified digest (run digest earlier) :=
    certified_run fun event hEvent => h event (mem_append_left _ hEvent)
  have hs : Separated cfg := h (.call cfg env) (by simp)
  exact (getOrCompile_sound he hs).2 m hr

/-! ### Two configurations with one key -/

/-- A digest that tells the bytes apart by their number. -/
def lengthDigest : Digest :=
  fun bytes => toString bytes.length

def atUrl (url : String) (sha256 : Option String) : WasmPluginShellConfig where
  url := url
  sha256 := sha256
  moduleCacheKey := none
  useCache := true
  clusters := []
  limits := { maxBodyBytes := none, maxPendingCalls := none }

def serves (bytes : Bytes) : Surroundings where
  fetched := .ok bytes
  compiled _ := .ok ()

theorem separated_atUrl : Separated (atUrl "m" (some "2")) := by
  constructor
  · intro _
    decide
  · intro sha256 hSha _
    cases hSha
    decide

theorem other_bytes_refused :
    Sound lengthDigest
      [.call (atUrl "m" (some "2")) (serves [1, 2]), .evict "m#sha256=2",
        .call (atUrl "m" (some "2")) (serves [1])] := by
  refine sound_of_separated ?_
  intro event he
  simp only [mem_cons, not_mem_nil, or_false] at he
  rcases he with rfl | rfl | rfl
  · exact separated_atUrl
  · trivial
  · exact separated_atUrl

/-- A url with a fragment puts its module, which nobody has verified, under the key of the url
with the digest.  And a digest of which only the algorithm is given is not verified. -/
theorem fragment_not_verified :
    ¬ Sound lengthDigest
        [.call (atUrl "m#sha256=2" none) (serves [1]),
          .call (atUrl "m" (some "2")) (serves [1, 2])] ∧
      ¬ Sound lengthDigest [.call (atUrl "m" (some "sha256:")) (serves [1])] := by
  constructor
  · intro h
    have hv := h [.call (atUrl "m#sha256=2" none) (serves [1])]
      (atUrl "m" (some "2")) (serves [1, 2]) [] { bytes := [1] } rfl (by decide +kernel)
    exact absurd (hv "2" rfl (by decide)) (by decide +kernel)
  · intro h
    have hv := h [] (atUrl "m" (some "sha256:")) (serves [1]) [] { bytes := [1] } rfl
      (by decide +kernel)
    exact absurd (hv "sha256:" rfl (by decide)) (by decide +kernel)

end Spacegate.PluginWasm.ModuleCache
