import Spacegate.Shell.CollectHttpRoute

/-!
# What a collected route keeps of its configuration

The relations below say what it means for a kernel route to carry a configured
one: the same rules, matches and backends in the same order, each with the values
that were configured.  Matches, hosts, ports, protocols and timeouts always arrive.
The weight of a backend never does, and the version override follows the presence
of `downgrade_http2` instead of its value; the main theorem says exactly which
configurations are carried nevertheless.
-/

namespace Spacegate.Shell

open Foundation Kernel Model HttpBackendBuilder List Except

variable {Regex X Out : Type}

/-! ## The meaning of a configuration -/

section Spec

variable (env : ShellEnv Regex X Out)

def PathCarries : SgHttpPathMatch → HttpPathMatchRewrite Regex → Prop
  | .exact value replace, kernel => kernel = .exact value replace
  | .pathPrefix value replace, kernel => kernel = .pathPrefix value replace
  | .regExp value replace, kernel =>
    ∃ re, env.regexNew value = some re ∧ kernel = .regExp re replace

def HeaderCarries : SgHttpHeaderMatch → SgHttpHeaderMatchRewrite Regex → Prop
  | .exact name value replace, kernel =>
    env.headerName name = some kernel.headerName ∧
      ∃ v r, HeaderValue.fromStr value = some v ∧
        Option.Rel (fun s v => HeaderValue.fromStr s = some v) replace r ∧
        kernel.policy = .exact v r
  | .regExp name re replace, kernel =>
    env.headerName name = some kernel.headerName ∧
      ∃ r, env.regexNew re = some r ∧ kernel.policy = .regular r replace

def QueryCarries : SgHttpQueryMatch → HttpQueryMatch Regex → Prop
  | .exact key value, kernel => kernel.name = key ∧ kernel.policy = .exact value
  | .regular key re, kernel =>
    kernel.name = key ∧ ∃ r, env.regexNew re = some r ∧ kernel.policy = .regular r

structure MatchCarries (configured : SgHttpRouteMatch) (kernel : HttpRouteMatch Regex) : Prop where
  path : Option.Rel (PathCarries env) configured.path kernel.path
  header : Option.Rel (List.Forall₂ (HeaderCarries env)) configured.header kernel.header
  query : Option.Rel (List.Forall₂ (QueryCarries env)) configured.query kernel.query
  method : kernel.method = configured.method.map (·.map fun m => ⟨m.method⟩)

/-- A disabled timeout is disabled, any other is the configured one or the default. -/
structure TimeoutCarries (timeoutMs : Option UInt32) (timeoutMode : Option TimeoutMode)
    (kernel : RequestTimeout) : Prop where
  disabled : timeoutMode = some .disabled → kernel = .disabled
  duration : ∀ ms, timeoutMode ≠ some .disabled → timeoutMs = some ms → kernel = .duration ms.toNat
  default : timeoutMode ≠ some .disabled → timeoutMs = none → kernel = .default

/-- Where a backend sends its requests.  A file backend has a path and nothing else. -/
def TargetCarries (configured : SgBackendRef) (kernel : Backend) : Prop :=
  match configured.host with
  | .file path => kernel = .file path
  | host =>
    ∃ version, kernel = .http (some host.text) configured.port
        (configured.protocol.map (·.text)) version ∧
      version = if configured.downgradeHttp2 = some true then some .http11 else none

structure BackendCarries (configured : SgBackendRef) (kernel : HttpBackend Regex X Out) : Prop where
  target : TargetCarries configured kernel.backend
  timeout : TimeoutCarries configured.timeoutMs configured.timeoutMode kernel.timeout
  weight : kernel.weight = configured.weight.getD 1

structure RuleCarries (configured : SgHttpRouteRule) (kernel : HttpRouteRule Regex X Out) :
    Prop where
  «matches» : Option.Rel (List.Forall₂ (MatchCarries env)) configured.matches kernel.match
  timeout : TimeoutCarries configured.timeoutMs configured.timeoutMode kernel.timeout
  backends : List.Forall₂ BackendCarries configured.backends kernel.backends

/-- The kernel route has the configured rules, in order. -/
def RouteCarries (configured : SgHttpRoute) (kernel : HttpRoute Regex X Out) : Prop :=
  List.Forall₂ (RuleCarries env) configured.rules kernel.rules

end Spec

/-- A backend reference that arrives unchanged: its weight is the default one, and
it does not decline the downgrade in so many words. -/
def BackendIsKept (backend : SgBackendRef) : Prop :=
  backend.weight.getD 1 = 1 ∧
    match backend.host with
    | .file _ => True
    | _ => backend.downgradeHttp2 ≠ some false

/-! ## Matches -/

theorem orError_eq_ok {α : Type} {e : CollectError} {o : Option α} {a : α}
    (h : orError e o = .ok a) : o = some a := by
  cases o with
  | none => exact absurd h (by simp [orError])
  | some b => rw [ok.inj h]

theorem rel_of_convertOption {α β : Type} {f : α → Except CollectError β} {R : α → β → Prop}
    {o : Option α} {p : Option β} (h : convertOption f o = .ok p)
    (hR : ∀ a b, f a = .ok b → R a b) : Option.Rel R o p := by
  cases o with
  | none =>
    rw [← ok.inj h]
    exact .none
  | some a =>
    obtain ⟨b, hb, rfl⟩ := exists_of_map_eq_ok h
    exact .some (hR a b hb)

theorem forall₂_of_mapM_of_imp {α β : Type} {f : α → Except CollectError β} {R : α → β → Prop}
    (hR : ∀ a b, f a = .ok b → R a b) (xs : List α) (ys : List β) (h : xs.mapM f = .ok ys) :
    List.Forall₂ R xs ys :=
  (forall₂_of_mapM_ok h).imp hR

section Matches

variable (env : ShellEnv Regex X Out)

theorem convertPath_carries (m : SgHttpPathMatch) (k : HttpPathMatchRewrite Regex)
    (h : convertPath env m = .ok k) : PathCarries env m k := by
  cases m with
  | exact value replace => exact (ok.inj h).symm
  | pathPrefix value replace => exact (ok.inj h).symm
  | regExp value replace =>
    obtain ⟨re, hRe, h⟩ := exists_of_bind_eq_ok h
    exact ⟨re, orError_eq_ok hRe, (ok.inj h).symm⟩

theorem convertHeader_carries (m : SgHttpHeaderMatch) (k : SgHttpHeaderMatchRewrite Regex)
    (h : convertHeader env m = .ok k) : HeaderCarries env m k := by
  cases m with
  | exact name value replace =>
    obtain ⟨n, hn, h⟩ := exists_of_bind_eq_ok h
    obtain ⟨v, hv, h⟩ := exists_of_bind_eq_ok h
    obtain ⟨r, hr, h⟩ := exists_of_bind_eq_ok h
    have hRel := rel_of_convertOption hr fun _ _ => orError_eq_ok
    cases ok.inj h
    exact ⟨orError_eq_ok hn, v, r, orError_eq_ok hv, hRel, rfl⟩
  | regExp name re replace =>
    obtain ⟨n, hn, h⟩ := exists_of_bind_eq_ok h
    obtain ⟨r, hRe, h⟩ := exists_of_bind_eq_ok h
    cases ok.inj h
    exact ⟨orError_eq_ok hn, r, orError_eq_ok hRe, rfl⟩

theorem convertQuery_carries (m : SgHttpQueryMatch) (k : HttpQueryMatch Regex)
    (h : convertQuery env m = .ok k) : QueryCarries env m k := by
  cases m with
  | exact key value =>
    cases ok.inj h
    exact ⟨rfl, rfl⟩
  | regular key re =>
    obtain ⟨r, hRe, h⟩ := exists_of_bind_eq_ok h
    cases ok.inj h
    exact ⟨rfl, r, orError_eq_ok hRe, rfl⟩

theorem convertConfigToKernel_carries (m : SgHttpRouteMatch) (k : HttpRouteMatch Regex)
    (h : convertConfigToKernel env m = .ok k) : MatchCarries env m k := by
  obtain ⟨path, hp, h⟩ := exists_of_bind_eq_ok h
  obtain ⟨header, hh, h⟩ := exists_of_bind_eq_ok h
  obtain ⟨query, hq, h⟩ := exists_of_bind_eq_ok h
  cases ok.inj h
  exact
    { path := rel_of_convertOption hp (convertPath_carries env)
      header := rel_of_convertOption hh (forall₂_of_mapM_of_imp (convertHeader_carries env))
      query := rel_of_convertOption hq (forall₂_of_mapM_of_imp (convertQuery_carries env))
      method := rfl }

end Matches

/-! ## Backends -/

theorem requestTimeout_carries (timeoutMs : Option UInt32) (timeoutMode : Option TimeoutMode) :
    TimeoutCarries timeoutMs timeoutMode (requestTimeout timeoutMs timeoutMode) where
  disabled h := by simp [requestTimeout, h]
  duration ms h hMs := by simp [requestTimeout, h, hMs]
  default h hMs := by simp [requestTimeout, h, hMs]

section Backends

variable (env : ShellEnv Regex X Out) (backend : SgBackendRef)

theorem backendBuilder_fields : (backendBuilder env backend).host = some backend.getHost ∧
      (backendBuilder env backend).port = backend.port ∧
      (backendBuilder env backend).schema = none ∧
      (backendBuilder env backend).version = none ∧
      (backendBuilder env backend).weight = 1 ∧
      (backendBuilder env backend).timeout =
        requestTimeout backend.timeoutMs backend.timeoutMode := by
  cases hh : backend.host <;> cases hp : backend.port <;>
    simp [backendBuilder, hh, hp, withHost, withPort, withPlugin, withTimeout, new]

theorem collectBackend_weight : (collectBackend env backend).weight = 1 := by
  obtain ⟨-, -, -, -, hw, -⟩ := backendBuilder_fields env backend
  change (backendLayer env backend).weight = 1
  rw [backendLayer]
  split <;> exact hw

theorem collectBackend_timeout : (collectBackend env backend).timeout =
      requestTimeout backend.timeoutMs backend.timeoutMode := by
  obtain ⟨-, -, -, -, -, ht⟩ := backendBuilder_fields env backend
  change (backendLayer env backend).timeout = _
  rw [backendLayer]
  split <;> exact ht

theorem collectBackend_file {path : String} (hh : backend.host = .file path) :
    (collectBackend env backend).backend = .file path := by
  have hl : (backendLayer env backend).backend = .file path := by
    simp [backendLayer, hh, buildFile]
  simp [collectBackend, hl, replaceVersion]

/-- The version is replaced whenever the flag is there. -/
theorem collectBackend_http (hh : ∀ path, backend.host ≠ .file path) :
    (collectBackend env backend).backend =
      .http (some backend.getHost) backend.port (backend.protocol.map (·.text))
        (if backend.downgradeHttp2.isSome then some .http11 else none) := by
  obtain ⟨hn, hPort, hs, hv, -, -⟩ := backendBuilder_fields env backend
  have hl : (backendLayer env backend).backend =
      .http (some backend.getHost) backend.port (backend.protocol.map (·.text)) none := by
    rw [backendLayer]
    split
    · rename_i hf
      exact absurd hf (hh _)
    · rename_i hp _
      simp [build, withSchema, hn, hPort, hv, hp]
    · rename_i hp _
      simp [build, hn, hPort, hs, hv, hp]
  simp only [collectBackend, hl, replaceVersion]
  split_ifs <;> rfl

theorem version_eq_iff (downgrade : Option Bool) :
    ((if downgrade.isSome then some Version.http11 else none) =
        if downgrade = some true then some .http11 else none) ↔ downgrade ≠ some false := by
  rcases downgrade with _ | _ | _ <;> simp

theorem collectBackend_target_iff : TargetCarries backend (collectBackend env backend).backend ↔
      match backend.host with
      | .file _ => True
      | _ => backend.downgradeHttp2 ≠ some false := by
  rw [← version_eq_iff]
  cases hh : backend.host with
  | file path => simp [TargetCarries, hh, collectBackend_file env backend hh]
  | host name =>
    rw [collectBackend_http env backend (by simp [hh])]
    simp [TargetCarries, hh, SgBackendRef.getHost]
  | k8sService data =>
    rw [collectBackend_http env backend (by simp [hh])]
    simp [TargetCarries, hh, SgBackendRef.getHost]

theorem collectBackend_carries_iff :
    BackendCarries backend (collectBackend env backend) ↔ BackendIsKept backend := by
  have ht : TimeoutCarries backend.timeoutMs backend.timeoutMode
      (collectBackend env backend).timeout := by
    rw [collectBackend_timeout]
    exact requestTimeout_carries _ _
  constructor
  · intro h
    exact ⟨h.weight.symm.trans (collectBackend_weight env backend),
      (collectBackend_target_iff env backend).mp h.target⟩
  · intro h
    exact
      { target := (collectBackend_target_iff env backend).mpr h.2
        timeout := ht
        weight := (collectBackend_weight env backend).trans h.1.symm }

end Backends

/-! ## Rules and routes -/

variable (env : ShellEnv Regex X Out)

theorem collectRule_carries_iff {mcpTransport : Option String}
    {rule : SgHttpRouteRule} {kernel : HttpRouteRule Regex X Out}
    (h : collectRule env mcpTransport rule = .ok kernel) :
    RuleCarries env rule kernel ↔ ∀ backend ∈ rule.backends, BackendIsKept backend := by
  obtain ⟨ms, hm, h⟩ := exists_of_bind_eq_ok h
  cases ok.inj h
  -- of the three parts only the backends can fail
  have hb : List.Forall₂ BackendCarries rule.backends
      (rule.backends.map (collectBackend env)) ↔
      ∀ backend ∈ rule.backends, BackendIsKept backend := by
    refine forall₂_iff_of_forall₂ (S := fun backend kernel => kernel = collectBackend env backend)
      ?_ ?_
    · exact forall₂_map_right_iff.mpr (forall₂_same.mpr fun _ _ => rfl)
    · rintro backend _ rfl
      exact collectBackend_carries_iff env backend
  constructor
  · intro hc
    exact hb.mp hc.backends
  · intro hk
    exact
      { «matches» := rel_of_convertOption hm
          (forall₂_of_mapM_of_imp (convertConfigToKernel_carries env))
        timeout := requestTimeout_carries _ _
        backends := hb.mpr hk }

theorem collectRoute_carries_iff {route : SgHttpRoute}
    {kernel : HttpRoute Regex X Out} (h : collectRoute env (.http route) = .ok kernel) :
    RouteCarries env route kernel ↔
      ∀ rule ∈ route.rules, ∀ backend ∈ rule.backends, BackendIsKept backend := by
  obtain ⟨rules, hr, h⟩ := exists_of_bind_eq_ok h
  cases ok.inj h
  exact forall₂_iff_of_forall₂ (forall₂_of_mapM_ok hr) fun _ _ hRule =>
    collectRule_carries_iff env hRule

variable {collected : List (String × HttpRoute Regex X Out)} {env : ShellEnv Regex X Out}

theorem forall₂_collectHttpRoute {routes : RouteMap}
    (h : collectHttpRoute env routes = .ok collected) :
    List.Forall₂ (fun entry built => built.1 = entry.1 ∧ collectRoute env entry.2 = .ok built.2)
      routes.entries collected := by
  refine (forall₂_of_mapM_ok h).imp ?_
  intro entry built he
  obtain ⟨kernel, hk, rfl⟩ := exists_of_map_eq_ok he
  exact ⟨rfl, hk⟩

/-- Every configured entry is found in the collected map under its name. -/
theorem lookup_collectHttpRoute {routes : RouteMap}
    (h : collectHttpRoute env routes = .ok collected) {name : String} {route : SgRoute}
    (hMem : (name, route) ∈ routes.entries) :
    ∃ kernel, collected.lookup name = some kernel ∧ collectRoute env route = .ok kernel := by
  have hAll := forall₂_collectHttpRoute h
  have hNe := routes.pairwise_ne
  clear h
  generalize routes.entries = entries at hMem hAll hNe
  induction hAll with
  | nil => exact absurd hMem (by simp)
  | @cons entry built entries collected he _ ih =>
    obtain ⟨key, kernel⟩ := built
    obtain ⟨rfl, hk⟩ : key = entry.1 ∧ collectRoute env entry.2 = .ok kernel := he
    rw [pairwise_cons] at hNe
    rcases mem_cons.mp hMem with rfl | hr
    · exact ⟨kernel, by simp, hk⟩
    · -- the head has another name, so the lookup passes it
      have hh : (name == entry.1) = false := by simpa using (hNe.1 _ hr).symm
      obtain ⟨found, hl, hf⟩ := ih hr hNe.2
      exact ⟨found, by simpa [lookup_cons, hh] using hl, hf⟩

/-- **Fidelity of collected routes.**  Once the routes of a gateway are collected,
every configured HTTP route has its kernel route under its name, and this carries
the configuration exactly when no backend of the route has another weight than one
and no HTTP backend says `downgrade_http2: false`. -/
theorem collectHttpRoute_carries_iff (env : ShellEnv Regex X Out) (routes : RouteMap)
    (collected : List (String × HttpRoute Regex X Out))
    (h : collectHttpRoute env routes = .ok collected) (name : String) (route : SgHttpRoute)
    (hMem : (name, .http route) ∈ routes.entries) :
    ∃ kernel, collected.lookup name = some kernel ∧
      (RouteCarries env route kernel ↔
        ∀ rule ∈ route.rules, ∀ backend ∈ rule.backends, BackendIsKept backend) := by
  obtain ⟨kernel, hl, hk⟩ := lookup_collectHttpRoute h hMem
  exact ⟨kernel, hl, collectRoute_carries_iff env hk⟩

/-! ## A route with two backends -/

/-- Literal expressions, header names as they are, no plugins and no extensions. -/
def plainEnv : ShellEnv LiteralRegex Unit Unit where
  regexNew re := some ⟨re⟩
  headerName name := some name
  pluginLayer _ := none
  addK8sService _ ext := ext
  addMcpProxyMeta _ _ ext := ext
  xRequestId inner := inner
  notFound := ()

def plainBackend (name : String) (weight : Option UInt16) (downgradeHttp2 : Option Bool) :
    SgBackendRef where
  host := .host name
  port := some 8080
  timeoutMs := some 500
  timeoutMode := none
  protocol := some .https
  downgradeHttp2 := downgradeHttp2
  weight := weight
  plugins := []

/-- A route with one rule for all requests. -/
def plainRoute (backends : List SgBackendRef) : SgHttpRoute where
  routeName := "r"
  hostnames := none
  plugins := []
  rules :=
    [{ «matches» := none
       plugins := []
       backends := backends
       timeoutMs := none
       timeoutMode := none
       balancePolicy := some .random }]
  priority := 1

def plainRoutes (name : String) (route : SgHttpRoute) : RouteMap where
  entries := [(name, .http route)]
  sorted := by simp

theorem plainRoutes_carried :
    ∃ collected kernel,
      collectHttpRoute plainEnv
        (plainRoutes "r" (plainRoute [plainBackend "a" none (some true)])) = .ok collected ∧
      collected.lookup "r" = some kernel ∧
      RouteCarries plainEnv (plainRoute [plainBackend "a" none (some true)]) kernel := by
  obtain ⟨kernel, hl, hIff⟩ := collectHttpRoute_carries_iff plainEnv
    (plainRoutes "r" (plainRoute [plainBackend "a" none (some true)])) _ rfl "r" _
    (mem_singleton_self _)
  refine ⟨_, kernel, rfl, hl, hIff.mpr ?_⟩
  simp [plainRoute, plainBackend, BackendIsKept]

/-- Weights five and one become one and one, and a declined downgrade forces HTTP/1.1. -/
theorem plainRoutes_not_carried :
    ∃ kernel : HttpRoute LiteralRegex Unit Unit,
      collectHttpRoute plainEnv (plainRoutes "r" (plainRoute
        [plainBackend "a" (some 5) none, plainBackend "b" none (some false)])) =
          .ok [("r", kernel)] ∧
      kernel.rules.map (·.backends.map (·.weight)) = [[1, 1]] ∧
      kernel.rules.map (·.backends.map (·.backend)) =
        [[.http (some "a") (some 8080) (some "https") none,
          .http (some "b") (some 8080) (some "https") (some .http11)]] ∧
      ¬ RouteCarries plainEnv (plainRoute
        [plainBackend "a" (some 5) none, plainBackend "b" none (some false)]) kernel := by
  refine ⟨_, rfl, rfl, rfl, ?_⟩
  intro hc
  have hk := (collectRoute_carries_iff plainEnv rfl).mp hc
  have hw := (hk _ (mem_singleton_self _) _ mem_cons_self).1
  exact absurd hw (by decide)

end Spacegate.Shell
