import Spacegate.Config.K8sRouteConv
import Spacegate.Shell.RouteFidelity

/-!
# Rules that go through Kubernetes and back

A rule is stored as a rule of an `HTTPSpaceroute` and read back from it.  What the
gateway then does with a request is compared with what the configured rule does:
which match is selected, and what its rewrite makes of the request.

The Gateway API form has no place for some replacements.  A blank replacement of a
path and a replacement next to a regular expression on a header are dropped on
purpose, and a rule with several matches, one of which replaces its path, is
refused when it is read back.
-/

namespace Spacegate
namespace Model

open Config Kube Foundation.Text SgHttpPathMatch List Function

/-! ## What the Gateway API form has a place for -/

def SgHttpPathMatch.supported : SgHttpPathMatch → SgHttpPathMatch
  | .exact value replace => .exact value (replacementText replace)
  | .pathPrefix value replace => .pathPrefix value (replacementText replace)
  | .regExp value replace => .regExp value (replacementText replace)

def SgHttpHeaderMatch.supported : SgHttpHeaderMatch → SgHttpHeaderMatch
  | .exact name value replace => .exact name value replace
  | .regExp name re _ => .regExp name re none

def SgHttpRouteMatch.supported (m : SgHttpRouteMatch) : SgHttpRouteMatch :=
  { m with
    path := m.path.map (·.supported)
    header := m.header.map (·.map (·.supported)) }

def SgHttpRouteRule.supported (rule : SgHttpRouteRule) : SgHttpRouteRule :=
  { rule with «matches» := rule.matches.map (·.map (·.supported)) }

/-! ## One match for each method -/

namespace SgHttpRouteMatch

variable (m : SgHttpRouteMatch)

/-- The number of Gateway API matches that a match becomes. -/
def kubeCount : Nat :=
  match m.method with
  | some methodVec => methodVec.length
  | none => 1

/-- The path has a replacement that is not blank. -/
def ReplacesPath : Prop :=
  m.kubePath.2.isSome = true

/-- A match that names methods with its headers, at least one header and none with
an exact value to replace, and that replaces no path found by a regular expression. -/
structure Carried : Prop where
  method : m.header ≠ none → m.method ≠ none
  header : m.header ≠ some []
  headerReplace : ∀ hs, m.header = some hs →
    ∀ name value replace, .exact name value (some replace) ∉ hs
  pathReplace : ∀ value replace, m.path = some (.regExp value (some replace)) → isBlank replace

/-- The methods that a match is repeated for. -/
def methods : List (Option SgHttpMethodMatch) :=
  match m.method with
  | some methodVec => methodVec.map some
  | none => [none]

/-- The Gateway API match of a match for one of its methods. -/
def kubeMatch (method : Option SgHttpMethodMatch) : HttpRouteMatch where
  path := m.kubePath.1
  headers := if method.isNone ∨ m.kubeHeaders.1.isEmpty then none else some m.kubeHeaders.1
  queryParams := m.kubeQuery
  method := method.map (·.method)

theorem length_methods : m.methods.length = m.kubeCount := by
  unfold methods kubeCount
  split <;> simp

theorem intoKubeHttproute_eq : m.intoKubeHttproute =
      (m.methods.map m.kubeMatch, m.methods.filterMap fun _ => m.kubePath.2) := by
  have hr : ∀ filters : List (Option HttpRouteFilter),
      filters.reduceOption = filters.filterMap id := fun _ => rfl
  unfold intoKubeHttproute methods
  cases m.method with
  | none => simp [kubeMatch, hr, filterMap_cons]
  | some methodVec =>
    simp only [unzip_eq_map, hr, map_map, filterMap_map,
      comp_def, Prod.mk.injEq]
    exact ⟨by simp [kubeMatch], rfl⟩

variable {f : HttpRouteFilter} {m}

theorem isUrlRewrite_of_kubePath (h : m.kubePath.2 = some f) :
    f.isUrlRewrite = true ∧ f.isExtensionRef = false := by
  unfold kubePath at h
  cases hp : m.path with
  | none => simp [hp] at h
  | some p =>
    simp only [hp] at h
    cases p with
    | exact value replace | pathPrefix value replace | regExp value replace =>
      obtain ⟨r, -, rfl⟩ := Option.map_eq_some_iff.mp h
      exact ⟨rfl, rfl⟩

/-- The match that is read back for one method. -/
def restored (m : SgHttpRouteMatch) (method : Option SgHttpMethodMatch) : SgHttpRouteMatch :=
  { fromKubeHttproute (m.kubeMatch method) with path := m.path.map (·.supported) }

theorem restored_eq (method : Option SgHttpMethodMatch) : m.restored method =
      { path := m.path.map (·.supported)
        header := (m.kubeMatch method).headers.map (·.map .fromKubeHttproute)
        query := m.query
        method := method.map fun x => [x] } := by
  have hb : ∀ q : SgHttpQueryMatch, .fromKubeHttproute q.intoKubeHttproute = q := by
    intro q
    cases q <;> rfl
  have hq : m.kubeQuery.map (·.map SgHttpQueryMatch.fromKubeHttproute) = m.query := by
    simp [kubeQuery, comp_def, hb]
  rw [restored, fromKubeHttproute]
  simp [kubeMatch, hq, comp_def]

/-- The match with the replacement of its path, if there is a filter for it. -/
def readBack (m : SgHttpRouteMatch) (method : Option SgHttpMethodMatch) : SgHttpRouteMatch :=
  let back := fromKubeHttproute (m.kubeMatch method)
  match m.kubePath.2 with
  | none => back
  | some f => { back with path := back.path.map (·.withUrlRewrite f) }

theorem readBack_eq_restored (hc : m.Carried) (method : Option SgHttpMethodMatch) :
    m.readBack method = m.restored method := by
  simp only [readBack, restored, fromKubeHttproute, kubePath, kubeMatch]
  cases hp : m.path with
  | none => rfl
  | some p =>
    cases p with
    | exact value replace | pathPrefix value replace =>
      cases hr : replacementText replace <;>
        simp [SgHttpPathMatch.intoKubeHttproute, SgHttpPathMatch.fromKubeHttproute,
          withUrlRewrite, SgHttpPathMatch.supported, hr]
    | regExp value replace =>
      -- such a replacement is blank, so there is no filter
      have hr : replacementText replace = none := by
        refine Option.filter_eq_none_iff.mpr fun r hr => ?_
        cases hr
        simp [hc.pathReplace value r hp]
      simp [SgHttpPathMatch.intoKubeHttproute, SgHttpPathMatch.fromKubeHttproute,
        SgHttpPathMatch.supported, hr]

end SgHttpRouteMatch

open SgHttpRouteMatch (length_methods isUrlRewrite_of_kubePath readBack ReplacesPath)

/-! ## Rules -/

/-- The rule becomes several matches, and one of them replaces its path. -/
def SgHttpRouteRule.Refused (rule : SgHttpRouteRule) : Prop :=
  1 < ((rule.matches.getD []).map (·.kubeCount)).sum ∧
    ∃ m ∈ rule.matches.getD [], 0 < m.kubeCount ∧ m.ReplacesPath

/-- The matches of a rule, each for one method. -/
def expansion (ms : List SgHttpRouteMatch) : List (SgHttpRouteMatch × Option SgHttpMethodMatch) :=
  ms.flatMap fun m => m.methods.map fun method => (m, method)

variable (ms : List SgHttpRouteMatch)

/-- The Gateway API matches of a rule. -/
def kubeMatches : List HttpRouteMatch :=
  (expansion ms).map fun item => item.1.kubeMatch item.2

/-- The filters that replace the paths of a rule. -/
def pathFilters : List HttpRouteFilter :=
  (expansion ms).filterMap fun item => item.1.kubePath.2

/-- The matches of a rule that are read back. -/
def readBackMatches : List SgHttpRouteMatch :=
  (expansion ms).map fun item => item.1.readBack item.2

theorem length_expansion : (expansion ms).length = (ms.map (·.kubeCount)).sum := by
  simp [expansion, length_flatMap, length_methods]

theorem mem_expansion_iff (item : SgHttpRouteMatch × Option SgHttpMethodMatch) :
    item ∈ expansion ms ↔ item.1 ∈ ms ∧ item.2 ∈ item.1.methods := by
  obtain ⟨m, method⟩ := item
  simp only [expansion, mem_flatMap, mem_map, Prod.mk.injEq]
  constructor
  · rintro ⟨m', hm, method', hMethod, rfl, rfl⟩
    exact ⟨hm, hMethod⟩
  · rintro ⟨hm, hMethod⟩
    exact ⟨m, hm, method, hMethod, rfl, rfl⟩

theorem flatMap_intoKubeHttproute :
    ms.flatMap (fun m => m.intoKubeHttproute.1) = kubeMatches ms ∧
      ms.flatMap (fun m => m.intoKubeHttproute.2) = pathFilters ms := by
  simp only [SgHttpRouteMatch.intoKubeHttproute_eq, kubeMatches, pathFilters, expansion]
  constructor
  · simp [map_flatMap, comp_def]
  · simp [filterMap_flatMap, filterMap_map]

/-! ## Reading back -/

variable {f : HttpRouteFilter} {ms : List SgHttpRouteMatch} {m : SgHttpRouteMatch}

theorem isExtensionRef_of_mem_pluginFilters {bindings : List PluginBinding}
    (h : f ∈ pluginFilters bindings) : f.isExtensionRef = true := by
  obtain ⟨binding, -, hf⟩ := mem_filterMap.mp h
  unfold PluginInstanceId.toHttpRouteFilter at hf
  split at hf
  · exact absurd hf (by simp)
  · rw [← Option.some.inj hf]
    rfl
  · exact absurd hf (by simp)

variable (rule : SgHttpRouteRule)

theorem filters_intoKubeHttproute : rule.intoKubeHttproute.filters.getD [] =
      pathFilters (rule.matches.getD []) ++ pluginFilters rule.plugins := by
  rw [← (flatMap_intoKubeHttproute _).2]
  rfl

theorem isExtensionRef_of_mem_pathFilters (h : f ∈ pathFilters ms) : f.isExtensionRef = false := by
  obtain ⟨item, -, hi⟩ := mem_filterMap.mp h
  exact (isUrlRewrite_of_kubePath hi).2

theorem legacyPlugins_eq :
    (rule.intoKubeHttproute.filters.getD []).filter (fun f => !f.isExtensionRef) =
      pathFilters (rule.matches.getD []) := by
  have hp : (pluginFilters rule.plugins).filter (fun f => !f.isExtensionRef) = [] := by
    refine filter_eq_nil_iff.mpr fun f hf => ?_
    simp [isExtensionRef_of_mem_pluginFilters hf]
  have hl : ∀ f ∈ pathFilters (rule.matches.getD []), (!f.isExtensionRef) = true := by
    intro f hf
    simp [isExtensionRef_of_mem_pathFilters hf]
  rw [filters_intoKubeHttproute, filter_append, hp, append_nil, filter_eq_self.mpr hl]

theorem matchesFromKube_of_lt (legacyPlugins : List HttpRouteFilter)
    {routeMatches : List HttpRouteMatch} (hl : 1 < routeMatches.length) :
    matchesFromKube legacyPlugins routeMatches =
      if legacyPlugins.any (·.isUrlRewrite) then .error errUrlRewriteMatches
      else if legacyPlugins.any (·.isRequestHeaderModifier) then .error errHeaderModifierMatches
      else .ok (routeMatches.map .fromKubeHttproute) := by
  match routeMatches, hl with
  | _ :: _ :: _, _ => rfl

theorem exists_backendsFromKube (refs : List HttpBackendRef) :
    ∃ backends, refs.mapM SgBackendRef.fromKubeHttproute = .ok backends := by
  induction refs with
  | nil => exact ⟨[], rfl⟩
  | cons ref refs ih =>
    obtain ⟨backends, hb⟩ := ih
    rw [mapM_cons, hb]
    exact ⟨_, rfl⟩

/-- Only the matches decide whether a rule can be read back. -/
theorem fromKubeHttproute_of_matches : ∃ finish : Option (List SgHttpRouteMatch) → SgHttpRouteRule,
      (∀ ms, (finish ms).matches = ms ∧
        (finish ms).plugins = pluginBindings (rule.intoKubeHttproute.filters.getD [])) ∧
        SgHttpRouteRule.fromKubeHttproute rule.intoKubeHttproute =
          (optionalMatchesFromKube (pathFilters (rule.matches.getD []))
            (rule.matches.map kubeMatches)).map finish := by
  obtain ⟨backends, hb⟩ := exists_backendsFromKube (rule.intoKubeHttproute.backendRefs.getD [])
  have hm : rule.intoKubeHttproute.matches = rule.matches.map kubeMatches := by
    simp [SgHttpRouteRule.intoKubeHttproute, (flatMap_intoKubeHttproute _).1]
  refine ⟨fun ms =>
    { «matches» := ms
      plugins := pluginBindings (rule.intoKubeHttproute.filters.getD [])
      backends := backends.reduceOption
      timeoutMs := rule.intoKubeHttproute.timeoutMs
      timeoutMode := rule.intoKubeHttproute.timeoutMode
      balancePolicy := none }, fun _ => ⟨rfl, rfl⟩, ?_⟩
  unfold SgHttpRouteRule.fromKubeHttproute
  simp only [legacyPlugins_eq, hm, hb]
  cases optionalMatchesFromKube _ _ <;> rfl

theorem matchesFromKube_expansion
    (ha : 1 < (expansion ms).length → ∀ item ∈ expansion ms, ¬ item.1.ReplacesPath) :
    matchesFromKube (pathFilters ms) (kubeMatches ms) = .ok (readBackMatches ms) := by
  unfold kubeMatches pathFilters readBackMatches
  by_cases hl : 1 < (expansion ms).length
  · -- several matches: no filter was made, so nothing has to be put back
    have hNone : ∀ item ∈ expansion ms, item.1.kubePath.2 = none := fun item hi => by
      simpa [ReplacesPath] using ha hl item hi
    rw [matchesFromKube_of_lt _ (by simpa using hl), filterMap_eq_nil_iff.mpr hNone]
    simp only [any_nil, Bool.false_eq_true, if_false, map_map]
    refine congrArg Except.ok (map_congr_left fun item hi => ?_)
    simp [readBack, hNone item hi]
  · match he : expansion ms with
    | [] => rfl
    | _ :: _ :: _ => simp [he] at hl
    | [item] =>
      cases hf : item.1.kubePath.2 with
      | none => simp [hf, matchesFromKube, readBack]
      | some f =>
        have hUrl := (isUrlRewrite_of_kubePath hf).1
        simp [hf, matchesFromKube, hUrl, readBack]

variable {rule : SgHttpRouteRule}

theorem not_replacesPath_of_accepted (hMatches : rule.matches = some ms)
    (ha : ¬ rule.Refused) (hl : 1 < (expansion ms).length) :
    ∀ item ∈ expansion ms, ¬ item.1.ReplacesPath := by
  intro item hi hr
  obtain ⟨hm, hMethod⟩ := (mem_expansion_iff ms item).mp hi
  refine ha ⟨?_, item.1, ?_, ?_, hr⟩
  · simpa [hMatches, ← length_expansion] using hl
  · simpa [hMatches] using hm
  · rw [← length_methods]
    exact length_pos_of_mem hMethod

theorem exists_fromKubeHttproute (ha : ¬ rule.Refused) :
    ∃ rule', SgHttpRouteRule.fromKubeHttproute rule.intoKubeHttproute = .ok rule' ∧
      rule'.matches = rule.matches.map readBackMatches ∧
        rule'.plugins = pluginBindings (rule.intoKubeHttproute.filters.getD []) := by
  obtain ⟨finish, hf, hEq⟩ := fromKubeHttproute_of_matches rule
  rw [hEq]
  cases hm : rule.matches with
  | none => exact ⟨finish none, rfl, hf none⟩
  | some ms =>
    have hb := matchesFromKube_expansion (not_replacesPath_of_accepted hm ha)
    refine ⟨_, ?_, hf _⟩
    simp only [Option.getD_some, Option.map_some, optionalMatchesFromKube, hb]
    rfl

theorem fromKubeHttproute_of_refused (hRefused : rule.Refused) :
    SgHttpRouteRule.fromKubeHttproute rule.intoKubeHttproute = .error errUrlRewriteMatches := by
  obtain ⟨finish, -, hEq⟩ := fromKubeHttproute_of_matches rule
  obtain ⟨hc, m, hm, hPos, hr⟩ := hRefused
  rw [hEq]
  cases hMatches : rule.matches with
  | none => simp [hMatches] at hm
  | some ms =>
    rw [hMatches] at hc hm
    rw [← length_methods] at hPos
    obtain ⟨method, hMethod⟩ := exists_mem_of_length_pos hPos
    obtain ⟨f, hf⟩ := Option.isSome_iff_exists.mp hr
    have hAny : (pathFilters ms).any (·.isUrlRewrite) = true := by
      refine any_eq_true.mpr ⟨f, mem_filterMap.mpr ⟨(m, method), ?_, hf⟩,
        (isUrlRewrite_of_kubePath hf).1⟩
      exact (mem_expansion_iff ms (m, method)).mpr ⟨hm, hMethod⟩
    have hl : 1 < (kubeMatches ms).length := by
      simpa [kubeMatches, length_expansion] using hc
    simp only [Option.getD_some, Option.map_some, optionalMatchesFromKube,
      matchesFromKube_of_lt _ hl, hAny, if_true]
    rfl

end Model

namespace Shell

open Foundation Kernel Model List Function
open SgHttpRouteMatch (readBack_eq_restored restored_eq kubeMatch kubeHeaders kubeCount methods)

variable {Regex X Out ext : Type} [RegexEngine Regex]

/-! ## What a rule does with a request -/

section Outcome

variable (env : ShellEnv Regex X Out) (stx : UriSyntax)

/-- The outcome of the rewrite when the match is met.  A match that the gateway
cannot load is not met. -/
def matchOutcome (m : SgHttpRouteMatch) (req : Request ext) :
    Option (Except RewriteError Unit × Request ext) :=
  match convertConfigToKernel env m with
  | .ok k => if k.matchRequest req then some (k.rewrite stx req) else none
  | .error _ => none

/-- The first match that is met rewrites the request; a rule without matches takes
every request as it is. -/
def ruleOutcome (rule : SgHttpRouteRule) (req : Request ext) :
    Option (Except RewriteError Unit × Request ext) :=
  match rule.matches with
  | some ms => ms.findSome? fun m => matchOutcome env stx m req
  | none => some (.ok (), req)

/-- The same for a rule in the kernel's form. -/
def kernelOutcome (stx : UriSyntax) (kernel : Option (List (HttpRouteMatch Regex)))
    (req : Request ext) : Option (Except RewriteError Unit × Request ext) :=
  match kernel with
  | some ks => (ks.find? (·.matchRequest req)).map (·.rewrite stx req)
  | none => some (.ok (), req)

end Outcome

variable {env : ShellEnv Regex X Out} {stx : UriSyntax} {req : Request ext}

variable {m : SgHttpRouteMatch} {outcome : Except RewriteError Unit × Request ext}
  {hs hs' : List SgHttpHeaderMatch}

theorem matchOutcome_of_ok {k : HttpRouteMatch Regex} (h : convertConfigToKernel env m = .ok k) :
    matchOutcome env stx m req =
      if k.matchRequest req then some (k.rewrite stx req) else none := by
  rw [matchOutcome, h]

theorem matchOutcome_eq_some_iff : matchOutcome env stx m req = some outcome ↔
      ∃ k, convertConfigToKernel env m = .ok k ∧ k.matchRequest req = true ∧
        k.rewrite stx req = outcome := by
  unfold matchOutcome
  cases convertConfigToKernel env m with
  | error e => simp
  | ok k => simp

/-- On a rule that is loaded, the outcome is that of the kernel's match. -/
theorem ruleOutcome_of_loaded {rule : SgHttpRouteRule}
    {kernel : Option (List (HttpRouteMatch Regex))}
    (h : convertOption (mapM (convertConfigToKernel env)) rule.matches = .ok kernel) :
    ruleOutcome env stx rule req = kernelOutcome stx kernel req := by
  unfold ruleOutcome kernelOutcome
  cases hm : rule.matches with
  | none =>
    rw [hm] at h
    cases Except.ok.inj h
    rfl
  | some ms =>
    rw [hm] at h
    obtain ⟨ks, hks, rfl⟩ := exists_of_map_eq_ok h
    have hAll := forall₂_of_mapM_ok hks
    clear h hks hm
    induction hAll with
    | nil => rfl
    | @cons m k ms ks hk _ ih =>
      simp only [findSome?_cons, find?_cons, matchOutcome_of_ok hk]
      cases hMatch : k.matchRequest req with
      | true => simp
      | false => simpa using ih

/-! ## One match for each method -/

omit [RegexEngine Regex] in
theorem convertConfigToKernel_withMethod (m : SgHttpRouteMatch)
    (method : Option (List SgHttpMethodMatch)) :
    convertConfigToKernel env { m with method := method } =
      (convertConfigToKernel env { m with method := none }).map fun k =>
        { k with method := method.map (·.map fun x => { method := x.method }) } := by
  unfold convertConfigToKernel
  simp only
  cases convertOption (convertPath env) m.path with
  | error e => rfl
  | ok path =>
    cases convertOption (mapM (convertHeader env)) m.header with
    | error e => rfl
    | ok header => cases convertOption (mapM (convertQuery env)) m.query <;> rfl

omit [RegexEngine Regex] in
theorem convertConfigToKernel_method {k : HttpRouteMatch Regex}
    (h : convertConfigToKernel env m = .ok k) :
    k.method = m.method.map (·.map fun x => { method := x.method }) := by
  obtain ⟨path, -, h⟩ := exists_of_bind_eq_ok h
  obtain ⟨header, -, h⟩ := exists_of_bind_eq_ok h
  obtain ⟨query, -, h⟩ := exists_of_bind_eq_ok h
  rw [← Except.ok.inj h]

theorem matchRequest_withMethod (k : HttpRouteMatch Regex)
    (method : Option (List HttpMethodMatch)) :
    ({ k with method := method } : HttpRouteMatch Regex).matchRequest req =
      (({ k with method := none } : HttpRouteMatch Regex).matchRequest req &&
        matchOption (matchVec HttpMethodMatch.matchRequest) method req) := by
  have hn : matchOption (matchVec HttpMethodMatch.matchRequest) none req = true := rfl
  simp [HttpRouteMatch.matchRequest, hn]

theorem matchOutcome_withMethod (m : SgHttpRouteMatch) (methods : List SgHttpMethodMatch) :
    matchOutcome env stx { m with method := some methods } req =
      if methods.any (fun x => HttpMethodMatch.matchRequest { method := x.method } req) then
        matchOutcome env stx { m with method := none } req
      else none := by
  unfold matchOutcome
  rw [convertConfigToKernel_withMethod]
  cases hb : convertConfigToKernel env { m with method := none } with
  | error e => simp [Except.map]
  | ok k =>
    have hm : k.method = none := convertConfigToKernel_method hb
    have hBare : ({ k with method := none } : HttpRouteMatch Regex) = k := by rw [← hm]
    have hAny : matchOption (matchVec HttpMethodMatch.matchRequest)
        (some (methods.map fun x => { method := x.method })) req =
          methods.any fun x => HttpMethodMatch.matchRequest { method := x.method } req := by
      simp [matchOption, matchVec, comp_def]
    simp only [Except.map, Option.map_some]
    rw [matchRequest_withMethod, hBare, hAny]
    cases k.matchRequest req with
    | false => simp
    | true => simp [HttpRouteMatch.rewrite]

/-- Matching one method after another is matching the list of methods. -/
theorem findSome?_methods (m : SgHttpRouteMatch) (methods : List SgHttpMethodMatch) :
    methods.findSome? (fun x => matchOutcome env stx { m with method := some [x] } req) =
      matchOutcome env stx { m with method := some methods } req := by
  induction methods with
  | nil => simp [matchOutcome_withMethod]
  | cons x methods ih =>
    simp only [findSome?_cons, ih]
    simp only [matchOutcome_withMethod, any_cons, any_nil, Bool.or_false]
    by_cases hx : HttpMethodMatch.matchRequest { method := x.method } req = true
    · -- a later method leads to the same outcome as this one
      simp only [hx, if_true, Bool.true_or]
      cases matchOutcome env stx { m with method := none } req with
      | none => simp
      | some outcome => rfl
    · simp [hx]

/-! ## Headers in another order -/

variable {ks : List (SgHttpHeaderMatchRewrite Regex)}

theorem foldl_rewriteHeader_of_forall
    (h : ∀ k ∈ ks, ∀ headers, k.rewrite headers = none) (headers : HeaderMap) :
    ks.foldl rewriteHeader headers = headers := by
  induction ks with
  | nil => rfl
  | cons k ks ih =>
    have hk : rewriteHeader headers k = headers := by
      rw [rewriteHeader, h k mem_cons_self]
    rw [foldl_cons, hk]
    exact ih fun k' hk' => h k' (mem_cons_of_mem k hk')

/-- The header match has no replacement. -/
def KeepsHeader : SgHttpHeaderMatch → Prop
  | .exact _ _ replace => replace = none
  | .regExp _ _ replace => replace = none

theorem rewrite_of_keepsHeader {h : SgHttpHeaderMatch} {k : SgHttpHeaderMatchRewrite Regex}
    (hk : KeepsHeader h) (hc : convertHeader env h = .ok k) (headers : HeaderMap) :
    k.rewrite headers = none := by
  have hp : (∃ value, k.policy = .exact value none) ∨ ∃ re, k.policy = .regular re none := by
    cases h
    all_goals
      cases hk
      obtain ⟨headerName, -, hc⟩ := exists_of_bind_eq_ok hc
      obtain ⟨parsed, -, hc⟩ := exists_of_bind_eq_ok hc
      rw [← Except.ok.inj hc]
    case exact => exact .inl ⟨parsed, rfl⟩
    case regExp => exact .inr ⟨parsed, rfl⟩
  unfold SgHttpHeaderMatchRewrite.rewrite
  cases HeaderMap.get headers k.headerName with
  | none => rfl
  | some value =>
    cases hStr : value.toStr with
    | none => simp [hStr]
    | some text =>
      rcases hp with ⟨value, hp⟩ | ⟨re, hp⟩
      · simp [hp]
      · simp [hp]

theorem convertHeaders_keep
    (hKeeps : ∀ h ∈ hs, KeepsHeader h) (hc : hs.mapM (convertHeader env) = .ok ks)
    (headers : HeaderMap) : ks.foldl rewriteHeader headers = headers := by
  refine foldl_rewriteHeader_of_forall (fun k hk headers => ?_) headers
  obtain ⟨h, hMem, hk⟩ := exists_mem_of_forall₂ (forall₂_of_mapM_ok hc).flip hk
  exact rewrite_of_keepsHeader (hKeeps h hMem) hk headers

theorem matchOutcome_eq_some_of_perm (hp : hs.Perm hs') (hk : ∀ h ∈ hs, KeepsHeader h)
    (h : matchOutcome env stx { m with header := some hs } req = some outcome) :
    matchOutcome env stx { m with header := some hs' } req = some outcome := by
  obtain ⟨k, hc, hm, hr⟩ := matchOutcome_eq_some_iff.mp h
  obtain ⟨path, hPath, hc⟩ := exists_of_bind_eq_ok hc
  obtain ⟨header, hHeader, hc⟩ := exists_of_bind_eq_ok hc
  obtain ⟨query, hq, hc⟩ := exists_of_bind_eq_ok hc
  obtain ⟨ks, hks, rfl⟩ := exists_of_map_eq_ok hHeader
  obtain ⟨ks', hks', hpk⟩ := exists_mapM_of_perm hp hks
  have hk' : ∀ h ∈ hs', KeepsHeader h := fun h hh => hk h (hp.mem_iff.mpr hh)
  cases Except.ok.inj hc
  refine matchOutcome_eq_some_iff.mpr
    ⟨{ path := path
       header := some ks'
       query := query
       method := m.method.map (·.map fun x => { method := x.method }) }, ?_, ?_, ?_⟩
  · have hh' : convertOption (mapM (convertHeader env)) (some hs') = .ok (some ks') := by
      simp [convertOption, hks', Except.map]
    simp only [convertConfigToKernel, hPath, hh', hq]
    rfl
  · rw [← hm]
    simp only [HttpRouteMatch.matchRequest, matchOption, matchVec, Option.map_some,
      Option.getD_some, hpk.any_eq]
  · rw [← hr]
    simp [HttpRouteMatch.rewrite, Option.getD_some, convertHeaders_keep hk hks,
      convertHeaders_keep hk' hks']

theorem matchOutcome_of_perm (hp : hs.Perm hs') (hk : ∀ h ∈ hs, KeepsHeader h) :
    matchOutcome env stx { m with header := some hs } req =
      matchOutcome env stx { m with header := some hs' } req := by
  refine Option.ext fun outcome => ⟨matchOutcome_eq_some_of_perm hp hk, ?_⟩
  exact matchOutcome_eq_some_of_perm hp.symm fun h hh => hk h (hp.mem_iff.mpr hh)

/-! ## The round trip -/

omit [RegexEngine Regex] in
theorem supported_header (hc : m.Carried) (hh : m.header = some hs) :
    ∀ h ∈ hs, KeepsHeader h.supported ∧
      SgHttpHeaderMatch.fromKubeHttproute h.intoKubeHttproute.1 = h.supported := by
  intro h hMem
  cases h with
  | exact name value replace =>
    cases replace with
    | none => exact ⟨rfl, rfl⟩
    | some replace => exact absurd hMem (hc.headerReplace hs hh name value replace)
  | regExp name re replace => exact ⟨rfl, rfl⟩

omit [RegexEngine Regex] in
/-- The headers that are read back are the supported ones, in another order. -/
theorem perm_restored_header (hc : m.Carried) (hh : m.header = some hs) (x : SgHttpMethodMatch) :
    ∃ hs', (m.kubeMatch (some x)).headers.map (·.map .fromKubeHttproute) = some hs' ∧
      (hs.map (·.supported)).Perm hs' := by
  have hSort := perm_insertionSort filterFirst (hs.map (·.intoKubeHttproute))
  have hHeaders : m.kubeHeaders.1 =
      ((hs.map (·.intoKubeHttproute)).insertionSort filterFirst).map Prod.fst := by
    simp [kubeHeaders, hh]
  have hn : m.kubeHeaders.1.isEmpty = false := by
    rw [hHeaders, isEmpty_map, isEmpty_eq_false_iff, ← length_pos_iff,
      hSort.length_eq, length_map, length_pos_iff]
    rintro rfl
    exact hc.header hh
  refine ⟨m.kubeHeaders.1.map .fromKubeHttproute, ?_, ?_⟩
  · simp [kubeMatch, hn]
  · have hSupported : hs.map (·.supported) =
        ((hs.map (·.intoKubeHttproute)).map Prod.fst).map SgHttpHeaderMatch.fromKubeHttproute := by
      simp only [map_map]
      refine map_congr_left fun h hMem => ?_
      exact (supported_header hc hh h hMem).2.symm
    rw [hHeaders, hSupported]
    exact ((hSort.map Prod.fst).map _).symm

theorem matchOutcome_restored (hc : m.Carried) (x : SgHttpMethodMatch) :
    matchOutcome env stx (m.restored (some x)) req =
      matchOutcome env stx { m.supported with method := some [x] } req := by
  cases hHeader : m.header with
  | none =>
    have hn : (m.kubeMatch (some x)).headers = none := by
      simp [kubeMatch, kubeHeaders, hHeader]
    simp [restored_eq, hn, SgHttpRouteMatch.supported, hHeader]
  | some hs =>
    obtain ⟨hs', hr, hp⟩ := perm_restored_header hc hHeader x
    have hk : ∀ h ∈ hs.map (·.supported), KeepsHeader h := by
      intro h hh
      obtain ⟨h', hMem, rfl⟩ := mem_map.mp hh
      exact (supported_header hc hHeader h' hMem).1
    have hb : m.restored (some x) =
        { m.supported with header := some hs', method := some [x] } := by
      rw [restored_eq, hr]
      rfl
    have hSupported : m.supported.header = some (hs.map (·.supported)) := by
      rw [SgHttpRouteMatch.supported, hHeader]
      rfl
    simp only [hb, hSupported]
    exact (matchOutcome_of_perm (m := { m.supported with method := some [x] }) hp hk).symm

/-- The matches that a match was expanded into do together what the match does. -/
theorem findSome?_restored (hc : 0 < m.kubeCount → m.Carried) :
    m.methods.findSome? (fun method => matchOutcome env stx (m.readBack method) req) =
      matchOutcome env stx m.supported req := by
  cases hm : m.method with
  | none =>
    have hc : m.Carried := hc (by simp [kubeCount, hm])
    have hh : m.header = none := by
      by_contra hSome
      exact hc.method hSome hm
    have hb : m.readBack none = m.supported := by
      simp [readBack_eq_restored hc, restored_eq, kubeMatch,
        SgHttpRouteMatch.supported, hh, hm]
    simp only [methods, hm, findSome?_cons, findSome?_nil, hb]
    cases matchOutcome env stx m.supported req <;> rfl
  | some methods =>
    have he : ∀ x ∈ methods, matchOutcome env stx (m.readBack (some x)) req =
        matchOutcome env stx { m.supported with method := some [x] } req := by
      intro x hx
      have hPos : 0 < m.kubeCount := by
        simpa [kubeCount, hm] using length_pos_of_mem hx
      rw [readBack_eq_restored (hc hPos)]
      exact matchOutcome_restored (hc hPos) x
    have hSupported : { m.supported with method := some methods } = m.supported := by
      rw [← hm]
      rfl
    rw [← hSupported, ← findSome?_methods]
    simp only [SgHttpRouteMatch.methods, hm, findSome?_map, comp_def]
    clear hm hSupported
    induction methods with
    | nil => rfl
    | cons x methods ih =>
      simp [findSome?_cons, he x mem_cons_self, ih fun y hy => he y (mem_cons_of_mem x hy)]

theorem ruleOutcome_restored {rule rule' : SgHttpRouteRule}
    (hc : ∀ m ∈ rule.matches.getD [], 0 < m.kubeCount → m.Carried)
    (hm : rule'.matches = rule.matches.map readBackMatches) :
    ruleOutcome env stx rule' req = ruleOutcome env stx rule.supported req := by
  unfold ruleOutcome
  rw [hm, SgHttpRouteRule.supported]
  cases hr : rule.matches with
  | none => rfl
  | some ms =>
    rw [hr] at hc
    simp only [Option.map_some, readBackMatches, findSome?_map, comp_def]
    clear hm hr
    induction ms with
    | nil => rfl
    | cons m ms ih =>
      have he : expansion (m :: ms) =
          m.methods.map (fun method => (m, method)) ++ expansion ms := rfl
      rw [he, findSome?_append, findSome?_map, findSome?_cons,
        ih fun m' hm' => hc m' (mem_cons_of_mem m hm')]
      rw [show ((fun item : SgHttpRouteMatch × Option SgHttpMethodMatch =>
          matchOutcome env stx (item.1.readBack item.2) req) ∘ fun method => (m, method)) =
          fun method => matchOutcome env stx (m.readBack method) req from rfl,
        findSome?_restored (hc m mem_cons_self)]
      cases matchOutcome env stx m.supported req <;> rfl

/-- A rule that becomes several matches with a replaced path among them is refused
when it is read back.  Any other rule is read back and treats every request as the
configured rule does, apart from the replacements that have no place in the Gateway
API form. -/
theorem fromKubeHttproute_intoKubeHttproute (env : ShellEnv Regex X Out) (stx : UriSyntax)
    (rule : SgHttpRouteRule) :
    (rule.Refused →
      SgHttpRouteRule.fromKubeHttproute rule.intoKubeHttproute = .error errUrlRewriteMatches) ∧
    (¬ rule.Refused → (∀ m ∈ rule.matches.getD [], 0 < m.kubeCount → m.Carried) →
      ∃ rule', SgHttpRouteRule.fromKubeHttproute rule.intoKubeHttproute = .ok rule' ∧
        ∀ {ext : Type} (req : Request ext),
          ruleOutcome env stx rule' req = ruleOutcome env stx rule.supported req) := by
  refine ⟨fromKubeHttproute_of_refused, ?_⟩
  intro ha hc
  obtain ⟨rule', hb, hm, -⟩ := exists_fromKubeHttproute ha
  exact ⟨rule', hb, fun req => ruleOutcome_restored hc hm⟩

/-! ## A rule with one match and a rule with two -/

def rewriteMatch (value replace : String) : SgHttpRouteMatch where
  path := some (.pathPrefix value (some replace))
  header := some [.exact "x-version" "2" none]
  query := none
  method := some [{ method := "GET" }]

def rewriteRule (ms : List SgHttpRouteMatch) : SgHttpRouteRule where
  «matches» := some ms
  plugins := []
  backends := []
  timeoutMs := none
  timeoutMode := none
  balancePolicy := none

theorem rewriteMatch_carried : (rewriteMatch "/api" "/v2").Carried where
  method := by simp [rewriteMatch]
  header := by simp [rewriteMatch]
  headerReplace := by simp [rewriteMatch]
  pathReplace := by simp [rewriteMatch]

theorem rewriteRule_roundTrip :
    SgHttpRouteRule.fromKubeHttproute
        (rewriteRule [rewriteMatch "/api" "/v2", rewriteMatch "/api" "/v2"]).intoKubeHttproute =
        .error errUrlRewriteMatches ∧
      ∃ rule', SgHttpRouteRule.fromKubeHttproute
          (rewriteRule [rewriteMatch "/api" "/v2"]).intoKubeHttproute = .ok rule' ∧
        ∀ {ext : Type} (req : Request ext), ruleOutcome plainEnv plainSyntax rule' req =
          ruleOutcome plainEnv plainSyntax (rewriteRule [rewriteMatch "/api" "/v2"]).supported
            req := by
  constructor
  · refine (fromKubeHttproute_intoKubeHttproute plainEnv plainSyntax _).1 ?_
    exact ⟨by decide, _, mem_cons_self, by decide, rfl⟩
  · refine (fromKubeHttproute_intoKubeHttproute plainEnv plainSyntax _).2 ?_ ?_
    · rintro ⟨hc, -⟩
      exact absurd hc (by decide)
    · intro m hm _
      rw [mem_singleton.mp hm]
      exact rewriteMatch_carried

/-- Two matches of one rule that replace their paths cannot be read back. -/
theorem rewriteRule_two_refused :
    ¬ ∃ rule', SgHttpRouteRule.fromKubeHttproute
      (rewriteRule [rewriteMatch "/api" "/v2", rewriteMatch "/old" "/new"]).intoKubeHttproute =
        .ok rule' := by
  rintro ⟨rule', hb⟩
  cases hb

end Shell
end Spacegate
