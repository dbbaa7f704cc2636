import Mathlib.Data.List.Sort
import Spacegate.Model.Route

/-!
# Routes as Kubernetes objects

The rules of a route in the form of the Gateway API, and the two conversions
between them and the configuration.  A configured match keeps its replacements
next to its conditions; the Gateway API has one list of filters for a whole rule,
so a match becomes one Gateway API match for each of its methods, and what it
replaces becomes a filter of the rule.

Filters that no conversion makes or reads carry no data here.
-/

namespace Spacegate
namespace Config.Kube

inductive HttpPathMatch where
  | exact (value : String)
  | pathPrefix (value : String)
  | regularExpression (value : String)

inductive HttpHeaderMatch where
  | exact (name value : String)
  | regularExpression (name value : String)

inductive HttpQueryParamMatch where
  | exact (name value : String)
  | regularExpression (name value : String)

structure HttpRouteMatch where
  path : Option HttpPathMatch
  headers : Option (List HttpHeaderMatch)
  queryParams : Option (List HttpQueryParamMatch)
  method : Option String

inductive HttpPathModifier where
  | replaceFullPath (replaceFullPath : String)
  | replacePrefixMatch (replacePrefixMatch : String)

structure HttpUrlRewriteFilter where
  hostname : Option String
  path : Option HttpPathModifier

structure HttpHeader where
  name : String
  value : String

structure HttpRequestHeaderFilter where
  set : Option (List HttpHeader)
  add : Option (List HttpHeader)
  remove : Option (List String)

structure LocalObjectReference where
  group : String
  kind : String
  name : String

inductive HttpRouteFilter where
  | requestHeaderModifier (requestHeaderModifier : HttpRequestHeaderFilter)
  | responseHeaderModifier
  | requestMirror
  | requestRedirect
  | urlRewrite (urlRewrite : HttpUrlRewriteFilter)
  | extensionRef (extensionRef : LocalObjectReference)

def HttpRouteFilter.isUrlRewrite : HttpRouteFilter → Bool
  | .urlRewrite _ => true
  | _ => false

def HttpRouteFilter.isRequestHeaderModifier : HttpRouteFilter → Bool
  | .requestHeaderModifier _ => true
  | _ => false

def HttpRouteFilter.isExtensionRef : HttpRouteFilter → Bool
  | .extensionRef _ => true
  | _ => false

structure BackendObjectReference where
  group : Option String
  kind : Option String
  name : String
  «namespace» : Option String
  port : Option UInt16

structure BackendRef where
  weight : Option UInt16
  timeoutMs : Option UInt32
  timeoutMode : Option Model.TimeoutMode
  downgradeHttp2 : Option Bool
  inner : BackendObjectReference

structure HttpBackendRef where
  backendRef : Option BackendRef
  filters : Option (List HttpRouteFilter)

/-- A rule of an `HTTPSpaceroute`. -/
structure HttpRouteRule where
  «matches» : Option (List HttpRouteMatch)
  filters : Option (List HttpRouteFilter)
  backendRefs : Option (List HttpBackendRef)
  timeoutMs : Option UInt32
  timeoutMode : Option Model.TimeoutMode

inductive BackendObjectRefKind where
  | service
  | externalHttp
  | externalHttps
  | file

def BackendObjectRefKind.text : BackendObjectRefKind → String
  | .service => "Service"
  | .externalHttp => "ExternalHttp"
  | .externalHttps => "ExternalHttps"
  | .file => "File"

/-- `From<String> for BackendObjectRefKind`: what is not known is a service. -/
def BackendObjectRefKind.ofText (value : String) : BackendObjectRefKind :=
  if value = "Service" then .service
  else if value = "ExternalHttp" then .externalHttp
  else if value = "ExternalHttps" then .externalHttps
  else if value = "File" then .file
  else .service

/-- `SG_FILTER_KIND`. -/
def sgFilterKind : String := "sgfilter"

end Config.Kube

namespace Model

open Config Kube Foundation.Text

/-! ## Plugins -/

/-- `to_http_route_filter`: only a named instance can be referred to. -/
def PluginInstanceId.toHttpRouteFilter (id : PluginInstanceId) : Option HttpRouteFilter :=
  match id.name with
  | .anon _ => none
  | .named name => some (.extensionRef { group := id.code, kind := sgFilterKind, name := name })
  | .mono => none

def PluginInstanceId.fromHttpRouteFilter : HttpRouteFilter → Option PluginInstanceId
  | .extensionRef ref => some { code := ref.group, name := .named ref.name }
  | _ => none

/-- The references to the bound plugins, the highest priority first. -/
def pluginFilters (bindings : List PluginBinding) : List HttpRouteFilter :=
  (bindings.insertionSort fun left right => right.priority ≤ left.priority).filterMap
    fun binding => binding.id.toHttpRouteFilter

/-- The plugins that filters refer to; the priorities only keep their order. -/
def pluginBindings (filters : List HttpRouteFilter) : List PluginBinding :=
  ((filters.filter (·.isExtensionRef)).filterMap PluginInstanceId.fromHttpRouteFilter).mapIdx
    fun index id => { id := id, priority := 1000 - Int32.ofNat index * 100 }

/-! ## Conditions -/

/-- `replace.filter(|r| !r.trim().is_empty())`. -/
def replacementText (replace : Option String) : Option String :=
  replace.filter fun r => !isBlank r

def SgHttpPathMatch.intoKubeHttproute : SgHttpPathMatch → HttpPathMatch × Option HttpRouteFilter
  | .exact value replace =>
    (.exact value, (replacementText replace).map fun r =>
      .urlRewrite { hostname := none, path := some (.replaceFullPath r) })
  | .pathPrefix value replace =>
    (.pathPrefix value, (replacementText replace).map fun r =>
      .urlRewrite { hostname := none, path := some (.replacePrefixMatch r) })
  | .regExp value replace =>
    (.regularExpression value, (replacementText replace).map fun r =>
      .urlRewrite { hostname := none, path := some (.replaceFullPath r) })

def SgHttpPathMatch.fromKubeHttproute : HttpPathMatch → SgHttpPathMatch
  | .exact value => .exact value none
  | .pathPrefix value => .pathPrefix value none
  | .regularExpression value => .regExp value none

def SgHttpHeaderMatch.intoKubeHttproute :
    SgHttpHeaderMatch → HttpHeaderMatch × Option HttpRouteFilter
  | .exact name value replace =>
    (.exact name value, replace.map fun r =>
      .requestHeaderModifier
        { set := some [{ name := name, value := r }], add := none, remove := none })
  -- a warning says that replacing with a regular expression is not supported
  | .regExp name re _ => (.regularExpression name re, none)

def SgHttpHeaderMatch.fromKubeHttproute : HttpHeaderMatch → SgHttpHeaderMatch
  | .exact name value => .exact name value none
  | .regularExpression name value => .regExp name value none

def SgHttpQueryMatch.intoKubeHttproute : SgHttpQueryMatch → HttpQueryParamMatch
  | .exact key value => .exact key value
  | .regular key re => .regularExpression key re

def SgHttpQueryMatch.fromKubeHttproute : HttpQueryParamMatch → SgHttpQueryMatch
  | .exact name value => .exact name value
  | .regularExpression name value => .regular name value

/-! ## Matches -/

/-- The order of `headers_p.sort_by`: the headers with a filter come first.  The
sort only asks whether the comparison is `Less`. -/
def filterFirst (a b : HttpHeaderMatch × Option HttpRouteFilter) : Prop :=
  ¬ (b.2.isSome = true ∧ a.2.isSome = false)

instance (a b : HttpHeaderMatch × Option HttpRouteFilter) : Decidable (filterFirst a b) :=
  inferInstanceAs (Decidable (¬ _))

variable (m : SgHttpRouteMatch)

def SgHttpRouteMatch.kubePath : Option HttpPathMatch × Option HttpRouteFilter :=
  match m.path with
  | some p => (some p.intoKubeHttproute.1, p.intoKubeHttproute.2)
  | none => (none, none)

/-- The headers of a match with their filters. -/
def SgHttpRouteMatch.kubeHeaders : List HttpHeaderMatch × List (Option HttpRouteFilter) :=
  match m.header with
  | some hs => ((hs.map (·.intoKubeHttproute)).insertionSort filterFirst).unzip
  | none => ([], [])

def SgHttpRouteMatch.kubeQuery : Option (List HttpQueryParamMatch) :=
  m.query.map (·.map (·.intoKubeHttproute))

/-- A match becomes one match for each of its methods.  The filters of the headers
are not returned, and without methods the headers are left out. -/
def SgHttpRouteMatch.intoKubeHttproute : List HttpRouteMatch × List HttpRouteFilter :=
  let converted : List HttpRouteMatch × List (Option HttpRouteFilter) :=
    match m.method with
    | some methodVec =>
      (methodVec.map fun method =>
        let headerPaths := m.kubeHeaders.1
        (({ path := m.kubePath.1
            headers := if headerPaths.isEmpty then none else some headerPaths
            queryParams := m.kubeQuery
            method := some method.method } : HttpRouteMatch),
          m.kubePath.2)).unzip
    | none =>
      ([{ path := m.kubePath.1
          headers := none
          queryParams := m.kubeQuery
          method := none }],
        [m.kubePath.2])
  (converted.1, converted.2.reduceOption)

def SgHttpRouteMatch.fromKubeHttproute (routeMatch : HttpRouteMatch) : SgHttpRouteMatch where
  method := routeMatch.method.map fun m => [{ method := m }]
  path := routeMatch.path.map .fromKubeHttproute
  header := routeMatch.headers.map (·.map .fromKubeHttproute)
  query := routeMatch.queryParams.map (·.map .fromKubeHttproute)

/-! ## Backends -/

def SgBackendRef.kubeObject (backend : SgBackendRef) : BackendObjectReference :=
  match backend.host with
  | .host name =>
    let kind : BackendObjectRefKind :=
      match backend.protocol with
      | some .https => .externalHttps
      | _ => .externalHttp
    { group := none, kind := some kind.text, name := name, «namespace» := none,
      port := backend.port }
  | .k8sService data =>
    { group := none, kind := some BackendObjectRefKind.service.text, name := data.name,
      «namespace» := data.namespace, port := backend.port }
  | .file path =>
    { group := none, kind := some BackendObjectRefKind.file.text, name := path,
      «namespace» := none, port := none }

def SgBackendRef.intoKubeHttproute (backend : SgBackendRef) : HttpBackendRef where
  backendRef := some
    { weight := backend.weight
      timeoutMs := backend.timeoutMs
      timeoutMode := backend.timeoutMode
      inner := backend.kubeObject
      downgradeHttp2 := backend.downgradeHttp2 }
  filters := some (pluginFilters backend.plugins)

/-- What a reference to a Kubernetes object says about protocol and host. -/
def backendHostOf (object : BackendObjectReference) : Option SgBackendProtocol × BackendHost :=
  let service : Option SgBackendProtocol × BackendHost :=
    (none, .k8sService { name := object.name, «namespace» := object.namespace })
  match object.kind with
  | some kind =>
    match BackendObjectRefKind.ofText kind with
    | .service => service
    | .externalHttp => (some .http, .host object.name)
    | .externalHttps => (some .https, .host object.name)
    | .file => (none, .file object.name)
  | none => service

def SgBackendRef.fromKubeHttproute (httpBackend : HttpBackendRef) :
    Except String (Option SgBackendRef) :=
  .ok (httpBackend.backendRef.map fun backend =>
    { host := (backendHostOf backend.inner).2
      port := backend.inner.port
      timeoutMs := backend.timeoutMs
      timeoutMode := backend.timeoutMode
      protocol := (backendHostOf backend.inner).1
      weight := backend.weight
      plugins := pluginBindings (httpBackend.filters.getD [])
      downgradeHttp2 := backend.downgradeHttp2 })

/-! ## Rules -/

def SgHttpRouteRule.intoKubeHttproute (rule : SgHttpRouteRule) : HttpRouteRule where
  «matches» := rule.matches.map (·.flatMap fun m => m.intoKubeHttproute.1)
  filters := some
    ((rule.matches.getD []).flatMap (fun m => m.intoKubeHttproute.2) ++ pluginFilters rule.plugins)
  backendRefs := some (rule.backends.map (·.intoKubeHttproute))
  timeoutMs := rule.timeoutMs
  timeoutMode := rule.timeoutMode

/-- Put the replacement of a filter on the path it is for.  Only the combinations
of the Gateway API are known: a full path for an exact one, a prefix for a prefix. -/
def SgHttpPathMatch.withUrlRewrite (filter : HttpRouteFilter) (path : SgHttpPathMatch) :
    SgHttpPathMatch :=
  match filter with
  | .urlRewrite { path := some rewritePath, .. } =>
    match path, rewritePath with
    | .exact value _, .replaceFullPath r => .exact value (some r)
    | .pathPrefix value _, .replacePrefixMatch r => .pathPrefix value (some r)
    | path, _ => path
  | _ => path

def errUrlRewriteMatches : String := "url_rewrite is not supported with multiple matches"

def errHeaderModifierMatches : String :=
  "request_header_modifier is not supported with multiple matches"

def errUrlRewriteTwice : String := "url_rewrite can only have one in each rule"

/-- The matches of a rule, with the filters that refer to no plugin. -/
def matchesFromKube (legacyPlugins : List HttpRouteFilter) :
    List HttpRouteMatch → Except String (List SgHttpRouteMatch)
  | [] => .ok []
  | [routeMatch] =>
    let m := SgHttpRouteMatch.fromKubeHttproute routeMatch
    if (legacyPlugins.filter (·.isUrlRewrite)).length > 1 then .error errUrlRewriteTwice
    else
      match legacyPlugins.find? (·.isUrlRewrite) with
      | some urlRewrite => .ok [{ m with path := m.path.map (·.withUrlRewrite urlRewrite) }]
      | none => .ok [m]
  | routeMatches =>
    if legacyPlugins.any (·.isUrlRewrite) then .error errUrlRewriteMatches
    else if legacyPlugins.any (·.isRequestHeaderModifier) then .error errHeaderModifierMatches
    else .ok (routeMatches.map .fromKubeHttproute)

def optionalMatchesFromKube (legacyPlugins : List HttpRouteFilter) :
    Option (List HttpRouteMatch) → Except String (Option (List SgHttpRouteMatch))
  | some routeMatches => (matchesFromKube legacyPlugins routeMatches).map some
  | none => .ok none

def SgHttpRouteRule.fromKubeHttproute (rule : HttpRouteRule) : Except String SgHttpRouteRule := do
  let filters := rule.filters.getD []
  let legacyPlugins := filters.filter fun f => !f.isExtensionRef
  let ms ← optionalMatchesFromKube legacyPlugins rule.matches
  let backends ← (rule.backendRefs.getD []).mapM SgBackendRef.fromKubeHttproute
  return {
    «matches» := ms
    plugins := pluginBindings filters
    backends := backends.reduceOption
    timeoutMs := rule.timeoutMs
    timeoutMode := rule.timeoutMode
    balancePolicy := none }

end Model
end Spacegate
