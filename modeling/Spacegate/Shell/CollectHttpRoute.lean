import Mathlib.Data.List.Sort
import Spacegate.Foundation.Traverse
import Spacegate.Kernel.HttpRouteBuilder
import Spacegate.Model.Route

/-!
# From configured routes to kernel routes

`collect_http_route` turns every route of a gateway into the kernel's form: MCP
routes are first compiled to HTTP routes, then rules, matches and backends are
converted one by one through the kernel's builders, and the plugins bound at each
scope are mounted.  Mounting also notes a mount point in the plugin repository for
display; a layer does not depend on it, and it is modelled apart, with the mount points.
-/

namespace Spacegate.Shell

open Kernel Model

/-- What the shell asks other crates for. -/
structure ShellEnv (Regex X Out : Type) where
  /-- `Regex::new`. -/
  regexNew : String → Option Regex
  /-- `HeaderName::from_str`. -/
  headerName : String → Option String
  /-- The layer that `PluginRepository::mount` makes of an instance; `none` when the
  plugin or the instance is missing. -/
  pluginLayer : PluginInstanceId → Option (BoxLayer Regex X Out)
  /-- Put the `K8sService` extension on a request. -/
  addK8sService : K8sServiceData → Extensions Regex X → Extensions Regex X
  /-- Put the `McpProxyMeta` extension on a request. -/
  addMcpProxyMeta : (transport : String) → (sessionIdPresent : Bool) →
    Extensions Regex X → Extensions Regex X
  /-- The layer that gives every request an `x-request-id`. -/
  xRequestId : BoxLayer Regex X Out
  /-- The empty `404 Not Found` response. -/
  notFound : Out

inductive CollectError where
  | invalidRegex (re : String)
  | invalidHeaderName (name : String)
  | invalidHeaderValue (value : String)
  deriving DecidableEq, Repr

variable {Regex X Out : Type}

/-! ## Matches -/

def orError {α : Type} (e : CollectError) : Option α → Except CollectError α
  | some a => .ok a
  | none => .error e

/-- Convert an optional value if it is there. -/
def convertOption {α β : Type} (f : α → Except CollectError β) :
    Option α → Except CollectError (Option β)
  | none => .ok none
  | some a => (f a).map some

variable (env : ShellEnv Regex X Out)

def parseRegex (re : String) : Except CollectError Regex :=
  orError (.invalidRegex re) (env.regexNew re)

def parseHeaderName (name : String) : Except CollectError String :=
  orError (.invalidHeaderName name) (env.headerName name)

def parseHeaderValue (value : String) : Except CollectError HeaderValue :=
  orError (.invalidHeaderValue value) (HeaderValue.fromStr value)

def convertPath :
    SgHttpPathMatch → Except CollectError (HttpPathMatchRewrite Regex)
  | .exact value replace => .ok (.exact value replace)
  | .pathPrefix value replace => .ok (.pathPrefix value replace)
  | .regExp value replace => do
      let re ← parseRegex env value
      return .regExp re replace

def convertHeader :
    SgHttpHeaderMatch → Except CollectError (SgHttpHeaderMatchRewrite Regex)
  | .exact name value replace => do
      let headerName ← parseHeaderName env name
      let value ← parseHeaderValue value
      let replace ← convertOption parseHeaderValue replace
      return { headerName := headerName, policy := .exact value replace }
  | .regExp name re replace => do
      let headerName ← parseHeaderName env name
      let re ← parseRegex env re
      return { headerName := headerName, policy := .regular re replace }

def convertQuery :
    SgHttpQueryMatch → Except CollectError (HttpQueryMatch Regex)
  | .exact key value => .ok { name := key, policy := .exact value }
  | .regular key re => do
      let re ← parseRegex env re
      return { name := key, policy := .regular re }

/-- `convert_config_to_kernel`. -/
def convertConfigToKernel (configMatch : SgHttpRouteMatch) :
    Except CollectError (HttpRouteMatch Regex) := do
  let path ← convertOption (convertPath env) configMatch.path
  let header ← convertOption (List.mapM (convertHeader env)) configMatch.header
  let query ← convertOption (List.mapM (convertQuery env)) configMatch.query
  return {
    path := path
    header := header
    query := query
    method := configMatch.method.map (·.map fun m => { method := m.method }) }

/-! ## MCP routes -/

/-- `mcp_path_method_match`. -/
def mcpPathMethodMatch (path method : String) : SgHttpRouteMatch where
  path := some (.exact path none)
  header := none
  query := none
  method := some [{ method := method }]

/-- The matches of an MCP route: one for `GET` and one for `POST`. -/
def mcpMatches (route : SgMcpRoute) : List SgHttpRouteMatch :=
  match route.transport with
  | .streamableHttp =>
    [mcpPathMethodMatch route.path "GET", mcpPathMethodMatch route.path "POST"]
  | .legacySse =>
    let legacy := route.legacySse.getD { ssePath := "/sse", messagePath := "/message" }
    [mcpPathMethodMatch legacy.ssePath "GET", mcpPathMethodMatch legacy.messagePath "POST"]

def mcpTransportText : SgMcpTransport → String
  | .streamableHttp => "streamable_http"
  | .legacySse => "legacy_sse"

/-- `compile_mcp_route_to_http_route`. -/
def compileMcpRouteToHttpRoute (route : SgMcpRoute) : SgHttpRoute × Option String :=
  ({ routeName := route.routeName
     hostnames := route.hostnames
     plugins := route.plugins
     rules :=
       [{ «matches» := some (mcpMatches route)
          plugins := []
          -- `get_or_insert`: a backend's own mode stays
          backends := route.backends.map fun backend =>
            { backend with timeoutMode := some (backend.timeoutMode.getD route.timeoutMode) }
          timeoutMs := none
          timeoutMode := some route.timeoutMode
          balancePolicy :=
            if route.sessionAffinity = .mcpSession then some .mcpSession else none }]
     priority := 1 },
   some (mcpTransportText route.transport))

/-- `compile_route`. -/
def compileRoute : SgRoute → SgHttpRoute × Option String
  | .http route => (route, none)
  | .mcp route => compileMcpRouteToHttpRoute route

/-! ## Plugins -/

/-- `order_plugin_bindings`: a stable sort by falling priority. -/
def orderPluginBindings (bindings : List PluginBinding) : List PluginBinding :=
  bindings.insertionSort fun left right => right.priority ≤ left.priority

/-- `global_batch_mount_plugin`: the layers added at a mount point.  A plugin that
cannot be mounted is logged and skipped. -/
def globalBatchMountPlugin (plugins : List PluginBinding) : List (BoxLayer Regex X Out) :=
  (orderPluginBindings plugins).filterMap fun binding => env.pluginLayer binding.id

def mapRequestLayer (f : SgRequest Regex X → SgRequest Regex X) : BoxLayer Regex X Out :=
  fun inner req => inner (f req)

def k8sServiceLayer (data : K8sServiceData) : BoxLayer Regex X Out :=
  mapRequestLayer fun req => { req with extensions := env.addK8sService data req.extensions }

def mcpLayer (transport : String) : BoxLayer Regex X Out :=
  mapRequestLayer fun req =>
    let sessionIdPresent := (HeaderMap.get req.headers "mcp-session-id").isSome
    { req with extensions := env.addMcpProxyMeta transport sessionIdPresent req.extensions }

/-! ## Backends, rules and routes -/

/-- What the calls of `timeout` and `disable_timeout` leave in a new builder. -/
def requestTimeout (timeoutMs : Option UInt32) (timeoutMode : Option TimeoutMode) :
    RequestTimeout :=
  let timeout :=
    match timeoutMs with
    | some ms => RequestTimeout.duration ms.toNat
    | none => .default
  if timeoutMode = some .disabled then .disabled else timeout

/-- The builder of a backend before its kind is decided. -/
def backendBuilder (backend : SgBackendRef) : HttpBackendBuilder Regex X Out :=
  let builder := HttpBackendBuilder.new
  let builder :=
    match backend.host with
    | .k8sService data => builder.withPlugin (k8sServiceLayer env data)
    | _ => builder
  let builder := builder.withHost backend.getHost
  let builder :=
    match backend.port with
    | some port => builder.withPort port
    | none => builder
  builder.withTimeout (requestTimeout backend.timeoutMs backend.timeoutMode)

/-- `version.replace(version)` on an HTTP backend; a file backend has none. -/
def replaceVersion (version : Version) : Backend → Backend
  | .http host port schema _ => .http host port schema (some version)
  | .file path => .file path

/-- The backend as its builder makes it. -/
def backendLayer (backend : SgBackendRef) : HttpBackend Regex X Out :=
  match backend.host, backend.protocol with
  | .file path, _ => (backendBuilder env backend).buildFile path
  | _, some protocol => ((backendBuilder env backend).withSchema protocol.text).build
  | _, none => (backendBuilder env backend).build

def collectBackend (backend : SgBackendRef) : HttpBackend Regex X Out :=
  let layer := backendLayer env backend
  { layer with
    -- the flag is tested for presence, not for its value
    backend :=
      if backend.downgradeHttp2.isSome then replaceVersion .http11 layer.backend
      else layer.backend
    plugins := layer.plugins ++ globalBatchMountPlugin env backend.plugins }

def balancePolicyEnum : SgBalancePolicy → BalancePolicyEnum
  | .random => .random
  | .ipHash => .ipHash
  | .mcpSession => .mcpSession

def collectRule (mcpTransport : Option String)
    (rule : SgHttpRouteRule) : Except CollectError (HttpRouteRule Regex X Out) := do
  let ms ← convertOption (List.mapM (convertConfigToKernel env)) rule.matches
  return buildHttpRouteRule ms
    (mcpTransport.toList.map (mcpLayer env) ++ globalBatchMountPlugin env rule.plugins)
    (requestTimeout rule.timeoutMs rule.timeoutMode)
    (rule.backends.map (collectBackend env))
    (rule.balancePolicy.map balancePolicyEnum)

def collectRoute (route : SgRoute) :
    Except CollectError (HttpRoute Regex X Out) := do
  let compiled := compileRoute route
  let rules ← compiled.1.rules.mapM (collectRule env compiled.2)
  let layer := buildHttpRoute (compiled.1.hostnames.getD []) rules (some compiled.1.priority)
  return { layer with plugins := layer.plugins ++ globalBatchMountPlugin env compiled.1.plugins }

/-- `collect_http_route`: the entries of the resulting map, in the order of the
configured ones. -/
def collectHttpRoute (httpRoutes : RouteMap) :
    Except CollectError (List (String × HttpRoute Regex X Out)) :=
  httpRoutes.entries.mapM fun entry => (collectRoute env entry.2).map fun layer => (entry.1, layer)

end Spacegate.Shell
