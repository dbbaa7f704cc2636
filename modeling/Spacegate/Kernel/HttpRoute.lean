import Spacegate.Foundation.IpAddr
import Spacegate.Kernel.MatchRequest

/-!
# Routes, rules and backends

A rule balances its requests over backends; each backend rewrites the request
target to its own address and hands the request to the HTTP client, or serves
files from a directory.  A service is a function from requests to outcomes, and
a plugin is a function from services to services.  The outcome type is left
open, so that a service may be read as what it answers or as what it sends.

`Runtime` collects what lies outside the gateway: the client, the file server,
the clock of the timeouts, hashing, random numbers, and the syntax decisions of
the `http` crate.
-/

namespace Spacegate.Kernel

open Foundation.IpAddr (Ipv4Addr Ipv6Addr)

/-- `std::net::IpAddr`. -/
inductive IpAddr where
  | v4 (address : Ipv4Addr)
  | v6 (address : Ipv6Addr)
  deriving DecidableEq

/-- `IpAddr::to_canonical`: an IPv4-mapped IPv6 address is its IPv4 address. -/
def IpAddr.toCanonical : IpAddr → IpAddr
  | .v4 address => .v4 address
  | .v6 address =>
    if address.val / 2 ^ 32 = 0xffff then
      .v4 ⟨address.val % 2 ^ 32, Nat.mod_lt _ (Nat.two_pow_pos 32)⟩
    else .v6 address

/-- The `Reflect` extension: what is copied to the response. -/
structure Reflect where
  gatewayName : Option String
  routeName : Option String
  backendHost : Option String

/-- The `AccessLogContext` of a request. -/
structure AccessLogContext where
  routeName : Option String
  upstreamHost : Option String

/-- The extensions that the gateway writes or reads; `X` are all others. -/
structure Extensions (Regex X : Type) where
  gatewayName : Option String
  routeName : Option String
  matchedSgRouter : Option (HttpRouteMatch Regex)
  backendHost : Option String
  peerAddr : Option IpAddr
  reflect : Option Reflect
  accessLogContext : Option AccessLogContext
  other : X

/-- `SgRequest`. -/
abbrev SgRequest (Regex X : Type) := Request (Extensions Regex X)

/-- `ArcHyperService`. -/
abbrev Service (Regex X Out : Type) := SgRequest Regex X → Out

/-- `BoxLayer`. -/
abbrev BoxLayer (Regex X Out : Type) := Service Regex X Out → Service Regex X Out

/-- `fold_layers`: the first layer becomes the outermost one. -/
def foldLayers {Regex X Out : Type} (layers : List (BoxLayer Regex X Out))
    (inner : Service Regex X Out) : Service Regex X Out :=
  layers.foldr (fun layer inner => layer inner) inner

/-- A timeout in milliseconds, or none, or the default. -/
inductive RequestTimeout where
  | default
  | disabled
  | duration (ms : Nat)
  deriving DecidableEq

/-- `DEFAULT_TIMEOUT`. -/
def defaultTimeout : Nat := 30000

inductive BalancePolicyEnum where
  | random
  | ipHash
  | mcpSession
  deriving DecidableEq

inductive Backend where
  | http (host : Option String) (port : Option UInt16) (schema : Option String)
      (version : Option Version)
  | file (path : String)
  deriving DecidableEq

structure HttpBackend (Regex X Out : Type) where
  plugins : List (BoxLayer Regex X Out)
  backend : Backend
  weight : UInt16
  timeout : RequestTimeout

structure HttpRouteRule (Regex X Out : Type) where
  «match» : Option (List (HttpRouteMatch Regex))
  plugins : List (BoxLayer Regex X Out)
  timeout : RequestTimeout
  backends : List (HttpBackend Regex X Out)
  balancePolicy : BalancePolicyEnum

structure HttpRoute (Regex X Out : Type) where
  name : String
  hostnames : List String
  plugins : List (BoxLayer Regex X Out)
  rules : List (HttpRouteRule Regex X Out)
  priority : Int16

/-- What the kernel calls outside itself. -/
structure Runtime (Regex X Out : Type) where
  stx : UriSyntax
  /-- `http_backend_service`: hand the request to the HTTP client. -/
  httpBackendService : Service Regex X Out
  /-- `static_file_service`. -/
  staticFileService : String → Service Regex X Out
  /-- The `Timeout` future around an outcome. -/
  timeout : Nat → Out → Out
  /-- The mark that a response comes from a backend. -/
  fromBackend : Out → Out
  /-- The queued mappers of the `Defer` extension. -/
  defer : X → Option (SgRequest Regex X → SgRequest Regex X)
  /-- `WeightedIndex::new` succeeds. -/
  weightedIndexOk : List UInt16 → Bool
  /-- The index drawn from a `WeightedIndex`. -/
  sample : List UInt16 → Nat
  /-- The `DefaultHasher` value of an address. -/
  hashIp : IpAddr → UInt64
  /-- The `DefaultHasher` value of a session id. -/
  hashBytes : List UInt8 → UInt64

/-- `port_to_schema`.  The macro puts a catch-all arm behind its first entry, so
only port 80 has a scheme. -/
def portToSchema (port : UInt16) : Option String :=
  if port = 80 then some "http" else none

section Services

variable {Regex X Out : Type} (stx : UriSyntax)

/-- `Uri::builder().scheme(..).authority(..).path_and_query(..).build()`. -/
def buildUri (scheme authority : String) (pathAndQuery : Option PathAndQuery) :
    Option Uri := do
  let scheme ← stx.parseScheme scheme
  let authority ← stx.parseAuthority authority
  Uri.fromParts (some scheme) (some authority) pathAndQuery

/-- The authority text of an upstream. -/
def authorityText (host : String) : Option UInt16 → String
  | some port => host ++ ":" ++ toString port.toNat
  | none => host

/-- The target that a request is sent to for an HTTP backend; `none` when the
URI cannot be built. -/
def backendUri (host : Option String) (port : Option UInt16)
    (schema : Option String) (uri : Uri) : Option Uri :=
  let rawHost := (uri.authority.map (·.host)).getD ""
  let rawPort := uri.authority.bind (·.portU16)
  let newHost := host.getD rawHost
  let newPort := port.or rawPort
  let newScheme := ((schema.or uri.schemeStr).or (newPort.bind portToSchema)).getD "http"
  buildUri stx newScheme (authorityText newHost newPort) uri.pathAndQuery

/-- The extensions after the backend host is recorded. -/
def recordBackendHost (host : String) (ext : Extensions Regex X) : Extensions Regex X :=
  { ext with
    accessLogContext := ext.accessLogContext.map fun log => { log with upstreamHost := some host }
    reflect := ext.reflect.map fun reflect => { reflect with backendHost := some host }
    backendHost := some host }

/-- The request as a backend prepares it.  A target that cannot be built is left
as it was. -/
def prepareRequest (backend : Backend) (req : SgRequest Regex X) : SgRequest Regex X :=
  match backend with
  | .file _ => req
  | .http none none none none => req
  | .http host port schema version =>
    { req with
      extensions :=
        match host with
        | some host => recordBackendHost host req.extensions
        | none => req.extensions
      uri := (backendUri stx host port schema req.uri).getD req.uri
      version := version.getD req.version }

variable (rt : Runtime Regex X Out)

/-- `HttpBackendService::call`. -/
def httpBackendServiceCall (backend : Backend) : Service Regex X Out :=
  fun req =>
    let req := prepareRequest rt.stx backend req
    let req :=
      match rt.defer req.extensions.other with
      | some mapper => mapper req
      | none => req
    rt.fromBackend
      (match backend with
      | .http _ _ _ _ => rt.httpBackendService req
      | .file path => rt.staticFileService path req)

/-- The timeout layer of a setting. -/
def RequestTimeout.layer : RequestTimeout → BoxLayer Regex X Out
  | .default, inner => fun req => rt.timeout defaultTimeout (inner req)
  | .duration ms, inner => fun req => rt.timeout ms (inner req)
  | .disabled, inner => inner

/-- `HttpBackend::as_service`. -/
def HttpBackend.asService (backend : HttpBackend Regex X Out) : Service Regex X Out :=
  foldLayers backend.plugins (backend.timeout.layer rt (httpBackendServiceCall rt backend.backend))

/-- The position that a hash selects. -/
def hashIndex (hash : UInt64) (length : Nat) : Nat :=
  hash.toNat % length

/-- The position that the peer's address selects; `none` without a `PeerAddr`. -/
def peerIndex (instances : Nat) (req : SgRequest Regex X) : Option Nat :=
  match req.extensions.peerAddr with
  | some ip => some (hashIndex (rt.hashIp ip.toCanonical) instances)
  | none => none

/-- `BalancePolicy::pick`, as a position in the list of instances. -/
def BalancePolicyEnum.pick (weights : List UInt16)
    (policy : BalancePolicyEnum) (instances : Nat) (req : SgRequest Regex X) : Option Nat :=
  if instances = 0 then none
  else if instances = 1 then some 0
  else
    let index :=
      match policy with
      | .random => some (rt.sample weights)
      | .ipHash => peerIndex rt instances req
      | .mcpSession =>
        match HeaderMap.get req.headers "mcp-session-id" with
        | some session => some (hashIndex (rt.hashBytes session.bytes) instances)
        | none => peerIndex rt instances req
    index.filter (· < instances)

/-- `Balancer::call`: the picked instance, or the fallback. -/
def balancerCall (pick : SgRequest Regex X → Option Nat) (instances : List (Service Regex X Out))
    (fallback : Service Regex X Out) : Service Regex X Out :=
  fun req => (((pick req).bind (instances[·]?)).getD fallback) req

/-- `HttpRouteRule::as_service`.  The `Random` policy panics on weights that
make no `WeightedIndex`; a panic is `none`. -/
def HttpRouteRule.asService (rule : HttpRouteRule Regex X Out) : Option (Service Regex X Out) :=
  let weights := rule.backends.map (·.weight)
  if rule.balancePolicy = .random ∧ rt.weightedIndexOk weights = false then
    none
  else
    let balanced := balancerCall
      (rule.balancePolicy.pick rt weights rule.backends.length)
      (rule.backends.map (·.asService rt)) rt.httpBackendService
    some (foldLayers rule.plugins (rule.timeout.layer rt balanced))

end Services

/-- A request without headers and extensions. -/
def plainRequest (uri : Uri) : SgRequest LiteralRegex Unit where
  method := "GET"
  uri := uri
  version := .http11
  headers := []
  extensions :=
    { gatewayName := none
      routeName := none
      matchedSgRouter := none
      backendHost := none
      peerAddr := none
      reflect := none
      accessLogContext := none
      other := () }

end Spacegate.Kernel
