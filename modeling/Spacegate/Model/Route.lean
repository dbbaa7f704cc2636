import Spacegate.Kernel.HttpRoute

/-!
# Route configurations

The configuration types of the `spacegate_model` crate that describe routes.  All
of them are what a user writes: nothing is checked or completed here.
-/

namespace Spacegate.Model

inductive PluginInstanceName where
  | anon (uid : String)
  | named (name : String)
  | mono
  deriving DecidableEq, Repr

structure PluginInstanceId where
  code : String
  name : PluginInstanceName
  deriving DecidableEq, Repr

/-- A plugin bound at some scope; higher priorities handle a request first. -/
structure PluginBinding where
  id : PluginInstanceId
  priority : Int32
  deriving DecidableEq, Repr

inductive TimeoutMode where
  | request
  | disabled
  deriving DecidableEq, Repr

inductive SgBackendProtocol where
  | http
  | https
  deriving DecidableEq, Repr

/-- `Display for SgBackendProtocol`. -/
def SgBackendProtocol.text : SgBackendProtocol → String
  | .http => "http"
  | .https => "https"

/-- `DEFAULT_NAMESPACE`. -/
def defaultNamespace : String := "default"

structure K8sServiceData where
  name : String
  «namespace» : Option String
  deriving DecidableEq, Repr

inductive BackendHost where
  | host (host : String)
  | k8sService (data : K8sServiceData)
  | file (path : String)
  deriving DecidableEq, Repr

/-- `Display for BackendHost`. -/
def BackendHost.text : BackendHost → String
  | .host name => name
  | .k8sService data => data.name ++ "." ++ data.namespace.getD defaultNamespace
  | .file path => path

structure SgBackendRef where
  host : BackendHost
  port : Option UInt16
  timeoutMs : Option UInt32
  timeoutMode : Option TimeoutMode
  protocol : Option SgBackendProtocol
  downgradeHttp2 : Option Bool
  weight : Option UInt16
  plugins : List PluginBinding

/-- `SgBackendRef::get_host`. -/
def SgBackendRef.getHost (backend : SgBackendRef) : String :=
  backend.host.text

inductive SgHttpPathMatch where
  | exact (value : String) (replace : Option String)
  | pathPrefix (value : String) (replace : Option String)
  | regExp (value : String) (replace : Option String)

inductive SgHttpHeaderMatch where
  | exact (name value : String) (replace : Option String)
  | regExp (name re : String) (replace : Option String)

inductive SgHttpQueryMatch where
  | exact (key value : String)
  | regular (key re : String)

structure SgHttpMethodMatch where
  method : String

structure SgHttpRouteMatch where
  path : Option SgHttpPathMatch
  header : Option (List SgHttpHeaderMatch)
  query : Option (List SgHttpQueryMatch)
  method : Option (List SgHttpMethodMatch)

inductive SgBalancePolicy where
  | random
  | ipHash
  | mcpSession
  deriving DecidableEq, Repr

structure SgHttpRouteRule where
  «matches» : Option (List SgHttpRouteMatch)
  plugins : List PluginBinding
  backends : List SgBackendRef
  timeoutMs : Option UInt32
  timeoutMode : Option TimeoutMode
  balancePolicy : Option SgBalancePolicy

structure SgHttpRoute where
  routeName : String
  hostnames : Option (List String)
  plugins : List PluginBinding
  rules : List SgHttpRouteRule
  priority : Int16

inductive SgMcpTransport where
  | streamableHttp
  | legacySse
  deriving DecidableEq, Repr

structure SgMcpLegacySse where
  ssePath : String
  messagePath : String

inductive McpSessionAffinity where
  | mcpSession
  | none
  deriving DecidableEq, Repr

structure SgMcpRoute where
  routeName : String
  hostnames : Option (List String)
  transport : SgMcpTransport
  path : String
  legacySse : Option SgMcpLegacySse
  backends : List SgBackendRef
  plugins : List PluginBinding
  timeoutMode : TimeoutMode
  sessionAffinity : McpSessionAffinity

inductive SgRoute where
  | mcp (route : SgMcpRoute)
  | http (route : SgHttpRoute)

/-- `BTreeMap<String, SgRoute>`: the entries in the order of their keys. -/
structure RouteMap where
  entries : List (String × SgRoute)
  sorted : entries.Pairwise fun a b => a.1 < b.1

theorem RouteMap.pairwise_ne (routes : RouteMap) :
    routes.entries.Pairwise fun a b => a.1 ≠ b.1 := by
  refine routes.sorted.imp ?_
  intro a b hLt hEq
  rw [hEq] at hLt
  exact String.lt_irrefl b.1 hLt

end Spacegate.Model
