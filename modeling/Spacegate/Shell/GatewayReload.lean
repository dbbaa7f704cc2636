import Spacegate.Kernel.HostnameRouting
import Spacegate.Kernel.UpstreamTarget
import Spacegate.Model.Gateway
import Spacegate.Shell.RouteFidelity

/-!
# Creating a gateway and reloading its routes

`create_service` builds a gateway from its configuration; `global_update` replaces
the router of a running gateway by one built from new routes.  Both collect the
routes in the same way, but only `GatewayBuilder::http_routers` gives the routes
their names: a reloaded router serves nameless routes.

The routes pass through hash maps.  `HashOrder` is the order in which a map is
iterated; nothing is assumed of it, and two maps may have different ones.
-/

namespace Spacegate.Shell

open Foundation Kernel Model

variable {Regex X Out : Type}

/-- The iteration order of a `HashMap`. -/
structure HashOrder where
  iter : {α : Type} → List (String × α) → List (String × α)
  perm : ∀ {α : Type} (entries : List (String × α)), (iter entries).Perm entries

inductive ServiceError where
  | collect (e : CollectError)
  | panicked
  deriving DecidableEq, Repr

/-- A running gateway: what its service is made of, the router being in the cell that
the reloader writes. -/
structure RunningSgGateway (Regex X Out : Type) where
  gatewayName : String
  httpPlugins : List (BoxLayer Regex X Out)
  router : RouterService Regex X Out

variable (env : ShellEnv Regex X Out)

/-- `default_gateway_route_fallback`. -/
def defaultGatewayRouteFallback : Service Regex X Out :=
  fun _ => env.notFound

variable (rt : Runtime Regex X Out) (sort : SortUnstable) (order : HashOrder)

/-- `create_http_router(routes.values(), fallback)`. -/
def routerOfMap (routes : List (String × HttpRoute Regex X Out)) :
    Except ServiceError (RouterService Regex X Out) :=
  match createHttpRouter rt sort ((order.iter routes).map Prod.snd)
      (defaultGatewayRouteFallback env) with
  | some router => .ok router
  | none => .error .panicked

/-- `GatewayBuilder::http_routers`: every route gets the name it is stored under. -/
def httpRouters (routes : List (String × HttpRoute Regex X Out)) :
    List (String × HttpRoute Regex X Out) :=
  routes.map fun entry => (entry.1, { entry.2 with name := entry.1 })

/-- `create_service`. -/
def createService (item : ConfigItem) :
    Except ServiceError (RunningSgGateway Regex X Out) := do
  let routes ← (collectHttpRoute env item.routes).mapError .collect
  let router ← routerOfMap env rt sort order (httpRouters routes)
  let xRequestId :=
    if item.gateway.parameters.enableXRequestId.getD true then [env.xRequestId] else []
  return {
    gatewayName := item.gateway.name
    httpPlugins := xRequestId ++ globalBatchMountPlugin env item.gateway.plugins
    router := router }

/-- `create_router_service`. -/
def createRouterService (httpRoutes : RouteMap) :
    Except ServiceError (RouterService Regex X Out) := do
  let routes ← (collectHttpRoute env httpRoutes).mapError .collect
  routerOfMap env rt sort order routes

/-! ## A gateway without listeners -/

def plainGateway : SgGateway where
  name := "gw"
  parameters := { enableXRequestId := none }
  listeners := []
  plugins := []

def hashOrderId : HashOrder where
  iter entries := entries
  perm entries := .refl entries

end Spacegate.Shell
