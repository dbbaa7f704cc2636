import Spacegate.Kernel.HttpRoute
import Spacegate.Kernel.MatchHostname

/-!
# The gateway router

`createHttpRouter` registers the routes of a gateway in a host name tree and
`GatewayRouter.route` picks the first matching rule among the routes that the
tree holds for the request's host.  The routes come from a hash map: the list
given here is the map's iteration order.

`sort_unstable_by_key` promises a sorted permutation and nothing about equal
keys, so the sort is a parameter with these two properties as fields.
-/

namespace Spacegate.Kernel

open Foundation

/-- `slice::sort_unstable_by_key` on sixteen-bit keys. -/
structure SortUnstable where
  byKey : {α : Type} → (α → Int16) → List α → List α
  perm : ∀ {α : Type} (key : α → Int16) (xs : List α), (byKey key xs).Perm xs
  sorted : ∀ {α : Type} (key : α → Int16) (xs : List α),
    (byKey key xs).Pairwise fun x y => key x ≤ key y

/-- The routing data of one route. -/
structure HttpRouter (Regex : Type) where
  name : String
  hostnames : List String
  rules : List (Option (List (HttpRouteMatch Regex)))

/-- The routes of a gateway and, for each host, the routes to try. -/
structure GatewayRouter (Regex : Type) where
  routers : List (HttpRouter Regex)
  hostnameTree : HostnameTree (List (Nat × Int16))

/-- `RouterService` with its services and its fallback. -/
structure RouterService (Regex X Out : Type) where
  services : List (List (Service Regex X Out))
  router : GatewayRouter Regex
  fallback : Service Regex X Out

/-- What `route` reports.  Indexing outside the routers is a panic. -/
inductive RouteResult where
  | panicked
  | notFound
  | found (index : Nat × Nat)
  deriving DecidableEq

section Router

variable {Regex X Out : Type}

/-- `insert_route_name`. -/
def insertRouteName (name : String) (ext : Extensions Regex X) : Extensions Regex X :=
  { ext with
    accessLogContext := ext.accessLogContext.map fun log => { log with routeName := some name }
    reflect := ext.reflect.map fun reflect => { reflect with routeName := some name }
    routeName := some name }

/-- The host a request is routed by: the one of its target, else its `host`
header. -/
def routingHost (req : SgRequest Regex X) : Option String :=
  req.uri.host.or ((HeaderMap.get req.headers "host").bind HeaderValue.toStr)

/-- The request after a match was selected: the route's name and the match are
put on it, then the match rewrites it. -/
def selectMatch [RegexEngine Regex] (stx : UriSyntax) (name : String) (m : HttpRouteMatch Regex)
    (req : SgRequest Regex X) : Except RewriteError Unit × SgRequest Regex X :=
  m.rewrite stx { req with
    extensions := { insertRouteName name req.extensions with matchedSgRouter := some m } }

/-- The rules of one route, from number `rule` on: `none` when no rule matches. -/
def routeRules [RegexEngine Regex] (stx : UriSyntax) (name : String) (routeIndex : Nat)
    (req : SgRequest Regex X) :
    (rule : Nat) → List (Option (List (HttpRouteMatch Regex))) →
    Option (RouteResult × SgRequest Regex X)
  | _, [] => none
  | rule, none :: _ =>
    some (.found (routeIndex, rule), { req with extensions := insertRouteName name req.extensions })
  | rule, some ms :: rules =>
    match ms.find? (·.matchRequest req) with
    | some m =>
      match selectMatch stx name m req with
      | (.ok (), req) => some (.found (routeIndex, rule), req)
      -- a failed rewrite ends the search: no other rule or route is tried
      | (.error _, req) => some (.notFound, req)
    | none => routeRules stx name routeIndex req (rule + 1) rules

/-- The routes that the tree holds for the host, in order. -/
def routeIndices [RegexEngine Regex] (stx : UriSyntax) (routers : List (HttpRouter Regex))
    (req : SgRequest Regex X) :
    List (Nat × Int16) → RouteResult × SgRequest Regex X
  | [] => (.notFound, req)
  | (routeIndex, _) :: indices =>
    match routers[routeIndex]? with
    | none => (.panicked, req)
    | some router =>
      match routeRules stx router.name routeIndex req 0 router.rules with
      | some result => result
      | none => routeIndices stx routers req indices

/-- `GatewayRouter::route`. -/
def GatewayRouter.route [RegexEngine Regex] (stx : UriSyntax) (router : GatewayRouter Regex)
    (req : SgRequest Regex X) : RouteResult × SgRequest Regex X :=
  match routingHost req with
  | none => (.notFound, req)
  | some host =>
    match router.hostnameTree.get host with
    | none => (.notFound, req)
    | some indices => routeIndices stx router.routers req indices

/-- Register a route under one host pattern.  Where the tree has no value for
the pattern, a new list is put under `*`. -/
def registerHostname (tree : HostnameTree (List (Nat × Int16))) (idx : Nat × Int16)
    (hostname : String) : HostnameTree (List (Nat × Int16)) :=
  match tree.getMut (· ++ [idx]) hostname with
  | some tree => tree
  | none => tree.set "*" [idx]

/-- Register a route under all its host patterns, or under `*` if it has none. -/
def registerRoute (tree : HostnameTree (List (Nat × Int16))) (idx : Nat × Int16)
    (hostnames : List String) : HostnameTree (List (Nat × Int16)) :=
  if hostnames = [] then
    registerHostname tree idx "*"
  else
    hostnames.foldl (fun tree hostname => registerHostname tree idx hostname) tree

/-- Register the routes from number `idx` on. -/
def registerRoutes : (idx : Nat) → List (HttpRoute Regex X Out) →
    HostnameTree (List (Nat × Int16)) → HostnameTree (List (Nat × Int16))
  | _, [], tree => tree
  | idx, route :: routes, tree =>
    registerRoutes (idx + 1) routes (registerRoute tree (idx, route.priority) route.hostnames)

/-- The routing data kept of a route. -/
def HttpRoute.toRouter (route : HttpRoute Regex X Out) : HttpRouter Regex where
  name := route.name
  hostnames := route.hostnames
  rules := route.rules.map (·.match)

variable (rt : Runtime Regex X Out)

/-- The services of a route's rules, wrapped in the route's plugins; `none` when
one of them panics. -/
def HttpRoute.services (route : HttpRoute Regex X Out) : Option (List (Service Regex X Out)) :=
  route.rules.mapM fun rule => (rule.asService rt).map (foldLayers route.plugins)

/-- The routing half of `create_http_router`.  The key `-p` of a priority wraps
as in a release build. -/
def createGatewayRouter (sort : SortUnstable) (routes : List (HttpRoute Regex X Out)) :
    GatewayRouter Regex where
  routers := routes.map (·.toRouter)
  hostnameTree := (registerRoutes 0 routes .new).iterMutForEach
    (sort.byKey fun entry : Nat × Int16 => -entry.2)

/-- `create_http_router`; `none` when building a service panics. -/
def createHttpRouter (sort : SortUnstable)
    (routes : List (HttpRoute Regex X Out)) (fallback : Service Regex X Out) :
    Option (RouterService Regex X Out) :=
  (routes.mapM (HttpRoute.services rt)).map fun services =>
    { services := services, router := createGatewayRouter sort routes, fallback := fallback }

/-- What a request leads to: the outcome of the selected service or of the
fallback, and `none` for a panic. -/
def RouterService.call [RegexEngine Regex] (stx : UriSyntax)
    (service : RouterService Regex X Out) (req : SgRequest Regex X) : Option Out :=
  match service.router.route stx req with
  | (.panicked, _) => none
  | (.notFound, req) => some (service.fallback req)
  | (.found (i, j), req) =>
    ((service.services[i]?).bind (·[j]?)).map fun inner => inner req

end Router

end Spacegate.Kernel
