import Spacegate.Kernel.RouteSelection
import Spacegate.Kernel.UpstreamTarget

/-!
# The order in which routes are tried

The rules of a router and its services are built by one loop, and the tree keeps numbers into
both.  Every number that is offered for a host is the number of a route, so routing does not
panic, and what it returns is the first rule, in the order of the list, that accepts the request
(`route_isFirstMatch`).

The list is sorted by the negated priority.  The lowest priority is its own negation in sixteen
bits: its route is tried first instead of last, and the list is in the order of priorities
exactly when it does not mix the lowest priority with others (`triedByPriority_iff`).
-/

namespace Spacegate.Kernel

open Foundation Int16 List Option

variable {Regex X Out : Type}

/-! ## The first match -/

section FirstMatch

variable [RegexEngine Regex]

/-- Rule `j` of route `i` accepts the request, and no rule that stands before it in the list
does: neither an earlier rule of the route, nor a rule of a route at an earlier place. -/
structure IsFirstMatch (routes : List (HttpRoute Regex X Out)) (indices : List (Nat × Int16))
    (req : SgRequest Regex X) (place i j : Nat) : Prop where
  offered : (indices[place]?).map Prod.fst = some i
  accepts : ∃ route rule, routes[i]? = some route ∧ route.rules[j]? = some rule ∧
    ruleAccepts req rule.match = true
  rules : ∀ j' < j, ∀ route rule, routes[i]? = some route → route.rules[j']? = some rule →
    ruleAccepts req rule.match = false
  places : ∀ place' < place, ∀ entry route, indices[place']? = some entry →
    routes[entry.1]? = some route → ∀ rule ∈ route.rules, ruleAccepts req rule.match = false

variable {routes : List (HttpRoute Regex X Out)} {indices : List (Nat × Int16)}

/-- Trying the routes at the places of a list, of which each holds the number of a route. -/
theorem routeIndices_first (stx : UriSyntax) (req : SgRequest Regex X)
    (hi : ∀ entry ∈ indices, ∃ route, routes[entry.1]? = some route) :
    (routeIndices stx (routes.map (·.toRouter)) req indices).1 ≠ .panicked ∧
      ∀ i j, (routeIndices stx (routes.map (·.toRouter)) req indices).1 = .found (i, j) →
        ∃ place, IsFirstMatch routes indices req place i j := by
  induction indices with
  | nil => simp [routeIndices]
  | cons entry indices ih =>
    obtain ⟨routeIndex, priority⟩ := entry
    obtain ⟨route, hr⟩ := hi _ mem_cons_self
    have hRouter : (routes.map (·.toRouter))[routeIndex]? = some route.toRouter := by
      rw [getElem?_map, hr, map_some]
    have hRest := ih fun e he => hi e (mem_cons_of_mem _ he)
    simp only [routeIndices, hRouter]
    cases hRules : routeRules stx route.toRouter.name routeIndex req 0 route.toRouter.rules with
    | some found =>
      obtain ⟨result, req'⟩ := found
      obtain ⟨-, k, ms, hm, ha, hEarlier, hResult⟩ := routeRules_eq_some _ _ _ _ hRules
      refine ⟨?_, ?_⟩
      · rcases hResult with rfl | rfl <;> simp
      · rintro i j rfl
        simp only [reduceCtorEq, RouteResult.found.injEq, Prod.mk.injEq, false_or] at hResult
        obtain ⟨rfl, rfl⟩ := hResult
        rw [HttpRoute.toRouter, getElem?_map] at hm
        obtain ⟨rule, hRule, rfl⟩ := map_eq_some_iff.mp hm
        refine ⟨0, rfl, ⟨route, rule, hr, by simpa using hRule, ha⟩, ?_, by simp⟩
        intro j' hj' route' rule' hr' hRule'
        obtain rfl := some.inj (hr'.symm.trans hr)
        exact hEarlier j' (by omega) _ (by
          rw [HttpRoute.toRouter, getElem?_map, hRule', map_some])
    | none =>
      -- no rule of this route accepts the request, so all places move by one
      rw [routeRules_eq_none_iff, toRouter_rules_any] at hRules
      refine ⟨hRest.1, ?_⟩
      intro i j hFound
      obtain ⟨place, hf⟩ := hRest.2 i j hFound
      refine ⟨place + 1, hf.offered, hf.accepts, hf.rules, ?_⟩
      intro place' hp entry route' hEntry hr' rule hRule
      cases place' with
      | zero =>
        obtain rfl := some.inj hEntry
        obtain rfl := some.inj (hr'.symm.trans hr)
        simpa using any_eq_false.mp hRules rule hRule
      | succ place' =>
        exact hf.places place' (by omega) entry route' hEntry hr' rule hRule

omit [RegexEngine Regex] in
theorem eq_offered_of_get {sort : SortUnstable} {host : String}
    (h : (createGatewayRouter sort routes).hostnameTree.get host = some indices) :
    hostKey host ≠ .malformed ∧ indices = offered sort routes := by
  rw [createGatewayRouter_hostnameTree, fallbackTree_get] at h
  split at h
  · exact absurd h (by simp)
  · rename_i hKey
    refine ⟨hKey, ?_⟩
    unfold fallbackOf at h
    split at h
    · exact absurd h (by simp)
    · exact (some.inj h).symm

omit [RegexEngine Regex] in
theorem exists_service_of_rule {rt : Runtime Regex X Out}
    {services : List (List (Service Regex X Out))}
    (h : routes.mapM (HttpRoute.services rt) = some services) {i j : Nat}
    {route : HttpRoute Regex X Out} {rule : HttpRouteRule Regex X Out}
    (hr : routes[i]? = some route) (hRule : route.rules[j]? = some rule) :
    ∃ service, (services[i]?).bind (·[j]?) = some service := by
  obtain ⟨inner, hi, hs⟩ := exists_services_getElem? h hr
  have hl : inner.length = route.rules.length := (forall₂_of_mapM_some hs).length_eq.symm
  obtain ⟨hLt, -⟩ := List.getElem?_eq_some_iff.mp hRule
  exact ⟨inner[j], by rw [hi, bind_some, List.getElem?_eq_getElem]⟩

/-- Routing a request never panics; a rule that it returns has a service and is the first one in
the order of the list of the host that accepts the request. -/
theorem route_isFirstMatch (rt : Runtime Regex X Out) (sort : SortUnstable) (stx : UriSyntax)
    (routes : List (HttpRoute Regex X Out)) (fallback : Service Regex X Out)
    (service : RouterService Regex X Out)
    (h : createHttpRouter rt sort routes fallback = some service) (req : SgRequest Regex X) :
    (service.call stx req).isSome = true ∧
      ∀ i j, (service.router.route stx req).1 = .found (i, j) →
        (∃ inner, (service.services[i]?).bind (·[j]?) = some inner) ∧
          ∃ host indices place, routingHost req = some host ∧
            service.router.hostnameTree.get host = some indices ∧
            IsFirstMatch routes indices req place i j := by
  obtain ⟨services, hs, rfl⟩ := map_eq_some_iff.mp h
  have hr : ((createGatewayRouter sort routes).route stx req).1 ≠ .panicked ∧
      ∀ i j, ((createGatewayRouter sort routes).route stx req).1 = .found (i, j) →
        (∃ inner, (services[i]?).bind (·[j]?) = some inner) ∧
          ∃ host indices place, routingHost req = some host ∧
            (createGatewayRouter sort routes).hostnameTree.get host = some indices ∧
            IsFirstMatch routes indices req place i j := by
    unfold GatewayRouter.route
    cases hh : routingHost req with
    | none => simp
    | some host =>
      cases hGet : (createGatewayRouter sort routes).hostnameTree.get host with
      | none => simp [hGet]
      | some indices =>
        simp only [hGet]
        have hi : ∀ entry ∈ indices, ∃ route, routes[entry.1]? = some route := by
          intro entry he
          rw [(eq_offered_of_get hGet).2] at he
          obtain ⟨route, hr, -⟩ := exists_route_of_mem_offered he
          exact ⟨route, hr⟩
        obtain ⟨hp, hFound⟩ := routeIndices_first stx req hi
        refine ⟨hp, ?_⟩
        intro i j hResult
        obtain ⟨place, hf⟩ := hFound i j hResult
        obtain ⟨route, rule, hr, hRule, -⟩ := hf.accepts
        exact ⟨exists_service_of_rule hs hr hRule, host, indices, place, rfl, hGet, hf⟩
  refine ⟨?_, hr.2⟩
  unfold RouterService.call
  simp only
  rcases hResult : (createGatewayRouter sort routes).route stx req with ⟨_ | _ | ⟨i, j⟩, req'⟩
  · exact absurd (by rw [hResult]) hr.1
  · rfl
  · obtain ⟨⟨inner, hInner⟩, -⟩ := hr.2 i j (by rw [hResult])
    simp [hInner]

end FirstMatch

/-- A route for all hosts with a rule for one path and one for every request. -/
def pathRoute (path : String) (priority : Int16) : HttpRoute LiteralRegex Unit Unit where
  name := path
  hostnames := []
  plugins := []
  rules :=
    [some [{ path := some (.pathPrefix path none), header := none, query := none, method := none }],
      none].map fun ms =>
        { «match» := ms, plugins := [], timeout := .disabled, backends := []
          balancePolicy := .ipHash }
  priority := priority

/-- Of two routes the one of higher priority is tried first, and its first rule that accepts the
request is returned. -/
theorem pathRoute_isFirstMatch :
    ∃ service, createHttpRouter plainRuntime insertionSortUnstable
        [pathRoute "/a" 1, pathRoute "/b" 2] (fun _ => ()) = some service ∧
      (service.router.route plainSyntax (absoluteRequest "a.com" "/b/x")).1 = .found (1, 0) ∧
      ∃ host indices place, routingHost (absoluteRequest "a.com" "/b/x") = some host ∧
        service.router.hostnameTree.get host = some indices ∧
        IsFirstMatch [pathRoute "/a" 1, pathRoute "/b" 2] indices
          (absoluteRequest "a.com" "/b/x") place 1 0 := by
  refine ⟨_, rfl, by rfl, ?_⟩
  exact ((route_isFirstMatch plainRuntime insertionSortUnstable plainSyntax
    [pathRoute "/a" 1, pathRoute "/b" 2] (fun _ => ()) _ rfl
    (absoluteRequest "a.com" "/b/x")).2 1 0 (by rfl)).2

/-! ## Priorities -/

variable (sort : SortUnstable) (routes : List (HttpRoute Regex X Out))

/-- In the list of a host a route stands before the routes of lower priority. -/
def TriedByPriority (host : String) : Prop :=
  ∀ indices, (createGatewayRouter sort routes).hostnameTree.get host = some indices →
    indices.Pairwise fun entry entry' => ∀ route route', routes[entry.1]? = some route →
      routes[entry'.1]? = some route' → route'.priority ≤ route.priority

/-- The lowest priority stands alone among the routes that are tried. -/
def LowestAlone : Prop :=
  ∀ i i' route route', LiveRoute routes i → LiveRoute routes i' → routes[i]? = some route →
    routes[i']? = some route' → route.priority = Int16.minValue →
    route'.priority = Int16.minValue

theorem le_of_neg_le_neg {p q : Int16} (h : -p ≤ -q)
    (hl : p = minValue → q = minValue) : q ≤ p := by
  grind

theorem eq_minValue_of_neg_le {p : Int16} (h : -p ≤ -minValue) : p = minValue := by
  grind

theorem eq_minValue_of_le {p : Int16} (h : p ≤ minValue) : p = minValue := by
  grind

theorem liveRoute_iff_mem_offered
    (i : Nat) : LiveRoute routes i ↔ ∃ entry ∈ offered sort routes, entry.1 = i := by
  unfold LiveRoute
  simp only [mem_offered_iff]
  constructor
  · rintro ⟨reg, hl, rfl⟩
    exact ⟨reg.1, ⟨reg, hl, rfl⟩, rfl⟩
  · rintro ⟨entry, ⟨reg, hl, rfl⟩, rfl⟩
    exact ⟨reg, hl, rfl⟩

variable {routes : List (HttpRoute Regex X Out)}

theorem priority_of_mem_offered {sort : SortUnstable}
    {entry : Nat × Int16} (h : entry ∈ offered sort routes) {route : HttpRoute Regex X Out}
    (hr : routes[entry.1]? = some route) : entry.2 = route.priority := by
  obtain ⟨_, hs, hp⟩ := exists_route_of_mem_offered h
  obtain rfl := some.inj (hs.symm.trans hr)
  exact hp

theorem get_eq_offered {sort : SortUnstable}
    {host : String} {entry : Nat × Int16} (hKey : hostKey host ≠ .malformed)
    (he : entry ∈ offered sort routes) :
    (createGatewayRouter sort routes).hostnameTree.get host = some (offered sort routes) := by
  rw [createGatewayRouter_hostnameTree, fallbackTree_get, if_neg hKey, fallbackOf, if_neg]
  · rfl
  · intro hn
    rw [offered, (sort.perm _ _).mem_iff, hn] at he
    exact absurd he (by simp)

/-- Routes are tried by priority, for every host that is offered any, exactly when the lowest
priority stands alone. -/
theorem triedByPriority_iff (routes : List (HttpRoute Regex X Out)) (host : String) :
    TriedByPriority sort routes host ↔ (hostKey host ≠ .malformed → LowestAlone routes) := by
  have hs : (offered sort routes).Pairwise fun a b => -a.2 ≤ -b.2 := sort.sorted _ _
  constructor
  · intro h hKey i i' route route' hLive hl' hr hr' hl
    obtain ⟨entry, he, rfl⟩ := (liveRoute_iff_mem_offered sort routes i).mp hLive
    obtain ⟨entry', he', rfl⟩ := (liveRoute_iff_mem_offered sort routes i').mp hl'
    have hp := priority_of_mem_offered he hr
    have hp' := priority_of_mem_offered he' hr'
    have ht := pairwise_iff_getElem.mp (h _ (get_eq_offered hKey he))
    obtain ⟨k, hk, rfl⟩ := getElem_of_mem he
    obtain ⟨k', hk', rfl⟩ := getElem_of_mem he'
    rcases lt_trichotomy k k' with hLt | rfl | hLt
    · have hLe := ht k k' hk hk' hLt _ _ hr hr'
      rw [hl] at hLe
      exact eq_minValue_of_le hLe
    · rw [← hp', hp, hl]
    · -- only the lowest priority has a key that is not larger than that of the lowest one
      have hKeys := pairwise_iff_getElem.mp hs k' k hk' hk hLt
      rw [hp, hp', hl] at hKeys
      exact eq_minValue_of_neg_le hKeys
  · intro h indices hGet
    obtain ⟨hKey, rfl⟩ := eq_offered_of_get hGet
    refine hs.imp_of_mem ?_
    intro entry entry' he he' hLe route route' hr hr'
    have hp := priority_of_mem_offered he hr
    have hp' := priority_of_mem_offered he' hr'
    rw [hp, hp'] at hLe
    refine le_of_neg_le_neg hLe ?_
    exact h hKey entry.1 entry'.1 _ _
      ((liveRoute_iff_mem_offered sort routes _).mpr ⟨entry, he, rfl⟩)
      ((liveRoute_iff_mem_offered sort routes _).mpr ⟨entry', he', rfl⟩) hr hr'

/-- A route of the lowest priority is tried before one of priority `1`. -/
theorem lowest_not_triedByPriority :
    ¬ TriedByPriority insertionSortUnstable
      [pathRoute "/a" 1, pathRoute "/b" Int16.minValue] "a.com" := by
  intro h
  have hl : (createGatewayRouter insertionSortUnstable
      [pathRoute "/a" 1, pathRoute "/b" minValue]).hostnameTree.get "a.com" =
        some [(1, minValue), (0, 1)] := by rfl
  have hf := (pairwise_cons.mp (h _ hl)).1 (0, 1) (by simp) _ _ rfl rfl
  exact absurd hf (by decide)

end Spacegate.Kernel
