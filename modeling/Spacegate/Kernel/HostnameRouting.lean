import Mathlib.Data.List.Sort
import Spacegate.Kernel.HostnamePrecedence
import Spacegate.Kernel.HttpGateway

/-!
# Which routes a host is offered

A route is meant to be considered for the hosts its patterns describe.  The
registration of a pattern asks the tree for the pattern's list and, when there
is none, puts a new list under `*` instead of under the pattern.  From the empty
tree this fills nothing but the fallback: every well formed host is offered every
registered route, and registering a malformed bracketed pattern, for which the
tree never has a list, discards the routes registered before it.

`HostnameFiltering` is the intended behaviour, `FilteringIsVacuous` the exact
condition on the routes and the host under which it holds.
-/

namespace Spacegate.Kernel

open Foundation HostnameMatcherNode List Option
open Foundation.LabelPattern
open Foundation.Text

/-- A host text without its port. -/
def stripPort (host : String) : String :=
  if startsWith '[' host then
    match splitOnce ']' host with
    | some (bracketed, _) => bracketed ++ "]"
    | none => host
  else
    ((rsplitOnce ':' host).map Prod.fst).getD host

/-- A route's host pattern describes the host of a request. -/
def HostnameCovers (pattern host : String) : Prop :=
  HostMatches pattern (stripPort host)

instance (pattern host : String) : Decidable (HostnameCovers pattern host) :=
  inferInstanceAs (Decidable (HostMatches _ _))

/-- One pattern is more specific than another. -/
def MoreSpecific (pattern pattern' : String) : Prop :=
  AtLeastAsSpecific (hostPattern pattern) (hostPattern pattern') ∧
    ¬ AtLeastAsSpecific (hostPattern pattern') (hostPattern pattern)

section Routes

variable {Regex X Out : Type}

/-- The route has no host patterns, or one that describes the host. -/
def HttpRoute.Accepts (route : HttpRoute Regex X Out) (host : String) : Prop :=
  route.hostnames = [] ∨ ∃ pattern ∈ route.hostnames, HostnameCovers pattern host

variable (routes : List (HttpRoute Regex X Out))

/-- The route has a pattern that describes the host, and no pattern of any route
that describes it is more specific. -/
def Captures (route : HttpRoute Regex X Out) (host : String) : Prop :=
  ∃ pattern ∈ route.hostnames, HostnameCovers pattern host ∧
    ∀ route' ∈ routes, ∀ pattern' ∈ route'.hostnames,
      HostnameCovers pattern' host → ¬ MoreSpecific pattern' pattern

/-- The numbers of the routes that are considered for a host. -/
def considered (sort : SortUnstable) (routes : List (HttpRoute Regex X Out)) (host : String) :
    List Nat :=
  (((createGatewayRouter sort routes).hostnameTree.get host).getD []).map Prod.fst

/-- The intended behaviour for one host: only routes that accept the host are
considered, a route that captures it is considered, and a request for the host
is never routed to a route that does not accept it. -/
structure HostnameFiltering [RegexEngine Regex] (sort : SortUnstable) (stx : UriSyntax)
    (routes : List (HttpRoute Regex X Out)) (host : String) : Prop where
  sound : ∀ i ∈ considered sort routes host, ∃ route, routes[i]? = some route ∧ route.Accepts host
  complete : ∀ i route, routes[i]? = some route → Captures routes route host →
    i ∈ considered sort routes host
  selected : ∀ (req : SgRequest Regex X) i j, routingHost req = some host →
    ((createGatewayRouter sort routes).route stx req).1 = .found (i, j) →
    ∃ route, routes[i]? = some route ∧ route.Accepts host

/-! ## Registrations -/

/-- The patterns a route is registered under. -/
def HttpRoute.patterns (route : HttpRoute Regex X Out) : List String :=
  if route.hostnames = [] then ["*"] else route.hostnames

/-- All registrations in the order in which they are made, the first route
having number `idx`. -/
def registrations : (idx : Nat) → List (HttpRoute Regex X Out) → List ((Nat × Int16) × String)
  | _, [] => []
  | idx, route :: routes =>
    route.patterns.map (fun pattern => ((idx, route.priority), pattern)) ++
      registrations (idx + 1) routes

/-- A registration is live when no malformed bracketed pattern is registered
after it. -/
def Live (regs : List ((Nat × Int16) × String)) (reg : (Nat × Int16) × String) : Prop :=
  ∃ earlier later, regs = earlier ++ reg :: later ∧ ∀ r ∈ later, hostKey r.2 ≠ .malformed

/-- Some registration of a route is live. -/
def LiveRoute (i : Nat) : Prop :=
  ∃ reg, Live (registrations 0 routes) reg ∧ reg.1.1 = i

/-- The host is well formed or no route captures it; every live route accepts
it; every route that captures it is live. -/
def FilteringIsVacuous (host : String) : Prop :=
  (∀ i route, routes[i]? = some route → LiveRoute routes i → hostKey host ≠ .malformed →
    route.Accepts host) ∧
  ∀ i route, routes[i]? = some route → Captures routes route host →
    hostKey host ≠ .malformed ∧ LiveRoute routes i

theorem registerRoute_eq_foldl (tree : HostnameTree (List (Nat × Int16))) (idx : Nat)
    (route : HttpRoute Regex X Out) : registerRoute tree (idx, route.priority) route.hostnames =
      route.patterns.foldl (fun tree pattern => registerHostname tree (idx, route.priority) pattern)
        tree := by
  unfold registerRoute HttpRoute.patterns
  split <;> rfl

theorem registerRoutes_eq_foldl (routes : List (HttpRoute Regex X Out)) (idx : Nat)
    (tree : HostnameTree (List (Nat × Int16))) : registerRoutes idx routes tree =
      (registrations idx routes).foldl
        (fun tree reg => registerHostname tree reg.1 reg.2) tree := by
  induction routes generalizing idx tree with
  | nil => rfl
  | cons route routes ih =>
    rw [registerRoutes, registrations, foldl_append, foldl_map, ih, registerRoute_eq_foldl]

variable {routes : List (HttpRoute Regex X Out)}

theorem exists_route_of_mem_registrations {idx : Nat}
    {reg : (Nat × Int16) × String} (h : reg ∈ registrations idx routes) :
    ∃ i route, routes[i]? = some route ∧ reg.1 = (idx + i, route.priority) ∧
      reg.2 ∈ route.patterns := by
  induction routes generalizing idx with
  | nil => simp [registrations] at h
  | cons route routes ih =>
    rw [registrations, mem_append] at h
    rcases h with h | h
    · obtain ⟨pattern, hp, rfl⟩ := mem_map.mp h
      exact ⟨0, route, rfl, rfl, hp⟩
    · obtain ⟨i, route', hr, hReg, hp⟩ := ih h
      refine ⟨i + 1, route', hr, ?_, hp⟩
      rw [hReg, Nat.add_right_comm, Nat.add_assoc]

/-! ## The tree that the registrations build -/

/-- A tree that holds a fallback only. -/
def fallbackTree (fallback : Option (List (Nat × Int16))) : HostnameTree (List (Nat × Int16)) where
  ipv4 := []
  ipv6 := []
  host := .new
  fallback := fallback

theorem getByIter_new {T : Type} (host : List String) :
    (new : HostnameMatcherNode T).getByIter host = none := by
  cases host <;> rfl

theorem getMutByIter_new {T : Type} (f : T → T) (host : List String) :
    (new : HostnameMatcherNode T).getMutByIter f host = none := by
  cases host <;> rfl

variable (fallback : Option (List (Nat × Int16)))

theorem fallbackTree_get (host : String) :
    (fallbackTree fallback).get host = if hostKey host = .malformed then none else fallback := by
  unfold HostnameTree.get
  split
  · simp_all
  · simp_all [fallbackTree]
  · simp_all [fallbackTree]
  · rename_i name hn
    rw [if_neg (by rw [hn]; simp)]
    change ((new : HostnameMatcherNode _).getByIter _).or fallback = fallback
    rw [getByIter_new, none_or]

variable (f : List (Nat × Int16) → List (Nat × Int16))

theorem fallbackTree_getMut (host : String) : (fallbackTree fallback).getMut f host =
      if hostKey host = .malformed then none
      else fallback.map fun data => fallbackTree (some (f data)) := by
  unfold HostnameTree.getMut
  split
  · simp_all
  · rename_i ipv6 hKey
    rw [if_neg (by rw [hKey]; simp)]
    rfl
  · rename_i ipv4 hKey
    rw [if_neg (by rw [hKey]; simp)]
    rfl
  · rename_i name hn
    rw [if_neg (by rw [hn]; simp)]
    have hNew : (fallbackTree fallback).host.getMut f name = none := getMutByIter_new f _
    rw [hNew]
    rfl

theorem registerHostname_fallbackTree (idx : Nat × Int16) (hostname : String) :
    registerHostname (fallbackTree fallback) idx hostname =
      fallbackTree (some
        (if hostKey hostname = .malformed then [idx] else fallback.getD [] ++ [idx])) := by
  unfold registerHostname
  rw [fallbackTree_getMut]
  by_cases hKey : hostKey hostname = .malformed
  · rw [if_pos hKey, if_pos hKey]
    rfl
  · rw [if_neg hKey, if_neg hKey]
    cases fallback <;> rfl

/-- The registrations that are kept: a malformed pattern drops all earlier ones. -/
def liveRegistrations (regs : List ((Nat × Int16) × String)) : List ((Nat × Int16) × String) :=
  regs.foldl (fun kept reg => if hostKey reg.2 = .malformed then [reg] else kept ++ [reg]) []

/-- The fallback for a list of kept registrations. -/
def fallbackOf (kept : List ((Nat × Int16) × String)) : Option (List (Nat × Int16)) :=
  if kept = [] then none else some (kept.map Prod.fst)

theorem foldl_registerHostname (regs kept : List ((Nat × Int16) × String)) :
    regs.foldl (fun tree reg => registerHostname tree reg.1 reg.2)
        (fallbackTree (fallbackOf kept)) =
      fallbackTree (fallbackOf (regs.foldl
        (fun kept reg => if hostKey reg.2 = .malformed then [reg] else kept ++ [reg]) kept)) := by
  induction regs generalizing kept with
  | nil => rfl
  | cons reg regs ih =>
    rw [foldl_cons, foldl_cons, registerHostname_fallbackTree, ← ih]
    by_cases hKey : hostKey reg.2 = .malformed
    · simp [hKey, fallbackOf]
    · rw [if_neg hKey, if_neg hKey]
      by_cases hk : kept = []
      · simp [hk, fallbackOf]
      · simp [hk, fallbackOf]

/-- The kept registrations are the live ones. -/
theorem mem_liveRegistrations_iff (regs : List ((Nat × Int16) × String))
    (reg : (Nat × Int16) × String) : reg ∈ liveRegistrations regs ↔ Live regs reg := by
  -- from the end: the last registration decides whether the earlier ones are kept
  induction regs using reverseRecOn with
  | nil => simp [liveRegistrations, Live]
  | append_singleton regs last ih =>
    have hs : liveRegistrations (regs ++ [last]) =
        if hostKey last.2 = .malformed then [last] else liveRegistrations regs ++ [last] := by
      simp [liveRegistrations, foldl_append]
    rw [hs]
    constructor
    · intro h
      by_cases hKey : hostKey last.2 = .malformed
      · rw [if_pos hKey, mem_singleton] at h
        exact ⟨regs, [], by rw [h], by simp⟩
      · rw [if_neg hKey, mem_append, mem_singleton] at h
        rcases h with h | h
        · obtain ⟨earlier, later, rfl, hl⟩ := ih.mp h
          refine ⟨earlier, later ++ [last], by simp, ?_⟩
          intro r hr
          rcases mem_append.mp hr with hr | hr
          · exact hl r hr
          · rw [mem_singleton.mp hr]
            exact hKey
        · exact ⟨regs, [], by rw [h], by simp⟩
    · rintro ⟨earlier, later, hRegs, hl⟩
      rcases eq_nil_or_concat later with rfl | ⟨init, final, rfl⟩
      · obtain ⟨rfl, hLast⟩ := append_inj' hRegs rfl
        obtain rfl := (cons.inj hLast).1
        split <;> simp
      · rw [concat_eq_append, ← cons_append, ← append_assoc] at hRegs
        obtain ⟨rfl, hLast⟩ := append_inj' hRegs rfl
        obtain rfl := (cons.inj hLast).1
        have hKey : hostKey last.2 ≠ .malformed := hl last (by simp)
        rw [if_neg hKey, mem_append]
        left
        refine ih.mpr ⟨earlier, init, rfl, ?_⟩
        intro r hr
        exact hl r (by simp [hr])

theorem iterMutForEach_fallbackTree :
    (fallbackTree fallback).iterMutForEach f = fallbackTree (fallback.map f) := by
  cases fallback <;> rfl

variable (sort : SortUnstable)

theorem createGatewayRouter_hostnameTree
    (routes : List (HttpRoute Regex X Out)) : (createGatewayRouter sort routes).hostnameTree =
      fallbackTree ((fallbackOf (liveRegistrations (registrations 0 routes))).map
        (sort.byKey fun entry : Nat × Int16 => -entry.2)) := by
  change (registerRoutes 0 routes .new).iterMutForEach _ = _
  rw [registerRoutes_eq_foldl]
  have hNew : (HostnameTree.new : HostnameTree (List (Nat × Int16))) =
      fallbackTree (fallbackOf []) := rfl
  rw [hNew, foldl_registerHostname, iterMutForEach_fallbackTree]
  rfl

theorem mem_considered_iff (routes : List (HttpRoute Regex X Out)) (host : String) (i : Nat) :
    i ∈ considered sort routes host ↔ hostKey host ≠ .malformed ∧ LiveRoute routes i := by
  unfold considered LiveRoute
  rw [createGatewayRouter_hostnameTree, fallbackTree_get]
  simp only [← mem_liveRegistrations_iff]
  by_cases hKey : hostKey host = .malformed
  · simp [hKey]
  · rw [if_neg hKey, fallbackOf]
    by_cases hk : liveRegistrations (registrations 0 routes) = []
    · simp [hk]
    · rw [if_neg hk]
      simp only [map_some, getD_some, hKey, ne_eq, not_false_iff, true_and]
      rw [((sort.perm _ _).map Prod.fst).mem_iff]
      simp

/-! ## Selection -/

variable [RegexEngine Regex] {stx : UriSyntax}

/-- A rule found for a route carries the route's number. -/
theorem routeRules_found {name : String} {routeIndex : Nat}
    {req req' : SgRequest Regex X} {rule : Nat}
    {rules : List (Option (List (HttpRouteMatch Regex)))} {i j : Nat}
    (h : routeRules stx name routeIndex req rule rules = some (.found (i, j), req')) :
    i = routeIndex := by
  induction rules generalizing rule with
  | nil => simp [routeRules] at h
  | cons ms rules ih =>
    cases ms with
    | none =>
      simp only [routeRules, some.injEq, Prod.mk.injEq, RouteResult.found.injEq] at h
      exact h.1.1.symm
    | some ms =>
      simp only [routeRules] at h
      split at h
      · split at h
        · simp only [some.injEq, Prod.mk.injEq, RouteResult.found.injEq] at h
          exact h.1.1.symm
        · simp at h
      · exact ih h

/-- The route that is found is one of those offered. -/
theorem routeIndices_found {routers : List (HttpRouter Regex)}
    {req : SgRequest Regex X} {indices : List (Nat × Int16)} {i j : Nat}
    (h : (routeIndices stx routers req indices).1 = .found (i, j)) : i ∈ indices.map Prod.fst := by
  induction indices with
  | nil => simp [routeIndices] at h
  | cons entry indices ih =>
    simp only [routeIndices] at h
    split at h
    · simp at h
    · split at h
      · rename_i result hr
        obtain ⟨res, req'⟩ := result
        subst h
        simp [routeRules_found hr]
      · exact mem_cons_of_mem _ (ih h)

theorem route_found_mem_considered {sort : SortUnstable} {req : SgRequest Regex X} {host : String}
    {i j : Nat}
    (hh : routingHost req = some host)
    (h : ((createGatewayRouter sort routes).route stx req).1 = .found (i, j)) :
    i ∈ considered sort routes host := by
  unfold GatewayRouter.route at h
  rw [hh] at h
  simp only at h
  split at h
  · simp at h
  · rename_i indices hGet
    rw [considered, hGet]
    exact routeIndices_found h

/-- The intended filtering by host holds for a host exactly when it has nothing
to filter: every live route accepts the host and no capturing route was lost. -/
theorem hostnameFiltering_iff (stx : UriSyntax)
    (routes : List (HttpRoute Regex X Out)) (host : String) :
    HostnameFiltering sort stx routes host ↔ FilteringIsVacuous routes host := by
  constructor
  · intro h
    constructor
    · intro i route hr hl hKey
      obtain ⟨route', hr', hAccepts⟩ :=
        h.sound i ((mem_considered_iff sort routes host i).mpr ⟨hKey, hl⟩)
      rw [hr] at hr'
      rw [some.inj hr']
      exact hAccepts
    · intro i route hr hc
      exact (mem_considered_iff sort routes host i).mp (h.complete i route hr hc)
  · rintro ⟨hs, hComplete⟩
    have ha : ∀ i ∈ considered sort routes host,
        ∃ route, routes[i]? = some route ∧ route.Accepts host := by
      intro i hi
      obtain ⟨hKey, hl⟩ := (mem_considered_iff sort routes host i).mp hi
      obtain ⟨reg, hReg, hIdx⟩ := hl
      obtain ⟨earlier, later, hRegs, hLater⟩ := hReg
      have hMem : reg ∈ registrations 0 routes := by
        rw [hRegs]
        simp
      obtain ⟨k, route, hr, hk, -⟩ := exists_route_of_mem_registrations hMem
      have hik : i = k := by rw [← hIdx, hk, Nat.zero_add]
      subst hik
      exact ⟨route, hr, hs i route hr ⟨reg, ⟨earlier, later, hRegs, hLater⟩, hIdx⟩ hKey⟩
    exact
      { sound := ha
        complete := fun i route hr hc =>
          (mem_considered_iff sort routes host i).mpr (hComplete i route hr hc)
        selected := fun _ i _ hh hf =>
          ha i (route_found_mem_considered hh hf) }

end Routes

/-- Insertion sort, which also keeps the order of equal keys. -/
def insertionSortUnstable : SortUnstable where
  byKey key xs := xs.insertionSort fun x y => key x ≤ key y
  perm key xs := perm_insertionSort _ xs
  sorted key xs := by
    have hTotal : Std.Total fun x y => key x ≤ key y := ⟨fun x y => Int16.le_total _ _⟩
    have hTrans : IsTrans _ fun x y => key x ≤ key y := ⟨fun x y z => Int16.le_trans⟩
    exact pairwise_insertionSort _ xs

/-- A route for one host, without rules. -/
def routeFor (hostname : String) : HttpRoute LiteralRegex Unit Unit where
  name := hostname
  hostnames := [hostname]
  plugins := []
  rules := []
  priority := 1

/-- With a route for `a.com` and one for `b.com`, the former is considered for
requests to `b.com`. -/
theorem routeFor_not_filtered :
    ¬ HostnameFiltering insertionSortUnstable plainSyntax
      [routeFor "a.com", routeFor "b.com"] "b.com" := by
  intro h
  have hc : 0 ∈ considered insertionSortUnstable [routeFor "a.com", routeFor "b.com"] "b.com" := by
    rw [mem_considered_iff]
    refine ⟨by decide, ((0, 1), "a.com"), ⟨[], [((1, 1), "b.com")], rfl, ?_⟩, rfl⟩
    intro r hr
    rw [mem_singleton.mp hr]
    decide
  obtain ⟨route, hRoute, ha⟩ := h.sound 0 hc
  obtain rfl : routeFor "a.com" = route := some.inj hRoute
  rcases ha with he | ⟨pattern, hMem, hCovers⟩
  · exact absurd he (by simp [routeFor])
  · rw [mem_singleton.mp hMem] at hCovers
    exact absurd hCovers (by decide)

end Spacegate.Kernel
