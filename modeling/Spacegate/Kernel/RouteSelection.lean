import Spacegate.Foundation.Traverse
import Spacegate.Kernel.HostnameRouting

/-!
# Which routes a request is offered to

What the rules of one route do with a request, and which of the registered routes are
tried, in terms of the routes alone and for any sort.
-/

namespace Spacegate.Kernel

open Foundation List

variable {Regex X Out : Type}

section Dispatch

variable [RegexEngine Regex]

/-! ## The rules of one route -/

/-- The rule has no matches, or one that the request meets. -/
def ruleAccepts (req : SgRequest Regex X) : Option (List (HttpRouteMatch Regex)) → Bool
  | none => true
  | some ms => ms.any (·.matchRequest req)

def HttpRoute.acceptsRequest (route : HttpRoute Regex X Out) (req : SgRequest Regex X) : Bool :=
  route.rules.any fun rule => ruleAccepts req rule.match

theorem rewrite_extensions (stx : UriSyntax) (m : HttpRouteMatch Regex) (req : SgRequest Regex X) :
    (m.rewrite stx req).2.extensions = req.extensions := by
  unfold HttpRouteMatch.rewrite
  simp only
  split
  · rfl
  · split <;> rfl

theorem selectMatch_routeName (stx : UriSyntax) (name : String) (m : HttpRouteMatch Regex)
    (req : SgRequest Regex X) :
    (selectMatch stx name m req).2.extensions.routeName = some name := by
  rw [selectMatch, rewrite_extensions]
  rfl

section Rules

variable (stx : UriSyntax) (name : String) (routeIndex : Nat) (req : SgRequest Regex X)

theorem routeRules_eq_none_iff (rule : Nat) (rules : List (Option (List (HttpRouteMatch Regex)))) :
    routeRules stx name routeIndex req rule rules = none ↔ rules.any (ruleAccepts req) = false := by
  induction rules generalizing rule with
  | nil => simp [routeRules]
  | cons ms rules ih =>
    cases ms with
    | none => simp [routeRules, ruleAccepts]
    | some ms =>
      simp only [routeRules, any_cons, ruleAccepts]
      cases hf : ms.find? (·.matchRequest req) with
      | none =>
        have hn : ms.any (·.matchRequest req) = false := by
          simpa [find?_eq_none] using hf
        simpa [hn] using ih (rule + 1)
      | some m =>
        have hAny : ms.any (·.matchRequest req) = true :=
          any_eq_true.mpr ⟨m, mem_of_find?_eq_some hf, by
            simpa using find?_some hf⟩
        simp only [hAny, Bool.true_or]
        split <;> simp

/-- What a route that has a rule for the request does: its name is put on the
request, and the first rule that accepts the request is found, unless the rewrite fails. -/
theorem routeRules_eq_some {rule : Nat} {rules : List (Option (List (HttpRouteMatch Regex)))}
    {result : RouteResult} {req' : SgRequest Regex X}
    (h : routeRules stx name routeIndex req rule rules = some (result, req')) :
    req'.extensions.routeName = some name ∧
      ∃ k ms, rules[k]? = some ms ∧ ruleAccepts req ms = true ∧
        (∀ k' < k, ∀ ms', rules[k']? = some ms' → ruleAccepts req ms' = false) ∧
        (result = .notFound ∨ result = .found (routeIndex, rule + k)) := by
  induction rules generalizing rule with
  | nil => simp [routeRules] at h
  | cons ms rules ih =>
    cases ms with
    | none =>
      obtain ⟨rfl, rfl⟩ := Prod.mk.inj (Option.some.inj h)
      exact ⟨rfl, 0, none, rfl, rfl, by simp, .inr rfl⟩
    | some ms =>
      simp only [routeRules] at h
      cases hf : ms.find? (·.matchRequest req) with
      | some m =>
        have hn := selectMatch_routeName stx name m req
        have ha : ruleAccepts req (some ms) = true :=
          any_eq_true.mpr ⟨m, mem_of_find?_eq_some hf, by
            simpa using find?_some hf⟩
        simp only [hf] at h
        split at h
        all_goals
          rename_i hs
          obtain ⟨rfl, rfl⟩ := Prod.mk.inj (Option.some.inj h)
          rw [hs] at hn
        · exact ⟨hn, 0, some ms, rfl, ha, by simp, .inr rfl⟩
        · -- a failing rewrite has named the route all the same
          exact ⟨hn, 0, some ms, rfl, ha, by simp, .inl rfl⟩
      | none =>
        simp only [hf] at h
        obtain ⟨hn, k, accepting, hRule, ha, he, hr⟩ := ih h
        refine ⟨hn, k + 1, accepting, hRule, ha, ?_, ?_⟩
        · intro k' hk' ms' hms'
          cases k' with
          | zero =>
            obtain rfl := Option.some.inj hms'
            simpa [ruleAccepts, find?_eq_none] using hf
          | succ k' => exact he k' (by omega) ms' hms'
        · rw [← Nat.add_assoc, Nat.add_right_comm]
          exact hr

end Rules

theorem toRouter_rules_any (route : HttpRoute Regex X Out) (req : SgRequest Regex X) :
    route.toRouter.rules.any (ruleAccepts req) = route.acceptsRequest req := by
  simp [HttpRoute.toRouter, HttpRoute.acceptsRequest, any_map, Function.comp_def]

end Dispatch

/-! ## The routes that are tried -/

/-- The live registrations in the order in which they are tried. -/
def offered (sort : SortUnstable) (routes : List (HttpRoute Regex X Out)) : List (Nat × Int16) :=
  sort.byKey (fun entry : Nat × Int16 => -entry.2)
    ((liveRegistrations (registrations 0 routes)).map Prod.fst)

variable {routes : List (HttpRoute Regex X Out)}

theorem mem_offered_iff {sort : SortUnstable} {entry : Nat × Int16} :
    entry ∈ offered sort routes ↔ ∃ reg, Live (registrations 0 routes) reg ∧ reg.1 = entry := by
  rw [offered, (sort.perm _ _).mem_iff, mem_map]
  simp [mem_liveRegistrations_iff]

theorem exists_route_of_mem_offered {sort : SortUnstable} {entry : Nat × Int16}
    (h : entry ∈ offered sort routes) :
    ∃ route, routes[entry.1]? = some route ∧ entry.2 = route.priority := by
  obtain ⟨reg, ⟨earlier, later, hRegs, -⟩, rfl⟩ := mem_offered_iff.mp h
  have hMem : reg ∈ registrations 0 routes := by
    rw [hRegs]
    simp
  obtain ⟨i, route, hr, hReg, -⟩ := exists_route_of_mem_registrations hMem
  rw [hReg, Nat.zero_add]
  exact ⟨route, hr, rfl⟩

/-! ## The services of the routes -/

theorem exists_services_getElem? {rt : Runtime Regex X Out} {route : HttpRoute Regex X Out}
    {services : List (List (Service Regex X Out))}
    (h : routes.mapM (HttpRoute.services rt) = some services) {i : Nat}
    (hr : routes[i]? = some route) :
    ∃ inner, services[i]? = some inner ∧ route.services rt = some inner := by
  obtain ⟨hLt, rfl⟩ := List.getElem?_eq_some_iff.mp hr
  have hAll := forall₂_of_mapM_some h
  have hLt' : i < services.length := hAll.length_eq ▸ hLt
  exact ⟨services[i], getElem?_eq_getElem hLt', hAll.get hLt hLt'⟩

end Spacegate.Kernel
