import Spacegate.Kernel.RewriteRequest
import Spacegate.Kernel.RouteSelection

/-!
# The request that the fallback gets

`route` works on the request itself.  A match that was found puts the name of its route and itself
on the request and replaces headers before the path is rewritten, and when the new path is no
path, `route` returns `None` with all of this left behind.  Nothing is left exactly when the match
that is found first does not break the path, or when its marks and its headers were on the request
already (`fallbackUnchanged_iff`).
-/

namespace Spacegate.Kernel

variable {Regex X : Type} [RegexEngine Regex]

/-! ## What is selected -/

/-- The first rule that accepts a request: the match that does, or `none` inside for a rule
without matches. -/
def selectRule (req : SgRequest Regex X) (rules : List (Option (List (HttpRouteMatch Regex)))) :
    Option (Option (HttpRouteMatch Regex)) :=
  rules.findSome? fun
    | none => some none
    | some ms => (ms.find? (·.matchRequest req)).map some

/-- The first selection among the routes of a list, with the name of the route.  The search does
not go past a number that belongs to no route. -/
def selectIn (routers : List (HttpRouter Regex)) (req : SgRequest Regex X) :
    List (Nat × Int16) → Option (String × Option (HttpRouteMatch Regex))
  | [] => none
  | (routeIndex, _) :: indices =>
    match routers[routeIndex]? with
    | none => none
    | some router =>
      match selectRule req router.rules with
      | some selected => some (router.name, selected)
      | none => selectIn routers req indices

/-- What a router selects for a request. -/
def GatewayRouter.selection (router : GatewayRouter Regex) (req : SgRequest Regex X) :
    Option (String × Option (HttpRouteMatch Regex)) :=
  ((routingHost req).bind router.hostnameTree.get).bind (selectIn router.routers req)

/-- The extensions with the marks of a route and a match. -/
def marked (name : String) (m : HttpRouteMatch Regex) (ext : Extensions Regex X) :
    Extensions Regex X :=
  { insertRouteName name ext with matchedSgRouter := some m }

/-- The match replaces the path of the target by a text that is no path. -/
def HttpRouteMatch.BreaksPath (stx : UriSyntax) (m : HttpRouteMatch Regex) (uri : Uri) : Prop :=
  ∃ path pq newPath, m.path = some path ∧ uri.pathAndQuery = some pq ∧
    path.rewrite pq.path = some newPath ∧
    stx.pathAndQueryOk (pathAndQueryText newPath pq.query) = false

/-! ## What is left behind -/

section Search

variable (stx : UriSyntax) (name : String) (routeIndex : Nat) (req : SgRequest Regex X)

/-- The outcome of a selected match. -/
def selectedResult (rule : Nat) (m : HttpRouteMatch Regex) : RouteResult × SgRequest Regex X :=
  match selectMatch stx name m req with
  | (.ok (), req) => (.found (routeIndex, rule), req)
  | (.error _, req) => (.notFound, req)

/-- How a search for what was selected ends. -/
def EndsWith : Option (String × Option (HttpRouteMatch Regex)) →
    RouteResult × SgRequest Regex X → Prop
  | none, outcome => outcome.2 = req
  | some (_, none), outcome => outcome.1 ≠ .notFound
  | some (name, some m), outcome => ∃ i j, outcome = selectedResult stx name i req j m

variable {rules : List (Option (List (HttpRouteMatch Regex)))}

theorem routeRules_of_selectRule (rule : Nat) {selected : Option (HttpRouteMatch Regex)}
    (h : selectRule req rules = some selected) :
    ∃ outcome, routeRules stx name routeIndex req rule rules = some outcome ∧
      EndsWith stx req (some (name, selected)) outcome := by
  induction rules generalizing rule with
  | nil => exact absurd h (by simp [selectRule])
  | cons ms rules ih =>
    cases ms with
    | none =>
      obtain rfl : none = selected := Option.some.inj h
      exact ⟨_, rfl, by simp [EndsWith]⟩
    | some ms =>
      cases hf : ms.find? (·.matchRequest req) with
      | some m =>
        obtain rfl : some m = selected := by simpa [selectRule, hf] using h
        refine ⟨selectedResult stx name routeIndex req rule m, ?_, routeIndex, rule, rfl⟩
        simp only [routeRules, hf, selectedResult]
        rcases selectMatch stx name m req with ⟨_ | _, req'⟩ <;> rfl
      | none =>
        have hr : selectRule req rules = some selected := by
          simpa [selectRule, hf] using h
        simpa only [routeRules, hf] using ih (rule + 1) hr

theorem routeRules_of_selectRule_none (rule : Nat) (h : selectRule req rules = none) :
    routeRules stx name routeIndex req rule rules = none := by
  rw [routeRules_eq_none_iff, List.any_eq_false]
  intro ms hMs
  have hn := List.findSome?_eq_none_iff.mp h ms hMs
  cases ms with
  | none => exact absurd hn (by simp)
  | some ms =>
    simpa [ruleAccepts] using hn

theorem routeIndices_endsWith (routers : List (HttpRouter Regex)) (indices : List (Nat × Int16)) :
    EndsWith stx req (selectIn routers req indices) (routeIndices stx routers req indices) := by
  induction indices with
  | nil => rfl
  | cons entry indices ih =>
    obtain ⟨routeIndex, priority⟩ := entry
    rw [selectIn, routeIndices]
    cases routers[routeIndex]? with
    | none => rfl
    | some router =>
      simp only
      cases hs : selectRule req router.rules with
      | none =>
        rw [routeRules_of_selectRule_none stx router.name routeIndex req 0 hs]
        exact ih
      | some selected =>
        obtain ⟨outcome, hr, he⟩ := routeRules_of_selectRule stx router.name routeIndex req 0 hs
        rw [hr]
        exact he

theorem route_endsWith (router : GatewayRouter Regex) :
    EndsWith stx req (router.selection req) (router.route stx req) := by
  unfold GatewayRouter.route GatewayRouter.selection
  cases routingHost req with
  | none => rfl
  | some host =>
    simp only [Option.bind_some]
    cases router.hostnameTree.get host with
    | none => rfl
    | some indices => exact routeIndices_endsWith stx req router.routers indices

end Search

variable (stx : UriSyntax)

/-- A rewrite fails exactly when it breaks the path, and then the headers are replaced already. -/
theorem rewrite_error_iff (m : HttpRouteMatch Regex) (req : SgRequest Regex X) :
    (∃ e, (m.rewrite stx req).1 = .error e) ↔ m.BreaksPath stx req.uri := by
  unfold HttpRouteMatch.rewrite HttpRouteMatch.BreaksPath
  cases hp : m.path with
  | none => simp
  | some path =>
    simp only [rewritePath, Option.some.injEq, exists_and_left, exists_eq_left']
    cases hPq : req.uri.pathAndQuery with
    | none => simp
    | some pq =>
      cases hr : path.rewrite pq.path with
      | none => simp [hr]
      | some newPath =>
        by_cases hOk : stx.pathAndQueryOk (pathAndQueryText newPath pq.query) = true
        · simp [hr, hOk, UriSyntax.parsePathAndQuery, fromParts_eq_withPathAndQuery hPq]
        · simp [hr, hOk, UriSyntax.parsePathAndQuery]

theorem rewrite_error {stx : UriSyntax} {m : HttpRouteMatch Regex} {req : SgRequest Regex X}
    {e : RewriteError} (h : (m.rewrite stx req).1 = .error e) : (m.rewrite stx req).2 =
      { req with headers := (m.header.getD []).foldl rewriteHeader req.headers } := by
  unfold HttpRouteMatch.rewrite at h ⊢
  cases hp : m.path with
  | none => simp [hp] at h
  | some path =>
    simp only [hp] at h ⊢
    cases hr : rewritePath stx req.uri path with
    | ok uri => simp [hr] at h
    | error e => rfl

variable (router : GatewayRouter Regex) (req : SgRequest Regex X)

/-- When no route takes a request, the fallback gets it with the method, the target, the headers
and the extensions that it came with. -/
def FallbackUnchanged : Prop :=
  ∀ req', router.route stx req = (.notFound, req') →
    req'.method = req.method ∧ req'.uri = req.uri ∧ req'.headers = req.headers ∧
      req'.extensions = req.extensions

/-- The match that is selected, if it breaks the path, finds its marks and its headers on the
request. -/
def LeavesNothing : Prop :=
  ∀ name m, router.selection req = some (name, some m) → m.BreaksPath stx req.uri →
    (m.header.getD []).foldl rewriteHeader req.headers = req.headers ∧
      marked name m req.extensions = req.extensions

/-- The fallback gets every request as it came exactly when the match that is selected for the
request does not break its path, or has nothing to change on it. -/
theorem fallbackUnchanged_iff :
    FallbackUnchanged stx router req ↔ LeavesNothing stx router req := by
  have he := route_endsWith stx req router
  unfold FallbackUnchanged LeavesNothing
  rcases hs : router.selection req with _ | ⟨name, _ | m⟩
  · rw [hs] at he
    refine iff_of_true ?_ (by simp)
    intro req' hr
    rw [hr] at he
    obtain rfl : req' = req := he
    exact ⟨rfl, rfl, rfl, rfl⟩
  · rw [hs] at he
    refine iff_of_true ?_ (by simp)
    intro req' hr
    exact absurd (by rw [hr]) he
  · rw [hs] at he
    obtain ⟨i, j, hr⟩ := he
    have hError := rewrite_error_iff stx m { req with extensions := marked name m req.extensions }
    by_cases hb : m.BreaksPath stx req.uri
    · obtain ⟨e, hError⟩ := hError.mpr hb
      have hl : selectMatch stx name m req = (.error e, { req with
            headers := (m.header.getD []).foldl rewriteHeader req.headers
            extensions := marked name m req.extensions }) :=
        Prod.ext hError (rewrite_error hError)
      rw [hr, selectedResult, hl]
      constructor
      · intro h name' m' hSame _
        obtain ⟨rfl, rfl⟩ : name = name' ∧ m = m' := by simpa using hSame
        obtain ⟨-, -, hh, hm⟩ := h _ rfl
        exact ⟨hh, hm⟩
      · intro h req' ho
        obtain ⟨hh, hm⟩ := h name m rfl hb
        rw [← (Prod.mk.inj ho).2]
        exact ⟨rfl, rfl, hh, hm⟩
    · -- the rewrite succeeds, and a rule is returned
      have hOk : (selectMatch stx name m req).1 = .ok () := by
        cases hRewrite : (selectMatch stx name m req).1 with
        | ok => rfl
        | error e => exact absurd (hError.mp ⟨e, hRewrite⟩) hb
      refine iff_of_true ?_ ?_
      · intro req' ho
        rw [hr, selectedResult] at ho
        rcases hSelect : selectMatch stx name m req with ⟨_ | _, left⟩
        · rw [hSelect] at hOk
          exact absurd hOk (by simp)
        · rw [hSelect] at ho
          exact absurd ho (by simp)
      · intro name' m' hSame hb'
        obtain ⟨rfl, rfl⟩ : name = name' ∧ m = m' := by simpa using hSame
        exact absurd hb' hb

/-- A route whose match rewrites the path `/api` to a text with a space, and `beta` to `prod` in a
header. -/
def brokenRewrite : HttpRoute LiteralRegex Unit Unit where
  name := "broken"
  hostnames := []
  plugins := []
  rules :=
    [{ «match» := some
         [{ path := some (.pathPrefix "/api" (some "/a b"))
            header := some [⟨"x-stage", .regular ⟨"beta"⟩ (some "prod")⟩]
            query := none
            method := none }]
       plugins := [], timeout := .disabled, backends := [], balancePolicy := .ipHash }]
  priority := 1

/-- The plain syntax without spaces in paths. -/
def spacelessSyntax : UriSyntax :=
  { plainSyntax with pathAndQueryOk := fun s => !s.toList.contains ' ' }

/-- The request for `/api` goes to the fallback with the name of the route, the match and the new
header on it. -/
theorem brokenRewrite_changes_request :
    ¬ FallbackUnchanged spacelessSyntax (createGatewayRouter insertionSortUnstable [brokenRewrite])
      { plainRequest (.absolute "http" ⟨"a.com", "a.com", none⟩ (cutPathAndQuery "/api")) with
        headers := [("x-stage", ⟨strBytes "beta"⟩)] } := by
  intro h
  obtain ⟨-, -, hh, -⟩ := h _ rfl
  exact absurd hh (by decide)

end Spacegate.Kernel
