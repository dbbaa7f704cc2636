import Spacegate.Kernel.RewritePath

/-!
# Header rewriting and the whole rewrite

The headers of a match are rewritten in a loop, each turn looking at the first
value of its name as the turns before left it.  An `Exact` replacement is made
only where it is the value already, so what the loop does to a header is
determined by the `Regular` matchers of its name (`LeadsTo`), and it never
reaches a value that is not the first of its name.
-/

namespace Spacegate.Kernel

open HeaderMap List

variable {Regex ext : Type} [RegexEngine Regex]

/-! ## The headers -/

namespace SgHttpHeaderMatchRewrite

variable (m : SgHttpHeaderMatchRewrite Regex)

/-- The configured replacement. -/
def replacement : Option HeaderValue :=
  match m.policy with
  | .exact _ replace => replace
  | .regular _ replace => replace.map fun s => ⟨strBytes s⟩

/-- The position of the header that the matcher matches: the first value of the
name, or the first one whose text the expression matches. -/
def matchedIndex (headers : HeaderMap) : Option Nat :=
  match m.policy with
  | .exact _ _ => HeaderMap.firstIndex headers m.headerName
  | .regular re _ =>
    headers.findIdx? fun field =>
      field.1 == m.headerName && field.2.toStr.any (RegexEngine.isMatch re)

/-- What a `Regular` matcher of the name puts in the place of a value. -/
def substitute (name : String) (value : HeaderValue) : Option HeaderValue :=
  match m.policy with
  | .regular re (some replace) =>
    if m.headerName = name ∧ value.toStr.any (RegexEngine.isMatch re) then
      HeaderValue.fromStr replace
    else
      none
  | _ => none

end SgHttpHeaderMatchRewrite

open SgHttpHeaderMatchRewrite

/-- The `Regular` replacements of a name, followed one after the other from a
first value, end in the given value. -/
def LeadsTo (name : String) : List (SgHttpHeaderMatchRewrite Regex) → HeaderValue → HeaderValue →
    Prop
  | [], value, final => value = final
  | m :: ms, value, final => LeadsTo name ms ((m.substitute name value).getD value) final

variable (ms : List (SgHttpHeaderMatchRewrite Regex)) (req : Request ext)

/-- The replacement of a matched header was carried out. -/
def HeadersDone (headers' : HeaderMap) : Prop :=
  ∀ m ∈ ms, m.matchRequest req = true → ∀ replace, m.replacement = some replace →
    ∃ i, m.matchedIndex req.headers = some i ∧ headers'[i]? = some (m.headerName, replace)

/-- When the replacements of the headers are carried out: where the matched
header is the first of its name, the `Regular` replacements lead from its value
to the configured one, and elsewhere it has this value already. -/
def HeadersEffective : Prop :=
  ∀ m ∈ ms, m.matchRequest req = true → ∀ replace, m.replacement = some replace →
    ∃ i value, m.matchedIndex req.headers = some i ∧ req.headers[i]? = some (m.headerName, value) ∧
      if HeaderMap.firstIndex req.headers m.headerName = some i then
        LeadsTo m.headerName ms value replace
      else
        value = replace

variable {headers : HeaderMap} {value : HeaderValue} {m : SgHttpHeaderMatchRewrite Regex} {i : Nat}

theorem firstIndex_ne_of_getElem? {name name' : String}
    (h : headers[i]? = some (name, value)) (hn : name ≠ name') :
    firstIndex headers name' ≠ some i := by
  intro hi
  obtain ⟨hLt, hh, -⟩ := findIdx?_eq_some_iff_getElem.mp hi
  rw [getElem?_eq_getElem hLt, Option.some.injEq] at h
  rw [h] at hh
  exact hn (by simpa using hh)

theorem rewriteHeader_getElem?_of_ne (m : SgHttpHeaderMatchRewrite Regex)
    (h : firstIndex headers m.headerName ≠ some i) :
    (rewriteHeader headers m)[i]? = headers[i]? := by
  unfold rewriteHeader
  split
  · rw [setFirst_getElem?, if_neg h]
  · rfl

variable {name : String}

theorem substitute_of_ne (h : m.headerName ≠ name) (value : HeaderValue) :
    m.substitute name value = none := by
  unfold substitute
  split
  · rw [if_neg fun hb => h hb.1]
  · rfl

/-- The rewritten value is the substituted one.  An `Exact` replacement is made
only where it is the value already. -/
theorem rewrite_getD (h : get headers m.headerName = some value) :
    (m.rewrite headers).getD value = (m.substitute m.headerName value).getD value := by
  unfold rewrite substitute
  rw [h]
  cases hStr : value.toStr with
  | none =>
    cases hp : m.policy with
    | exact header replace => simp [hStr]
    | regular re replace => cases replace <;> simp [hStr]
  | some s =>
    cases hp : m.policy with
    | exact header replace =>
      cases replace with
      | none => simp
      | some replace =>
        -- the comparison is with the replacement, which is thus put for itself
        by_cases hs : strBytes s = replace.bytes
        · have hv : replace = value := by
            rw [HeaderValue.strBytes_of_toStr hStr] at hs
            cases replace
            cases value
            simpa using hs.symm
          simp [hStr, hs, hv]
        · simp [hStr, hs]
    | regular re replace =>
      cases replace with
      | none => simp
      | some replace => simp [hStr]

/-- One turn of the loop puts the substituted value in the first place of the
matcher's name and changes nothing else. -/
theorem rewriteHeader_getElem? (m : SgHttpHeaderMatchRewrite Regex)
    (h : headers[i]? = some (name, value)) : (rewriteHeader headers m)[i]? =
      some (name, if firstIndex headers name = some i then
        (m.substitute name value).getD value else value) := by
  by_cases hf : firstIndex headers name = some i
  · rw [if_pos hf]
    by_cases hn : m.headerName = name
    · subst hn
      have hGet : get headers m.headerName = some value :=
        (get_eq_some_iff _ _ _).mpr ⟨i, hf, h⟩
      have hv := rewrite_getD hGet
      unfold rewriteHeader
      cases hr : m.rewrite headers with
      | none =>
        rw [hr] at hv
        rw [← hv]
        exact h
      | some replace =>
        rw [hr, Option.getD_some] at hv
        simp [setFirst_getElem?, hf, hv]
    · have ho : firstIndex headers m.headerName ≠ some i :=
        firstIndex_ne_of_getElem? h (Ne.symm hn)
      rw [substitute_of_ne hn, Option.getD_none, rewriteHeader_getElem?_of_ne m ho, h]
  · rw [if_neg hf]
    have ho : firstIndex headers m.headerName ≠ some i := by
      intro hi
      by_cases hn : m.headerName = name
      · rw [hn] at hi
        exact hf hi
      · exact firstIndex_ne_of_getElem? h (Ne.symm hn) hi
    rw [rewriteHeader_getElem?_of_ne m ho, h]

theorem firstIndex_rewriteHeader (m : SgHttpHeaderMatchRewrite Regex) (headers : HeaderMap)
    (name : String) : firstIndex (rewriteHeader headers m) name = firstIndex headers name := by
  unfold rewriteHeader
  split
  · exact firstIndex_setFirst _ _ _ _
  · rfl

theorem foldl_rewriteHeader_getElem?_iff
    (h : headers[i]? = some (name, value)) (final : HeaderValue) :
    (ms.foldl rewriteHeader headers)[i]? = some (name, final) ↔
      if firstIndex headers name = some i then LeadsTo name ms value final
      else value = final := by
  induction ms generalizing headers value with
  | nil => simp [h, LeadsTo]
  | cons m ms ih =>
    have hs := rewriteHeader_getElem? m h
    rw [foldl_cons, ih hs, firstIndex_rewriteHeader]
    by_cases hf : firstIndex headers name = some i
    · simp [hf, LeadsTo]
    · simp [hf]

/-- The matched header is one of the matcher's name. -/
theorem exists_of_matchedIndex (h : m.matchedIndex headers = some i) :
    ∃ value, headers[i]? = some (m.headerName, value) := by
  have hn : ∀ p : String × HeaderValue → Bool, headers.findIdx? p = some i →
      (∀ field, p field = true → field.1 = m.headerName) →
      ∃ value, headers[i]? = some (m.headerName, value) := by
    intro p hIdx hp
    obtain ⟨hLt, hh, -⟩ := findIdx?_eq_some_iff_getElem.mp hIdx
    refine ⟨headers[i].2, ?_⟩
    rw [getElem?_eq_getElem hLt, ← hp _ hh]
  unfold matchedIndex at h
  split at h
  · exact hn _ h fun field hf => by simpa using hf
  · refine hn _ h fun field hf => ?_
    rw [Bool.and_eq_true] at hf
    simpa using hf.1

theorem headersDone_iff_effective :
    HeadersDone ms req (ms.foldl rewriteHeader req.headers) ↔ HeadersEffective ms req := by
  constructor
  · intro h m hm hMatch replace hr
    obtain ⟨i, hi, hf⟩ := h m hm hMatch replace hr
    obtain ⟨value, hv⟩ := exists_of_matchedIndex hi
    exact ⟨i, value, hi, hv, (foldl_rewriteHeader_getElem?_iff ms hv replace).mp hf⟩
  · intro h m hm hMatch replace hr
    obtain ⟨i, value, hi, hv, hl⟩ := h m hm hMatch replace hr
    exact ⟨i, hi, (foldl_rewriteHeader_getElem?_iff ms hv replace).mpr hl⟩

/-! ## The whole rewrite -/

namespace HttpRouteMatch

variable (m : HttpRouteMatch Regex)

/-- Every configured replacement of a matching condition was carried out. -/
def RewriteDone (req req' : Request ext) : Prop :=
  (∀ path, m.path = some path → path.Done req.uri req'.uri) ∧
    HeadersDone (m.header.getD []) req req'.headers

/-- The condition on the match and the request under which this happens. -/
def RewriteEffective (req : Request ext) : Prop :=
  (∀ path, m.path = some path → path.Effective req.uri) ∧ HeadersEffective (m.header.getD []) req

theorem rewrite_ok {stx : UriSyntax} {m : HttpRouteMatch Regex} {req req' : Request ext}
    (h : m.rewrite stx req = (.ok (), req')) :
    req'.headers = (m.header.getD []).foldl rewriteHeader req.headers ∧
      ∀ path, m.path = some path → rewritePath stx req.uri path = .ok req'.uri := by
  unfold rewrite at h
  cases hp : m.path with
  | none =>
    simp only [hp, Prod.mk.injEq, true_and] at h
    subst h
    simp
  | some path =>
    simp only [hp] at h
    cases hr : rewritePath stx req.uri path with
    | ok uri =>
      simp only [hr, Prod.mk.injEq, true_and] at h
      subst h
      simp [hr]
    | error e => simp [hr] at h

/-- A matching request is rewritten as configured exactly when the configured
replacements are effective on it. -/
theorem rewriteDone_iff_effective (stx : UriSyntax) (m : HttpRouteMatch Regex)
    (req req' : Request ext) (hMatch : m.matchRequest req = true)
    (hRewrite : m.rewrite stx req = (.ok (), req')) :
    m.RewriteDone req req' ↔ m.RewriteEffective req := by
  obtain ⟨hh, hUri⟩ := rewrite_ok hRewrite
  have hph := ((matchRequest_iff m req).mp hMatch).1
  unfold RewriteDone RewriteEffective
  rw [hh, headersDone_iff_effective]
  apply and_congr_left'
  apply forall_congr'
  intro path
  apply forall_congr'
  intro hp
  exact HttpPathMatchRewrite.done_iff_effective (hph path hp) (hUri path hp)

/-- A request in origin form. -/
def getRequest (target : String) (headers : HeaderMap) : Request Unit where
  method := "GET"
  uri := .origin (cutPathAndQuery target)
  version := .http11
  headers := headers
  extensions := ()

/-- A prefix and a header with replacements. -/
def betaRewrite : HttpRouteMatch LiteralRegex where
  path := some (.pathPrefix "/api" (some "/v1"))
  header := some [⟨"x-stage", .regular ⟨"beta"⟩ (some "prod")⟩]
  query := none
  method := none

variable {req}

theorem betaRewrite_done :
    let req := getRequest "/api/users?id=1" [("x-stage", ⟨strBytes "beta"⟩)]
    let req' := (betaRewrite.rewrite plainSyntax req).2
    betaRewrite.matchRequest req = true ∧
      betaRewrite.rewrite plainSyntax req = (.ok (), req') ∧
      (betaRewrite.RewriteDone req req' ↔ betaRewrite.RewriteEffective req) :=
  ⟨by decide, rfl, rewriteDone_iff_effective plainSyntax betaRewrite _ _ (by decide) rfl⟩

/-- An exact path with a replacement. -/
def exactRewrite : HttpRouteMatch LiteralRegex where
  path := some (.exact "/a" (some "/b"))
  header := none
  query := none
  method := none

/-- The request for `/a` matches, and its rewrite succeeds without touching the
path. -/
theorem exactRewrite_not_done :
    exactRewrite.matchRequest (getRequest "/a" []) = true ∧
      exactRewrite.rewrite plainSyntax (getRequest "/a" []) = (.ok (), getRequest "/a" []) ∧
      ¬ exactRewrite.RewriteDone (getRequest "/a" []) (getRequest "/a" []) := by
  refine ⟨by decide, rfl, ?_⟩
  intro h
  have hp : (getRequest "/a" []).uri.path = "/b" := (h.1 _ rfl).1
  exact absurd hp (by decide)

end HttpRouteMatch

end Spacegate.Kernel
