import Spacegate.Kernel.MatchConjunction

/-!
# Path rewriting

A path matcher may carry a replacement.  The matcher and the rewriter read the
same path but each with its own test, so a replacement that was configured is not
always made.  `Done` is what the replacement is meant to do to a request target
and `Effective` the condition on the target under which a rewrite that succeeds
does it: the two are equivalent for all three kinds of matcher.

The `Exact` arm compares the path with the replacement and therefore changes
nothing but the case of letters.  The other two arms always replace, and fail
only where the new text does not read back as one path.
-/

namespace Spacegate.Kernel

open Foundation.Text HttpPathMatchRewrite List Option

/-! ## Targets with a new path -/

/-- The text holds no character that ends a path. -/
def PathSafe (s : String) : Prop :=
  s.toList.all isPathChar = true

instance (s : String) : Decidable (PathSafe s) :=
  inferInstanceAs (Decidable (_ = true))

theorem pathSafe_iff (s : String) : PathSafe s ↔ ∀ c ∈ s.toList, c ≠ '?' ∧ c ≠ '#' := by
  simp [PathSafe, isPathChar]

theorem PathAndQuery.path_pathSafe (pq : PathAndQuery) : PathSafe pq.path := by
  rw [pathSafe_iff]
  intro c hc
  simp only [PathAndQuery.path] at hc
  split at hc
  · have hs : c = '/' := by simpa using hc
    rw [hs]
    decide
  · rw [String.toList_ofList] at hc
    have hq : c ≠ '?' := by simpa using mem_takeWhile_imp hc
    have hh : c ≠ '#' := by
      have hMem := (takeWhile_sublist _).subset hc
      simpa using all_eq_true.mp pq.data_clean c hMem
    exact ⟨hq, hh⟩

theorem PathAndQuery.path_ne_empty (pq : PathAndQuery) : pq.path ≠ "" := by
  simp only [PathAndQuery.path]
  split
  · decide
  · assumption

variable {pq : PathAndQuery} {path s : String}

theorem PathAndQuery.query_clean {query : String} (h : pq.query = some query) :
    ∀ c ∈ query.toList, c ≠ '#' := by
  intro c hc
  unfold PathAndQuery.query at h
  split at h
  · rename_i separator rest hd
    rw [← some.inj h, String.toList_ofList] at hc
    have hMem : c ∈ pq.data.toList := by
      apply (dropWhile_suffix (· != '?')).subset
      rw [hd]
      exact mem_cons_of_mem _ hc
    simpa using all_eq_true.mp pq.data_clean c hMem
  · simp at h

theorem Uri.path_pathSafe (uri : Uri) : PathSafe uri.path := by
  cases uri with
  | origin pq =>
    simp only [Uri.path]
    split
    · decide
    · exact pq.path_pathSafe
  | absolute scheme authority pq => exact pq.path_pathSafe
  | authorityForm authority => exact (by decide : PathSafe "")

/-- The target with another path and query; the authority form has none. -/
def Uri.withPathAndQuery (uri : Uri) (pq : PathAndQuery) : Uri :=
  match uri with
  | .origin _ => .origin pq
  | .absolute scheme authority _ => .absolute scheme authority pq
  | .authorityForm authority => .authorityForm authority

theorem fromParts_eq_withPathAndQuery {uri : Uri} (h : uri.pathAndQuery = some pq)
    (pq' : PathAndQuery) :
    Uri.fromParts uri.schemeStr uri.authority (some pq') = some (uri.withPathAndQuery pq') := by
  cases uri with
  | origin _ => rfl
  | absolute _ _ _ => rfl
  | authorityForm _ => simp [Uri.pathAndQuery] at h

variable (pq : PathAndQuery) (hp : PathSafe path)
include hp

/-- The text of a safe path and a query that comes from a target is taken as it
stands. -/
theorem cutPathAndQuery_data :
    (cutPathAndQuery (pathAndQueryText path pq.query)).data = pathAndQueryText path pq.query := by
  have hChars : ∀ c ∈ (pathAndQueryText path pq.query).toList, c ≠ '#' := by
    intro c hc
    cases hq : pq.query with
    | none =>
      rw [hq] at hc
      exact ((pathSafe_iff path).mp hp c hc).2
    | some query =>
      rw [hq] at hc
      simp only [pathAndQueryText, String.toList_append, mem_append] at hc
      rcases hc with (hc | hc) | hc
      · exact ((pathSafe_iff path).mp hp c hc).2
      · have hQuestion : c = '?' := by simpa using hc
        rw [hQuestion]
        decide
      · exact PathAndQuery.query_clean hq c hc
  rw [cutPathAndQuery, ← String.toList_inj]
  simpa using hChars

theorem no_question : ∀ c ∈ path.toList, (c != '?') = true := by
  intro c hc
  simpa using ((pathSafe_iff path).mp hp c hc).1

theorem takeWhile_pathAndQueryText (query : Option String) :
    (pathAndQueryText path query).toList.takeWhile (· != '?') = path.toList := by
  cases query with
  | none => exact takeWhile_eq_self_iff.mpr (no_question hp)
  | some query =>
    rw [pathAndQueryText, String.toList_append, String.toList_append, append_assoc,
      takeWhile_append_of_pos (no_question hp)]
    simp

theorem dropWhile_pathAndQueryText (query : Option String) :
    (pathAndQueryText path query).toList.dropWhile (· != '?') =
      match query with
      | some query => '?' :: query.toList
      | none => [] := by
  cases query with
  | none => exact dropWhile_eq_nil_iff.mpr (no_question hp)
  | some query =>
    rw [pathAndQueryText, String.toList_append, String.toList_append, append_assoc,
      dropWhile_append_of_pos (no_question hp)]
    simp

theorem cutPathAndQuery_path :
    (cutPathAndQuery (pathAndQueryText path pq.query)).path = if path = "" then "/" else path := by
  rw [PathAndQuery.path, cutPathAndQuery_data pq hp]
  simp [takeWhile_pathAndQueryText hp]

theorem cutPathAndQuery_query :
    (cutPathAndQuery (pathAndQueryText path pq.query)).query = pq.query := by
  rw [PathAndQuery.query, cutPathAndQuery_data pq hp, dropWhile_pathAndQueryText hp]
  cases pq.query <;> simp

omit hp

theorem pathAndQueryText_eq_empty_iff (path : String) (query : Option String) :
    pathAndQueryText path query = "" ↔ path = "" ∧ query = none := by
  cases query with
  | none => simp [pathAndQueryText]
  | some query =>
    simp [pathAndQueryText]

variable {pq}

/-- The new target reads back the safe path it was given, unless that path is
empty and the target is absolute or has a query. -/
theorem Uri.withPathAndQuery_path_iff {uri : Uri} (hUri : uri.pathAndQuery = some pq)
    (hp : PathSafe path) :
    (uri.withPathAndQuery (cutPathAndQuery (pathAndQueryText path pq.query))).path = path ↔
      path ≠ "" ∨ uri.schemeStr = none ∧ pq.query = none := by
  have hr := cutPathAndQuery_path pq hp
  have hd := cutPathAndQuery_data pq hp
  by_cases he : path = ""
  · rw [if_pos he] at hr
    cases uri with
    | origin pq₀ =>
      simp only [Uri.withPathAndQuery, Uri.path, hd, pathAndQueryText_eq_empty_iff, hr]
      by_cases hq : pq.query = none
      · simp [he, hq, Uri.schemeStr]
      · simp [he, hq]
    | absolute scheme authority pq₀ =>
      simp only [Uri.withPathAndQuery, Uri.path, hr]
      simp [he, Uri.schemeStr]
    | authorityForm authority => simp [Uri.pathAndQuery] at hUri
  · rw [if_neg he] at hr
    cases uri with
    | origin pq₀ =>
      simp [Uri.withPathAndQuery, Uri.path, hd, pathAndQueryText_eq_empty_iff, hr, he]
    | absolute scheme authority pq₀ => simp [Uri.withPathAndQuery, Uri.path, hr, he]
    | authorityForm authority => simp [Uri.pathAndQuery] at hUri

theorem Uri.withPathAndQuery_query {uri : Uri} (hUri : uri.pathAndQuery = some pq)
    (hp : PathSafe path) :
    (uri.withPathAndQuery (cutPathAndQuery (pathAndQueryText path pq.query))).query =
      uri.query := by
  rw [Uri.query, Uri.query, hUri]
  cases uri with
  | origin _ | absolute _ _ _ =>
    simp [Uri.withPathAndQuery, Uri.pathAndQuery, cutPathAndQuery_query pq hp]
  | authorityForm _ => simp [Uri.pathAndQuery] at hUri

variable {Regex ext : Type} [RegexEngine Regex] {uri uri' : Uri} {m : HttpPathMatchRewrite Regex}

/-- What a successful path rewrite does. -/
theorem rewritePath_ok {stx : UriSyntax} (h : rewritePath stx uri m = .ok uri') :
    (uri.pathAndQuery = none ∧ uri' = uri) ∨
      ∃ pq, uri.pathAndQuery = some pq ∧
        ((m.rewrite pq.path = none ∧ uri' = uri) ∨
          ∃ newPath, m.rewrite pq.path = some newPath ∧
            uri' = uri.withPathAndQuery (cutPathAndQuery (pathAndQueryText newPath pq.query))) := by
  unfold rewritePath at h
  cases hPq : uri.pathAndQuery with
  | none =>
    rw [hPq] at h
    exact Or.inl ⟨rfl, (Except.ok.inj h).symm⟩
  | some pq =>
    right
    refine ⟨pq, rfl, ?_⟩
    simp only [hPq] at h
    cases hr : m.rewrite pq.path with
    | none =>
      simp only [hr] at h
      exact Or.inl ⟨rfl, (Except.ok.inj h).symm⟩
    | some newPath =>
      simp only [hr, UriSyntax.parsePathAndQuery] at h
      by_cases hOk : stx.pathAndQueryOk (pathAndQueryText newPath pq.query) = true
      · simp only [hOk, if_true, fromParts_eq_withPathAndQuery hPq] at h
        exact Or.inr ⟨newPath, rfl, (Except.ok.inj h).symm⟩
      · simp [hOk] at h

/-! ## Segments of a rewritten prefix -/

theorem matchSegments_eq_isSome (path segs : List String) :
    matchSegments path segs = (stripSegments path segs).isSome := by
  fun_induction matchSegments path segs with
  | case1 pathSeg path prefixSeg segs h ih => simp [stripSegments, h, ih]
  | case2 pathSeg path prefixSeg segs h => simp [stripSegments, h]
  | case3 path => cases path <;> rfl
  | case4 => rfl

theorem stripSegments_eq_drop {path segs rest : List String}
    (h : stripSegments path segs = some rest) : rest = path.drop segs.length := by
  fun_induction stripSegments path segs with
  | case1 pathSeg path prefixSeg segs hSeg ih => simpa using ih h
  | case2 => simp at h
  | case3 path => simpa using h.symm
  | case4 => simp at h

/-- The replacement's segments, followed by those that are left. -/
theorem segments_joinPrefixPath (path replace : String) {rest : List String}
    (hRest : ∀ seg ∈ rest, IsSegment seg) :
    segments '/' (joinPrefixPath path replace rest) = segments '/' replace ++ rest := by
  cases rest with
  | nil => simp [joinPrefixPath, segments_slash_append, segments_trimStartMatches]
  | cons restPath segs =>
    have hh : segments '/' restPath = [restPath] := segments_of_isSegment (hRest _ (by simp))
    have hTail : ∀ seg ∈ segs, IsSegment seg := fun seg h => hRest seg (by simp [h])
    have hb : segments '/' ("/" ++ trimMatches '/' replace ++
        (if trimMatches '/' replace = "" then "" else "/") ++ restPath) =
        segments '/' replace ++ [restPath] := by
      by_cases ht : trimMatches '/' replace = ""
      · have hr : segments '/' replace = [] := by
          rw [← segments_trimMatches, ht]
          rfl
        rw [if_pos ht, ht, hr, String.append_empty, String.append_empty, segments_slash_append, hh]
        rfl
      · rw [if_neg ht, segments_append_slash_append, segments_slash_append,
          segments_trimMatches, hh]
    simp only [joinPrefixPath]
    by_cases hs : endsWith '/' path = true
    · rw [if_pos hs, segments_append_slash, append_foldl_segments, segments_foldl _ hTail,
        String.append_empty, hb]
      simp
    · rw [if_neg hs, String.append_empty, append_foldl_segments, segments_foldl _ hTail,
        String.append_empty, hb]
      simp

theorem joinPrefixPath_ne_empty (path replace : String) (rest : List String) :
    joinPrefixPath path replace rest ≠ "" := by
  intro h
  cases rest <;> simp [joinPrefixPath] at h

theorem startsWith_joinPrefixPath (path replace : String) (rest : List String) :
    startsWith '/' (joinPrefixPath path replace rest) = true := by
  cases rest <;> simp [joinPrefixPath, startsWith]

/-- The rewriter of a prefix replaces exactly the paths that the matcher of the prefix accepts.
The new path starts with `/`, and its segments are those of the replacement and those of the path
behind the prefix. -/
theorem rewrite_pathPrefix (base replace path : String) :
    (∀ req : Request ext, req.uri.path = path →
      (((.pathPrefix base (some replace) : HttpPathMatchRewrite Regex).rewrite path).isSome = true ↔
        (.pathPrefix base (some replace) : HttpPathMatchRewrite Regex).matchRequest req = true)) ∧
      (((.pathPrefix base (some replace) : HttpPathMatchRewrite Regex).rewrite path).isSome = true ↔
        matchSegments (segments '/' path) (segments '/' base) = true) ∧
      ∀ newPath, (.pathPrefix base (some replace) : HttpPathMatchRewrite Regex).rewrite path =
          some newPath →
        startsWith '/' newPath = true ∧
          segments '/' newPath = segments '/' replace ++
            (segments '/' path).drop (segments '/' base).length := by
  have hs : ((pathPrefix base (some replace) :
      HttpPathMatchRewrite Regex).rewrite path).isSome =
        matchSegments (segments '/' path) (segments '/' base) := by
    rw [rewrite, isSome_map, matchSegments_eq_isSome]
  refine ⟨?_, by rw [hs], ?_⟩
  · rintro req rfl
    rw [hs, matchRequest]
  · intro newPath hr
    obtain ⟨rest, hStrip, rfl⟩ := map_eq_some_iff.mp hr
    refine ⟨startsWith_joinPrefixPath _ _ _, ?_⟩
    rw [stripSegments_eq_drop hStrip]
    refine segments_joinPrefixPath path replace fun seg hSeg => ?_
    exact isSegment_of_mem_segments (mem_of_mem_drop hSeg)

/-- Letter case, doubled slashes and a slash at the end do not matter. -/
theorem api_rewritten :
    ∃ newPath, (.pathPrefix "/api/" (some "v1//") : HttpPathMatchRewrite LiteralRegex).rewrite
        "/API//users/" = some newPath ∧
      startsWith '/' newPath = true ∧ segments '/' newPath = ["v1", "users"] := by
  refine ⟨"/v1/users/", by rfl, ?_⟩
  exact (@rewrite_pathPrefix LiteralRegex Unit _ "/api/" "v1//" "/API//users/").2.2 _ (by rfl)

theorem pathSafe_of_segments (h : ∀ seg ∈ segments '/' s, PathSafe seg) : PathSafe s := by
  rw [pathSafe_iff]
  intro c hc
  by_cases hs : c = '/'
  · rw [hs]
    decide
  · obtain ⟨seg, hSeg, hMem⟩ := (exists_mem_segments_iff s c).mpr ⟨hc, hs⟩
    exact (pathSafe_iff seg).mp (h seg hSeg) c hMem

theorem pathSafe_of_mem_segments {seg : String} (h : PathSafe s) (hSeg : seg ∈ segments '/' s) :
    PathSafe seg := by
  rw [pathSafe_iff]
  intro c hc
  obtain ⟨hMem, -⟩ := (exists_mem_segments_iff s c).mp ⟨seg, hSeg, hc⟩
  exact (pathSafe_iff s).mp h c hMem

theorem toLower_question_iff (c : Char) : c.toLower = '?' ↔ c = '?' :=
  toLower_eq_iff (by decide) (by decide)

theorem toLower_hash_iff (c : Char) : c.toLower = '#' ↔ c = '#' :=
  toLower_eq_iff (by decide) (by decide)

theorem pathSafe_toAsciiLowercase_iff (s : String) :
    PathSafe (toAsciiLowercase s) ↔ PathSafe s := by
  simp [pathSafe_iff, toLower_question_iff, toLower_hash_iff]

theorem pathSafe_of_toAsciiLowercase_eq {t : String} (h : toAsciiLowercase s = toAsciiLowercase t)
    (ht : PathSafe t) : PathSafe s := by
  rw [← pathSafe_toAsciiLowercase_iff, h, pathSafe_toAsciiLowercase_iff]
  exact ht

/-! ## The path -/

/-- The path that a rewrite starts from. -/
def Uri.rewriteBase (uri : Uri) : String :=
  (uri.pathAndQuery.map (·.path)).getD ""

namespace HttpPathMatchRewrite

/-- The replacement of the path, if any, was carried out: the new path is the
replacement, or the replacement followed by what the prefix left, or the result
of the substitution, and the query is the old one. -/
def Done (m : HttpPathMatchRewrite Regex) (uri uri' : Uri) : Prop :=
  match m with
  | .exact _ (some replace) => uri'.path = replace ∧ uri'.query = uri.query
  | .pathPrefix base (some replace) =>
    segments '/' uri'.path = segments '/' replace ++
        (segments '/' uri.path).drop (segments '/' base).length ∧
      uri'.query = uri.query
  | .regExp re (some replace) =>
    uri'.path = RegexEngine.replace re uri.rewriteBase replace ∧ uri'.query = uri.query
  | _ => True

/-- When the replacement is carried out.  An `Exact` replacement has to be the
request's path already, up to case; the other two must not put a `?` or a `#`
into the path, and a substitution must not empty it.  A target in authority form
keeps its empty path. -/
def Effective (m : HttpPathMatchRewrite Regex) (uri : Uri) : Prop :=
  match m with
  | .exact _ (some replace) =>
    uri.path = replace ∨ uri.pathAndQuery.isSome ∧ eqIgnoreAsciiCase replace uri.rewriteBase
  | .pathPrefix _ (some replace) =>
    if uri.pathAndQuery.isSome then PathSafe replace else segments '/' replace = []
  | .regExp re (some replace) =>
    let newPath := RegexEngine.replace re uri.rewriteBase replace
    if uri.pathAndQuery.isSome then
      PathSafe newPath ∧ (newPath ≠ "" ∨ uri.schemeStr = none ∧ uri.query = none)
    else
      newPath = ""
  | _ => True

theorem segments_rewriteBase (uri : Uri) :
    segments '/' uri.rewriteBase = segments '/' uri.path := by
  cases uri with
  | origin pq =>
    by_cases hd : pq.data = ""
    · have hp : pq.path = "/" := by simp [PathAndQuery.path, hd]
      simp only [Uri.rewriteBase, Uri.pathAndQuery, Uri.path, hd, if_true, map_some,
        getD_some, hp]
      decide
    · simp [Uri.rewriteBase, Uri.pathAndQuery, Uri.path, hd]
  | absolute scheme authority pq => rfl
  | authorityForm authority => rfl

variable {req : Request ext}

theorem stripSegments_of_matchRequest {base : String} {replace : Option String}
    (hm : (pathPrefix base replace : HttpPathMatchRewrite Regex).matchRequest req = true) :
    stripSegments (segments '/' req.uri.path) (segments '/' base) =
      some ((segments '/' req.uri.path).drop (segments '/' base).length) := by
  rw [matchRequest, matchSegments_eq_isSome, isSome_iff_exists] at hm
  obtain ⟨rest, hr⟩ := hm
  rw [hr, stripSegments_eq_drop hr]

variable {stx : UriSyntax}

/-- The `Exact` replacement. -/
theorem done_exact_iff {path replace : String} (hExact : m = .exact path (some replace))
    (h : rewritePath stx uri m = .ok uri') : m.Done uri uri' ↔ m.Effective uri := by
  subst hExact
  simp only [Done, Effective]
  rcases rewritePath_ok h with ⟨hPq, rfl⟩ | ⟨pq, hPq, hNew⟩
  · simp [hPq]
  · have hb : uri.rewriteBase = pq.path := by simp [Uri.rewriteBase, hPq]
    have hSome : uri.pathAndQuery.isSome = true := by simp [hPq]
    rw [hb]
    rcases hNew with ⟨hNone, rfl⟩ | ⟨newPath, hs', rfl⟩
    · have hd : ¬ eqIgnoreAsciiCase replace pq.path = true := by
        intro hs
        rw [rewrite, if_pos hs] at hNone
        exact absurd hNone (by simp)
      simp [hd]
    · have hs : eqIgnoreAsciiCase replace pq.path = true := by
        by_contra hd
        rw [rewrite, if_neg hd] at hs'
        exact absurd hs' (by simp)
      obtain rfl : replace = newPath := by
        rw [rewrite, if_pos hs] at hs'
        exact some.inj hs'
      -- The replacement is the path up to case, so it is as safe and as non-empty.
      have hl := (eqIgnoreAsciiCase_iff _ _).mp hs
      have hSafe : PathSafe replace := pathSafe_of_toAsciiLowercase_eq hl pq.path_pathSafe
      have hn : replace ≠ "" := by
        intro he
        apply pq.path_ne_empty
        rw [he, ← String.toList_inj] at hl
        rw [← String.toList_inj]
        simpa using hl.symm
      have hp := (Uri.withPathAndQuery_path_iff hPq hSafe).mpr (Or.inl hn)
      exact iff_of_true ⟨hp, Uri.withPathAndQuery_query hPq hSafe⟩ (Or.inr ⟨hSome, hs⟩)

/-- The `Prefix` replacement. -/
theorem done_pathPrefix_iff {uri' : Uri} {base replace : String}
    (hPrefix : m = .pathPrefix base (some replace)) (hm : m.matchRequest req = true)
    (h : rewritePath stx req.uri m = .ok uri') :
    m.Done req.uri uri' ↔ m.Effective req.uri := by
  subst hPrefix
  have hStrip := stripSegments_of_matchRequest hm
  simp only [Done, Effective]
  set rest := (segments '/' req.uri.path).drop (segments '/' base).length
  rcases rewritePath_ok h with ⟨hPq, rfl⟩ | ⟨pq, hPq, hNew⟩
  · have hp : segments '/' req.uri.path = [] := by
      rw [← segments_rewriteBase, Uri.rewriteBase, hPq]
      rfl
    simp [hPq, hp, rest]
  · have hb : req.uri.rewriteBase = pq.path := by simp [Uri.rewriteBase, hPq]
    have hSome : req.uri.pathAndQuery.isSome = true := by simp [hPq]
    rw [if_pos hSome]
    have hRest : ∀ seg ∈ rest, seg ∈ segments '/' req.uri.path := fun seg hSeg =>
      mem_of_mem_drop hSeg
    have hj := segments_joinPrefixPath pq.path replace
      (fun seg hSeg => isSegment_of_mem_segments (hRest seg hSeg))
    have hr : (pathPrefix base (some replace) : HttpPathMatchRewrite Regex).rewrite pq.path =
        some (joinPrefixPath pq.path replace rest) := by
      rw [rewrite, ← hb, segments_rewriteBase, hStrip]
      rfl
    obtain rfl : uri' = req.uri.withPathAndQuery (cutPathAndQuery
        (pathAndQueryText (joinPrefixPath pq.path replace rest) pq.query)) := by
      rcases hNew with ⟨hn, -⟩ | ⟨newPath, hs', hUri⟩
      · rw [hr] at hn
        exact absurd hn (by simp)
      · rw [hr] at hs'
        rw [hUri, some.inj hs']
    constructor
    · rintro ⟨hs, -⟩
      -- A `?` or `#` of the replacement would have to show up in the new path.
      apply pathSafe_of_segments
      intro seg hSeg
      apply pathSafe_of_mem_segments (Uri.path_pathSafe _)
      rw [hs]
      exact mem_append_left _ hSeg
    · intro hReplace
      have hSafe : PathSafe (joinPrefixPath pq.path replace rest) := by
        apply pathSafe_of_segments
        intro seg hSeg
        rw [hj, mem_append] at hSeg
        rcases hSeg with hSeg | hSeg
        · exact pathSafe_of_mem_segments hReplace hSeg
        · exact pathSafe_of_mem_segments (Uri.path_pathSafe req.uri) (hRest seg hSeg)
      have hp := (Uri.withPathAndQuery_path_iff hPq hSafe).mpr
        (Or.inl (joinPrefixPath_ne_empty _ _ _))
      exact ⟨by rw [hp, hj], Uri.withPathAndQuery_query hPq hSafe⟩

/-- The `RegExp` replacement. -/
theorem done_regExp_iff {re : Regex} {replace : String}
    (h : rewritePath stx uri (.regExp re (some replace)) = .ok uri') :
    (regExp re (some replace)).Done uri uri' ↔ (regExp re (some replace)).Effective uri := by
  simp only [Done, Effective]
  rcases rewritePath_ok h with ⟨hPq, rfl⟩ | ⟨pq, hPq, hNew⟩
  · have hp : uri'.path = "" := by
      cases uri' <;> simp_all [Uri.pathAndQuery, Uri.path]
    rw [hp, hPq]
    simp only [isSome_none, Bool.false_eq_true, if_false, and_true]
    exact eq_comm
  · have hb : uri.rewriteBase = pq.path := by simp [Uri.rewriteBase, hPq]
    have hq : uri.query = pq.query := by simp [Uri.query, hPq]
    have hSome : uri.pathAndQuery.isSome = true := by simp [hPq]
    rw [if_pos hSome, hb]
    obtain rfl : uri' = uri.withPathAndQuery (cutPathAndQuery (pathAndQueryText
        (RegexEngine.replace re pq.path replace) pq.query)) := by
      rcases hNew with ⟨hn, -⟩ | ⟨newPath, hs', hUri⟩
      · exact absurd hn (by simp [rewrite])
      · rw [hUri, ← some.inj hs']
    constructor
    · rintro ⟨hp, -⟩
      have hs : PathSafe (RegexEngine.replace re pq.path replace) := by
        rw [← hp]
        exact Uri.path_pathSafe _
      refine ⟨hs, ?_⟩
      rw [hq]
      exact (Uri.withPathAndQuery_path_iff hPq hs).mp hp
    · rintro ⟨hs, hr⟩
      rw [hq] at hr
      exact ⟨(Uri.withPathAndQuery_path_iff hPq hs).mpr hr, Uri.withPathAndQuery_query hPq hs⟩

theorem done_iff_effective {uri' : Uri}
    (hm : m.matchRequest req = true) (h : rewritePath stx req.uri m = .ok uri') :
    m.Done req.uri uri' ↔ m.Effective req.uri := by
  cases m with
  | exact path replace =>
    cases replace with
    | none => simp [Done, Effective]
    | some replace => exact done_exact_iff rfl h
  | pathPrefix base replace =>
    cases replace with
    | none => simp [Done, Effective]
    | some replace => exact done_pathPrefix_iff rfl hm h
  | regExp re replace =>
    cases replace with
    | none => simp [Done, Effective]
    | some replace => exact done_regExp_iff h

end HttpPathMatchRewrite

end Spacegate.Kernel
