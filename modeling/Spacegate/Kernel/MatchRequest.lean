import Spacegate.Kernel.Http

/-!
# Request matchers and their rewrites

A matcher decides whether a request satisfies one condition of a rule, and some
matchers also carry a replacement for what they matched.  Matching and rewriting
are separate functions in the gateway: a rewriter tests the request again on its
own before it replaces anything, and both tests are kept here as they stand.

Regular expressions are those of the `regex` crate and enter as a parameter.
-/

namespace Spacegate.Kernel

open Foundation.Text

/-- The two `regex::Regex` operations the gateway uses. -/
class RegexEngine (Regex : Type) where
  /-- `Regex::is_match`. -/
  isMatch : Regex → String → Bool
  /-- `Regex::replace`, as `replace re text replacement`. -/
  replace : Regex → String → String → String

/-- An expression without metacharacters, which is searched for as it stands.
Concrete requests are evaluated with these. -/
structure LiteralRegex where
  text : String

/-- Replace the first occurrence of a character sequence. -/
def replaceFirst (pattern replacement : List Char) : List Char → List Char
  | [] => if pattern = [] then replacement else []
  | c :: rest =>
    if pattern.isPrefixOf (c :: rest) then
      replacement ++ (c :: rest).drop pattern.length
    else
      c :: replaceFirst pattern replacement rest

instance : RegexEngine LiteralRegex where
  isMatch re s := s.toList.tails.any fun suffix => re.text.toList.isPrefixOf suffix
  replace re s replacement :=
    String.ofList (replaceFirst re.text.toList replacement.toList s.toList)

/-- The condition on the path, each kind with its replacement. -/
inductive HttpPathMatchRewrite (Regex : Type) where
  | exact (path : String) (replace : Option String)
  | pathPrefix (path : String) (replace : Option String)
  | regExp (re : Regex) (replace : Option String)

/-- How the value of a header is compared, with the replacement. -/
inductive SgHttpHeaderMatchRewritePolicy (Regex : Type) where
  | exact (value : HeaderValue) (replace : Option HeaderValue)
  | regular (re : Regex) (replace : Option String)

/-- The condition on one header. -/
structure SgHttpHeaderMatchRewrite (Regex : Type) where
  headerName : String
  policy : SgHttpHeaderMatchRewritePolicy Regex

/-- How the value of a query parameter is compared. -/
inductive SgHttpQueryMatchPolicy (Regex : Type) where
  | exact (value : String)
  | regular (re : Regex)

/-- The condition on one query parameter. -/
structure HttpQueryMatch (Regex : Type) where
  name : String
  policy : SgHttpQueryMatchPolicy Regex

/-- The condition on the method. -/
structure HttpMethodMatch where
  method : String

/-- The conditions of one match of a rule. -/
structure HttpRouteMatch (Regex : Type) where
  path : Option (HttpPathMatchRewrite Regex)
  header : Option (List (SgHttpHeaderMatchRewrite Regex))
  query : Option (List (HttpQueryMatch Regex))
  method : Option (List HttpMethodMatch)

/-! ## Query parameters -/

/-- `QueryKvIter::next`: the first pair and what is left of the query.  The last
piece is returned whole, without a cut at `=`. -/
def queryKvNext (inner : String) : Option ((String × Option String) × String) :=
  if inner = "" then none
  else
    match splitOnce '&' inner with
    | some (piece, rest) =>
      match splitOnce '=' piece with
      | some (key, value) => some ((key, some value), rest)
      | none => some ((piece, none), rest)
    | none => some ((inner, none), "")

/-- The pairs of at most `fuel` calls of `next`. -/
def queryKvCollect : (fuel : Nat) → String → List (String × Option String)
  | 0, _ => []
  | fuel + 1, inner =>
    match queryKvNext inner with
    | none => []
    | some (pair, rest) => pair :: queryKvCollect fuel rest

/-- All pairs of a query: every call of `next` shortens what is left. -/
def queryKvIter (query : String) : List (String × Option String) :=
  queryKvCollect query.toList.length query

/-! ## Matching -/

variable {Regex ext : Type} [RegexEngine Regex]

/-- The loop of the `Prefix` arm over the two lists of path elements. -/
def matchSegments : List String → List String → Bool
  | pathSeg :: path, prefixSeg :: segs =>
    if eqIgnoreAsciiCase pathSeg prefixSeg then matchSegments path segs else false
  | _, [] => true
  | [], _ :: _ => false

def HttpPathMatchRewrite.matchRequest (m : HttpPathMatchRewrite Regex) (req : Request ext) : Bool :=
  match m with
  | .exact path _ => req.uri.path == path
  | .pathPrefix path _ => matchSegments (segments '/' req.uri.path) (segments '/' path)
  | .regExp re _ => RegexEngine.isMatch re req.uri.path

def SgHttpHeaderMatchRewrite.matchRequest (m : SgHttpHeaderMatchRewrite Regex)
    (req : Request ext) : Bool :=
  match m.policy with
  | .exact header _ => (HeaderMap.get req.headers m.headerName).any (· == header)
  | .regular re _ =>
    req.headers.any fun field =>
      field.1 == m.headerName && field.2.toStr.any (RegexEngine.isMatch re)

def HttpQueryMatch.matchRequest (m : HttpQueryMatch Regex) (req : Request ext) : Bool :=
  match req.uri.query with
  | none => false
  | some query =>
    match m.policy with
    | .exact value => (queryKvIter query).any fun kv => kv.1 == m.name && kv.2 == some value
    | .regular re =>
      (queryKvIter query).any fun kv => kv.1 == m.name && kv.2.any (RegexEngine.isMatch re)

def HttpMethodMatch.matchRequest (m : HttpMethodMatch) (req : Request ext) : Bool :=
  eqIgnoreAsciiCase req.method m.method

/-- The instance for `Option`: an absent condition is satisfied. -/
def matchOption {M : Type} (matchRequest : M → Request ext → Bool) (m : Option M)
    (req : Request ext) : Bool :=
  (m.map fun m => matchRequest m req).getD true

/-- The instance for `Vec`: one satisfied element is enough. -/
def matchVec {M : Type} (matchRequest : M → Request ext → Bool) (ms : List M)
    (req : Request ext) : Bool :=
  ms.any fun m => matchRequest m req

def HttpRouteMatch.matchRequest (m : HttpRouteMatch Regex) (req : Request ext) : Bool :=
  matchOption HttpPathMatchRewrite.matchRequest m.path req &&
    matchOption (matchVec SgHttpHeaderMatchRewrite.matchRequest) m.header req &&
    matchOption (matchVec HttpQueryMatch.matchRequest) m.query req &&
    matchOption (matchVec HttpMethodMatch.matchRequest) m.method req

/-! ## Rewriting -/

/-- The loop of the `Prefix` arm of `rewrite`: the path elements that are left
when the prefix is used up, or `none` when the prefix does not match. -/
def stripSegments : List String → List String → Option (List String)
  | pathSeg :: path, prefixSeg :: segs =>
    if eqIgnoreAsciiCase pathSeg prefixSeg then stripSegments path segs else none
  | path, [] => some path
  | [], _ :: _ => none

/-- The path that the `Prefix` arm assembles from the elements that are left. -/
def joinPrefixPath (path replace : String) : List String → String
  | [] => "/" ++ trimStartMatches '/' replace
  | restPath :: segs =>
    let replaceValue := trimMatches '/' replace
    "/" ++ replaceValue ++ (if replaceValue = "" then "" else "/") ++ restPath ++
      segs.foldl (fun newPath seg => newPath ++ "/" ++ seg) "" ++
      (if endsWith '/' path then "/" else "")

/-- The rewritten path, or `none` when nothing is replaced.  The `Exact` arm
compares the request's path with the replacement. -/
def HttpPathMatchRewrite.rewrite (m : HttpPathMatchRewrite Regex) (path : String) : Option String :=
  match m with
  | .exact _ (some replace) => if eqIgnoreAsciiCase replace path then some replace else none
  | .pathPrefix base (some replace) =>
    (stripSegments (segments '/' path) (segments '/' base)).map (joinPrefixPath path replace)
  | .regExp re (some replace) => some (RegexEngine.replace re path replace)
  | _ => none

/-- The value the header is overwritten with, or `none`.  Only the first value
of the name is looked at, and the `Exact` arm compares it with the replacement. -/
def SgHttpHeaderMatchRewrite.rewrite (m : SgHttpHeaderMatchRewrite Regex) (headers : HeaderMap) :
    Option HeaderValue := do
  let value ← HeaderMap.get headers m.headerName
  let s ← value.toStr
  match m.policy with
  | .exact _ (some replace) => if strBytes s = replace.bytes then some replace else none
  | .regular re (some replace) =>
    if RegexEngine.isMatch re s then HeaderValue.fromStr replace else none
  | _ => none

/-- One turn of the header loop of `HttpRouteMatch::rewrite`. -/
def rewriteHeader (headers : HeaderMap) (m : SgHttpHeaderMatchRewrite Regex) : HeaderMap :=
  match m.rewrite headers with
  | some replace => HeaderMap.setFirst headers m.headerName replace
  | none => headers

/-- Why a rewrite fails. -/
inductive RewriteError where
  | invalidUri
  | invalidUriParts
  deriving DecidableEq

/-- A path with the query put behind it again. -/
def pathAndQueryText (path : String) : Option String → String
  | some query => path ++ "?" ++ query
  | none => path

/-- Replace the path of a request target and keep its query. -/
def rewritePath (stx : UriSyntax) (uri : Uri) (m : HttpPathMatchRewrite Regex) :
    Except RewriteError Uri :=
  match uri.pathAndQuery with
  | none => .ok uri
  | some pq =>
    match m.rewrite pq.path with
    | none => .ok uri
    | some newPath =>
      match stx.parsePathAndQuery (pathAndQueryText newPath pq.query) with
      | none => .error .invalidUri
      | some newPq =>
        match Uri.fromParts uri.schemeStr uri.authority (some newPq) with
        | none => .error .invalidUriParts
        | some uri => .ok uri

/-- `HttpRouteMatch::rewrite`: the headers first, then the path.  The request is
returned in both cases, since a failing path leaves the headers rewritten. -/
def HttpRouteMatch.rewrite (stx : UriSyntax) (m : HttpRouteMatch Regex) (req : Request ext) :
    Except RewriteError Unit × Request ext :=
  let req := { req with headers := (m.header.getD []).foldl rewriteHeader req.headers }
  match m.path with
  | none => (.ok (), req)
  | some path =>
    match rewritePath stx req.uri path with
    | .ok uri => (.ok (), { req with uri := uri })
    | .error e => (.error e, req)

end Spacegate.Kernel
