import Mathlib.Data.List.TakeWhile
import Spacegate.Foundation.Text

/-!
# Requests

The vocabulary of the `http` crate that the gateway works with.  A request
target has one of the three forms a parsed `Uri` can have, so an authority
without a scheme never carries a path, and an absolute target always carries
one.

What the crate accepts as a path, a scheme or an authority is its own affair:
`UriSyntax` collects these decisions as parameters.  The cut of an accepted text
into path, query and fragment is fixed by the generic URI syntax and is defined
here.
-/

namespace Spacegate.Kernel

open Foundation.Text List

/-- `http::Version`. -/
inductive Version where
  | http09
  | http10
  | http11
  | http2
  | http3
  deriving DecidableEq, Repr

/-- `http::uri::Authority`: the text and what the accessors read off it. -/
structure Authority where
  text : String
  host : String
  portU16 : Option UInt16
  deriving DecidableEq, Repr

/-- The characters a path consists of: neither `?` nor `#`. -/
def isPathChar (c : Char) : Bool :=
  c != '?' && c != '#'

/-- `http::uri::PathAndQuery`: a text without a fragment. -/
structure PathAndQuery where
  data : String
  data_clean : data.toList.all (· != '#') = true

/-- `PathAndQuery::path`: the text up to the first `?`, where an empty path reads
as `/`. -/
def PathAndQuery.path (pathAndQuery : PathAndQuery) : String :=
  let path := String.ofList (pathAndQuery.data.toList.takeWhile (· != '?'))
  if path = "" then "/" else path

/-- `PathAndQuery::query`: what follows the first `?`. -/
def PathAndQuery.query (pathAndQuery : PathAndQuery) : Option String :=
  match pathAndQuery.data.toList.dropWhile (· != '?') with
  | _ :: rest => some (String.ofList rest)
  | [] => none

/-- `http::Uri`: origin form, absolute form and authority form. -/
inductive Uri where
  | origin (pathAndQuery : PathAndQuery)
  | absolute (scheme : String) (authority : Authority) (pathAndQuery : PathAndQuery)
  | authorityForm (authority : Authority)

namespace Uri

/-- `Uri::path_and_query`; the authority form has none. -/
def pathAndQuery : Uri → Option PathAndQuery
  | origin pathAndQuery => some pathAndQuery
  | absolute _ _ pathAndQuery => some pathAndQuery
  | authorityForm _ => none

/-- `Uri::path`.  The authority form has the empty path, and so has a target
that `from_parts` built from an empty text. -/
def path : Uri → String
  | origin pathAndQuery => if pathAndQuery.data = "" then "" else pathAndQuery.path
  | absolute _ _ pathAndQuery => pathAndQuery.path
  | authorityForm _ => ""

/-- `Uri::query`. -/
def query (uri : Uri) : Option String :=
  uri.pathAndQuery.bind (·.query)

/-- `Uri::authority`. -/
def authority : Uri → Option Authority
  | origin _ => none
  | absolute _ authority _ => some authority
  | authorityForm authority => some authority

/-- `Uri::host`. -/
def host (uri : Uri) : Option String :=
  uri.authority.map (·.host)

/-- `Uri::scheme_str`. -/
def schemeStr : Uri → Option String
  | absolute scheme _ _ => some scheme
  | _ => none

/-- `Uri::from_parts`.  A scheme needs an authority and a path, and an authority
with a path needs a scheme. -/
def fromParts : Option String → Option Authority → Option PathAndQuery → Option Uri
  | some scheme, some authority, some pathAndQuery => some (absolute scheme authority pathAndQuery)
  | none, some authority, none => some (authorityForm authority)
  | none, none, some pathAndQuery => some (origin pathAndQuery)
  | none, none, none => some (origin ⟨"", rfl⟩)
  | _, _, _ => none

end Uri

/-- What the `http` crate accepts. -/
structure UriSyntax where
  /-- `PathAndQuery::from_maybe_shared` succeeds. -/
  pathAndQueryOk : String → Bool
  /-- `Scheme::try_from`. -/
  parseScheme : String → Option String
  /-- `Authority::try_from`. -/
  parseAuthority : String → Option Authority

/-- An accepted text, without its fragment. -/
def cutPathAndQuery (s : String) : PathAndQuery where
  data := String.ofList (s.toList.takeWhile (· != '#'))
  data_clean := by
    rw [String.toList_ofList]
    exact all_takeWhile

/-- `PathAndQuery::from_maybe_shared`. -/
def UriSyntax.parsePathAndQuery (stx : UriSyntax) (s : String) : Option PathAndQuery :=
  if stx.pathAndQueryOk s then some (cutPathAndQuery s) else none

/-- A port number in decimal. -/
def parsePort (s : String) : Option UInt16 :=
  if s.toList ≠ [] ∧ s.toList.all Char.isDigit then
    let port := s.toList.foldl (fun n c => 10 * n + (c.toNat - 48)) 0
    if port < 2 ^ 16 then some (UInt16.ofNat port) else none
  else
    none

/-- A syntax that accepts every text and cuts an authority at its last colon.
Concrete requests are evaluated with it. -/
def plainSyntax : UriSyntax where
  pathAndQueryOk := fun _ => true
  parseScheme := some
  parseAuthority := fun text => some
    { text := text
      host := ((rsplitOnce ':' text).map Prod.fst).getD text
      portU16 := (rsplitOnce ':' text).bind fun pieces => parsePort pieces.2 }

/-- The bytes of a text. -/
def strBytes (s : String) : List UInt8 :=
  s.toList.flatMap String.utf8EncodeChar

theorem fromUTF8?_strBytes (text : String) :
    String.fromUTF8? ⟨(strBytes text).toArray⟩ = some text := by
  have hb : (⟨(strBytes text).toArray⟩ : ByteArray) = text.toByteArray := by
    rw [← data_toByteArray, ← String.utf8Encode_toList]
    rfl
  rw [hb, String.fromUTF8?, dif_pos text.isValidUTF8]
  rfl

theorem strBytes_inj {s t : String} : strBytes s = strBytes t ↔ s = t := by
  constructor
  · intro h
    rw [← String.toByteArray_inj, ← String.utf8Encode_toList, ← String.utf8Encode_toList]
    exact congrArg toByteArray h
  · rintro rfl
    rfl

/-- `http::HeaderValue`. -/
structure HeaderValue where
  bytes : List UInt8
  deriving DecidableEq, Repr

/-- Visible ASCII, or a tab. -/
def isVisibleAscii (b : UInt8) : Bool :=
  (32 ≤ b && b < 127) || b == 9

/-- The bytes a header value may hold: no control byte but the tab.  Bytes above
127 are opaque to the crate and allowed. -/
def isValueByte (b : UInt8) : Bool :=
  (32 ≤ b && b != 127) || b == 9

namespace HeaderValue

/-- `HeaderValue::to_str`: a value of visible ASCII is its own text. -/
def toStr (value : HeaderValue) : Option String :=
  if value.bytes.all isVisibleAscii then
    some (String.ofList (value.bytes.map fun b => Char.ofNat b.toNat))
  else
    none

/-- `HeaderValue::from_str`. -/
def fromStr (s : String) : Option HeaderValue :=
  if (strBytes s).all isValueByte then some ⟨strBytes s⟩ else none

end HeaderValue

theorem lt_of_isVisibleAscii {b : UInt8} (h : isVisibleAscii b = true) : b.toNat < 128 := by
  simp only [isVisibleAscii, Bool.or_eq_true, Bool.and_eq_true, decide_eq_true_eq, beq_iff_eq] at h
  rcases h with ⟨-, h⟩ | h
  · have hLt : b.toNat < 127 := UInt8.lt_iff_toNat_lt.mp h
    omega
  · rw [h]
    decide

theorem utf8EncodeChar_ofNat {b : UInt8} (h : b.toNat < 128) :
    String.utf8EncodeChar (Char.ofNat b.toNat) = [b] := by
  have hv : b.toNat.isValidChar := Or.inl (by omega)
  have hVal : (Char.ofNat b.toNat).val.toNat = b.toNat := by
    rw [Char.ofNat, dif_pos hv]
    rfl
  unfold String.utf8EncodeChar
  simp only [hVal]
  rw [if_pos (by omega)]
  simp

theorem HeaderValue.strBytes_of_toStr {value : HeaderValue} {s : String}
    (h : value.toStr = some s) : strBytes s = value.bytes := by
  unfold HeaderValue.toStr at h
  split at h
  · rename_i hv
    rw [← Option.some.inj h, strBytes, String.toList_ofList, flatMap_map]
    have hBytes : ∀ b ∈ value.bytes, String.utf8EncodeChar (Char.ofNat b.toNat) = [b] :=
      fun b hb => utf8EncodeChar_ofNat (lt_of_isVisibleAscii (all_eq_true.mp hv b hb))
    rw [flatMap_congr hBytes]
    simp
  · simp at h

/-- `http::HeaderMap`: the fields in iteration order, names in lower case.  The
values of one name keep their order. -/
abbrev HeaderMap := List (String × HeaderValue)

namespace HeaderMap

/-- `HeaderMap::get`: the first value of a name. -/
def get : HeaderMap → String → Option HeaderValue
  | [], _ => none
  | (name, value) :: rest, name' => if name = name' then some value else get rest name'

/-- Overwrite the first value of a name through `HeaderMap::get_mut`. -/
def setFirst : HeaderMap → String → HeaderValue → HeaderMap
  | [], _, _ => []
  | (name, value) :: rest, name', value' =>
    if name = name' then (name, value') :: rest else (name, value) :: setFirst rest name' value'

/-- The position of the first value of a name. -/
def firstIndex (headers : HeaderMap) (name : String) : Option Nat :=
  headers.findIdx? fun field => field.1 == name

theorem firstIndex_cons_self (name : String) (value : HeaderValue) (rest : HeaderMap) :
    firstIndex ((name, value) :: rest) name = some 0 := by
  simp [firstIndex, findIdx?_cons]

theorem firstIndex_cons_of_ne {name name' : String} (h : name ≠ name') (value : HeaderValue)
    (rest : HeaderMap) :
    firstIndex ((name, value) :: rest) name' = (firstIndex rest name').map (· + 1) := by
  simp [firstIndex, findIdx?_cons, h]

variable (headers : HeaderMap)

theorem get_eq_some_iff (name : String) (value : HeaderValue) : get headers name = some value ↔
      ∃ i, firstIndex headers name = some i ∧ headers[i]? = some (name, value) := by
  induction headers with
  | nil => simp [get, firstIndex]
  | cons field rest ih =>
    obtain ⟨name', value'⟩ := field
    by_cases hn : name' = name
    · subst hn
      simp [get, firstIndex_cons_self]
    · rw [get, if_neg hn, ih, firstIndex_cons_of_ne hn]
      simp

theorem setFirst_getElem? (name : String) (value : HeaderValue) (i : Nat) :
    (setFirst headers name value)[i]? =
      if firstIndex headers name = some i then some (name, value) else headers[i]? := by
  induction headers generalizing i with
  | nil => simp [setFirst, firstIndex]
  | cons field rest ih =>
    obtain ⟨name', value'⟩ := field
    by_cases hn : name' = name
    · subst hn
      rw [setFirst, if_pos rfl, firstIndex_cons_self]
      cases i <;> simp
    · rw [setFirst, if_neg hn, firstIndex_cons_of_ne hn]
      cases i with
      | zero => simp
      | succ i => simp [ih]

theorem firstIndex_setFirst (name name' : String) (value : HeaderValue) :
    firstIndex (setFirst headers name value) name' = firstIndex headers name' := by
  induction headers with
  | nil => rfl
  | cons field rest ih =>
    obtain ⟨name₀, value₀⟩ := field
    by_cases hn : name₀ = name
    · rw [setFirst, if_pos hn]
      simp [firstIndex, findIdx?_cons]
    · rw [setFirst, if_neg hn]
      simp only [firstIndex, findIdx?_cons] at ih ⊢
      rw [ih]

end HeaderMap

/-- `http::Request` without its body.  The extensions are left open. -/
structure Request (ext : Type) where
  method : String
  uri : Uri
  version : Version
  headers : HeaderMap
  extensions : ext

end Spacegate.Kernel
