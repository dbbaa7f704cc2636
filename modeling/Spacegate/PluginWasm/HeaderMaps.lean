import Spacegate.Foundation.Utf8
import Spacegate.PluginWasm.HostState
import Spacegate.PluginWasm.PairsCodec

/-!
# Header maps

The operations of `http::HeaderMap` that the host uses, and the response that is built from a
local one.  A map is looked at through the values of each name: in which order different names
come is left to the map.
-/

namespace Spacegate.PluginWasm

open Foundation Text
open Kernel (HeaderMap HeaderValue strBytes isValueByte)

/-! ## Names and values -/

/-- The characters of a header name. -/
def isTokenChar (c : Char) : Bool :=
  (48 ≤ c.toNat && c.toNat ≤ 57) || (65 ≤ c.toNat && c.toNat ≤ 90) ||
    (97 ≤ c.toNat && c.toNat ≤ 122) || "!#$%&'*+-.^_`|~".toList.contains c

/-- `HeaderName::try_from`. -/
def headerName (name : String) : Option String :=
  if name ≠ "" ∧ name.length < 2 ^ 16 ∧ name.toList.all isTokenChar then
    some (Text.toAsciiLowercase name)
  else none

theorem isTokenChar_toLower (c : Char) : isTokenChar c.toLower = isTokenChar c := by
  have hl := toNat_toLower c
  by_cases hu : 65 ≤ c.toNat ∧ c.toNat ≤ 90
  · rw [if_pos hu] at hl
    have hLow : 97 ≤ c.toLower.toNat ∧ c.toLower.toNat ≤ 122 := by omega
    simp [isTokenChar, hu.1, hu.2, hLow.1, hLow.2]
  · rw [if_neg hu] at hl
    rw [Char.toNat_inj.mp hl]

theorem toAsciiLowercase_idem (s : String) :
    toAsciiLowercase (toAsciiLowercase s) = toAsciiLowercase s := by
  have hc : ∀ c : Char, c.toLower.toLower = c.toLower := by
    intro c
    rw [← Char.toNat_inj, toNat_toLower c.toLower, toNat_toLower c]
    split_ifs <;> omega
  rw [← String.toList_inj]
  simp [hc]

/-- A name is one in either case. -/
theorem headerName_toAsciiLowercase (name : String) :
    headerName (toAsciiLowercase name) = headerName name := by
  have hEmpty : toAsciiLowercase name = "" ↔ name = "" := by
    rw [← String.toList_inj, ← String.toList_inj]
    simp
  have hLength : (toAsciiLowercase name).length = name.length := by
    rw [← String.length_toList, ← String.length_toList]
    simp
  have hAll : (toAsciiLowercase name).toList.all isTokenChar = name.toList.all isTokenChar := by
    simp [List.all_map, Function.comp_def, isTokenChar_toLower]
  simp only [headerName, hAll, hLength, toAsciiLowercase_idem, ne_eq, hEmpty]

theorem eq_of_headerName {name name' : String} (h : headerName name = some name') :
    name' = toAsciiLowercase name := by
  unfold headerName at h
  split_ifs at h
  exact (Option.some.inj h).symm

theorem headerName_self {name name' : String} (h : headerName name = some name') :
    headerName name' = some name' := by
  rw [eq_of_headerName h, headerName_toAsciiLowercase, h, eq_of_headerName h]

/-- Bytes are a name where the text that they stand for is one. -/
def headerNameOf (bytes : Bytes) : Option String :=
  headerName (Text.fromUtf8Lossy bytes)

/-- `HeaderValue::from_bytes`. -/
def headerValue (bytes : Bytes) : Option HeaderValue :=
  if bytes.all isValueByte then some ⟨bytes⟩ else none

theorem headerValue_eq_some {bytes : Bytes} {value : HeaderValue}
    (h : headerValue bytes = some value) : value.bytes = bytes := by
  unfold headerValue at h
  split_ifs at h
  cases h
  rfl

/-! ## Maps -/

namespace HeaderMaps

/-- The values of a name, in their order. -/
def values (map : HeaderMap) (name : String) : List HeaderValue :=
  (map.filter (·.1 = name)).map (·.2)

/-- `HeaderMap::append`, behind the other values of the name. -/
def append : HeaderMap → String → HeaderValue → HeaderMap
  | [], name, value => [(name, value)]
  | field :: rest, name, value =>
    if field.1 = name ∧ values rest name = [] then field :: (name, value) :: rest
    else field :: append rest name value

/-- `HeaderMap::insert`, in the place of all values of the name. -/
def insert : HeaderMap → String → HeaderValue → HeaderMap
  | [], name, value => [(name, value)]
  | field :: rest, name, value =>
    if field.1 = name then (name, value) :: rest.filter (·.1 ≠ name)
    else field :: insert rest name value

/-- `HeaderMap::remove`. -/
def remove (map : HeaderMap) (name : String) : HeaderMap :=
  map.filter (·.1 ≠ name)

variable (map : HeaderMap) (name other : String) (value : HeaderValue)

theorem values_nil : values [] name = [] := rfl

theorem values_cons (field : String × HeaderValue) :
    values (field :: map) name = (if field.1 = name then [field.2] else []) ++ values map name := by
  simp only [values, List.filter_cons, decide_eq_true_eq]
  split_ifs <;> rfl

theorem values_remove :
    values (remove map name) other = if name = other then [] else values map other := by
  simp only [values, remove, List.filter_filter]
  split_ifs with h
  · subst h
    simp
  · congr 1
    refine List.filter_congr fun field _ => ?_
    by_cases hf : field.1 = other
    · simp [hf, Ne.symm h]
    · simp [hf]

theorem values_append : values (append map name value) other =
      values map other ++ if name = other then [value] else [] := by
  induction map with
  | nil => simp [append, values_cons, values_nil]
  | cons field rest ih =>
    rw [append]
    split_ifs with hLast ho ho
    · subst ho
      simp [values_cons, hLast.1, hLast.2]
    · simp [values_cons, ho]
    · rw [values_cons, ih, if_pos ho, values_cons, List.append_assoc]
    · rw [values_cons, ih, if_neg ho, values_cons, List.append_nil, List.append_nil]

theorem values_insert : values (insert map name value) other =
      if name = other then [value] else values map other := by
  induction map with
  | nil => simp [insert, values_cons, values_nil]
  | cons field rest ih =>
    rw [insert]
    by_cases hf : field.1 = name
    · have hRest := values_remove rest name other
      rw [remove] at hRest
      rw [if_pos hf, values_cons, hRest, values_cons, hf]
      split_ifs <;> rfl
    · rw [if_neg hf, values_cons, ih, values_cons]
      by_cases ho : name = other
      · rw [if_pos ho, if_neg (ho ▸ hf), if_pos ho]
        rfl
      · rw [if_neg ho, if_neg ho]

end HeaderMaps

/-! ## Pairs of a guest -/

def pairsToHeaderMap (pairs : Pairs) : HeaderMap :=
  pairs.foldl (fun map p =>
    match headerNameOf p.1, headerValue p.2 with
    | some name, some value => HeaderMaps.append map name value
    | _, _ => map) []

/-- The values that pairs have under a name. -/
def pairValues (pairs : Pairs) (name : String) : List Bytes :=
  (pairs.filter (headerNameOf ·.1 = some name)).map (·.2)

/-- Pairs whose name and value can be stored. -/
def Storable (pairs : Pairs) : Prop :=
  ∀ p ∈ pairs, (headerNameOf p.1).isSome ∧ (headerValue p.2).isSome

theorem values_pairsToHeaderMap {pairs : Pairs} {name : String}
    (h : ∀ p ∈ pairs, headerNameOf p.1 = some name → (headerValue p.2).isSome) :
    (HeaderMaps.values (pairsToHeaderMap pairs) name).map (·.bytes) = pairValues pairs name := by
  induction pairs using List.reverseRecOn with
  | nil => rfl
  | append_singleton pairs p ih =>
    have hRest := ih fun q hq => h q (List.mem_append_left _ hq)
    have hp := h p (List.mem_append_right _ (List.mem_singleton_self p))
    have hLast : pairsToHeaderMap (pairs ++ [p]) =
        match headerNameOf p.1, headerValue p.2 with
        | some name, some value => HeaderMaps.append (pairsToHeaderMap pairs) name value
        | _, _ => pairsToHeaderMap pairs :=
      List.foldl_concat ..
    rw [hLast, pairValues, List.filter_append, List.map_append, ← pairValues, ← hRest]
    by_cases hName : headerNameOf p.1 = some name
    · obtain ⟨value, hValue⟩ := Option.isSome_iff_exists.mp (hp hName)
      simp [hName, hValue, HeaderMaps.values_append, headerValue_eq_some hValue]
    · cases hKey : headerNameOf p.1 with
      | none => simp [hKey]
      | some key =>
        have hOther : key ≠ name := fun he => hName (he ▸ hKey)
        cases headerValue p.2 <;> simp [HeaderMaps.values_append, hKey, hOther]

/-! ## Local responses -/

structure Response where
  status : Nat
  headers : HeaderMap
  body : Bytes
  deriving DecidableEq, Repr

/-- What `proxy_send_local_response` keeps. -/
def localResponse (status : Nat) (headers body : Bytes) : LocalResponse where
  status := status % 2 ^ 16
  headers := pairsToHeaderMap ((decodePairs headers).getD [])
  body := body

def buildLocalResponse (response : LocalResponse) : Response where
  status := if 100 ≤ response.status ∧ response.status < 1000 then response.status else 200
  headers := response.headers.foldl (fun map field => HeaderMaps.insert map field.1 field.2) []
  body := response.body

/-- Only the last value of each name is left. -/
theorem values_buildLocalResponse (response : LocalResponse) (name : String) :
    HeaderMaps.values (buildLocalResponse response).headers name =
      (HeaderMaps.values response.headers name).getLast?.toList := by
  simp only [buildLocalResponse]
  induction response.headers using List.reverseRecOn with
  | nil => rfl
  | append_singleton headers field ih =>
    have hSplit : HeaderMaps.values (headers ++ [field]) name =
        HeaderMaps.values headers name ++ if field.1 = name then [field.2] else [] := by
      rw [HeaderMaps.values, List.filter_append, List.map_append, ← HeaderMaps.values,
        ← HeaderMaps.values, HeaderMaps.values_cons, HeaderMaps.values_nil, List.append_nil]
    rw [List.foldl_append, List.foldl_cons, List.foldl_nil, HeaderMaps.values_insert, hSplit, ih]
    split_ifs
    · simp
    · rw [List.append_nil]

theorem toList_getLast?_eq_iff {α : Type*} {xs : List α} :
    xs.getLast?.toList = xs ↔ xs.length ≤ 1 := by
  rcases xs with - | ⟨x, - | ⟨y, xs⟩⟩
  · simp
  · simp
  · have hLength : ((x :: y :: xs).getLast?.toList).length ≤ 1 := by
      cases (x :: y :: xs).getLast? <;> simp
    exact ⟨fun h => h ▸ hLength, fun h => by simp at h⟩

/-- A local response reaches the client with the headers that the guest gives, exactly if no name
is given twice. -/
theorem keepsPairs_iff_nodup (status : Nat) (bytes body : Bytes) {pairs : Pairs}
    (hd : decodePairs bytes = some pairs) (hs : Storable pairs) :
    (∀ name, (HeaderMaps.values
        (buildLocalResponse (localResponse status bytes body)).headers name).map (·.bytes) =
          pairValues pairs name) ↔
      (pairs.map fun p => headerNameOf p.1).Nodup := by
  have hMap : (localResponse status bytes body).headers = pairsToHeaderMap pairs := by
    rw [localResponse, hd]
    rfl
  have hOne : ∀ name, (HeaderMaps.values
      (buildLocalResponse (localResponse status bytes body)).headers name).map (·.bytes) =
        pairValues pairs name ↔ (pairs.map fun p => headerNameOf p.1).count (some name) ≤ 1 := by
    intro name
    have hLast : ((HeaderMaps.values (pairsToHeaderMap pairs) name).getLast?.toList).map
        (·.bytes) = (pairValues pairs name).getLast?.toList := by
      rw [← values_pairsToHeaderMap fun p hp _ => (hs p hp).2, List.getLast?_map]
      cases (HeaderMaps.values (pairsToHeaderMap pairs) name).getLast? <;> rfl
    have hCount : (pairValues pairs name).length =
        (pairs.map fun p => headerNameOf p.1).count (some name) := by
      rw [pairValues, List.length_map, List.count, List.countP_map, List.countP_eq_length_filter]
      congr 1
      refine List.filter_congr fun p _ => ?_
      exact (beq_eq_decide ..).symm
    rw [values_buildLocalResponse, hMap, hLast, toList_getLast?_eq_iff, hCount]
  rw [List.nodup_iff_count_le_one]
  constructor
  · intro h name
    cases name with
    | none =>
      have hNone : none ∉ pairs.map fun p => headerNameOf p.1 := by
        intro hMem
        obtain ⟨p, hp, hName⟩ := List.mem_map.mp hMem
        have hSome := (hs p hp).1
        rw [hName] at hSome
        cases hSome
      rw [List.count_eq_zero_of_not_mem hNone]
      exact Nat.zero_le 1
    | some name => exact (hOne name).mp (h name)
  · intro h name
    exact (hOne name).mpr (h (some name))

/-- `a: 1`. -/
def plainPairs : Bytes := encodePairs [([97], [49])]

theorem plainPairs_keepsPairs :
    (∀ name, (HeaderMaps.values
        (buildLocalResponse (localResponse 200 plainPairs [])).headers name).map (·.bytes) =
          pairValues [([97], [49])] name) ↔
      ([([97], [49])].map fun p : Bytes × Bytes => headerNameOf p.1).Nodup :=
  keepsPairs_iff_nodup 200 plainPairs [] (by decide) (by simp only [Storable]; decide)

/-- `a: 1` and `A: 2`. -/
def repeatedPairs : Bytes := encodePairs [([97], [49]), ([65], [50])]

theorem repeatedPairs_not_kept :
    ¬ ∀ name, (HeaderMaps.values
        (buildLocalResponse (localResponse 200 repeatedPairs [])).headers name).map (·.bytes) =
          pairValues [([97], [49]), ([65], [50])] name := by
  intro h
  exact absurd (h "a") (by decide +kernel)

end Spacegate.PluginWasm
