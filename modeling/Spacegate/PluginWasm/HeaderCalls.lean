import Spacegate.Foundation.Trace
import Spacegate.PluginWasm.HeaderMaps

/-!
# Header calls

A guest reads and changes the headers of the request and of the response by name, or all at once.
The pseudo headers look to it as if they were in the map, but they are kept apart, as the fields of
the request and the number of the status.  So much is dropped on the way that a call which is
reported as done may not be: the calls that do what they report are described here.
-/

namespace Spacegate.PluginWasm.HeaderCalls

open Foundation Foundation.Trace Text List HeaderMaps
open Kernel (HeaderMap HeaderValue strBytes isVisibleAscii isValueByte)

/-! ## Host functions -/

/-- The maps of a request that are looked at here. -/
inductive MapType where
  | httpRequestHeaders
  | httpResponseHeaders
  deriving DecidableEq, Repr

inductive Status where
  | ok
  | notFound
  | badArgument
  | serializationFailure
  deriving DecidableEq, Repr

section Helpers

variable (c : Content) (mt : MapType)

def headersOf : HeaderMap :=
  match mt with
  | .httpRequestHeaders => c.requestHeaders
  | .httpResponseHeaders => c.responseHeaders

def replaceMap (map : HeaderMap) : Content :=
  match mt with
  | .httpRequestHeaders => { c with requestHeaders := map }
  | .httpResponseHeaders => { c with responseHeaders := map }

def pseudoLookup (key : String) : Option String :=
  match mt, key with
  | .httpRequestHeaders, ":method" => some c.requestPseudo.method
  | .httpRequestHeaders, ":path" => some c.requestPseudo.path
  | .httpRequestHeaders, ":authority" => some c.requestPseudo.authority
  | .httpRequestHeaders, ":scheme" => some c.requestPseudo.scheme
  | .httpResponseHeaders, ":status" => c.responseStatus.map toString
  | _, _ => none

def lookupHeader (keyLower : String) : Option String :=
  match pseudoLookup c mt keyLower with
  | some value => some value
  | none => do
    let name ← headerName keyLower
    let value ← (headersOf c mt).get name
    value.toStr

inductive HeaderMutation where
  | add (value : String)
  | replace (value : String)
  | remove

def HeaderMutation.newVal : HeaderMutation → Option String
  | .add value | .replace value => some value
  | .remove => none

/-- A change of a pseudo header, whose name has to be written in lower case. -/
def mutatePseudo (key : String) (newVal : Option String) : Content :=
  match mt, key with
  | .httpRequestHeaders, ":path" =>
    { c with requestPseudo := { c.requestPseudo with path := newVal.getD "" } }
  | .httpRequestHeaders, ":method" =>
    { c with requestPseudo := { c.requestPseudo with method := newVal.getD "" } }
  | .httpRequestHeaders, ":authority" =>
    { c with requestPseudo := { c.requestPseudo with authority := newVal.getD "" } }
  | .httpRequestHeaders, ":scheme" =>
    { c with requestPseudo := { c.requestPseudo with scheme := newVal.getD "" } }
  | .httpResponseHeaders, ":status" =>
    match newVal with
    | some value => { c with responseStatus := parseUnsigned 16 value }
    | none => c
  | _, _ => c

/-- A change of the map.  A value that is none leaves it as it is. -/
def HeaderMutation.apply (name : String) (map : HeaderMap) : HeaderMutation → HeaderMap
  | .add value =>
    ((headerValue (strBytes value)).map fun v => HeaderMaps.append map name v).getD map
  | .replace value =>
    ((headerValue (strBytes value)).map fun v => HeaderMaps.insert map name v).getD map
  | .remove => HeaderMaps.remove map name

def mutateHeader (key : String) (m : HeaderMutation) : Content × Status :=
  if startsWith ':' key then (mutatePseudo c mt key m.newVal, .ok)
  else
    match headerName key with
    | none => (c, .badArgument)
    | some name => (replaceMap c mt (m.apply name (headersOf c mt)), .ok)

def pseudoPairs : List (String × Bytes) :=
  match mt with
  | .httpRequestHeaders =>
    ([(":method", c.requestPseudo.method), (":path", c.requestPseudo.path),
      (":authority", c.requestPseudo.authority), (":scheme", c.requestPseudo.scheme)].filter
        (·.2 ≠ "")).map fun p => (p.1, strBytes p.2)
  | .httpResponseHeaders =>
    (c.responseStatus.map fun status => (":status", strBytes (toString status))).toList

def collectPairs : List (String × Bytes) :=
  pseudoPairs c mt ++ (headersOf c mt).map fun field => (field.1, field.2.bytes)

end Helpers

/-- A call, with what is read from the memory of the guest. -/
inductive Call where
  | add (mt : MapType) (key : String) (value : Bytes)
  | replace (mt : MapType) (key : String) (value : Bytes)
  | remove (mt : MapType) (key : String)
  | setPairs (mt : MapType) (bytes : Bytes)

section Host

variable (st : HostState)

def mutate (mt : MapType) (key : String) (m : HeaderMutation) : HostState × Status :=
  match st.currentContext with
  | none => (st, .notFound)
  | some c =>
    let (content, status) := mutateHeader c.content mt key m
    (st.setContext st.effectiveContext { c with content := content }, status)

def perform : Call → HostState × Status
  | .add mt key value => mutate st mt key (.add (fromUtf8Lossy value))
  | .replace mt key value => mutate st mt key (.replace (fromUtf8Lossy value))
  | .remove mt key => mutate st mt key .remove
  | .setPairs mt bytes =>
    match decodePairs bytes with
    | none => (st, .serializationFailure)
    | some pairs =>
      (st.modifyContext st.effectiveContext fun c =>
        { c with content := replaceMap c.content mt (pairsToHeaderMap pairs) }, .ok)

/-- `proxy_get_header_map_value`. -/
def getHeaderMapValue (mt : MapType) (key : String) : Option Bytes :=
  (st.currentContext.bind fun c =>
    lookupHeader c.content mt (toAsciiLowercase key)).map strBytes

/-- `proxy_get_header_map_pairs`. -/
def getHeaderMapPairs (mt : MapType) : List (String × Bytes) :=
  (st.currentContext.map fun c => collectPairs c.content mt).getD []

end Host

/-! ## The reference -/

/-- The values of every name, in their order, pseudo headers among them. -/
abbrev Reference := MapType → String → List Bytes

/-- A change of the values of one name, whatever its case. -/
def Reference.modify (ref : Reference) (mt : MapType) (key : String)
    (f : List Bytes → List Bytes) : Reference := fun mt' name =>
  if mt' = mt ∧ name = toAsciiLowercase key then f (ref mt' name) else ref mt' name

/-- The name of a pair. -/
def pairName (p : Bytes × Bytes) : String :=
  toAsciiLowercase (fromUtf8Lossy p.1)

def Reference.step (ref : Reference) : Call → Reference
  | .add mt key value => ref.modify mt key (· ++ [value])
  | .replace mt key value => ref.modify mt key fun _ => [value]
  | .remove mt key => ref.modify mt key fun _ => []
  | .setPairs mt bytes => fun mt' name =>
    if mt' = mt then ((((decodePairs bytes).getD []).filter (pairName · = name)).map (·.2))
    else ref mt' name

structure Both where
  host : HostState
  reference : Reference

/-- A call that is reported as done is one of the reference. -/
def step (s : Both) (call : Call) : Both where
  host := (perform s.host call).1
  reference := if (perform s.host call).2 = .ok then s.reference.step call else s.reference

/-- What is read is what the reference holds. -/
structure Agrees (s : Both) : Prop where
  value : ∀ mt key, getHeaderMapValue s.host mt key =
    (s.reference mt (toAsciiLowercase key)).head?
  pairs : ∀ mt name, ((getHeaderMapPairs s.host mt).filter (·.1 = name)).map (·.2) =
    s.reference mt name

/-! ## Calls that do what they report -/

def pseudoNames : MapType → List String
  | .httpRequestHeaders => [":method", ":path", ":authority", ":scheme"]
  | .httpResponseHeaders => [":status"]

/-- The values that a context holds under a name. -/
def held (c : Content) : Reference := fun mt name =>
  ((collectPairs c mt).filter (·.1 = name)).map (·.2)

/-- Bytes that are read as a text, and the same again as bytes. -/
def IsText (value : Bytes) : Prop :=
  strBytes (fromUtf8Lossy value) = value

/-- A text that every map takes and gives back. -/
def IsPlain (value : Bytes) : Prop :=
  IsText value ∧ value.all isVisibleAscii

/-- Where a call has the effect that it reports. -/
def Effective (c : Content) : Call → Prop
  | .add _ key value => startsWith ':' key = false ∧ IsPlain value
  | .replace mt key value =>
    if startsWith ':' key then
      key ∈ pseudoNames mt ∧
        match mt with
        | .httpRequestHeaders => value ≠ [] ∧ IsText value
        | .httpResponseHeaders =>
          (parseUnsigned 16 (fromUtf8Lossy value)).map (strBytes ∘ toString) = some value
    else IsPlain value
  | .remove mt key => toAsciiLowercase key ∉ pseudoNames mt
  | .setPairs mt bytes => ∀ pairs, decodePairs bytes = some pairs →
    (∀ p ∈ pairs, pairName p ∈ pseudoNames mt ∨
      (headerNameOf p.1).isSome ∧ p.2.all isVisibleAscii) ∧
    ∀ name ∈ pseudoNames mt, (pairs.filter (pairName · = name)).map (·.2) = held c mt name

/-- A context whose headers can all be read: every pseudo header of the request has a value, and
every other header is text. -/
structure Readable (c : Content) : Prop where
  pseudo : ∀ key ∈ pseudoNames .httpRequestHeaders, pseudoLookup c .httpRequestHeaders key ≠ some ""
  names : ∀ mt name, values (headersOf c mt) name ≠ [] → headerName name = some name
  values : ∀ mt name, ∀ v ∈ values (headersOf c mt) name, v.bytes.all isVisibleAscii

/-! ## What a context holds -/

variable {c : Content} {mt : MapType} {name key : String}

theorem headerName_of_mem_pseudoNames (h : name ∈ pseudoNames mt) : headerName name = none := by
  revert name
  cases mt <;> decide +kernel

theorem pseudoLookup_of_notMem (h : name ∉ pseudoNames mt) : pseudoLookup c mt name = none := by
  unfold pseudoLookup
  split <;> first | exact absurd (by decide) h | rfl

theorem Readable.values_eq_nil (h : Readable c) (hn : name ∈ pseudoNames mt) :
    HeaderMaps.values (headersOf c mt) name = [] := by
  by_contra hne
  have hName := h.names mt name hne
  rw [headerName_of_mem_pseudoNames hn] at hName
  cases hName

/-- The values of pseudo headers come from the fields, those of others from the map. -/
theorem Readable.held_eq (h : Readable c) (mt : MapType) (name : String) : held c mt name =
      if name ∈ pseudoNames mt then ((pseudoLookup c mt name).map strBytes).toList
      else (HeaderMaps.values (headersOf c mt) name).map (·.bytes) := by
  have hMap : (((headersOf c mt).map fun field => (field.1, field.2.bytes)).filter
      (·.1 = name)).map (·.2) = (HeaderMaps.values (headersOf c mt) name).map (·.bytes) := by
    rw [filter_map, HeaderMaps.values, map_map, map_map]
    rfl
  rw [held, collectPairs, filter_append, map_append, hMap]
  by_cases hn : name ∈ pseudoNames mt
  · rw [if_pos hn, h.values_eq_nil hn, map_nil, append_nil]
    cases mt with
    | httpRequestHeaders =>
      have hm := h.pseudo
      simp only [pseudoNames, mem_cons, not_mem_nil, or_false, forall_eq_or_imp,
        forall_eq, pseudoLookup, ne_eq, Option.some.injEq] at hm
      obtain ⟨h₁, h₂, h₃, h₄⟩ := hm
      simp only [pseudoNames, mem_cons, not_mem_nil, or_false] at hn
      rcases hn with rfl | rfl | rfl | rfl <;> simp [pseudoPairs, pseudoLookup, h₁, h₂, h₃, h₄]
    | httpResponseHeaders =>
      rw [mem_singleton.mp hn]
      cases hs : c.responseStatus <;> simp [pseudoPairs, pseudoLookup, hs]
  · have hNone : ((pseudoPairs c mt).filter (·.1 = name)).map (·.2) = [] := by
      rw [map_eq_nil_iff, filter_eq_nil_iff]
      intro p hp he
      refine hn ?_
      have hName : p.1 = name := of_decide_eq_true he
      cases mt with
      | httpRequestHeaders =>
        obtain ⟨q, hq, rfl⟩ := mem_map.mp hp
        have hMem : q.1 ∈ pseudoNames .httpRequestHeaders :=
          mem_map_of_mem (f := Prod.fst) (mem_of_mem_filter hq)
        exact hName ▸ hMem
      | httpResponseHeaders =>
        obtain ⟨status, -, rfl⟩ := Option.map_eq_some_iff.mp (Option.mem_toList.mp hp)
        exact hName ▸ mem_singleton_self _
    rw [if_neg hn, hNone, nil_append]

theorem get_eq_head? (map : HeaderMap) (name : String) :
    map.get name = (values map name).head? := by
  induction map with
  | nil => rfl
  | cons field rest ih =>
    rw [values_cons, HeaderMap.get, ih]
    split_ifs <;> rfl

theorem strBytes_toStr {value : HeaderValue} (h : value.bytes.all isVisibleAscii) :
    value.toStr.map strBytes = some value.bytes := by
  cases hs : value.toStr with
  | none =>
    rw [HeaderValue.toStr, if_pos h] at hs
    cases hs
  | some text => rw [Option.map_some, HeaderValue.strBytes_of_toStr hs]

/-- In a readable context a header is found where the reference has a value. -/
theorem Readable.lookupHeader_eq (h : Readable c) (mt : MapType) (key : String) :
    (lookupHeader c mt (toAsciiLowercase key)).map strBytes =
      (held c mt (toAsciiLowercase key)).head? := by
  rw [h.held_eq, lookupHeader]
  by_cases hn : toAsciiLowercase key ∈ pseudoNames mt
  · rw [if_pos hn, headerName_of_mem_pseudoNames hn]
    cases pseudoLookup c mt (toAsciiLowercase key) <;> rfl
  · rw [if_neg hn, pseudoLookup_of_notMem hn, headerName_toAsciiLowercase]
    cases hName : headerName key with
    | none =>
      have hNil : HeaderMaps.values (headersOf c mt) (toAsciiLowercase key) = [] := by
        by_contra hne
        have hSome := h.names mt _ hne
        rw [headerName_toAsciiLowercase, hName] at hSome
        cases hSome
      rw [hNil]
      rfl
    | some name =>
      obtain rfl := eq_of_headerName hName
      show (((headersOf c mt).get (toAsciiLowercase key)).bind HeaderValue.toStr).map
        strBytes = _
      rw [get_eq_head?, head?_map]
      cases hv : (HeaderMaps.values (headersOf c mt) (toAsciiLowercase key)).head? with
      | none => rfl
      | some value => exact strBytes_toStr (h.values mt _ value (mem_of_mem_head? hv))

/-! ## What a call does -/

/-- The context after a call, and what is reported. -/
def change (c : Content) : Call → Content × Status
  | .add mt key value => mutateHeader c mt key (.add (fromUtf8Lossy value))
  | .replace mt key value => mutateHeader c mt key (.replace (fromUtf8Lossy value))
  | .remove mt key => mutateHeader c mt key .remove
  | .setPairs mt bytes =>
    match decodePairs bytes with
    | none => (c, .serializationFailure)
    | some pairs => (replaceMap c mt (pairsToHeaderMap pairs), .ok)

theorem perform_eq {st : HostState} {ctx : RequestContext} (h : st.currentContext = some ctx)
    (call : Call) : (perform st call).2 = (change ctx.content call).2 ∧
      (perform st call).1.currentContext =
        some { ctx with content := (change ctx.content call).1 } := by
  have hMutate : ∀ mt key m, (mutate st mt key m).2 = (mutateHeader ctx.content mt key m).2 ∧
      (mutate st mt key m).1.currentContext =
        some { ctx with content := (mutateHeader ctx.content mt key m).1 } := by
    intro mt key m
    rw [mutate, h]
    exact ⟨rfl, Function.update_self ..⟩
  cases call with
  | add mt key value => exact hMutate ..
  | replace mt key value => exact hMutate ..
  | remove mt key => exact hMutate ..
  | setPairs mt bytes =>
    rw [perform, change]
    cases decodePairs bytes with
    | none => exact ⟨rfl, h⟩
    | some pairs =>
      dsimp only
      rw [HostState.modifyContext_of_some h]
      exact ⟨rfl, Function.update_self ..⟩

/-- A call that has left what can be read, and has changed what it reports. -/
structure Did (c : Content) (ref : Reference) (result : Content × Status) : Prop where
  readable : Readable result.1
  done : result.2 = .ok → held result.1 = ref
  failed : result.2 ≠ .ok → result.1 = c

/-- Another map in the place of the one of a readable context. -/
theorem Readable.replaceMap (h : Readable c) (mt : MapType) {map : HeaderMap}
    (hn : ∀ name, HeaderMaps.values map name ≠ [] → headerName name = some name)
    (hv : ∀ name, ∀ v ∈ HeaderMaps.values map name, v.bytes.all isVisibleAscii) :
    Readable (replaceMap c mt map) ∧ ∀ mt' name, held (HeaderCalls.replaceMap c mt map) mt' name =
      if mt' = mt ∧ name ∉ pseudoNames mt then (HeaderMaps.values map name).map (·.bytes)
      else held c mt' name := by
  have hHeaders : ∀ mt', headersOf (HeaderCalls.replaceMap c mt map) mt' =
      if mt' = mt then map else headersOf c mt' := by
    cases mt <;> rintro ⟨⟩ <;> rfl
  have hPseudo : pseudoLookup (HeaderCalls.replaceMap c mt map) = pseudoLookup c := by
    cases mt <;> rfl
  have hReadable : Readable (HeaderCalls.replaceMap c mt map) := by
    refine ⟨hPseudo ▸ h.pseudo, fun mt' => ?_, fun mt' => ?_⟩
    · rw [hHeaders]
      split_ifs
      · exact hn
      · exact h.names mt'
    · rw [hHeaders]
      split_ifs
      · exact hv
      · exact h.values mt'
  refine ⟨hReadable, fun mt' name => ?_⟩
  rw [hReadable.held_eq, h.held_eq, hHeaders, hPseudo]
  by_cases hm : mt' = mt
  · subst hm
    by_cases hp : name ∈ pseudoNames mt' <;> simp [hp]
  · simp [hm]

/-- A change of a header that is none of the pseudo headers. -/
theorem Readable.mutateHeader (h : Readable c) (hk : startsWith ':' key = false)
    (m : HeaderMutation) (g : List HeaderValue → List HeaderValue) (f : List Bytes → List Bytes)
    (hg : ∀ map name other, HeaderMaps.values (m.apply name map) other =
      if name = other then g (HeaderMaps.values map other) else HeaderMaps.values map other)
    (hf : ∀ vs, (g vs).map (·.bytes) = f (vs.map (·.bytes)))
    (hv : ∀ vs, ∀ v ∈ g vs, v ∈ vs ∨ v.bytes.all isVisibleAscii) :
    Did c ((held c).modify mt key f) (mutateHeader c mt key m) := by
  rw [HeaderCalls.mutateHeader, if_neg (by rw [hk]; exact Bool.false_ne_true)]
  cases hName : headerName key with
  | none => exact ⟨h, fun he => (nomatch he), fun _ => rfl⟩
  | some name =>
    have hLower := eq_of_headerName hName
    have hValid := headerName_self hName
    have hNot : ∀ mt, name ∉ pseudoNames mt := by
      intro mt hMem
      rw [headerName_of_mem_pseudoNames hMem] at hValid
      cases hValid
    have hNames : ∀ other, HeaderMaps.values (m.apply name (headersOf c mt)) other ≠ [] →
        headerName other = some other := by
      intro other hne
      rw [hg] at hne
      split_ifs at hne with ho
      · exact ho ▸ hValid
      · exact h.names mt other hne
    have hValues : ∀ other, ∀ v ∈ HeaderMaps.values (m.apply name (headersOf c mt)) other,
        v.bytes.all isVisibleAscii := by
      intro other v hMem
      rw [hg] at hMem
      split_ifs at hMem
      · exact (hv _ v hMem).elim (h.values mt other v) id
      · exact h.values mt other v hMem
    obtain ⟨hReadable, hHeld⟩ := h.replaceMap mt hNames hValues
    refine ⟨hReadable, fun _ => ?_, fun hne => absurd rfl hne⟩
    funext mt' other
    rw [hHeld, Reference.modify, hg, ← hLower]
    by_cases hm : mt' = mt
    · subst hm
      by_cases ho : other = name
      · subst ho
        rw [if_pos ⟨rfl, hNot mt'⟩, if_pos rfl, if_pos ⟨rfl, rfl⟩, h.held_eq, if_neg (hNot mt'), hf]
      · have hSame : ¬ (mt' = mt' ∧ other = name) := fun hx => ho hx.2
        rw [if_neg (Ne.symm ho), if_neg hSame, h.held_eq]
        by_cases hp : other ∈ pseudoNames mt' <;> simp [hp]
    · rw [if_neg fun hx => hm hx.1, if_neg fun hx => hm hx.1]

variable {value : Bytes}

theorem headerValue_of_isPlain (h : value.all isVisibleAscii) :
    headerValue value = some ⟨value⟩ := by
  rw [headerValue, if_pos]
  rw [all_eq_true] at h ⊢
  intro b hb
  have hVisible := h b hb
  simp only [isVisibleAscii, isValueByte, Bool.or_eq_true, Bool.and_eq_true, decide_eq_true_eq,
    beq_iff_eq, bne_iff_ne, ne_eq] at hVisible ⊢
  refine hVisible.imp_left fun hx => ⟨hx.1, ?_⟩
  rintro rfl
  exact absurd hx.2 (by decide)

/-- A value that is added to the map or put into it. -/
theorem Readable.put (h : Readable c) (hk : startsWith ':' key = false) (hv : IsPlain value) :
    Did c ((held c).modify mt key (· ++ [value]))
        (HeaderCalls.mutateHeader c mt key (.add (fromUtf8Lossy value))) ∧
      Did c ((held c).modify mt key fun _ => [value])
        (HeaderCalls.mutateHeader c mt key (.replace (fromUtf8Lossy value))) := by
  have hStored : headerValue (strBytes (fromUtf8Lossy value)) = some ⟨value⟩ := by
    rw [hv.1, headerValue_of_isPlain hv.2]
  constructor
  · refine h.mutateHeader hk _ (· ++ [⟨value⟩]) (· ++ [value]) ?_ (fun vs => by simp) ?_
    · intro map name other
      rw [HeaderMutation.apply, hStored, Option.map_some, Option.getD_some,
        HeaderMaps.values_append]
      split_ifs
      · rfl
      · rw [append_nil]
    · intro vs v hMem
      refine (mem_append.mp hMem).imp_right fun hLast => ?_
      rw [mem_singleton.mp hLast]
      exact hv.2
  · refine h.mutateHeader hk _ (fun _ => [⟨value⟩]) (fun _ => [value]) ?_ (fun vs => rfl) ?_
    · intro map name other
      rw [HeaderMutation.apply, hStored, Option.map_some, Option.getD_some,
        HeaderMaps.values_insert]
    · intro vs v hMem
      rw [mem_singleton.mp hMem]
      exact .inr hv.2

/-! ### Pseudo headers -/

theorem headerName_of_startsWith (h : startsWith ':' key = true) : headerName key = none := by
  rw [headerName, if_neg]
  rintro ⟨-, -, hAll⟩
  unfold startsWith at h
  cases hl : key.toList with
  | nil => simp [hl] at h
  | cons first rest =>
    have hFirst : first = ':' := by simpa [hl] using h
    rw [hl, hFirst, all_cons] at hAll
    exact absurd hAll (by simp [isTokenChar])

theorem toAsciiLowercase_of_mem (h : key ∈ pseudoNames mt) : toAsciiLowercase key = key := by
  revert key
  cases mt <;> decide +kernel

theorem Readable.remove (h : Readable c) (hn : toAsciiLowercase key ∉ pseudoNames mt) :
    Did c ((held c).modify mt key fun _ => [])
      (HeaderCalls.mutateHeader c mt key .remove) := by
  cases hk : startsWith ':' key with
  | false =>
    refine h.mutateHeader hk _ (fun _ => []) (fun _ => []) ?_ (fun vs => rfl) fun vs v hMem => ?_
    · exact HeaderMaps.values_remove
    · exact absurd hMem not_mem_nil
  | true =>
    -- no effect, but there was no such header
    have hSame : mutatePseudo c mt key HeaderMutation.remove.newVal = c := by
      have hKey : key ∉ pseudoNames mt := by
        intro hMem
        rw [toAsciiLowercase_of_mem hMem] at hn
        exact hn hMem
      unfold mutatePseudo
      split <;> first | exact absurd (by decide) hKey | rfl
    rw [HeaderCalls.mutateHeader, if_pos hk, hSame]
    refine ⟨h, fun _ => ?_, fun hne => absurd rfl hne⟩
    funext mt' name
    rw [Reference.modify]
    split_ifs with hx
    · obtain ⟨rfl, rfl⟩ := hx
      rw [h.held_eq, if_neg hn, map_eq_nil_iff]
      by_contra hne
      have hName := h.names mt' _ hne
      rw [headerName_toAsciiLowercase, headerName_of_startsWith hk] at hName
      cases hName
    · rfl

/-- What is kept of a value that is given to a pseudo header. -/
def kept (mt : MapType) (value : String) : Option String :=
  match mt with
  | .httpRequestHeaders => some value
  | .httpResponseHeaders => (parseUnsigned 16 value).map toString

theorem pseudoLookup_mutatePseudo (hk : key ∈ pseudoNames mt) (value : String) (mt' : MapType)
    (name : String) : pseudoLookup (mutatePseudo c mt key (some value)) mt' name =
      if mt' = mt ∧ name = key then kept mt value else pseudoLookup c mt' name := by
  by_cases hn : name ∈ pseudoNames mt'
  · cases mt <;> cases mt' <;> simp only [pseudoNames, mem_cons, not_mem_nil, or_false] at hk hn <;>
      rcases hk with rfl | rfl | rfl | rfl <;> rcases hn with rfl | rfl | rfl | rfl <;>
      simp [mutatePseudo, pseudoLookup, kept]
  · rw [if_neg, pseudoLookup_of_notMem hn, pseudoLookup_of_notMem hn]
    rintro ⟨rfl, rfl⟩
    exact hn hk

theorem headersOf_mutatePseudo (key : String) (value : Option String) :
    headersOf (mutatePseudo c mt key value) = headersOf c := by
  unfold mutatePseudo
  split <;> first | rfl | (split <;> rfl)

theorem Readable.replacePseudo (h : Readable c) (hk : key ∈ pseudoNames mt)
    (hv : (kept mt (fromUtf8Lossy value)).map strBytes = some value)
    (hne : mt = .httpRequestHeaders → value ≠ []) :
    Readable (mutatePseudo c mt key (some (fromUtf8Lossy value))) ∧
      held (mutatePseudo c mt key (some (fromUtf8Lossy value))) =
        (held c).modify mt key fun _ => [value] := by
  have hReadable : Readable (mutatePseudo c mt key (some (fromUtf8Lossy value))) := by
    refine ⟨fun other ho => ?_, ?_, ?_⟩
    · rw [pseudoLookup_mutatePseudo hk]
      split_ifs with hx
      · intro hEmpty
        rw [hEmpty] at hv
        exact hne hx.1.symm (Option.some.inj hv).symm
      · exact h.pseudo other ho
    · rw [headersOf_mutatePseudo]
      exact h.names
    · rw [headersOf_mutatePseudo]
      exact h.values
  refine ⟨hReadable, ?_⟩
  funext mt' name
  rw [Reference.modify, toAsciiLowercase_of_mem hk, hReadable.held_eq, h.held_eq,
    pseudoLookup_mutatePseudo hk, headersOf_mutatePseudo]
  by_cases hx : mt' = mt ∧ name = key
  · obtain ⟨rfl, rfl⟩ := hx
    rw [if_pos hk, if_pos ⟨rfl, rfl⟩, if_pos ⟨rfl, rfl⟩, hv]
    rfl
  · rw [if_neg hx, if_neg hx]

/-! ### All calls -/

theorem Readable.setPairs (h : Readable c) {bytes : Bytes} (he : Effective c (.setPairs mt bytes)) :
    Did c ((held c).step (.setPairs mt bytes)) (change c (.setPairs mt bytes)) := by
  rw [change]
  cases hd : decodePairs bytes with
  | none => exact ⟨h, fun hx => (nomatch hx), fun _ => rfl⟩
  | some pairs =>
    obtain ⟨hPairs, hPseudo⟩ := he pairs hd
    have hNone : ∀ p, pairName p ∈ pseudoNames mt → headerNameOf p.1 = none := by
      intro p hMem
      rw [headerNameOf, ← headerName_toAsciiLowercase]
      exact headerName_of_mem_pseudoNames hMem
    have hName : ∀ p ∈ pairs, ∀ name, name ∉ pseudoNames mt →
        (headerNameOf p.1 = some name ↔ pairName p = name) := by
      intro p hp name hn
      rcases hPairs p hp with hMem | ⟨hSome, -⟩
      · rw [hNone p hMem]
        constructor
        · intro hx
          cases hx
        · rintro rfl
          exact absurd hMem hn
      · obtain ⟨other, ho⟩ := Option.isSome_iff_exists.mp hSome
        rw [ho, Option.some.injEq, eq_of_headerName ho, pairName]
    have hValue : ∀ p ∈ pairs, ∀ name, headerNameOf p.1 = some name → p.2.all isVisibleAscii := by
      intro p hp name hn
      rcases hPairs p hp with hMem | ⟨-, hv⟩
      · rw [hNone p hMem] at hn
        cases hn
      · exact hv
    have hValues : ∀ name, (HeaderMaps.values (pairsToHeaderMap pairs) name).map (·.bytes) =
        pairValues pairs name := by
      intro name
      refine values_pairsToHeaderMap fun p hp hn => ?_
      rw [headerValue_of_isPlain (hValue p hp name hn)]
      rfl
    -- every value of the map is one of the pairs
    have hFrom : ∀ name, ∀ v ∈ HeaderMaps.values (pairsToHeaderMap pairs) name,
        headerName name = some name ∧ v.bytes.all isVisibleAscii := by
      intro name v hv
      have hMem : v.bytes ∈ pairValues pairs name := hValues name ▸ mem_map_of_mem hv
      obtain ⟨p, hp, hBytes⟩ := mem_map.mp hMem
      obtain ⟨hp, hn⟩ := mem_filter.mp hp
      have hKey : headerNameOf p.1 = some name := of_decide_eq_true hn
      exact ⟨headerName_self hKey, hBytes ▸ hValue p hp name hKey⟩
    obtain ⟨hReadable, hHeld⟩ := h.replaceMap mt
      (fun name hne => by
        obtain ⟨v, hv⟩ := exists_mem_of_ne_nil _ hne
        exact (hFrom name v hv).1)
      fun name v hv => (hFrom name v hv).2
    refine ⟨hReadable, fun _ => ?_, fun hne => absurd rfl hne⟩
    funext mt' name
    show held (HeaderCalls.replaceMap c mt (pairsToHeaderMap pairs)) mt' name =
      if mt' = mt then ((((decodePairs bytes).getD []).filter (pairName · = name)).map (·.2))
      else held c mt' name
    rw [hHeld, hd, hValues, Option.getD_some]
    by_cases hm : mt' = mt
    · subst hm
      rw [if_pos (rfl : mt' = mt')]
      by_cases hn : name ∈ pseudoNames mt'
      · rw [if_neg fun hx => hx.2 hn, hPseudo name hn]
      · rw [if_pos ⟨rfl, hn⟩, pairValues]
        refine congrArg (List.map _) (filter_congr fun p hp => ?_)
        simp [hName p hp name hn]
    · rw [if_neg hm, if_neg fun hx => hm hx.1]

theorem Readable.did (h : Readable c) {call : Call} (he : Effective c call) :
    Did c ((held c).step call) (change c call) := by
  cases call with
  | add mt key value => exact (h.put he.1 he.2).1
  | setPairs mt bytes => exact h.setPairs he
  | remove mt key => exact h.remove he
  | replace mt key value =>
    simp only [Effective] at he
    split_ifs at he with hk
    · have hMatch : change c (.replace mt key value) =
          (mutatePseudo c mt key (some (fromUtf8Lossy value)), .ok) := by
        rw [change, HeaderCalls.mutateHeader, if_pos hk]
        rfl
      obtain ⟨hr, hh⟩ : Readable (mutatePseudo c mt key (some (fromUtf8Lossy value))) ∧ _ := by
        refine h.replacePseudo he.1 ?_ ?_
        · cases mt with
          | httpRequestHeaders => exact congrArg some he.2.2
          | httpResponseHeaders =>
            rw [kept, Option.map_map]
            exact he.2
        · rintro rfl
          exact he.2.1
      rw [hMatch]
      exact ⟨hr, fun _ => hh, fun hne => absurd rfl hne⟩
    · exact (h.put (Bool.eq_false_iff.mpr hk) he).2

/-! ## Runs -/

/-- The context that is in effect holds what the reference holds. -/
def Matches (s : Both) : Prop :=
  ∃ ctx, s.host.currentContext = some ctx ∧ Readable ctx.content ∧ s.reference = held ctx.content

theorem Matches.agrees {s : Both} (h : Matches s) : Agrees s := by
  obtain ⟨ctx, hc, hr, href⟩ := h
  constructor
  · intro mt key
    rw [getHeaderMapValue, hc, href]
    exact hr.lookupHeader_eq mt key
  · intro mt name
    rw [getHeaderMapPairs, hc, href]
    rfl

/-- A call is made where it has the effect that it reports. -/
def Effects (s : Both) (call : Call) : Prop :=
  ∀ ctx, s.host.currentContext = some ctx → Effective ctx.content call

theorem Matches.step {s : Both} (h : Matches s) {call : Call} (he : Effects s call) :
    Matches (step s call) := by
  obtain ⟨ctx, hc, hr, href⟩ := h
  obtain ⟨hStatus, hContext⟩ := perform_eq hc call
  have hDid := hr.did (he ctx hc)
  refine ⟨_, hContext, hDid.readable, ?_⟩
  rw [HeaderCalls.step, hStatus, href]
  split_ifs with hOk
  · exact (hDid.done hOk).symm
  · rw [hDid.failed hOk]

/-- As long as calls are made where they have the effect that they report, the headers that a
guest reads are those of the reference. -/
theorem agrees_of_effects (host : HostState) (ctx : RequestContext) (calls : List Call)
    (hc : host.currentContext = some ctx) (hr : Readable ctx.content)
    (he : Along step Effects ⟨host, held ctx.content⟩ calls) :
    ∀ earlier later, calls = earlier ++ later →
      Agrees (earlier.foldl step ⟨host, held ctx.content⟩) := by
  rintro earlier later rfl
  refine Matches.agrees ?_
  exact (along_append.mp he).1.foldl ⟨ctx, hc, hr, rfl⟩ fun s call hs hCall => hs.step hCall

/-- The context of a plain request. -/
def plainContext : RequestContext :=
  { RequestContext.empty with
    content :=
      { RequestContext.empty.content with
        requestPseudo := { method := "GET", path := "/", authority := "a", scheme := "http" } } }

def plainHost : HostState :=
  HostState.new.setContext rootContextId plainContext

theorem readable_plainContext : Readable plainContext.content := by
  refine ⟨by decide, fun mt name hne => absurd ?_ hne, fun mt name v hv => ?_⟩
  · cases mt <;> rfl
  · cases mt <;> cases hv

theorem added_agrees : Agrees
    ([.add .httpRequestHeaders "X-A" [49]].foldl step ⟨plainHost, held plainContext.content⟩) :=
  agrees_of_effects plainHost plainContext [.add .httpRequestHeaders "X-A" [49]] rfl
    readable_plainContext
    ⟨fun _ _ => ⟨by decide, by unfold IsPlain IsText; decide +kernel⟩, trivial⟩ _ [] rfl

/-- A value with a line feed is reported as stored. -/
theorem lineFeed_not_agrees : ¬ Agrees
    ([.add .httpRequestHeaders "X-A" [10]].foldl step ⟨plainHost, held plainContext.content⟩) := by
  intro h
  exact absurd (h.value .httpRequestHeaders "X-A") (by decide +kernel)

end Spacegate.PluginWasm.HeaderCalls
