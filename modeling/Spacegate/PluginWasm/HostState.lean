import Mathlib.Data.Set.Insert
import Spacegate.Kernel.Http
import Spacegate.PluginWasm.Config

/-!
# The state of the host

What the host functions of a guest read and change: the contexts, the outbound calls that were
dispatched and are not answered, and the context that is in effect.  A guest is whatever calls
host functions, in any order.
-/

namespace Spacegate.PluginWasm

open Foundation Function
open Kernel (HeaderMap HeaderValue strBytes)

def rootContextId : Nat := 1

inductive ContextStage where
  | init
  | requestHeaders
  | requestBody
  | requestTrailers
  | responseHeaders
  | responseBody
  | responseTrailers
  | log
  deriving DecidableEq, Repr

structure PseudoHeaders where
  method : String
  path : String
  authority : String
  scheme : String
  deriving DecidableEq, Repr

structure LocalResponse where
  status : Nat
  headers : HeaderMap
  body : Bytes
  deriving DecidableEq, Repr

structure HttpCallResult where
  status : Nat
  statusMessage : String
  headers : HeaderMap
  body : Bytes
  deriving DecidableEq, Repr

/-! ## Contexts -/

/-- What the header and buffer functions can change. -/
structure Content where
  requestPseudo : PseudoHeaders
  requestHeaders : HeaderMap
  requestBody : Option Bytes
  responseStatus : Option Nat
  responseHeaders : HeaderMap
  responseBody : Option Bytes
  lastCallHeaders : HeaderMap

structure RequestContext where
  stage : ContextStage
  content : Content
  lastCallStatus : Nat
  lastCallStatusMessage : String
  lastCallBody : Bytes
  continueRequested : Bool
  localResponse : Option LocalResponse
  doneMarker : Bool
  awaitingDone : Bool

/-- `RequestContext::default`. -/
def RequestContext.empty : RequestContext where
  stage := .init
  content :=
    { requestPseudo := { method := "", path := "", authority := "", scheme := "" }
      requestHeaders := []
      requestBody := none
      responseStatus := none
      responseHeaders := []
      responseBody := none
      lastCallHeaders := [] }
  lastCallStatus := 0
  lastCallStatusMessage := ""
  lastCallBody := []
  continueRequested := false
  localResponse := none
  doneMarker := false
  awaitingDone := false

/-- The result of a call, as it is put into the context that has dispatched it. -/
def RequestContext.answer (c : RequestContext) (result : HttpCallResult) : RequestContext :=
  { c with
    content := { c.content with lastCallHeaders := result.headers }
    lastCallStatus := result.status
    lastCallStatusMessage := result.statusMessage
    lastCallBody := result.body
    continueRequested := false }

/-! ### Headers -/

/-- `lookup_header` for the headers of the request. -/
def RequestContext.requestHeader (c : RequestContext) (name : String) : Option String :=
  match Text.toAsciiLowercase name with
  | ":method" => some c.content.requestPseudo.method
  | ":path" => some c.content.requestPseudo.path
  | ":authority" => some c.content.requestPseudo.authority
  | ":scheme" => some c.content.requestPseudo.scheme
  | name => (c.content.requestHeaders.get name).bind (·.toStr)

/-- `collect_pairs` for the headers of the request. -/
def RequestContext.requestPairs (c : RequestContext) : List (String × Bytes) :=
  let pseudo := c.content.requestPseudo
  ([(":method", pseudo.method), (":path", pseudo.path), (":authority", pseudo.authority),
      (":scheme", pseudo.scheme)].filter (·.2 ≠ "")).map (fun p => (p.1, strBytes p.2)) ++
    c.content.requestHeaders.map fun field => (field.1, field.2.bytes)

/-- A call that was dispatched.  Calls are numbered here; the host knows them by their tokens
only, which come again after `2 ^ 32` calls. -/
structure PendingCall where
  sourceContextId : Nat
  number : Nat
  deriving DecidableEq, Repr

structure HostState where
  effectiveContext : Nat
  contexts : Nat → Option RequestContext
  /-- By token. -/
  pendingCalls : List (Nat × PendingCall)
  nextToken : Nat

namespace HostState

variable (st : HostState)

/-- The host of a new guest. -/
def new : HostState where
  effectiveContext := rootContextId
  contexts := update (fun _ => none) rootContextId (some .empty)
  pendingCalls := []
  nextToken := 1

def currentContext : Option RequestContext :=
  st.contexts st.effectiveContext

def setContext (id : Nat) (c : RequestContext) : HostState :=
  { st with contexts := update st.contexts id (some c) }

/-- A change of a context, if there is one with this id. -/
def modifyContext (id : Nat) (f : RequestContext → RequestContext) : HostState :=
  match st.contexts id with
  | some c => st.setContext id (f c)
  | none => st

def removeContext (id : Nat) : HostState :=
  { st with contexts := update st.contexts id none }

def insertPending (token : Nat) (call : PendingCall) : HostState :=
  { st with pendingCalls := st.pendingCalls.filter (·.1 ≠ token) ++ [(token, call)] }

def removePending (token : Nat) : HostState :=
  { st with pendingCalls := st.pendingCalls.filter (·.1 ≠ token) }

/-! ### What a guest sees of the last call -/

/-- `proxy_get_status`: the status of the last call, or else that of the response. -/
def getStatus : Nat :=
  match st.currentContext with
  | some c => if c.lastCallStatus > 0 then c.lastCallStatus else c.content.responseStatus.getD 0
  | none => 0

/-- `proxy_get_header_map_pairs` for the headers of the last call. -/
def callHeaders : HeaderMap :=
  match st.currentContext with
  | some c =>
    (if c.lastCallStatus > 0 then [(":status", ⟨strBytes (toString c.lastCallStatus)⟩)] else []) ++
      c.content.lastCallHeaders
  | none => []

/-- `proxy_get_buffer_bytes` for the body of the last call. -/
def callBody : Option Bytes :=
  st.currentContext.map (·.lastCallBody)

end HostState

/-! ## Host functions -/

inductive StreamType where
  | httpRequest
  | httpResponse
  | downstream
  | upstream
  deriving DecidableEq, Repr

inductive Status where
  | badArgument
  | internalFailure
  deriving DecidableEq, Repr

/-- The arguments of `proxy_http_call`. -/
structure HttpCall where
  cluster : String
  headers : List (String × String)
  body : Bytes
  deriving DecidableEq, Repr

namespace HttpCall

variable (call : HttpCall)

/-- The last value of a pseudo header, or a default. -/
def pseudo (name default : String) : String :=
  ((call.headers.filter (·.1 == name)).getLast?.map (·.2)).getD default

def method : String := call.pseudo ":method" "GET"

def path : String := call.pseudo ":path" "/"

def authority : String := call.pseudo ":authority" ""

/-- Where the call goes to. -/
def base (cfg : WasmPluginShellConfig) : Option String :=
  match cfg.resolveCluster call.cluster with
  | some base => some base
  | none => if call.authority ≠ "" then some ("http://" ++ call.authority) else none

end HttpCall

variable (cfg : WasmPluginShellConfig)

/-- Why `proxy_http_call` does not dispatch a call, if it does not. -/
def HostState.refuses (st : HostState) (call : HttpCall) : Option Status :=
  if cfg.limits.maxBodyBytes.any (· < call.body.length) then some .badArgument
  else if call.method = "" ∨ call.path = "" then some .badArgument
  else if (call.base cfg).isNone then some .badArgument
  else if cfg.limits.maxPendingCalls.any (· ≤ st.pendingCalls.length) then some .internalFailure
  else none

/-- `next_dispatch_token`: the token after this one. -/
def tokenAfter (token : Nat) : Nat :=
  max ((token + 1) % 2 ^ 32) 1

/-- The host functions with an effect on the request. -/
inductive HostCall where
  | setEffectiveContext (id : Nat)
  | done
  | continueStream (stream : StreamType)
  | sendLocalResponse (response : LocalResponse)
  /-- Any of the functions that change headers and buffers. -/
  | edit (change : Content → Content)
  | httpCall (call : HttpCall)

/-- What a host function does.  Calls get the given number. -/
def HostState.perform (number : Nat) (st : HostState) :
    HostCall → HostState
  | .setEffectiveContext id =>
    if (st.contexts id).isSome ∨ id = rootContextId then { st with effectiveContext := id } else st
  | .done =>
    st.modifyContext st.effectiveContext fun c =>
      if c.awaitingDone then { c with doneMarker := true, awaitingDone := false } else c
  | .continueStream .httpRequest | .continueStream .httpResponse =>
    st.modifyContext st.effectiveContext fun c => { c with continueRequested := true }
  | .continueStream _ => st
  | .sendLocalResponse response =>
    st.modifyContext st.effectiveContext fun c => { c with localResponse := some response }
  | .edit change =>
    st.modifyContext st.effectiveContext fun c => { c with content := change c.content }
  | .httpCall call =>
    match st.refuses cfg call with
    | some _ => st
    | none =>
      { st.insertPending st.nextToken
          { sourceContextId := st.effectiveContext, number := number } with
        nextToken := tokenAfter st.nextToken }

/-! ## The context table -/

namespace HostState

/-- The ids of the contexts. -/
def live (st : HostState) : Set Nat :=
  { id | (st.contexts id).isSome }

variable {st : HostState} {id : Nat}

theorem live_new : new.live = {rootContextId} := by
  ext id
  by_cases h : id = rootContextId <;> simp [live, new, update_apply, h]

theorem live_setContext (c : RequestContext) : (st.setContext id c).live = insert id st.live := by
  ext other
  by_cases h : other = id <;> simp [live, setContext, update_apply, h]

theorem live_removeContext : (st.removeContext id).live = st.live \ {id} := by
  ext other
  by_cases h : other = id <;> simp [live, removeContext, update_apply, h]

/-- Hosts with the same contexts and the same calls, whatever is in the contexts. -/
structure Alike (st st' : HostState) : Prop where
  live : st'.live = st.live
  pendingCalls : st'.pendingCalls = st.pendingCalls
  nextToken : st'.nextToken = st.nextToken

theorem Alike.refl (st : HostState) : Alike st st := ⟨rfl, rfl, rfl⟩

theorem alike_setContext {c c' : RequestContext} (h : st.contexts id = some c) :
    Alike st (st.setContext id c') := by
  refine ⟨?_, rfl, rfl⟩
  rw [live_setContext]
  exact Set.insert_eq_of_mem (by simp [live, h])

theorem modifyContext_of_some {c : RequestContext} (h : st.contexts id = some c)
    (f : RequestContext → RequestContext) : st.modifyContext id f = st.setContext id (f c) := by
  simp [modifyContext, h]

theorem alike_modifyContext (f : RequestContext → RequestContext) :
    Alike st (st.modifyContext id f) := by
  unfold modifyContext
  cases h : st.contexts id with
  | none => exact .refl st
  | some c => exact alike_setContext h

variable (cfg : WasmPluginShellConfig)

/-- Only the dispatch of a call changes more than the content of a context. -/
theorem alike_perform (number : Nat) {call : HostCall}
    (h : ∀ httpCall, call ≠ .httpCall httpCall) : Alike st (st.perform cfg number call) := by
  cases call with
  | setEffectiveContext id =>
    simp only [perform]
    split_ifs <;> exact ⟨rfl, rfl, rfl⟩
  | continueStream stream =>
    cases stream with
    | httpRequest => exact alike_modifyContext _
    | httpResponse => exact alike_modifyContext _
    | downstream => exact .refl st
    | upstream => exact .refl st
  | httpCall call => exact absurd rfl (h call)
  | _ => exact alike_modifyContext _

/-- A guest can neither make nor remove a context. -/
theorem live_perform (number : Nat) (call : HostCall) :
    (st.perform cfg number call).live = st.live := by
  cases call with
  | httpCall call =>
    simp only [perform]
    split <;> rfl
  | _ => exact (alike_perform cfg number (by simp)).live

end HostState

end Spacegate.PluginWasm
