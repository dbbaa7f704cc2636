import Spacegate.PluginWasm.HostState

/-!
# `Vm::process`

A `Vm` serves one request after the other.  It calls the hooks of the guest, each of which runs
to its end or traps, and waits for outbound calls, for bodies and for the upstream in between.
Outbound calls go on by themselves, and their results arrive in a channel that is emptied when a
request begins.  While it waits, the request may be abandoned.

The machine stands before the next thing that the host cannot decide by itself: what the guest
does in a hook, or what arrives.
-/

namespace Spacegate.PluginWasm.Vm

open Foundation
open Kernel (HeaderMap HeaderValue strBytes)

/-- The hooks that a guest may export or not. -/
structure Exports where
  onRequestBody : Bool
  onRequestTrailers : Bool
  onResponseBody : Bool
  onResponseTrailers : Bool
  onLog : Bool
  onDone : Bool
  onDelete : Bool
  onTick : Bool

/-- The hooks whose answer may be to pause. -/
inductive StreamHook where
  | requestHeaders
  | requestBody
  | requestTrailers
  | responseHeaders
  | responseBody
  deriving DecidableEq, Repr

inductive Hook where
  | contextCreate
  | stream (h : StreamHook)
  | responseTrailers
  | log
  | done
  | delete
  deriving DecidableEq, Repr

def Hook.name : Hook → String
  | .contextCreate => "on_context_create"
  | .stream .requestHeaders => "on_request_headers"
  | .stream .requestBody => "on_request_body"
  | .stream .requestTrailers => "on_request_trailers"
  | .stream .responseHeaders => "on_response_headers"
  | .stream .responseBody => "on_response_body"
  | .responseTrailers => "on_response_trailers"
  | .log => "on_log"
  | .done => "on_done"
  | .delete => "on_delete"

/-- The traps of the last hooks are not looked at. -/
def Hook.isLast : Hook → Bool
  | .log | .done | .delete => true
  | _ => false

/-- The hooks of the request phase. -/
def StreamHook.isRequest : StreamHook → Bool
  | .requestHeaders | .requestBody | .requestTrailers => true
  | _ => false

inductive Action where
  | continue
  | pause
  deriving DecidableEq, Repr

def Action.fromU32 (v : Nat) : Action :=
  if v = 1 then .pause else .continue

inductive HookOutcome where
  | returned (v : Nat)
  | trapped (message : String)
  /-- The hook is not called, because the fuel could not be set. -/
  | refused (message : String)

/-- What a guest does in a hook. -/
structure HookRun where
  calls : List HostCall
  outcome : HookOutcome

/-- Where `process` stands. -/
inductive Phase where
  | idle
  | hook (h : Hook)
  /-- `drive_until_continue` waits for a result. -/
  | drive (after : StreamHook)
  /-- `proxy_on_http_call_response` is called. -/
  | callback (after : StreamHook) (token bodySize : Nat)
  | collectRequestBody
  | innerCall
  | collectResponseBody
  /-- The `Vm` is to be made anew. -/
  | rebuild
  deriving DecidableEq, Repr

/-- What a guest sees of the answer to a call. -/
structure CallView where
  headers : HeaderMap
  status : Nat
  body : Option Bytes
  deriving DecidableEq, Repr

/-- What has happened. -/
inductive Event where
  | began (ctxId : Nat)
  | dispatched (number token source : Nat) (call : HttpCall) (byTick : Bool)
  | completed (number : Nat) (result : HttpCallResult)
  /-- `proxy_on_http_call_response`, with what the guest sees. -/
  | callback (ctxId token number : Nat) (view : CallView)
  | returned (hook : Hook) (action : Action)
  | continued (ctxId : Nat) (stream : StreamType)
  /-- `inner.call`. -/
  | forwarded (ctxId : Nat)
  /-- `process` returns, with the hooks that were called for the request. -/
  | exited (ctxId : Nat) (error : Option WasmHostError) (told : List Hook)
  | cancelled (ctxId : Nat)
  deriving DecidableEq, Repr

/-- A call under way. -/
structure Running where
  number : Nat
  token : Nat
  deriving DecidableEq, Repr

/-- A result in the channel. -/
structure Arrived where
  token : Nat
  result : HttpCallResult
  number : Nat
  deriving DecidableEq, Repr

structure State where
  host : HostState
  nextCtxId : Nat
  dispatchRx : List Arrived
  running : List Running
  phase : Phase
  /-- The context of the request that is served. -/
  ctxId : Nat
  /-- The head of that request. -/
  pseudo : PseudoHeaders
  headers : HeaderMap
  /-- The hooks that were called for it. -/
  told : List Hook
  nextNumber : Nat
  /-- The latest event first. -/
  log : List Event

variable (cfg : WasmPluginShellConfig) (exports : Exports)

/-! ## Host functions -/

def State.perform (byTick : Bool) (s : State) : HostCall → State
  | .httpCall call =>
    match s.host.refuses cfg call with
    | some _ => s
    | none =>
      { s with
        host := s.host.perform cfg s.nextNumber (.httpCall call)
        running := s.running ++ [{ number := s.nextNumber, token := s.host.nextToken }]
        nextNumber := s.nextNumber + 1
        log := .dispatched s.nextNumber s.host.nextToken s.host.effectiveContext call byTick ::
          s.log }
  | .continueStream stream =>
    { s with
      host := s.host.perform cfg s.nextNumber (.continueStream stream)
      log := .continued s.host.effectiveContext stream :: s.log }
  | call => { s with host := s.host.perform cfg s.nextNumber call }

def State.performAll (byTick : Bool) (s : State) (calls : List HostCall) : State :=
  calls.foldl (State.perform cfg byTick) s

/-! ## The end of a request -/

def exit (error : Option WasmHostError) (phase : Phase) (s : State) : State :=
  { s with phase := phase, log := .exited s.ctxId error s.told :: s.log }

/-- `process` returns an error, and the shell looks whether the `Vm` can stay. -/
def fail (error : WasmHostError) (s : State) : State :=
  exit (some error) (if error.requiresVmRebuild then .rebuild else .idle) s

variable (s : State)

/-- The last hooks are over: the context is removed. -/
def finish : State :=
  exit none .idle { s with host := s.host.removeContext s.ctxId }

def enterDelete : State :=
  if exports.onDelete then { s with phase := .hook .delete } else finish s

def enterDone : State :=
  if exports.onDone then
    { s with
      host := s.host.modifyContext s.ctxId fun c => { c with awaitingDone := true }
      phase := .hook .done }
  else enterDelete exports s

/-- `invoke_log_done_delete`. -/
def invokeLogDoneDelete : State :=
  let host := { s.host with effectiveContext := s.ctxId }.modifyContext s.ctxId fun c =>
    { c with stage := .log }
  if exports.onLog then { s with host := host, phase := .hook .log }
  else enterDone exports { s with host := host }

/-! ## From hook to hook -/

/-- A new stage of the request, with its context in effect. -/
def State.enterStage (stage : ContextStage) (f : RequestContext → RequestContext) : HostState :=
  match s.host.contexts s.ctxId with
  | some c =>
    { s.host.setContext s.ctxId { f c with stage := stage, continueRequested := false } with
      effectiveContext := s.ctxId }
  | none => s.host

/-- For trailers the context is in effect in any case. -/
def State.enterTrailers (stage : ContextStage) : HostState :=
  { s.host with effectiveContext := s.ctxId }.modifyContext s.ctxId fun c =>
    { c with stage := stage, continueRequested := false }

def forward : State :=
  { s with phase := .innerCall, log := .forwarded s.ctxId :: s.log }

def leaveRequestBody : State :=
  if exports.onRequestTrailers then
    { s with host := s.enterTrailers .requestTrailers, phase := .hook (.stream .requestTrailers) }
  else forward s

def leaveRequestHeaders : State :=
  if exports.onRequestBody then { s with phase := .collectRequestBody }
  else leaveRequestBody exports s

def leaveResponseBody : State :=
  if exports.onResponseTrailers then
    { s with host := s.enterTrailers .responseTrailers, phase := .hook .responseTrailers }
  else invokeLogDoneDelete exports s

def leaveResponseHeaders : State :=
  if exports.onResponseBody then { s with phase := .collectResponseBody }
  else leaveResponseBody exports s

def State.localResponse : Option LocalResponse :=
  (s.host.contexts s.ctxId).bind (·.localResponse)

/-- A local response ends the request. -/
def unlessAnswered (next : State → State) (s : State) : State :=
  if s.localResponse.isSome then
    invokeLogDoneDelete exports { s with
      host := s.host.modifyContext s.ctxId fun c => { c with localResponse := none } }
  else next s

variable (after : StreamHook)

/-- After a hook and what was awaited for it. -/
def leave (s : State) : State :=
  match after with
  | .requestHeaders => unlessAnswered exports (leaveRequestHeaders exports) s
  | .requestBody => unlessAnswered exports (leaveRequestBody exports) s
  | .requestTrailers => unlessAnswered exports forward s
  | .responseHeaders => unlessAnswered exports (leaveResponseHeaders exports) s
  -- here a local response is not looked at
  | .responseBody => leaveResponseBody exports s

/-- The head of the loop of `drive_until_continue`. -/
def driveUntilContinue (s : State) : State :=
  match s.host.contexts s.ctxId with
  | none => fail (.abiViolation ("ctx " ++ toString s.ctxId ++ " gone")) s
  | some c =>
    if c.localResponse.isSome then leave exports after s
    else if c.continueRequested ∧ s.host.pendingCalls = [] then leave exports after s
    -- a pause without an outbound call does not wait
    else if s.host.pendingCalls = [] then leave exports after s
    else { s with phase := .drive after }

/-- `contexts.entry(http_ctx_id).or_default()`, with the head of the request. -/
def State.createdContext : RequestContext :=
  let c := (s.host.contexts s.ctxId).getD .empty
  { c with
    stage := .requestHeaders
    content := { c.content with requestPseudo := s.pseudo, requestHeaders := s.headers }
    continueRequested := false }

/-- What follows a hook. -/
def afterHook (h : Hook) (action : Action) (s : State) : State :=
  match h with
  | .contextCreate =>
    { s with
      host := { s.host.setContext s.ctxId s.createdContext with effectiveContext := s.ctxId }
      phase := .hook (.stream .requestHeaders) }
  | .stream .requestHeaders =>
    -- a pause without an outbound call is one for the body
    if action = .pause ∧ s.host.pendingCalls ≠ [] then
      driveUntilContinue exports .requestHeaders s
    else leave exports .requestHeaders s
  | .stream after =>
    if action = .pause then driveUntilContinue exports after s else leave exports after s
  | .responseTrailers => invokeLogDoneDelete exports s
  | .log => enterDone exports s
  | .done => enterDelete exports s
  | .delete => finish s

/-! ## Guest calls -/

/-- After the guest has run in a hook. -/
def State.called (h : Hook) (run : HookRun) (s : State) : State :=
  let s := s.performAll cfg false run.calls
  { s with told := h :: s.told }

/-- After a hook that has answered. -/
def State.returned (h : Hook) (run : HookRun) (v : Nat) (s : State) : State :=
  let s := s.called cfg h run
  { s with log := .returned h (.fromU32 v) :: s.log }

def runHook (h : Hook) (run : HookRun) (s : State) : State :=
  match run.outcome with
  | .refused message => fail (.resourceLimit ("set fuel: " ++ message)) s
  | .returned v => afterHook exports h (.fromU32 v) (s.returned cfg h run v)
  | .trapped message =>
    let s := s.called cfg h run
    if h.isLast then afterHook exports h .continue s else fail (.guestTrap h.name message) s

def runCallback (run : HookRun) (s : State) : State :=
  match run.outcome with
  | .refused message => fail (.resourceLimit ("set fuel: " ++ message)) s
  | .returned _ => driveUntilContinue exports after (s.performAll cfg false run.calls)
  | .trapped message =>
    fail (.guestTrap "on_http_call_response" message) (s.performAll cfg false run.calls)

/-- With the root context in effect. -/
def State.atRoot : State :=
  { s with host := { s.host with effectiveContext := rootContextId } }

/-- `Vm::tick`, whose errors end the ticks only. -/
def tick (run : HookRun) (s : State) : State :=
  if exports.onTick then
    match run.outcome with
    | .refused _ => s.atRoot
    | _ => s.atRoot.performAll cfg true run.calls
  else s

/-! ## What arrives -/

/-- What a guest sees in a state of the host. -/
def view (st : HostState) : CallView where
  headers := st.callHeaders
  status := st.getStatus
  body := st.callBody

/-- The host when a result is received. -/
def State.received (arrived : Arrived) : HostState :=
  let source := ((s.host.pendingCalls.lookup arrived.token).map (·.sourceContextId)).getD s.ctxId
  { s.host.removePending arrived.token with effectiveContext := source }.modifyContext source
    (·.answer arrived.result)

def receive (s : State) : State :=
  match s.dispatchRx with
  | [] => s
  | arrived :: rest =>
    let host := s.received arrived
    { s with
      host := host
      dispatchRx := rest
      phase := .callback after arrived.token arrived.result.body.length
      log := .callback host.effectiveContext arrived.token arrived.number (view host) :: s.log }

/-- The answer to an outbound call, or why there is none. -/
abbrev Answer := Except String HttpCallResult

/-- What the task of a call sends: a body that is too large counts as a failure. -/
def callResult (answer : Answer) : HttpCallResult :=
  match answer with
  | .error e => { status := 0, statusMessage := e, headers := [], body := [] }
  | .ok result =>
    match cfg.limits.maxBodyBytes with
    | some limit =>
      if limit < result.body.length then
        { status := 0
          statusMessage := "dispatch_http_call response body too large: " ++
            toString result.body.length ++ " > " ++ toString limit
          headers := []
          body := [] }
      else result
    | none => result

def complete (number : Nat) (answer : Answer) (s : State) : State :=
  match s.running.find? (·.number == number) with
  | none => s
  | some call =>
    let result := callResult cfg answer
    { s with
      running := s.running.filter (·.number ≠ number)
      dispatchRx :=
        s.dispatchRx ++ [{ token := call.token, result := result, number := number }]
      log := .completed number result :: s.log }

/-- `collect_body_limited` of a stream that ends or breaks off. -/
def collectBodyLimited (body : Except String Bytes) : Except WasmHostError Bytes :=
  match cfg.limits.maxBodyBytes with
  | none => .ok (body.toOption.getD [])
  | some limit =>
    let tooLarge := WasmHostError.bodyTooLarge (min (limit + 1) (2 ^ 64 - 1)) limit
    match body with
    | .error _ => .error tooLarge
    | .ok bytes => if limit < bytes.length then .error tooLarge else .ok bytes

def bodyCollected (body : Except String Bytes) (s : State) : State :=
  match s.phase, collectBodyLimited cfg body with
  | .collectRequestBody, .ok bytes =>
    { s with
      host := s.enterStage .requestBody fun c =>
        { c with content := { c.content with requestBody := some bytes } }
      phase := .hook (.stream .requestBody) }
  | .collectResponseBody, .ok bytes =>
    { s with
      host := s.enterStage .responseBody fun c =>
        { c with content := { c.content with responseBody := some bytes } }
      phase := .hook (.stream .responseBody) }
  | .collectRequestBody, .error e | .collectResponseBody, .error e => fail e s
  | _, _ => s

def responded (status : Nat) (headers : HeaderMap) (s : State) : State :=
  { s with
    host := s.enterStage .responseHeaders fun c =>
      { c with
        content := { c.content with responseStatus := some status, responseHeaders := headers } }
    phase := .hook (.stream .responseHeaders) }

/-! ## Requests -/

def pseudoHeaders (request : Kernel.Request Unit) : PseudoHeaders where
  method := request.method
  path := (request.uri.pathAndQuery.map displayPath).getD "/"
  authority := (request.uri.authority.map (·.text)).getD
    (((request.headers.get "host").bind (·.toStr)).getD "")
  scheme := request.uri.schemeStr.getD "http"
where
  /-- `PathAndQuery` is printed with a slash in front. -/
  displayPath (pathAndQuery : Kernel.PathAndQuery) : String :=
    match pathAndQuery.data.toList with
    | [] => "/"
    | '/' :: _ | '*' :: _ => pathAndQuery.data
    | _ => "/" ++ pathAndQuery.data

/-- The beginning of `process`: what earlier requests have left in the channel and in the table
of calls is thrown away. -/
def begin (request : Kernel.Request Unit) (s : State) : State :=
  { s with
    dispatchRx := []
    host := { s.host with pendingCalls := [], effectiveContext := s.nextCtxId }
    ctxId := s.nextCtxId
    nextCtxId := (s.nextCtxId + 1) % 2 ^ 32
    pseudo := pseudoHeaders request
    headers := request.headers
    told := []
    phase := .hook .contextCreate
    log := .began s.nextCtxId :: s.log }

/-- A new `Vm` in the place of this one. -/
def State.fresh : State :=
  { s with
    host := .new
    nextCtxId := rootContextId + 1
    dispatchRx := []
    running := []
    phase := .idle }

/-- `Vm::new`, where the guest calls host functions while it is started. -/
def renew (calls : List HostCall) (s : State) : State :=
  s.fresh.performAll cfg false calls

def State.blank : State where
  host := .new
  nextCtxId := rootContextId + 1
  dispatchRx := []
  running := []
  phase := .idle
  ctxId := 0
  pseudo := { method := "", path := "", authority := "", scheme := "" }
  headers := []
  told := []
  nextNumber := 0
  log := []

def State.init (calls : List HostCall) : State :=
  renew cfg calls .blank

inductive Input where
  | begin (request : Kernel.Request Unit)
  /-- What the guest does in the hook that is called. -/
  | run (run : HookRun)
  | receive
  | complete (number : Nat) (answer : Answer)
  | body (body : Except String Bytes)
  | respond (status : Nat) (headers : HeaderMap)
  | tick (run : HookRun)
  /-- The request is abandoned while it waits. -/
  | cancel
  /-- The `Vm` is made anew, unless that fails. -/
  | rebuild (calls : Option (List HostCall))

def Phase.waits : Phase → Bool
  | .drive _ | .collectRequestBody | .innerCall | .collectResponseBody => true
  | _ => false

def step : Input → State
  | .begin request => if s.phase = .idle then begin request s else s
  | .run run =>
    match s.phase with
    | .hook h => runHook cfg exports h run s
    | .callback after _ _ => runCallback cfg exports after run s
    | _ => s
  | .receive =>
    match s.phase with
    | .drive after => receive after s
    | _ => s
  | .complete number answer => complete cfg number answer s
  | .body body => bodyCollected cfg body s
  | .respond status headers => if s.phase = .innerCall then responded status headers s else s
  | .tick run => if s.phase = .idle then tick cfg exports run s else s
  | .cancel =>
    if s.phase.waits then { s with phase := .idle, log := .cancelled s.ctxId :: s.log } else s
  | .rebuild calls =>
    if s.phase = .rebuild then
      match calls with
      | some calls => renew cfg calls s
      | none => { s with phase := .idle }
    else s

/-- A `Vm` that is started with some calls, after some inputs. -/
def run (calls : List HostCall) (inputs : List Input) : State :=
  inputs.foldl (step cfg exports) (.init cfg calls)

end Spacegate.PluginWasm.Vm
