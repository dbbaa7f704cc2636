import Spacegate.PluginWasm.Vm

/-!
# What a guest can change while it runs

A guest acts through host functions only.  They dispatch calls and change contexts, but the
course of the request is left to the host.
-/

namespace Spacegate.PluginWasm.Vm

open HostState List

/-! ## The log -/

def Event.isBegan : Event → Bool
  | .began _ => true
  | _ => false

def Event.isCallback : Event → Bool
  | .callback _ _ _ _ => true
  | _ => false

/-- What has happened since the latest request began. -/
def current (log : List Event) : List Event :=
  log.takeWhile fun e => !e.isBegan

theorem mem_current_append_iff {log events : List Event}
    (hb : ∀ e ∈ events, e.isBegan = false) {e : Event} :
    e ∈ current (events ++ log) ↔ e ∈ events ∨ e ∈ current log := by
  unfold current
  rw [takeWhile_append_of_pos, mem_append]
  intro e he
  simp [hb e he]

theorem mem_current_append {log events : List Event} (hb : ∀ e ∈ events, e.isBegan = false)
    {e : Event} (he : e ∈ current log) : e ∈ current (events ++ log) :=
  (mem_current_append_iff hb).mpr (.inr he)

theorem mem_current_cons {log : List Event} {e e' : Event} (hb : e.isBegan = false)
    (he : e' ∈ current log) : e' ∈ current (e :: log) := by
  have hEvents : ∀ e' ∈ [e], e'.isBegan = false := by simpa using hb
  exact mem_current_append hEvents he

/-! ## Host functions -/

/-- The events that a guest brings about while it runs. -/
def Event.isCall : Event → Bool
  | .dispatched _ _ _ _ _ | .continued _ _ => true
  | _ => false

/-- The same request is served. -/
structure SameHead (s s' : State) : Prop where
  nextCtxId : s'.nextCtxId = s.nextCtxId
  ctxId : s'.ctxId = s.ctxId
  pseudo : s'.pseudo = s.pseudo
  headers : s'.headers = s.headers

/-- From one state to another by calls of host functions. -/
structure Performed (s s' : State) : Prop extends SameHead s s' where
  live : s'.host.live = s.host.live
  phase : s'.phase = s.phase
  dispatchRx : s'.dispatchRx = s.dispatchRx
  told : s'.told = s.told
  log : ∃ calls, s'.log = calls ++ s.log ∧ ∀ e ∈ calls, e.isCall

variable {s s' s'' : State}

theorem SameHead.refl (s : State) : SameHead s s := ⟨rfl, rfl, rfl, rfl⟩

theorem SameHead.trans (h : SameHead s s') (h' : SameHead s' s'') : SameHead s s'' :=
  ⟨h'.nextCtxId.trans h.nextCtxId, h'.ctxId.trans h.ctxId, h'.pseudo.trans h.pseudo,
    h'.headers.trans h.headers⟩

theorem Performed.refl (s : State) : Performed s s :=
  ⟨.refl s, rfl, rfl, rfl, rfl, [], rfl, by simp⟩

theorem Performed.trans (h : Performed s s') (h' : Performed s' s'') : Performed s s'' := by
  obtain ⟨calls, hLog, hc⟩ := h.log
  obtain ⟨later, hl, hlc⟩ := h'.log
  refine ⟨h.toSameHead.trans h'.toSameHead, h'.live.trans h.live, h'.phase.trans h.phase,
    h'.dispatchRx.trans h.dispatchRx, h'.told.trans h.told,
    later ++ calls, ?_, ?_⟩
  · rw [hl, hLog, append_assoc]
  · intro e he
    rcases mem_append.mp he with he | he
    · exact hlc e he
    · exact hc e he

theorem Performed.mem_log (h : Performed s s') {e : Event} (he : e ∈ s'.log)
    (hk : e.isCall = false) : e ∈ s.log := by
  obtain ⟨calls, hLog, hCalls⟩ := h.log
  rw [hLog] at he
  rcases mem_append.mp he with he | he
  · have hc := hCalls e he
    rw [hk] at hc
    cases hc
  · exact he

variable (cfg : WasmPluginShellConfig) (byTick : Bool)

theorem performed_perform (s : State) (call : HostCall) :
    Performed s (s.perform cfg byTick call) := by
  have hl : ∀ c, (s.host.perform cfg s.nextNumber c).live = s.host.live := by
    intro c
    exact live_perform cfg s.nextNumber c
  cases call with
  | httpCall call =>
    simp only [State.perform]
    split
    · exact .refl s
    · exact ⟨⟨rfl, rfl, rfl, rfl⟩, hl _, rfl, rfl, rfl, [_], rfl, by simp [Event.isCall]⟩
  | continueStream stream =>
    exact ⟨⟨rfl, rfl, rfl, rfl⟩, hl _, rfl, rfl, rfl, [_], rfl, by simp [Event.isCall]⟩
  | _ => exact ⟨⟨rfl, rfl, rfl, rfl⟩, hl _, rfl, rfl, rfl, [], rfl, by simp⟩

theorem alike_host_perform (s : State) {call : HostCall}
    (h : ∀ httpCall, call ≠ .httpCall httpCall) :
    s.host.Alike (s.perform cfg byTick call).host := by
  cases call with
  | httpCall call => exact absurd rfl (h call)
  | _ => exact alike_perform cfg s.nextNumber h

theorem performed_performAll (s : State) (calls : List HostCall) :
    Performed s (s.performAll cfg byTick calls) := by
  induction calls generalizing s with
  | nil => exact .refl s
  | cons call calls ih => exact (performed_perform cfg byTick s call).trans (ih _)

/-! ## From hook to hook -/

/-- The context of a request is there in these phases. -/
def Phase.serves : Phase → Bool
  | .idle | .rebuild | .hook .contextCreate => false
  | _ => true

/-- The outbound calls of the request are left as they are. -/
structure SameCalls (s s' : State) : Prop extends SameHead s s' where
  pendingCalls : s'.host.pendingCalls = s.host.pendingCalls
  nextToken : s'.host.nextToken = s.host.nextToken
  dispatchRx : s'.dispatchRx = s.dispatchRx
  running : s'.running = s.running
  nextNumber : s'.nextNumber = s.nextNumber

theorem SameCalls.of_host (hp : s'.host.pendingCalls = s.host.pendingCalls)
    (ht : s'.host.nextToken = s.host.nextToken)
    (hs : s' = { s with host := s'.host, phase := s'.phase, log := s'.log }) : SameCalls s s' := by
  rw [hs]
  exact ⟨⟨rfl, rfl, rfl, rfl⟩, hp, ht, rfl, rfl, rfl⟩

/-- The host goes on with the request, or ends it, but does not forward it. -/
structure Quiet (s s' : State) : Prop extends SameCalls s s' where
  live : s'.phase.serves → s'.host.live = s.host.live
  live_subset : s'.host.live ⊆ s.host.live
  log : s'.log = s.log ∨ ∃ error, s'.log = .exited s.ctxId error s.told :: s.log

theorem Quiet.of_host (hh : s.host.Alike s'.host)
    (hs : s' = { s with host := s'.host, phase := s'.phase }) : Quiet s s' := by
  rw [hs]
  exact ⟨.of_host hh.pendingCalls hh.nextToken rfl, fun _ => hh.live, hh.live.subset, .inl rfl⟩

theorem Quiet.after {host : HostState} (hh : s.host.Alike host)
    (h : Quiet { s with host := host } s') : Quiet s s' where
  toSameHead := ⟨h.nextCtxId, h.ctxId, h.pseudo, h.headers⟩
  pendingCalls := h.pendingCalls.trans hh.pendingCalls
  nextToken := h.nextToken.trans hh.nextToken
  dispatchRx := h.dispatchRx
  running := h.running
  nextNumber := h.nextNumber
  live := fun hs => (h.live hs).trans hh.live
  live_subset := hh.live ▸ h.live_subset
  log := h.log

variable (s : State)

theorem alike_inEffect (f : RequestContext → RequestContext) :
    s.host.Alike ({ s.host with effectiveContext := s.ctxId }.modifyContext s.ctxId f) := by
  have h : HostState.Alike { s.host with effectiveContext := s.ctxId }
      ({ s.host with effectiveContext := s.ctxId }.modifyContext s.ctxId f) :=
    alike_modifyContext f
  exact ⟨h.live, h.pendingCalls, h.nextToken⟩

theorem alike_enterTrailers (stage : ContextStage) : s.host.Alike (s.enterTrailers stage) :=
  alike_inEffect s _

theorem alike_enterStage (stage : ContextStage) (f : RequestContext → RequestContext) :
    s.host.Alike (s.enterStage stage f) := by
  unfold State.enterStage
  cases h : s.host.contexts s.ctxId with
  | none => exact .refl _
  | some c =>
    have hSet : s.host.Alike (s.host.setContext s.ctxId { f c with
        stage := stage, continueRequested := false }) :=
      alike_setContext h
    exact ⟨hSet.live, hSet.pendingCalls, hSet.nextToken⟩

theorem quiet_fail (error : WasmHostError) (s : State) : Quiet s (fail error s) := by
  exact ⟨.of_host rfl rfl rfl, fun _ => rfl, subset_rfl, .inr ⟨_, rfl⟩⟩

theorem quiet_finish : Quiet s (finish s) := by
  refine ⟨.of_host rfl rfl rfl, ?_, ?_, .inr ⟨_, rfl⟩⟩
  · intro hs
    cases hs
  · show (s.host.removeContext s.ctxId).live ⊆ s.host.live
    rw [live_removeContext]
    exact Set.sdiff_subset

variable (exports : Exports) (s : State)

theorem quiet_enterDelete : Quiet s (enterDelete exports s) := by
  unfold enterDelete
  split_ifs
  · exact .of_host (.refl _) rfl
  · exact quiet_finish s

theorem quiet_enterDone : Quiet s (enterDone exports s) := by
  unfold enterDone
  split_ifs
  · exact .of_host (alike_modifyContext _) rfl
  · exact quiet_enterDelete exports s

theorem quiet_invokeLogDoneDelete : Quiet s (invokeLogDoneDelete exports s) := by
  unfold invokeLogDoneDelete
  dsimp only
  split_ifs
  · exact .of_host (alike_inEffect s _) rfl
  · exact .after (alike_inEffect s _) (quiet_enterDone exports _)

theorem quiet_leaveResponseBody : Quiet s (leaveResponseBody exports s) := by
  unfold leaveResponseBody
  split_ifs
  · exact .of_host (alike_enterTrailers s _) rfl
  · exact quiet_invokeLogDoneDelete exports s

theorem quiet_leaveResponseHeaders : Quiet s (leaveResponseHeaders exports s) := by
  unfold leaveResponseHeaders
  split_ifs
  · exact .of_host (.refl _) rfl
  · exact quiet_leaveResponseBody exports s

/-! ## When a request is forwarded -/

/-- The hook after which a request is forwarded. -/
def Exports.isLastRequest (exports : Exports) : StreamHook → Bool
  | .requestHeaders => !exports.onRequestBody && !exports.onRequestTrailers
  | .requestBody => !exports.onRequestTrailers
  | .requestTrailers => true
  | .responseHeaders | .responseBody => false

variable {after : StreamHook} {hook : Hook}

variable {s}

theorem leave_of_isLastRequest (hl : exports.isLastRequest after)
    (hLocal : s.localResponse = none) : leave exports after s = forward s := by
  cases after with
  | requestHeaders =>
    simp only [Exports.isLastRequest, Bool.and_eq_true, Bool.not_eq_true'] at hl
    simp [leave, unlessAnswered, leaveRequestHeaders, leaveRequestBody, hLocal, hl]
  | requestBody =>
    simp only [Exports.isLastRequest, Bool.not_eq_true'] at hl
    simp [leave, unlessAnswered, leaveRequestBody, hLocal, hl]
  | requestTrailers => simp [leave, unlessAnswered, hLocal]
  | responseHeaders => cases hl
  | responseBody => cases hl

theorem quiet_unlessAnswered {next : State → State}
    (hn : s.localResponse = none → Quiet s (next s)) : Quiet s (unlessAnswered exports next s) := by
  unfold unlessAnswered
  split_ifs with hl
  · exact .after (alike_modifyContext _) (quiet_invokeLogDoneDelete exports _)
  · exact hn (by simpa using hl)

/-- Otherwise it is not. -/
theorem quiet_leave (h : exports.isLastRequest after → s.localResponse ≠ none) :
    Quiet s (leave exports after s) := by
  have hb : exports.onRequestTrailers → Quiet s (leaveRequestBody exports s) := by
    intro ht
    simp only [leaveRequestBody, ht, if_true]
    exact .of_host (alike_enterTrailers s _) rfl
  cases after with
  | requestHeaders =>
    refine quiet_unlessAnswered exports fun hl => ?_
    unfold leaveRequestHeaders
    split_ifs with he
    · exact .of_host (.refl _) rfl
    · refine hb ?_
      by_contra ht
      exact h (by simp [Exports.isLastRequest, he, ht]) hl
  | requestBody =>
    refine quiet_unlessAnswered exports fun hl => hb ?_
    by_contra ht
    exact h (by simp [Exports.isLastRequest, ht]) hl
  | requestTrailers =>
    exact quiet_unlessAnswered exports fun hl => absurd hl (h rfl)
  | responseHeaders =>
    exact quiet_unlessAnswered exports fun _ => quiet_leaveResponseHeaders exports s
  | responseBody => exact quiet_leaveResponseBody exports s

theorem driveUntilContinue_of_nil (hl : s.ctxId ∈ s.host.live) (hp : s.host.pendingCalls = []) :
    driveUntilContinue exports after s = leave exports after s := by
  obtain ⟨c, hc⟩ := Option.isSome_iff_exists.mp hl
  simp [driveUntilContinue, hc, hp]

theorem quiet_driveUntilContinue
    (h : exports.isLastRequest after → s.localResponse = none → s.host.pendingCalls ≠ []) :
    Quiet s (driveUntilContinue exports after s) := by
  unfold driveUntilContinue
  cases hContext : s.host.contexts s.ctxId with
  | none => exact quiet_fail _ s
  | some c =>
    have hLocal : s.localResponse = c.localResponse := by
      simp [State.localResponse, hContext]
    dsimp only
    split_ifs with ha hc hn
    · refine quiet_leave exports fun _ => ?_
      rw [hLocal]
      exact Option.isSome_iff_ne_none.mp ha
    · exact quiet_leave exports fun hl hNot => h hl hNot hc.2
    · exact quiet_leave exports fun hl hNot => h hl hNot hn
    · exact .of_host (.refl _) rfl

theorem afterHook_stream (after : StreamHook) (action : Action) (s : State) :
    afterHook exports (.stream after) action s = driveUntilContinue exports after s ∨
      afterHook exports (.stream after) action s = leave exports after s := by
  cases after with
  | requestHeaders => exact ite_eq_or_eq _ _ _
  | _ => exact ite_eq_or_eq _ _ _

variable {action : Action}

/-- A hook that is not followed by forwarding. -/
theorem quiet_afterHook (hc : hook ≠ .contextCreate)
    (h : ∀ after, hook = .stream after → exports.isLastRequest after → s.localResponse = none →
      action = .pause ∧ s.host.pendingCalls ≠ []) : Quiet s (afterHook exports hook action s) := by
  cases hook with
  | contextCreate => exact absurd rfl hc
  | stream after =>
    have hd : Quiet s (driveUntilContinue exports after s) :=
      quiet_driveUntilContinue exports fun hLast hl => (h after rfl hLast hl).2
    have hLeave : ¬ (action = .pause ∧ s.host.pendingCalls ≠ []) →
        Quiet s (leave exports after s) := by
      intro hNot
      exact quiet_leave exports fun hLast hl => hNot (h after rfl hLast hl)
    cases after with
    | requestHeaders =>
      simp only [afterHook]
      split_ifs with hp
      · exact hd
      · exact hLeave hp
    | _ =>
      simp only [afterHook]
      split_ifs with hp
      · exact hd
      · exact hLeave fun hNot => hp hNot.1
  | responseTrailers => exact quiet_invokeLogDoneDelete exports s
  | log => exact quiet_enterDone exports s
  | done => exact quiet_enterDelete exports s
  | delete => exact quiet_finish s

/-- A hook after which the request is forwarded. -/
theorem afterHook_of_isLastRequest (hLast : exports.isLastRequest after)
    (hLocal : s.localResponse = none) (hLive : s.ctxId ∈ s.host.live)
    (ha : action = .pause → s.host.pendingCalls = []) :
    afterHook exports (.stream after) action s = forward s := by
  have hl := leave_of_isLastRequest exports hLast hLocal
  have hd : action = .pause → driveUntilContinue exports after s = forward s := by
    intro hp
    rw [driveUntilContinue_of_nil exports hLive (ha hp), hl]
  cases after with
  | requestHeaders =>
    simp only [afterHook]
    split_ifs with hp
    · exact hd hp.1
    · exact hl
  | _ =>
    simp only [afterHook]
    split_ifs with hp
    · exact hd hp
    · exact hl

variable (after : StreamHook)

theorem driveUntilContinue_cases (hLive : s.ctxId ∈ s.host.live) :
    Quiet s (driveUntilContinue exports after s) ∨
      exports.isLastRequest after ∧ s.localResponse = none ∧ s.host.pendingCalls = [] ∧
        driveUntilContinue exports after s = forward s := by
  refine or_iff_not_imp_right.mpr fun h => quiet_driveUntilContinue exports fun hLast hl hp => ?_
  refine h ⟨hLast, hl, hp, ?_⟩
  rw [driveUntilContinue_of_nil exports hLive hp, leave_of_isLastRequest exports hLast hl]

theorem afterHook_cases (action : Action) (hc : hook ≠ .contextCreate)
    (hLive : s.ctxId ∈ s.host.live) : Quiet s (afterHook exports hook action s) ∨
      ∃ after, hook = .stream after ∧ exports.isLastRequest after ∧ s.localResponse = none ∧
        (action = .pause → s.host.pendingCalls = []) ∧
        afterHook exports hook action s = forward s := by
  refine or_iff_not_imp_right.mpr fun h => quiet_afterHook exports hc ?_
  rintro after rfl hLast hl
  by_contra hNot
  have ha : action = .pause → s.host.pendingCalls = [] := by
    intro hPause
    by_contra hp
    exact hNot ⟨hPause, hp⟩
  exact h ⟨after, rfl, hLast, hl, ha, afterHook_of_isLastRequest exports hLast hl hLive ha⟩

/-! ## The course of a request -/

/-- The events of the host while it goes on with a request. -/
def Event.isCourse : Event → Bool
  | .returned _ _ | .exited _ _ _ | .forwarded _ => true
  | _ => false

/-- The host goes on with a request, and leaves the outbound calls as they are. -/
structure Settles (s s' : State) : Prop extends SameCalls s s' where
  live : s'.host.live ⊆ insert s.ctxId s.host.live
  log : ∃ events, s'.log = events ++ s.log ∧ ∀ e ∈ events, e.isCourse

theorem Quiet.settles (h : Quiet s s') : Settles s s' := by
  refine ⟨h.toSameCalls, h.live_subset.trans (Set.subset_insert _ _), ?_⟩
  rcases h.log with hLog | ⟨error, hLog⟩
  · exact ⟨[], hLog, by simp⟩
  · exact ⟨[_], hLog, by simp [Event.isCourse]⟩

theorem settles_forward (s : State) : Settles s (forward s) :=
  ⟨.of_host rfl rfl rfl, Set.subset_insert _ _, [_], rfl, by simp [Event.isCourse]⟩

theorem Settles.returned
    (h : Settles { s with log := .returned hook action :: s.log } s') : Settles s s' := by
  obtain ⟨events, hLog, hEvents⟩ := h.log
  refine ⟨⟨⟨h.nextCtxId, h.ctxId, h.pseudo, h.headers⟩, h.pendingCalls, h.nextToken, h.dispatchRx,
    h.running, h.nextNumber⟩, h.live, events ++ [.returned hook action], ?_, ?_⟩
  · rw [hLog]
    simp
  · intro e he
    rcases mem_append.mp he with he | he
    · exact hEvents e he
    · rw [mem_singleton.mp he]
      rfl

theorem settles_leave (s : State) : Settles s (leave exports after s) := by
  by_cases h : exports.isLastRequest after ∧ s.localResponse = none
  · rw [leave_of_isLastRequest exports h.1 h.2]
    exact settles_forward s
  · exact (quiet_leave exports fun hLast hl => h ⟨hLast, hl⟩).settles

theorem settles_driveUntilContinue (s : State) :
    Settles s (driveUntilContinue exports after s) := by
  unfold driveUntilContinue
  cases s.host.contexts s.ctxId with
  | none => exact (quiet_fail _ s).settles
  | some c =>
    dsimp only
    split_ifs
    · exact settles_leave exports after s
    · exact settles_leave exports after s
    · exact settles_leave exports after s
    · exact Quiet.settles (.of_host (.refl _) rfl)

theorem settles_afterHook (hook : Hook) (action : Action) (s : State) :
    Settles s (afterHook exports hook action s) := by
  cases hook with
  | contextCreate =>
    exact ⟨.of_host rfl rfl rfl, (live_setContext _).subset, [], rfl, by simp⟩
  | stream after =>
    rcases afterHook_stream exports after action s with hd | hl
    · rw [hd]
      exact settles_driveUntilContinue exports after s
    · rw [hl]
      exact settles_leave exports after s
  | responseTrailers => exact (quiet_invokeLogDoneDelete exports s).settles
  | log => exact (quiet_enterDone exports s).settles
  | done => exact (quiet_enterDelete exports s).settles
  | delete => exact (quiet_finish s).settles

/-! ## Steps -/

/-- The guest runs in a hook or in a callback. -/
inductive Ran (s : State) (run : HookRun) : State → Prop where
  | hook {hook : Hook} (hPhase : s.phase = .hook hook) : Ran s run (runHook cfg exports hook run s)
  | callback {after : StreamHook} {token bodySize : Nat}
      (hPhase : s.phase = .callback after token bodySize) :
      Ran s run (runCallback cfg exports after run s)

/-- What an input does to a `Vm`. -/
inductive Stepped (s : State) : Input → State → Prop where
  | ignored (input : Input) : Stepped s input s
  | begin (request : Kernel.Request Unit) (hPhase : s.phase = .idle) :
      Stepped s (.begin request) (begin request s)
  | run {run : HookRun} {s' : State} (hRan : Ran cfg exports s run s') : Stepped s (.run run) s'
  | receive {after : StreamHook} {arrived : Arrived} {rest : List Arrived}
      (hPhase : s.phase = .drive after) (hRx : s.dispatchRx = arrived :: rest) :
      Stepped s .receive (receive after s)
  | complete {number : Nat} (answer : Answer) {call : Running}
      (hCall : s.running.find? (·.number == number) = some call) :
      Stepped s (.complete number answer) (complete cfg number answer s)
  | entered {input : Input} (stage : ContextStage) (f : RequestContext → RequestContext)
      (after : StreamHook) (hWaits : s.phase.waits) :
      Stepped s input { s with host := s.enterStage stage f, phase := .hook (.stream after) }
  | refused {body : Except String Bytes} {error : WasmHostError}
      (hPhase : s.phase = .collectRequestBody ∨ s.phase = .collectResponseBody)
      (hBody : collectBodyLimited cfg body = .error error) : Stepped s (.body body) (fail error s)
  | tick (run : HookRun) (calls : List HostCall) (hPhase : s.phase = .idle) :
      Stepped s (.tick run) (s.atRoot.performAll cfg true calls)
  | cancel (hWaits : s.phase.waits) :
      Stepped s .cancel { s with phase := .idle, log := .cancelled s.ctxId :: s.log }
  | kept (hPhase : s.phase = .rebuild) : Stepped s (.rebuild none) { s with phase := .idle }
  | renewed (calls : List HostCall) (hPhase : s.phase = .rebuild) :
      Stepped s (.rebuild (some calls)) (renew cfg calls s)

theorem stepped_tick (run : HookRun) (hp : s.phase = .idle) :
    Stepped cfg exports s (.tick run) (tick cfg exports run s) := by
  unfold tick
  split_ifs
  · cases run.outcome with
    | refused message => exact .tick run [] hp
    | returned v => exact .tick run run.calls hp
    | trapped message => exact .tick run run.calls hp
  · exact .ignored _

theorem stepped_bodyCollected (body : Except String Bytes) (s : State) :
    Stepped cfg exports s (.body body) (bodyCollected cfg body s) := by
  unfold bodyCollected
  split
  · rename_i hp _
    exact .entered _ _ _ (by rw [hp]; rfl)
  · rename_i hp _
    exact .entered _ _ _ (by rw [hp]; rfl)
  · rename_i hp hb
    exact .refused (.inl hp) hb
  · rename_i hp hb
    exact .refused (.inr hp) hb
  · exact .ignored _

theorem stepped_step (s : State) (input : Input) :
    Stepped cfg exports s input (step cfg exports s input) := by
  cases input with
  | begin request =>
    simp only [step]
    split_ifs with hp
    · exact .begin request hp
    · exact .ignored _
  | run run =>
    simp only [step]
    split
    · rename_i hp
      exact .run (.hook hp)
    · rename_i hp
      exact .run (.callback hp)
    · exact .ignored _
  | receive =>
    simp only [step]
    split
    · rename_i after hp
      cases hRx : s.dispatchRx with
      | nil =>
        rw [receive, hRx]
        exact .ignored _
      | cons arrived rest => exact .receive hp hRx
    · exact .ignored _
  | complete number answer =>
    cases hc : s.running.find? (·.number == number) with
    | none =>
      simp only [step, complete, hc]
      exact .ignored _
    | some call => exact .complete answer hc
  | body body => exact stepped_bodyCollected cfg exports body s
  | respond status headers =>
    simp only [step]
    split_ifs with hp
    · exact .entered _ _ _ (by rw [hp]; rfl)
    · exact .ignored _
  | tick run =>
    simp only [step]
    split_ifs with hp
    · exact stepped_tick cfg exports run hp
    · exact .ignored _
  | cancel =>
    simp only [step]
    split_ifs with hw
    · exact .cancel hw
    · exact .ignored _
  | rebuild calls =>
    simp only [step]
    split_ifs with hp
    · cases calls with
      | none => exact .kept hp
      | some calls => exact .renewed calls hp
    · exact .ignored _

variable {cfg exports}

/-- A run of the guest: some calls of host functions, and then the host goes on. -/
theorem Ran.settles {run : HookRun} (h : Ran cfg exports s run s') :
    ∃ calls, Settles (s.performAll cfg false calls) s' := by
  cases h with
  | @hook hook hp =>
    -- that the guest was called in the hook is noted besides
    have hc : ∀ {s'}, Settles (s.called cfg hook run) s' →
        ∃ calls, Settles (s.performAll cfg false calls) s' := by
      intro s' h
      exact ⟨run.calls, ⟨⟨h.nextCtxId, h.ctxId, h.pseudo, h.headers⟩, h.pendingCalls, h.nextToken,
        h.dispatchRx, h.running, h.nextNumber⟩, h.live, h.log⟩
    unfold runHook
    cases run.outcome with
    | refused message => exact ⟨[], (quiet_fail _ s).settles⟩
    | returned v => exact hc (settles_afterHook exports hook (.fromU32 v) _).returned
    | trapped message =>
      refine hc ?_
      split_ifs
      · exact settles_afterHook exports _ _ _
      · exact (quiet_fail _ _).settles
  | @callback after token bodySize hp =>
    unfold runCallback
    cases run.outcome with
    | refused message => exact ⟨[], (quiet_fail _ s).settles⟩
    | returned v => exact ⟨run.calls, settles_driveUntilContinue exports after _⟩
    | trapped message => exact ⟨run.calls, (quiet_fail _ _).settles⟩

/-! ## The context of a request -/

/-- While a request is served, its context is there. -/
def Served (s : State) : Prop :=
  s.phase.serves → s.ctxId ∈ s.host.live

theorem Quiet.served (h : Quiet s s') (hl : s.ctxId ∈ s.host.live) : Served s' := by
  intro hs
  rw [h.live hs, h.ctxId]
  exact hl

theorem served_fail (error : WasmHostError) (s : State) : Served (fail error s) := by
  have hp : (fail error s).phase.serves = false := by
    simp only [fail, exit]
    split_ifs <;> rfl
  intro hs
  rw [hp] at hs
  cases hs

theorem served_driveUntilContinue (hl : s.ctxId ∈ s.host.live) :
    Served (driveUntilContinue exports after s) := by
  rcases driveUntilContinue_cases exports after hl with hq | ⟨-, -, -, hf⟩
  · exact hq.served hl
  · rw [hf]
    exact fun _ => hl

theorem served_afterHook (action : Action) (hl : hook ≠ .contextCreate → s.ctxId ∈ s.host.live) :
    Served (afterHook exports hook action s) := by
  by_cases hc : hook = .contextCreate
  · subst hc
    intro _
    show s.ctxId ∈ (s.host.setContext s.ctxId s.createdContext).live
    rw [live_setContext]
    exact Set.mem_insert _ _
  · have hl := hl hc
    rcases afterHook_cases exports action hc hl with hq | ⟨_, -, -, -, -, hf⟩
    · exact hq.served hl
    · rw [hf]
      exact fun _ => hl

theorem Performed.mem_live (h : Performed s s') (hl : s.ctxId ∈ s.host.live) :
    s'.ctxId ∈ s'.host.live := by
  rw [h.live, h.ctxId]
  exact hl

theorem Served.mem_live (h : Served s) (hp : s.phase = .hook hook)
    (hc : hook ≠ .contextCreate) : s.ctxId ∈ s.host.live := by
  refine h ?_
  rw [hp]
  cases hook with
  | contextCreate => exact absurd rfl hc
  | _ => rfl

theorem Served.runHook (h : Served s) (hp : s.phase = .hook hook) (run : HookRun) :
    Served (runHook cfg exports hook run s) := by
  have hRun := performed_performAll cfg false s run.calls
  have hc : hook ≠ .contextCreate →
      (s.called cfg hook run).ctxId ∈ (s.called cfg hook run).host.live := by
    intro hCreate
    exact hRun.mem_live (h.mem_live hp hCreate)
  unfold Vm.runHook
  cases run.outcome with
  | refused message => exact served_fail _ s
  | returned v => exact served_afterHook _ hc
  | trapped message =>
    split_ifs
    · exact served_afterHook _ hc
    · exact served_fail _ _

theorem live_received (s : State) (arrived : Arrived) : (s.received arrived).live = s.host.live :=
  (alike_modifyContext _).live

variable (calls : List HostCall)

theorem phase_renew (s : State) : (renew cfg calls s).phase = .idle :=
  (performed_performAll cfg false s.fresh calls).phase

theorem served_renew (s : State) : Served (renew cfg calls s) := by
  intro hs
  rw [phase_renew] at hs
  cases hs

theorem Served.ran (h : Served s) {run : HookRun} (hRan : Ran cfg exports s run s') :
    Served s' := by
  cases hRan with
  | hook hp => exact h.runHook hp run
  | @callback after token bodySize hp =>
    have hl := h (by rw [hp]; rfl)
    have hRun := (performed_performAll cfg false s run.calls).mem_live hl
    unfold runCallback
    cases run.outcome with
    | refused message => exact served_fail _ s
    | returned v => exact served_driveUntilContinue after hRun
    | trapped message => exact served_fail _ _

theorem Phase.serves_of_waits {phase : Phase} (h : phase.waits) : phase.serves := by
  cases phase with
  | idle => cases h
  | rebuild => cases h
  | hook hook => cases h
  | _ => rfl

theorem Served.step (h : Served s) (input : Input) : Served (step cfg exports s input) := by
  have hStep := stepped_step cfg exports s input
  generalize Vm.step cfg exports s input = s' at hStep
  -- no request is served between two of them
  have hn : ∀ {s' : State}, s'.phase.serves = false → Served s' := by
    intro s' hp hs
    rw [hp] at hs
    cases hs
  cases hStep with
  | ignored => exact h
  | begin request hp => exact hn rfl
  | run hRan => exact h.ran hRan
  | @receive after arrived rest hp hRx =>
    simp only [receive, hRx]
    intro _
    show s.ctxId ∈ (s.received arrived).live
    rw [live_received]
    exact h (by rw [hp]; rfl)
  | complete answer hc =>
    simp only [complete, hc]
    exact h
  | entered stage f after hw =>
    intro _
    show s.ctxId ∈ (s.enterStage stage f).live
    rw [(alike_enterStage s _ _).live]
    exact h (Phase.serves_of_waits hw)
  | refused hp hb => exact served_fail _ s
  | tick run calls hp =>
    refine hn ?_
    rw [(performed_performAll cfg true s.atRoot calls).phase]
    show s.phase.serves = false
    rw [hp]
    rfl
  | cancel hw => exact hn rfl
  | kept hp => exact hn rfl
  | renewed calls hp => exact served_renew calls s

/-! ## A plain guest -/

def plainRequest : Kernel.Request Unit where
  method := "GET"
  uri := .origin ⟨"/", rfl⟩
  version := .http11
  headers := []
  extensions := ()

/-- A guest that exports every hook. -/
def allHooks : Exports where
  onRequestBody := true
  onRequestTrailers := true
  onResponseBody := true
  onResponseTrailers := true
  onLog := true
  onDone := true
  onDelete := true
  onTick := true

/-- A guest that exports only what it must. -/
def fewHooks : Exports where
  onRequestBody := false
  onRequestTrailers := false
  onResponseBody := false
  onResponseTrailers := false
  onLog := false
  onDone := false
  onDelete := false
  onTick := false

/-- The guest returns at once. -/
def returns (v : Nat) : HookRun where
  calls := []
  outcome := .returned v

def plainCall : HttpCall where
  cluster := "service"
  headers := [(":method", "GET"), (":path", "/"), (":authority", "service")]
  body := []

/-- The guest pauses the request for an outbound call. -/
def pausing : HookRun where
  calls := [.httpCall plainCall]
  outcome := .returned 1

def plainResponse : LocalResponse where
  status := 429
  headers := []
  body := []

def plainResult : HttpCallResult where
  status := 200
  statusMessage := "OK"
  headers := []
  body := [7]

/-- A host without clusters, that reads bodies up to a limit. -/
def limitedTo (limit : Nat) : WasmPluginShellConfig where
  url := ""
  sha256 := none
  moduleCacheKey := none
  useCache := true
  clusters := []
  limits := { maxBodyBytes := some limit, maxPendingCalls := none }

end Spacegate.PluginWasm.Vm
