import Spacegate.Foundation.Trace
import Spacegate.PluginWasm.HeaderMaps
import Spacegate.PluginWasm.VmSteps

/-!
# What `Vm::process` returns

The response is put together on the way: its head and its body come from the upstream, and what
the guest has made of them is looked at after some of the hooks.  A local response is looked at
after most of the hooks.  Here this is recorded beside the machine, as a function of the same
inputs.
-/

namespace Spacegate.PluginWasm.Vm

open List Option

open Foundation.Trace (Along along_congr)
open Kernel (HeaderMap)

/-- The body of a response: that of the upstream as it comes, or bytes that are at hand. -/
inductive Body where
  | upstream
  | full (bytes : Bytes)
  deriving DecidableEq, Repr

/-- The bytes of a body that is not that of the upstream. -/
def Body.bytes : Body → Option Bytes
  | .upstream => none
  | .full bytes => some bytes

structure Returned where
  status : Nat
  headers : HeaderMap
  body : Body
  deriving DecidableEq, Repr

def Returned.ofLocal (response : LocalResponse) : Returned :=
  let built := buildLocalResponse response
  { status := built.status, headers := built.headers, body := .full built.body }

structure Process where
  vm : State
  /-- `resp_parts` and `resp_headers`: what the upstream has answered. -/
  status : Nat
  respHeaders : HeaderMap
  /-- The body of the upstream, where it is read. -/
  collected : Bytes
  finalHeaders : HeaderMap
  finalBody : Body
  /-- What is returned as soon as the last hooks are over. -/
  answer : Option Returned

variable (cfg : WasmPluginShellConfig) (exports : Exports)

/-- What the context of the request holds. -/
def State.content (s : State) : Option Content :=
  (s.host.contexts s.ctxId).map (·.content)

namespace Process

variable (p : Process)

/-- The head of the upstream's response, with the headers and the body that were chosen. -/
def finish : Process :=
  { p with
    answer := some { status := p.status, headers := p.finalHeaders, body := p.finalBody } }

/-- `on_response_trailers` comes next, if there is one. -/
def leaveResponseBody : Process :=
  if exports.onResponseTrailers then p else p.finish

/-- After a hook and what was awaited for it, in the state in which the guest has left the host. -/
def leave (after : StreamHook) (s : State) : Process :=
  match after, s.localResponse with
  | .responseBody, _ =>
    leaveResponseBody exports
      { p with
        finalHeaders := (s.content.map (·.responseHeaders)).getD p.respHeaders
        finalBody := .full ((s.content.bind (·.responseBody)).getD p.collected) }
  | _, some response => { p with answer := some (.ofLocal response) }
  | .responseHeaders, none =>
    if exports.onResponseBody then p
    else
      leaveResponseBody exports { p with finalHeaders := p.respHeaders, finalBody := .upstream }
  | _, none => p

/-- The headers are taken once more after the trailers. -/
def leaveResponseTrailers (s : State) : Process :=
  finish { p with finalHeaders := (s.content.map (·.responseHeaders)).getD p.finalHeaders }

/-- What a guest call adds, where the machine goes from one state to another. -/
def afterRun (run : HookRun) (next : State) : Process :=
  match p.vm.phase, run.outcome with
  | .hook (.stream after), .returned v =>
    if next.phase = .drive after then p
    else p.leave exports after (p.vm.returned cfg (.stream after) run v)
  | .hook .responseTrailers, .returned v =>
    p.leaveResponseTrailers (p.vm.returned cfg .responseTrailers run v)
  | .callback after _ _, .returned _ =>
    if next.phase = .drive after then p
    else p.leave exports after (p.vm.performAll cfg false run.calls)
  | _, _ => p

def step (input : Input) : Process :=
  let next := Vm.step cfg exports p.vm input
  let p' : Process :=
    match input with
    | .begin _ => if p.vm.phase = .idle then { p with answer := none } else p
    | .respond status headers =>
      if p.vm.phase = .innerCall then { p with status := status, respHeaders := headers } else p
    | .body body =>
      if p.vm.phase = .collectResponseBody then
        { p with collected := (collectBodyLimited cfg body).toOption.getD [] }
      else p
    | .run run => p.afterRun cfg exports run next
    | _ => p
  { p' with vm := next }

/-- A process that is started with some calls. -/
def init (calls : List HostCall) : Process where
  vm := .init cfg calls
  status := 0
  respHeaders := []
  collected := []
  finalHeaders := []
  finalBody := .upstream
  answer := none

def run (calls : List HostCall) (inputs : List Input) : Process :=
  inputs.foldl (step cfg exports) (init cfg calls)

end Process

/-! ## Bodies that fail -/

/-- Where a body is read. -/
def Phase.collects : Phase → Bool
  | .collectRequestBody | .collectResponseBody => true
  | _ => false

/-- From one state to another `process` returns an error: no hook is called, and nothing is sent
on. -/
def ReturnsError (s s' : State) : Prop :=
  (∃ error, s'.log = .exited s.ctxId (some error) s.told :: s.log) ∧
    (s'.phase = .idle ∨ s'.phase = .rebuild)

variable (calls : List HostCall)

/-- A body that fails while it is read makes the request fail. -/
def ReportsFailures (inputs : List Input) : Prop :=
  ∀ earlier message later, inputs = earlier ++ .body (.error message) :: later →
    (run cfg exports calls earlier).phase.collects →
    ReturnsError (run cfg exports calls earlier)
      (run cfg exports calls (earlier ++ [.body (.error message)]))

variable {cfg exports}

theorem phase_fail (error : WasmHostError) (s : State) :
    (fail error s).phase = .idle ∨ (fail error s).phase = .rebuild := by
  simp only [fail, exit]
  split_ifs
  · exact .inr rfl
  · exact .inl rfl

variable {s : State}

/-- With a limit a body that fails is an error; without one it is an empty body. -/
theorem returnsError_bodyCollected_iff (hp : s.phase.collects) (message : String) :
    ReturnsError s (bodyCollected cfg (.error message) s) ↔ cfg.limits.maxBodyBytes.isSome := by
  cases hl : cfg.limits.maxBodyBytes with
  | none =>
    have hOk : collectBodyLimited cfg (.error message) = .ok [] := by
      rw [collectBodyLimited, hl]
      rfl
    simp only [isSome_none, Bool.false_eq_true, iff_false]
    rintro ⟨-, hPhase⟩
    cases hs : s.phase <;> simp_all [bodyCollected, Phase.collects]
  | some limit =>
    have hError : ∃ error, collectBodyLimited cfg (.error message) = .error error := by
      rw [collectBodyLimited, hl]
      exact ⟨_, rfl⟩
    obtain ⟨error, hError⟩ := hError
    have hFail : bodyCollected cfg (.error message) s = fail error s := by
      cases hs : s.phase <;> simp_all [bodyCollected, Phase.collects]
    simp only [isSome_some, iff_true, hFail]
    exact ⟨⟨error, rfl⟩, phase_fail error s⟩

/-- Bodies that fail are reported exactly where a limit is set, or none fails. -/
theorem reportsFailures_iff (inputs : List Input) :
    ReportsFailures cfg exports calls inputs ↔
      cfg.limits.maxBodyBytes.isSome ∨
        ∀ earlier message later, inputs = earlier ++ .body (.error message) :: later →
          (run cfg exports calls earlier).phase.collects = false := by
  have hStep : ∀ earlier message, run cfg exports calls (earlier ++ [.body (.error message)]) =
      bodyCollected cfg (.error message) (run cfg exports calls earlier) :=
    fun _ _ => foldl_concat ..
  constructor
  · intro h
    by_contra hNot
    rw [not_or] at hNot
    obtain ⟨hLimit, hNot⟩ := hNot
    refine hNot fun earlier message later hInputs => ?_
    by_contra hp
    have hCollects := Bool.eq_true_of_not_eq_false hp
    have hError := h earlier message later hInputs hCollects
    rw [hStep, returnsError_bodyCollected_iff hCollects] at hError
    exact hLimit hError
  · intro h earlier message later hInputs hCollects
    rw [hStep, returnsError_bodyCollected_iff hCollects]
    refine h.resolve_right fun hNone => ?_
    rw [hNone earlier message later hInputs] at hCollects
    cases hCollects

/-- A host without clusters and without limits. -/
def unlimited : WasmPluginShellConfig :=
  { limitedTo 0 with limits := { maxBodyBytes := none, maxPendingCalls := none } }

theorem resetBody_not_reported :
    ¬ ReportsFailures unlimited allHooks []
      [.begin plainRequest, .run (returns 0), .run (returns 0), .body (.error "reset")] := by
  intro h
  have hError := h [.begin plainRequest, .run (returns 0), .run (returns 0)] "reset" [] rfl rfl
  rcases hError.2 with hp | hp <;> exact absurd hp (by decide)

/-! ## Local responses -/

/-- The last hooks are run, or were run. -/
def Ends (s : State) : Prop :=
  (∃ h, s.phase = .hook h ∧ h.isLast) ∨
    s.phase = .idle ∧ ∃ told, .exited s.ctxId none told ∈ current s.log

variable {s : State}

theorem ends_finish (s : State) : Ends (finish s) :=
  .inr ⟨rfl, s.told, by simp [finish, exit, current, Event.isBegan]⟩

theorem ends_enterDelete (s : State) : Ends (enterDelete exports s) := by
  unfold enterDelete
  split_ifs
  · exact .inl ⟨.delete, rfl, rfl⟩
  · exact ends_finish s

theorem ends_enterDone (s : State) : Ends (enterDone exports s) := by
  unfold enterDone
  split_ifs
  · exact .inl ⟨.done, rfl, rfl⟩
  · exact ends_enterDelete s

theorem ends_invokeLogDoneDelete (s : State) : Ends (invokeLogDoneDelete exports s) := by
  unfold invokeLogDoneDelete
  split_ifs
  · exact .inl ⟨.log, rfl, rfl⟩
  · exact ends_enterDone _

theorem ends_afterHook {h : Hook} (hl : h.isLast) (action : Action) (s : State) :
    Ends (afterHook exports h action s) := by
  cases h with
  | log => exact ends_enterDone s
  | done => exact ends_enterDelete s
  | delete => exact ends_finish s
  | _ => cases hl

/-- Inputs with which the last hooks come to their end. -/
def Input.Harmless : Input → Prop
  | .begin _ => False
  | .run called => ∀ message, called.outcome ≠ .refused message
  | _ => True

theorem Ends.of_log (h : Ends s) {s' : State} (hPhase : s'.phase = s.phase)
    (hId : s'.ctxId = s.ctxId) {events : List Event} (hLog : s'.log = events ++ s.log)
    (hb : ∀ e ∈ events, e.isBegan = false) : Ends s' := by
  rcases h with ⟨hook, hp, hl⟩ | ⟨hp, told, hMem⟩
  · exact .inl ⟨hook, hPhase.trans hp, hl⟩
  · refine .inr ⟨hPhase.trans hp, told, ?_⟩
    rw [hLog, hId]
    exact mem_current_append hb hMem

theorem Ends.performAll (h : Ends s) (byTick : Bool) (calls : List HostCall) :
    Ends (s.performAll cfg byTick calls) := by
  have hPerformed := performed_performAll cfg byTick s calls
  obtain ⟨events, hLog, hCalls⟩ := hPerformed.log
  refine h.of_log hPerformed.phase hPerformed.ctxId hLog fun e he => ?_
  have hCall := hCalls e he
  cases e <;> first | rfl | cases hCall

theorem Ends.step (h : Ends s) {input : Input} (hi : input.Harmless) :
    Ends (step cfg exports s input) := by
  cases input with
  | begin request => exact hi.elim
  | complete number answer =>
    simp only [Vm.step, complete]
    split
    · exact h
    · exact h.of_log rfl rfl (singleton_append ..).symm (by simp [Event.isBegan])
  | tick run =>
    simp only [Vm.step, tick]
    have hRoot : Ends s.atRoot := h
    split_ifs
    · split
      · exact hRoot
      · exact hRoot.performAll true run.calls
    · exact h
    · exact h
  | run run =>
    rcases h with ⟨hook, hp, hl⟩ | ⟨hp, told, hMem⟩
    · simp only [Vm.step, hp, runHook]
      cases ho : run.outcome with
      | returned v => exact ends_afterHook hl _ _
      | trapped message =>
        simp only [if_pos hl]
        exact ends_afterHook hl _ _
      | refused message => exact absurd ho (hi message)
    · simp only [Vm.step, hp]
      exact .inr ⟨hp, told, hMem⟩
  | _ =>
    -- nothing of this is looked at while the last hooks run, or afterwards
    have hs := h
    rcases h with ⟨hook, hp, -⟩ | ⟨hp, -⟩ <;>
      simpa [Vm.step, hp, bodyCollected, Phase.waits] using hs

namespace Process

/-- The response is settled, and only the last hooks come before it is returned. -/
def Commits (p : Process) (response : Returned) : Prop :=
  p.answer = some response ∧ Ends p.vm

variable {p : Process} {response : Returned}

theorem Commits.step (h : p.Commits response) {input : Input} (hi : input.Harmless) :
    (p.step cfg exports input).Commits response := by
  refine ⟨?_, h.2.step hi⟩
  have hAnswer := h.1
  cases input with
  | begin request => exact hi.elim
  | run run =>
    rcases h.2 with ⟨hook, hp, hl⟩ | ⟨hp, -⟩
    · cases hook with
      | log => simpa [Process.step, afterRun, hp] using hAnswer
      | done => simpa [Process.step, afterRun, hp] using hAnswer
      | delete => simpa [Process.step, afterRun, hp] using hAnswer
      | _ => cases hl
    · simpa [Process.step, afterRun, hp] using hAnswer
  | respond status headers =>
    simp only [Process.step]
    split_ifs <;> exact hAnswer
  | body body =>
    simp only [Process.step]
    split_ifs <;> exact hAnswer
  | _ => exact hAnswer

/-- The hooks for which a guest runs, be it that they are called or that what they wait for
arrives. -/
inductive Runs (p : Process) : Hook → Prop where
  | stream {after : StreamHook} (hp : p.vm.phase = .hook (.stream after)) : Runs p (.stream after)
  | callback {after : StreamHook} {token size : Nat}
      (hp : p.vm.phase = .callback after token size) : Runs p (.stream after)
  | trailers (hp : p.vm.phase = .hook .responseTrailers) : Runs p .responseTrailers

/-- The state in which the guest leaves the host. -/
def ran (cfg : WasmPluginShellConfig) (p : Process) (called : HookRun) : State :=
  p.vm.performAll cfg false called.calls

/-- Where a local response is looked at: the guest returns, and it is not the body or the trailers
of the response that it was called for. -/
def Heeded (h : Hook) (called : HookRun) : Prop :=
  (∃ v, called.outcome = .returned v) ∧ h ≠ .stream .responseBody ∧ h ≠ .responseTrailers

variable {after : StreamHook}

theorem leave_of_localResponse (exports : Exports) (p : Process)
    {l : LocalResponse} (ha : after ≠ .responseBody) (hl : s.localResponse = some l) :
    Vm.leave exports after s = invokeLogDoneDelete exports
        { s with host := s.host.modifyContext s.ctxId fun c => { c with localResponse := none } } ∧
      p.leave exports after s = { p with answer := some (.ofLocal l) } := by
  cases after with
  | responseBody => exact absurd rfl ha
  | _ => simp [Vm.leave, unlessAnswered, hl, Process.leave]

theorem driveUntilContinue_of_localResponse
    (hl : s.localResponse ≠ none) :
    driveUntilContinue exports after s = Vm.leave exports after s := by
  unfold driveUntilContinue
  unfold State.localResponse at hl
  cases hc : s.host.contexts s.ctxId with
  | none => simp [hc] at hl
  | some c =>
    have hSome : c.localResponse.isSome := by simpa [hc, isSome_iff_ne_none] using hl
    simp [if_pos hSome]

/-- After a guest that has sent a local response the last hooks follow. -/
theorem commits_of_heeded {h : Hook} {called : HookRun} {l : LocalResponse} (hr : p.Runs h)
    (hh : Heeded h called) (hl : (p.ran cfg called).localResponse = some l) :
    (p.step cfg exports (.run called)).Commits (.ofLocal l) := by
  obtain ⟨⟨v, ho⟩, hb, ht⟩ := hh
  -- wherever the machine stands, it leaves the hook with the response
  have hLeave : ∀ (s : State) (after : StreamHook), after ≠ .responseBody →
      s.localResponse = some l → (p.step cfg exports (.run called)).vm = Vm.leave exports after s →
      p.afterRun cfg exports called (p.step cfg exports (.run called)).vm =
        (if (p.step cfg exports (.run called)).vm.phase = .drive after then p
        else p.leave exports after s) →
      (p.step cfg exports (.run called)).Commits (.ofLocal l) := by
    intro s after ha hs hVm hAfter
    obtain ⟨hv, hp⟩ := leave_of_localResponse exports p ha hs
    have hEnds : Ends (p.step cfg exports (.run called)).vm := by
      rw [hVm, hv]
      exact ends_invokeLogDoneDelete _
    have hNot : (p.step cfg exports (.run called)).vm.phase ≠ .drive after := by
      intro hd
      rcases hEnds with ⟨hook, he, -⟩ | ⟨he, -⟩ <;> rw [hd] at he <;> cases he
    rw [if_neg hNot, hp] at hAfter
    refine ⟨?_, hEnds⟩
    show (p.afterRun cfg exports called _).answer = _
    exact congrArg Process.answer hAfter
  cases hr with
  | trailers hp => exact absurd rfl ht
  | @stream after hp =>
    have ha : after ≠ .responseBody := fun he => hb (he ▸ rfl)
    have hs : (p.vm.returned cfg (.stream after) called v).localResponse = some l := hl
    refine hLeave _ after ha hs ?_ ?_
    · simp only [Process.step, Vm.step, hp, runHook, ho]
      rcases afterHook_stream exports after (.fromU32 v)
        (p.vm.returned cfg (.stream after) called v) with h | h
      · rw [h, driveUntilContinue_of_localResponse (by rw [hs]; exact some_ne_none l)]
      · exact h
    · simp [afterRun, hp, ho]
  | @callback after token size hp =>
    have ha : after ≠ .responseBody := fun he => hb (he ▸ rfl)
    refine hLeave _ after ha hl ?_ ?_
    · simp only [Process.step, Vm.step, hp, runCallback, ho]
      exact driveUntilContinue_of_localResponse (by
        rw [show State.performAll cfg false p.vm called.calls = p.ran cfg called from rfl, hl]
        exact some_ne_none l)
    · simp only [afterRun, hp, ho]
      rfl

variable (cfg exports) (calls : List HostCall) (inputs : List Input)

/-- A local response that a guest has sent for the request is what is returned, and nothing but
the last hooks comes before, as long as they can be called. -/
def AnswersLocally : Prop :=
  ∀ earlier called more later h l, inputs = earlier ++ .run called :: (more ++ later) →
    (run cfg exports calls earlier).Runs h →
    ((run cfg exports calls earlier).ran cfg called).localResponse = some l →
    (∀ input ∈ more, input.Harmless) →
    (run cfg exports calls (earlier ++ .run called :: more)).Commits (.ofLocal l)

/-- Local responses are sent only where they are looked at. -/
def SendsHeeded : Prop :=
  ∀ earlier called later h l, inputs = earlier ++ .run called :: later →
    (run cfg exports calls earlier).Runs h →
    ((run cfg exports calls earlier).ran cfg called).localResponse = some l → Heeded h called

variable {cfg exports}

/-- In a run in which local responses are sent only where they are looked at, they are returned. -/
theorem answersLocally_of_sendsHeeded
    (hs : SendsHeeded cfg exports calls inputs) : AnswersLocally cfg exports calls inputs := by
  intro earlier called more later h l hInputs hr hl hMore
  have hHeeded := hs earlier called (more ++ later) h l hInputs hr hl
  have hCommits : ((run cfg exports calls earlier).step cfg exports (.run called)).Commits
      (.ofLocal l) := commits_of_heeded hr hHeeded hl
  have hRun : run cfg exports calls (earlier ++ .run called :: more) = more.foldl
      (step cfg exports) ((run cfg exports calls earlier).step cfg exports (.run called)) :=
    foldl_append ..
  rw [hRun]
  clear hRun hInputs
  induction more using reverseRecOn with
  | nil => exact hCommits
  | append_singleton more input ih =>
    rw [foldl_append]
    have hInit := ih fun input hMem => hMore input (mem_append_left _ hMem)
    exact hInit.step (hMore input (mem_append_right _ (mem_singleton_self _)))

/-- The guest sends a local response and returns. -/
def sending : HookRun where
  calls := [.sendLocalResponse plainResponse]
  outcome := .returned 0

theorem sentInHeaders_answersLocally :
    AnswersLocally unlimited fewHooks []
      [.begin plainRequest, .run (returns 0), .run sending] := by
  refine answersLocally_of_sendsHeeded [] _ ?_
  intro earlier called later h l hInputs hr hl
  rcases earlier with - | ⟨a, - | ⟨b, - | ⟨c, earlier⟩⟩⟩
  · cases hInputs
  · -- the context is created
    cases hInputs
    rcases hr with hp | hp | hp <;> cases hp
  · cases hInputs
    rcases hr with hp | hp | hp <;> cases hp
    exact ⟨⟨0, rfl⟩, by simp, by simp⟩
  · simp at hInputs

/-- A guest with a hook for the bodies of responses. -/
def bodyHook : Exports :=
  { fewHooks with onResponseBody := true }

/-- A response up to its body. -/
def untilBody : List Input :=
  [.begin plainRequest, .run (returns 0), .run (returns 0), .respond 200 [], .run (returns 0),
    .body (.ok [])]

theorem sentInBody_not_answersLocally :
    ¬ AnswersLocally unlimited bodyHook [] (untilBody ++ [.run sending]) := by
  intro h
  have hCommits := h untilBody sending [] [] (.stream .responseBody) plainResponse rfl (.stream rfl)
    (by decide) (by simp)
  exact absurd hCommits.1 (by decide)

/-! ## What the client sees -/

variable (cfg exports)

/-- The last hook for a response. -/
def endsResponse : Hook → Bool
  | .stream .responseHeaders => !exports.onResponseBody && !exports.onResponseTrailers
  | .stream .responseBody => exports.onResponseBody && !exports.onResponseTrailers
  | .responseTrailers => exports.onResponseTrailers
  | _ => false

/-- A guest call ends what is done for a response, without a local response, and leaves this in
the context. -/
structure EndsResponse (p : Process) (called : HookRun) (c : Content) : Prop where
  hook : ∃ h, p.Runs h ∧ endsResponse exports h
  returned : ∃ v, called.outcome = .returned v
  unanswered : (p.ran cfg called).localResponse = none
  content : (p.ran cfg called).content = some c
  waited : ∀ after, (p.step cfg exports (.run called)).vm.phase ≠ .drive after

variable (p : Process) (input : Input)

/-- The client sees what the context holds. -/
def ShowsContext : Prop :=
  ∀ called c, input = .run called → EndsResponse cfg exports p called c →
    ∃ r, (p.step cfg exports input).answer = some r ∧
      c.responseStatus = some r.status ∧ c.responseHeaders = r.headers ∧
        c.responseBody = r.body.bytes

/-- What the guest has made of the response is what is taken from the context: the status is still
that of the upstream, the headers too unless there is a hook for the body or for trailers, and the
body is what it was after the hook for it. -/
def KeepsRest : Prop :=
  ∀ called c, input = .run called → EndsResponse cfg exports p called c →
    c.responseStatus = some p.status ∧
      (!exports.onResponseBody && !exports.onResponseTrailers → c.responseHeaders = p.respHeaders) ∧
      if exports.onResponseTrailers then c.responseBody = p.finalBody.bytes
      else if exports.onResponseBody then c.responseBody ≠ none
      else c.responseBody = none

/-- What is returned after the last hook for a response, with this in the context. -/
def lastAnswer (p : Process) (c : Content) : Returned where
  status := p.status
  headers :=
    if !exports.onResponseBody && !exports.onResponseTrailers then p.respHeaders
    else c.responseHeaders
  body :=
    if exports.onResponseTrailers then p.finalBody
    else if exports.onResponseBody then .full (c.responseBody.getD p.collected)
    else .upstream

variable {cfg exports}

theorem answer_leave {p : Process} {c : Content}
    (he : endsResponse exports (.stream after)) (hc : s.content = some c)
    (hl : s.localResponse = none) :
    (p.leave exports after s).answer = some (p.lastAnswer exports c) := by
  cases after with
  | responseHeaders =>
    simp only [endsResponse, Bool.and_eq_true, Bool.not_eq_true'] at he
    simp [Process.leave, hl, leaveResponseBody, lastAnswer, finish, he.1, he.2]
  | responseBody =>
    simp only [endsResponse, Bool.and_eq_true, Bool.not_eq_true'] at he
    simp [Process.leave, hc, leaveResponseBody, lastAnswer, finish, he.1, he.2]
  | _ => cases he

theorem answer_of_endsResponse {p : Process} {called : HookRun} {c : Content}
    (h : EndsResponse cfg exports p called c) :
    (p.step cfg exports (.run called)).answer = some (p.lastAnswer exports c) := by
  obtain ⟨hook, hr, he⟩ := h.hook
  obtain ⟨v, ho⟩ := h.returned
  have hw : ∀ after, (Vm.step cfg exports p.vm (.run called)).phase ≠ .drive after := h.waited
  show (p.afterRun cfg exports called _).answer = _
  cases hr with
  | trailers hp =>
    have hc : (p.vm.returned cfg .responseTrailers called v).content = some c := h.content
    have hTrailers : exports.onResponseTrailers = true := he
    simp only [afterRun, hp, ho, leaveResponseTrailers, finish, hc, lastAnswer, hTrailers]
    simp
  | @stream after hp =>
    simp only [afterRun, hp, ho, if_neg (hw after)]
    exact answer_leave he h.content h.unanswered
  | @callback after token size hp =>
    simp only [afterRun, hp, ho, if_neg (hw after)]
    exact answer_leave he h.content h.unanswered

theorem showsContext_step_iff :
    ShowsContext cfg exports p input ↔ KeepsRest cfg exports p input := by
  refine forall_congr' fun called => forall_congr' fun c => forall_congr' fun hi =>
    forall_congr' fun h => ?_
  rw [hi, answer_of_endsResponse h]
  simp only [some.injEq, exists_eq_left', lastAnswer]
  refine and_congr Iff.rfl (and_congr ?_ ?_)
  · split_ifs with hNone
    · exact ⟨fun he _ => he, fun he => he hNone⟩
    · exact ⟨fun _ hx => absurd hx hNone, fun _ => rfl⟩
  · split_ifs
    · exact Iff.rfl
    · cases hb : c.responseBody <;> simp [Body.bytes]
    · exact Iff.rfl

/-- In a run from any state, clients see what the contexts hold after the last hooks for their
responses exactly if that is no more than what is taken from them. -/
theorem showsContext_iff_keepsRest (inputs : List Input) :
    Along (step cfg exports) (ShowsContext cfg exports) p inputs ↔
      Along (step cfg exports) (KeepsRest cfg exports) p inputs :=
  along_congr (fun _ => True) (fun _ _ _ _ => trivial)
    (fun p input _ => showsContext_step_iff p input) trivial

/-- The guest changes the status and returns. -/
def settingStatus : HookRun where
  calls := [.edit fun c => { c with responseStatus := some 503 }]
  outcome := .returned 0

/-- A response up to its head. -/
def untilHead : List Input :=
  [.begin plainRequest, .run (returns 0), .run (returns 0), .respond 200 []]

theorem settingStatus_not_showsContext :
    ¬ Along (step unlimited fewHooks) (ShowsContext unlimited fewHooks) (init unlimited [])
      (untilHead ++ [.run settingStatus]) := by
  rintro ⟨-, -, -, -, h, -⟩
  obtain ⟨r, hr, hs, -⟩ := h _ _ rfl ⟨⟨_, .stream rfl, rfl⟩, ⟨0, rfl⟩, rfl, rfl, fun after => by
    intro he
    cases he⟩
  cases hr
  cases hs

end Process

end Spacegate.PluginWasm.Vm
