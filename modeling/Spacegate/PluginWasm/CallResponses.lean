import Spacegate.Foundation.Trace
import Spacegate.PluginWasm.VmSteps

/-!
# Responses to outbound calls

A result that arrives is handed to the guest with the context that has dispatched the call, as
the table of pending calls knows it.  The table is cleared when a request begins, and so is the
channel, but the calls themselves go on: a result that arrives later finds no entry, and is taken
for one of the request that is being served.

`proxy_get_status` has a defect of its own.  When the call has failed, its status is `0`, and the
guest is given the status of the response instead.
-/

namespace Spacegate.PluginWasm.Vm.CallResponses

open Foundation Event List.Sublist List.Subset List HostState
open Kernel (strBytes)

variable (cfg : WasmPluginShellConfig) (exports : Exports)

/-- What a guest should see of a result. -/
def seen (result : HttpCallResult) : CallView where
  headers :=
    (if result.status > 0 then [(":status", ⟨strBytes (toString result.status)⟩)] else []) ++
      result.headers
  status := result.status
  body := some result.body

/-- The call was dispatched by this context and has this token, in the present request or by a
tick. -/
def Dispatched (earlier : List Event) (number token ctxId : Nat) : Prop :=
  ∃ call, ∃ byTick : Bool, .dispatched number token ctxId call byTick ∈ earlier ∧
    (byTick ∨ .dispatched number token ctxId call byTick ∈ current earlier)

/-- The guest was given a response to the call. -/
def Answered (log : List Event) (number : Nat) : Prop :=
  ∃ ctxId token view, .callback ctxId token number view ∈ log

/-- The guest is given a response to a call of its own that was not answered, and sees the
result of that call. -/
def AnswersOwn (earlier : List Event) : Event → Prop
  | .callback ctxId token number view =>
    Dispatched earlier number token ctxId ∧ ¬ Answered earlier number ∧
      ∃ result, .completed number result ∈ earlier ∧ view = seen result
  | _ => True

/-- The result that is received belongs to the call that the table has under its token, whose
context is there; and if the call has failed, there is no response yet. -/
def Awaited (s : State) : Input → Prop
  | .receive =>
    ∀ after arrived rest, s.phase = .drive after → s.dispatchRx = arrived :: rest →
      ∃ source c,
        s.host.pendingCalls.lookup arrived.token = some ⟨source, arrived.number⟩ ∧
        s.host.contexts source = some c ∧
        (arrived.result.status = 0 → c.content.responseStatus.getD 0 = 0)
  | _ => True

/-! ## The invariant -/

structure Inv (s : State) : Prop where
  dispatched : ∀ p ∈ s.host.pendingCalls, ∃ call byTick,
    .dispatched p.2.number p.1 p.2.sourceContextId call byTick ∈ current s.log
  numbered : ∀ p ∈ s.host.pendingCalls, p.2.number < s.nextNumber
  unanswered : ∀ p ∈ s.host.pendingCalls, ¬ Answered s.log p.2.number
  distinct : (s.host.pendingCalls.map (·.2.number)).Nodup
  completed : ∀ a ∈ s.dispatchRx, .completed a.number a.result ∈ s.log
  answered : ∀ number, Answered s.log number → number < s.nextNumber
  own : Trace.Justified AnswersOwn s.log

variable {cfg exports} {s s' : State} {log events : List Event}

theorem answered_append (hc : ∀ e ∈ events, e.isCallback = false) {number : Nat} :
    Answered (events ++ log) number ↔ Answered log number := by
  constructor
  · rintro ⟨ctxId, token, view, hMem⟩
    rcases mem_append.mp hMem with hMem | hMem
    · cases hc _ hMem
    · exact ⟨ctxId, token, view, hMem⟩
  · rintro ⟨ctxId, token, view, hMem⟩
    exact ⟨ctxId, token, view, mem_append_right _ hMem⟩

theorem justified_append (hc : ∀ e ∈ events, e.isCallback = false)
    (h : Trace.Justified AnswersOwn log) : Trace.Justified AnswersOwn (events ++ log) := by
  induction events with
  | nil => exact h
  | cons e events ih =>
    have hEvents : ∀ e ∈ events, e.isCallback = false := by
      intro e he
      exact hc e (mem_cons_of_mem _ he)
    refine (ih hEvents).cons ?_
    cases e with
    | callback ctxId token number view => cases hc _ mem_cons_self
    | _ => trivial

variable (h : Inv s)
include h

/-- Calls may be dropped, and other things may happen. -/
theorem Inv.mono (events : List Event) (hPending : s'.host.pendingCalls.Sublist s.host.pendingCalls)
    (hRx : s'.dispatchRx ⊆ s.dispatchRx) (hn : s'.nextNumber = s.nextNumber)
    (hLog : s'.log = events ++ s.log) (hb : ∀ e ∈ events, e.isBegan = false)
    (hc : ∀ e ∈ events, e.isCallback = false) : Inv s' where
  dispatched := by
    intro p hp
    obtain ⟨call, byTick, hCall⟩ := h.dispatched p (hPending.subset hp)
    rw [hLog]
    exact ⟨call, byTick, mem_current_append hb hCall⟩
  numbered := by
    intro p hp
    rw [hn]
    exact h.numbered p (hPending.subset hp)
  unanswered := by
    intro p hp
    rw [hLog, answered_append hc]
    exact h.unanswered p (hPending.subset hp)
  distinct := h.distinct.sublist (hPending.map _)
  completed := by
    intro a ha
    rw [hLog]
    exact mem_append_right _ (h.completed a (hRx ha))
  answered := by
    intro number hAnswered
    rw [hLog, answered_append hc] at hAnswered
    rw [hn]
    exact h.answered number hAnswered
  own := by
    rw [hLog]
    exact justified_append hc h.own

theorem Inv.clear (events : List Event) (hp : s'.host.pendingCalls = [])
    (hRx : s'.dispatchRx = []) (hn : s'.nextNumber = s.nextNumber) (hLog : s'.log = events ++ s.log)
    (hc : ∀ e ∈ events, e.isCallback = false) : Inv s' where
  dispatched := by simp [hp]
  numbered := by simp [hp]
  unanswered := by simp [hp]
  distinct := by simp [hp]
  completed := by simp [hRx]
  answered := by
    intro number ha
    rw [hLog, answered_append hc] at ha
    rw [hn]
    exact h.answered number ha
  own := by
    rw [hLog]
    exact justified_append hc h.own

/-! ## Dispatching -/

theorem Inv.dispatch (call : HttpCall) (byTick : Bool) {s' : State}
    (hPending : s'.host.pendingCalls =
      s.host.pendingCalls.filter (·.1 ≠ s.host.nextToken) ++
        [(s.host.nextToken, ⟨s.host.effectiveContext, s.nextNumber⟩)])
    (hRx : s'.dispatchRx = s.dispatchRx) (hn : s'.nextNumber = s.nextNumber + 1)
    (hLog : s'.log = .dispatched s.nextNumber s.host.nextToken s.host.effectiveContext call
      byTick :: s.log) : Inv s' := by
  -- the other entries stay, and what is said of them
  have ho : ∀ p ∈ s'.host.pendingCalls, p ∈ s.host.pendingCalls ∨
      p = (s.host.nextToken, ⟨s.host.effectiveContext, s.nextNumber⟩) := by
    intro p hp
    rw [hPending] at hp
    rcases mem_append.mp hp with hp | hp
    · exact .inl (mem_filter.mp hp).1
    · exact .inr (mem_singleton.mp hp)
  have hl' : s'.log = [.dispatched s.nextNumber s.host.nextToken s.host.effectiveContext call
      byTick] ++ s.log := hLog
  have hAnswered : ∀ number, Answered s'.log number ↔ Answered s.log number := by
    intro number
    rw [hl']
    exact answered_append (by simp [isCallback])
  refine ⟨?_, ?_, ?_, ?_, ?_, ?_, ?_⟩
  · intro p hp
    rw [hl']
    rcases ho p hp with hp | rfl
    · obtain ⟨call', byTick', hc⟩ := h.dispatched p hp
      exact ⟨call', byTick', mem_current_append (by simp [isBegan]) hc⟩
    · exact ⟨call, byTick, by simp [current, isBegan]⟩
  · intro p hp
    rw [hn]
    rcases ho p hp with hp | rfl
    · exact Nat.lt_succ_of_lt (h.numbered p hp)
    · exact Nat.lt_succ_self _
  · intro p hp
    rw [hAnswered]
    rcases ho p hp with hp | rfl
    · exact h.unanswered p hp
    · intro hNew
      exact Nat.lt_irrefl _ (h.answered _ hNew)
  · rw [hPending, map_append, nodup_append]
    refine ⟨h.distinct.sublist (filter_sublist.map _), by simp, ?_⟩
    intro number hn number' hn' hEq
    obtain ⟨p, hp, rfl⟩ := mem_map.mp hn
    have hLt := h.numbered p (mem_filter.mp hp).1
    simp only [map_cons, map_nil, mem_singleton] at hn'
    omega
  · intro a ha
    rw [hLog]
    rw [hRx] at ha
    exact mem_cons_of_mem _ (h.completed a ha)
  · intro number hNew
    rw [hAnswered] at hNew
    rw [hn]
    exact Nat.lt_succ_of_lt (h.answered number hNew)
  · rw [hLog]
    exact h.own.cons trivial

theorem Inv.alike (hh : s.host.Alike s'.host) (hRx : s'.dispatchRx = s.dispatchRx)
    (hn : s'.nextNumber = s.nextNumber) (hLog : s'.log = s.log) : Inv s' := by
  refine h.mono [] ?_ ?_ hn hLog (by simp) (by simp)
  · rw [hh.pendingCalls]
  · rw [hRx]
    exact refl _

theorem Inv.perform (byTick : Bool) (call : HostCall) : Inv (s.perform cfg byTick call) := by
  cases call with
  | httpCall call =>
    simp only [State.perform]
    cases hr : s.host.refuses cfg call with
    | some status => exact h
    | none =>
      refine h.dispatch call byTick ?_ rfl rfl rfl
      simp [HostState.perform, hr, HostState.insertPending]
  | continueStream stream =>
    refine h.mono [_] ?_ (refl _) rfl rfl (by simp [isBegan]) (by simp [isCallback])
    rw [(alike_host_perform cfg byTick s (by simp)).pendingCalls]
  | _ => exact h.alike (alike_host_perform cfg byTick s (by simp)) rfl rfl rfl

theorem Inv.performAll (byTick : Bool) (calls : List HostCall) :
    Inv (s.performAll cfg byTick calls) := by
  induction calls generalizing s with
  | nil => exact h
  | cons call calls ih => exact ih (h.perform byTick call)

omit h

/-! ## Receiving -/

theorem received_eq {arrived : Arrived} {source : Nat} {c : RequestContext}
    (hl : s.host.pendingCalls.lookup arrived.token = some ⟨source, arrived.number⟩)
    (hc : s.host.contexts source = some c) : s.received arrived =
      { s.host.removePending arrived.token with effectiveContext := source }.setContext source
        (c.answer arrived.result) := by
  unfold State.received
  simp only [hl, Option.map_some, Option.getD_some]
  apply modifyContext_of_some
  exact hc

theorem view_setContext (st : HostState) (c : RequestContext) (result : HttpCallResult)
    (hs : result.status = 0 → c.content.responseStatus.getD 0 = 0) :
    view (st.setContext st.effectiveContext (c.answer result)) = seen result := by
  have hc : (st.setContext st.effectiveContext (c.answer result)).currentContext =
      some (c.answer result) := by
    simp [currentContext, setContext]
  have hf : (if result.status > 0 then result.status
      else c.content.responseStatus.getD 0) = result.status := by
    split_ifs with hp
    · rfl
    · have hz : result.status = 0 := by omega
      rw [hs hz, hz]
  simp only [view, callHeaders, getStatus, callBody, hc]
  exact congrArg (CallView.mk (seen result).headers · (some result.body)) hf

theorem mem_of_lookup {pending : List (Nat × PendingCall)} {token : Nat} {call : PendingCall}
    (h : pending.lookup token = some call) : (token, call) ∈ pending := by
  obtain ⟨before, after, rfl, -⟩ := lookup_eq_some_iff.mp h
  exact mem_append_right before mem_cons_self

/-- An awaited result answers the call that it belongs to. -/
theorem Inv.receive (h : Inv s) {after : StreamHook} (hPhase : s.phase = .drive after)
    (hAwaited : Awaited s .receive) : Inv (receive after s) := by
  unfold Vm.receive
  cases hRx : s.dispatchRx with
  | nil => exact h
  | cons arrived rest =>
    obtain ⟨source, c, hl, hContext, hStatus⟩ := hAwaited after arrived rest hPhase hRx
    have hr := received_eq hl hContext
    have he := mem_of_lookup hl
    have hEffective : (s.received arrived).effectiveContext = source := by
      rw [hr]
      rfl
    have hv : view (s.received arrived) = seen arrived.result := by
      rw [hr]
      exact view_setContext _ c arrived.result hStatus
    have hPending : (s.received arrived).pendingCalls =
        s.host.pendingCalls.filter (·.1 ≠ arrived.token) := by
      rw [hr]
      rfl
    have hs := hPending ▸ filter_sublist
    have hc := h.completed arrived (by rw [hRx]; exact mem_cons_self)
    -- the entries that are left belong to other calls
    have ho : ∀ p ∈ (s.received arrived).pendingCalls, p.2.number ≠ arrived.number := by
      intro p hp hn
      rw [hPending] at hp
      obtain ⟨hp, ht⟩ := mem_filter.mp hp
      have hSame := inj_on_of_nodup_map h.distinct hp he hn
      simp [hSame] at ht
    have hAnswered : ∀ number, Answered (.callback (s.received arrived).effectiveContext
        arrived.token arrived.number (view (s.received arrived)) :: s.log) number →
        number = arrived.number ∨ Answered s.log number := by
      rintro number ⟨ctxId, token, view, hMem⟩
      rcases mem_cons.mp hMem with hMem | hMem
      · cases hMem
        exact .inl rfl
      · exact .inr ⟨ctxId, token, view, hMem⟩
    refine ⟨?_, ?_, ?_, h.distinct.sublist (hs.map _), ?_, ?_, ?_⟩
    · intro p hp
      obtain ⟨call, byTick, hCall⟩ := h.dispatched p (hs.subset hp)
      exact ⟨call, byTick, mem_current_cons rfl hCall⟩
    · intro p hp
      exact h.numbered p (hs.subset hp)
    · intro p hp hNew
      rcases hAnswered _ hNew with hn | hOld
      · exact ho p hp hn
      · exact h.unanswered p (hs.subset hp) hOld
    · intro a ha
      have hMem : a ∈ s.dispatchRx := by
        rw [hRx]
        exact mem_cons_of_mem _ ha
      exact mem_cons_of_mem _ (h.completed a hMem)
    · intro number hNew
      rcases hAnswered _ hNew with rfl | hOld
      · exact h.numbered _ he
      · exact h.answered number hOld
    · refine h.own.cons ⟨?_, h.unanswered _ he, arrived.result, hc, hv⟩
      rw [hEffective]
      obtain ⟨call, byTick, hCall⟩ := h.dispatched _ he
      exact ⟨call, byTick, (takeWhile_sublist _).subset hCall, .inr hCall⟩

/-! ## Steps -/

theorem Inv.settles (h : Inv s) (hs : Settles s s') : Inv s' := by
  obtain ⟨events, hLog, hEvents⟩ := hs.log
  refine h.mono events ?_ ?_ hs.nextNumber hLog ?_ ?_
  · rw [hs.pendingCalls]
  · rw [hs.dispatchRx]
    exact refl _
  · intro e he
    cases e with
    | began ctxId => cases hEvents _ he
    | _ => rfl
  · intro e he
    cases e with
    | callback ctxId token number view => cases hEvents _ he
    | _ => rfl

theorem Inv.renew (h : Inv s) (calls : List HostCall) : Inv (renew cfg calls s) := by
  have hf : Inv s.fresh := h.clear [] rfl rfl rfl rfl (by simp)
  exact hf.performAll false calls

theorem Inv.step (h : Inv s) {input : Input} (hi : Awaited s input) :
    Inv (step cfg exports s input) := by
  have hStep := stepped_step cfg exports s input
  generalize Vm.step cfg exports s input = s' at hStep
  cases hStep with
  | ignored => exact h
  | begin request hp => exact h.clear [_] rfl rfl rfl rfl (by simp [isCallback])
  | run hRan =>
    obtain ⟨calls, hs⟩ := hRan.settles
    exact (h.performAll false calls).settles hs
  | receive hp hRx => exact h.receive hp hi
  | @complete number answer call hc =>
    -- first what has happened, then the channel
    have hl : Inv { s with log := .completed number (callResult cfg answer) :: s.log } :=
      h.mono [_] (refl _) (refl _) rfl rfl (by simp [isBegan])
        (by simp [isCallback])
    simp only [complete, hc]
    refine { hl with completed := ?_ }
    intro a ha
    rcases mem_append.mp ha with ha | ha
    · exact hl.completed a ha
    · rw [mem_singleton.mp ha]
      exact mem_cons_self
  | entered stage f after hw => exact h.alike (alike_enterStage s _ _) rfl rfl rfl
  | refused hp hb => exact h.settles (quiet_fail _ s).settles
  | tick run calls hp =>
    have hr : Inv s.atRoot := h.alike ⟨rfl, rfl, rfl⟩ rfl rfl rfl
    exact hr.performAll true calls
  | cancel hw =>
    exact h.mono [_] (refl _) (refl _) rfl rfl (by simp [isBegan])
      (by simp [isCallback])
  | kept hp => exact h.alike (.refl _) rfl rfl rfl
  | renewed calls hp => exact h.renew calls

theorem inv_blank : Inv .blank := by
  refine ⟨by simp [State.blank, new], by simp [State.blank, new],
    by simp [State.blank, new], by simp [State.blank, new],
    by simp [State.blank], ?_, Trace.justified_nil⟩
  rintro number ⟨ctxId, token, view, hMem⟩
  cases hMem

/-! ## Results -/

/-- As long as only awaited results are received, guests are given responses to their own calls
only, once, and see the results of these calls. -/
theorem answersOwn_of_awaited (calls : List HostCall) (inputs : List Input)
    (hInputs : Trace.Along (step cfg exports) Awaited (.init cfg calls) inputs) :
    Trace.Justified AnswersOwn (run cfg exports calls inputs).log := by
  have hs : Inv (.init cfg calls) := inv_blank.renew calls
  have hEnd : Inv (run cfg exports calls inputs) := hInputs.foldl hs fun _ _ h => h.step
  exact hEnd.own

/-- A call that is answered while its request waits. -/
theorem plainCall_answersOwn :
    Trace.Justified AnswersOwn (run (limitedTo 2) fewHooks []
      [.begin plainRequest, .run (returns 0), .run pausing, .complete 0 (.ok plainResult),
        .receive]).log := by
  refine answersOwn_of_awaited [] _ ⟨trivial, trivial, trivial, trivial, ?_, trivial⟩
  rintro after arrived rest hp hRx
  obtain ⟨rfl, -⟩ := List.cons.inj hRx
  exact ⟨2, _, rfl, rfl, by decide⟩

/-- A request that is answered while its call is under way, then one that waits for its own call,
and then the result of the first call. -/
def lateResult : List Event :=
  [.completed 0 plainResult,
    .returned (.stream .requestHeaders) .pause, .dispatched 1 2 3 plainCall false,
    .returned .contextCreate .continue, .began 3,
    .exited 2 none [.stream .requestHeaders, .contextCreate],
    .returned (.stream .requestHeaders) .pause, .dispatched 0 1 2 plainCall false,
    .returned .contextCreate .continue, .began 2]

/-- The second request is given the response to the call of the first. -/
theorem lateResult_not_own :
    let s := run (limitedTo 2) fewHooks []
      [.begin plainRequest, .run (returns 0),
        .run { pausing with calls := [.httpCall plainCall, .sendLocalResponse plainResponse] },
        .begin plainRequest, .run (returns 0), .run pausing, .complete 0 (.ok plainResult),
        .receive]
    s.log = .callback 3 1 0 (seen plainResult) :: lateResult ∧
      ¬ Trace.Justified AnswersOwn s.log := by
  refine ⟨rfl, fun h => ?_⟩
  obtain ⟨⟨call, byTick, hMem, -⟩, -⟩ := h [] (.callback 3 1 0 (seen plainResult)) lateResult rfl
  simp [lateResult] at hMem

end Spacegate.PluginWasm.Vm.CallResponses
