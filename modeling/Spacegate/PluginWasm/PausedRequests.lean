import Spacegate.Foundation.Trace
import Spacegate.PluginWasm.VmSteps

/-!
# Paused requests

A hook of the request phase may pause the request.  It should then go on only after the guest
has resumed it.  What the host looks at, however, is whether outbound calls are pending:
`drive_until_continue` waits as long as there are any, and no longer.
-/

namespace Spacegate.PluginWasm.Vm.PausedRequests

open Foundation List

variable (cfg : WasmPluginShellConfig) (exports : Exports)

/-- The last request hook of the present request has paused it, and the guest has not resumed
it since. -/
def paused (ctxId : Nat) : List Event → Bool
  | [] => false
  | .began _ :: _ => false
  | .returned (.stream h) action :: earlier =>
    if h.isRequest then action = .pause else paused ctxId earlier
  | .continued id .httpRequest :: earlier => if id = ctxId then false else paused ctxId earlier
  | _ :: earlier => paused ctxId earlier

/-- A request that is forwarded is not paused. -/
def ForwardedResumed (earlier : List Event) : Event → Prop
  | .forwarded ctxId => paused ctxId earlier = false
  | _ => True

/-- A guest that leaves its request paused waits for something, or has answered it. -/
def Busy (s : State) : Prop :=
  s.host.pendingCalls ≠ [] ∨ s.localResponse ≠ none

/-- After the last request hook, and after each callback while the host waits for it, a guest
that has not resumed the request is busy. -/
def StaysBusy (s : State) : Input → Prop
  | .run run =>
    ∀ after v, exports.isLastRequest after → run.outcome = .returned v →
      (s.phase = .hook (.stream after) → Action.fromU32 v = .pause →
        Busy (s.performAll cfg false run.calls)) ∧
      ∀ token bodySize, s.phase = .callback after token bodySize →
        paused s.ctxId (s.performAll cfg false run.calls).log →
        Busy (s.performAll cfg false run.calls)
  | _ => True

/-! ## Steps -/

/-- The state from which a request is forwarded. -/
inductive Forwards (s : State) : Input → State → Prop where
  | hook {after : StreamHook} {run : HookRun} {v : Nat} (hPhase : s.phase = .hook (.stream after))
      (hRun : run.outcome = .returned v) (hLast : exports.isLastRequest after)
      (hLocal : (s.performAll cfg false run.calls).localResponse = none)
      (hAction : Action.fromU32 v = .pause →
        (s.performAll cfg false run.calls).host.pendingCalls = []) :
      Forwards s (.run run) (s.returned cfg (.stream after) run v)
  | callback {after : StreamHook} {token bodySize : Nat} {run : HookRun} {v : Nat}
      (hPhase : s.phase = .callback after token bodySize)
      (hRun : run.outcome = .returned v) (hLast : exports.isLastRequest after)
      (hLocal : (s.performAll cfg false run.calls).localResponse = none)
      (hPending : (s.performAll cfg false run.calls).host.pendingCalls = []) :
      Forwards s (.run run) (s.performAll cfg false run.calls)

/-- No request is forwarded. -/
def Keeps (s s' : State) : Prop :=
  ∃ events, s'.log = events ++ s.log ∧ ∀ ctxId, .forwarded ctxId ∉ events

variable {cfg exports} {s s' s'' : State}

theorem Keeps.trans (h : Keeps s s') (h' : Keeps s' s'') : Keeps s s'' := by
  obtain ⟨events, hLog, he⟩ := h
  obtain ⟨later, hl, hle⟩ := h'
  refine ⟨later ++ events, by rw [hl, hLog, append_assoc], ?_⟩
  intro ctxId hMem
  rcases mem_append.mp hMem with hMem | hMem
  · exact hle ctxId hMem
  · exact he ctxId hMem

theorem Keeps.of_eq (h : s'.log = s.log) : Keeps s s' := ⟨[], h, by simp⟩

theorem Keeps.cons {e : Event} (h : s'.log = e :: s.log) (he : ∀ ctxId, e ≠ .forwarded ctxId) :
    Keeps s s' := by
  refine ⟨[e], h, ?_⟩
  intro ctxId hMem
  exact he ctxId (mem_singleton.mp hMem).symm

theorem Keeps.of_performed (h : Performed s s') : Keeps s s' := by
  obtain ⟨calls, hLog, hc⟩ := h.log
  refine ⟨calls, hLog, ?_⟩
  intro ctxId hMem
  cases hc _ hMem

theorem Keeps.of_quiet (h : Quiet s s') : Keeps s s' := by
  rcases h.log with hLog | ⟨error, hLog⟩
  · exact .of_eq hLog
  · exact .cons hLog (by simp)

theorem Keeps.justified (h : Keeps s s') (hLog : Trace.Justified ForwardedResumed s.log) :
    Trace.Justified ForwardedResumed s'.log := by
  obtain ⟨events, he, hn⟩ := h
  rw [he]
  clear he
  induction events with
  | nil => exact hLog
  | cons e events ih =>
    refine (ih fun ctxId hMem => hn ctxId (mem_cons_of_mem _ hMem)).cons ?_
    cases e with
    | forwarded ctxId => exact absurd mem_cons_self (hn ctxId)
    | _ => trivial

/-! ## What a step does -/

theorem runHook_cases (hs : Served s) {hook : Hook} (hPhase : s.phase = .hook hook)
    (run : HookRun) : Keeps s (runHook cfg exports hook run s) ∨
      ∃ s', Forwards cfg exports s (.run run) s' ∧ runHook cfg exports hook run s = forward s' := by
  have hp := performed_performAll cfg false s run.calls
  have hRun : Keeps s (s.called cfg hook run) := (Keeps.of_performed hp).trans (.of_eq rfl)
  unfold runHook
  cases ho : run.outcome with
  | refused message => exact .inl (.of_quiet (quiet_fail _ s))
  | trapped message =>
    refine .inl (hRun.trans ?_)
    split_ifs with hil
    · refine .of_quiet (quiet_afterHook exports ?_ ?_)
      · rintro rfl
        cases hil
      · rintro after rfl
        cases hil
    · exact .of_quiet (quiet_fail _ _)
  | returned v =>
    have hr : Keeps s (s.returned cfg hook run v) := hRun.trans (.cons rfl (by simp))
    by_cases hc : hook = .contextCreate
    · subst hc
      exact .inl (hr.trans (.of_eq rfl))
    · have hLive : (s.returned cfg hook run v).ctxId ∈ (s.returned cfg hook run v).host.live :=
        hp.mem_live (hs.mem_live hPhase hc)
      rcases afterHook_cases exports (.fromU32 v) hc hLive with
        hq | ⟨after, rfl, hLast, hl, ha, hf⟩
      · exact .inl (hr.trans (.of_quiet hq))
      · exact .inr ⟨_, .hook hPhase ho hLast hl ha, hf⟩

variable (calls : List HostCall)

theorem keeps_renew (s : State) : Keeps s (renew cfg calls s) := by
  have hf : Keeps s s.fresh := .of_eq rfl
  exact hf.trans (.of_performed (performed_performAll cfg false s.fresh calls))

/-- Only a run of the guest can be followed by forwarding. -/
theorem step_cases (hs : Served s) (input : Input) : Keeps s (step cfg exports s input) ∨
      ∃ s', Forwards cfg exports s input s' ∧ step cfg exports s input = forward s' := by
  have hStep := stepped_step cfg exports s input
  generalize step cfg exports s input = s' at hStep
  cases hStep with
  | @run run _ hRan =>
    cases hRan with
    | hook hp => exact runHook_cases hs hp run
    | @callback after token bodySize hp =>
      have hPerformed := performed_performAll cfg false s run.calls
      have hLive := hPerformed.mem_live (hs (by rw [hp]; rfl))
      unfold runCallback
      cases ho : run.outcome with
      | refused message => exact .inl (.of_quiet (quiet_fail _ s))
      | trapped message =>
        exact .inl ((Keeps.of_performed hPerformed).trans (.of_quiet (quiet_fail _ _)))
      | returned v =>
        rcases driveUntilContinue_cases exports after hLive with
          hq | ⟨hLast, hl, hPending, hf⟩
        · exact .inl ((Keeps.of_performed hPerformed).trans (.of_quiet hq))
        · exact .inr ⟨_, .callback hp ho hLast hl hPending, hf⟩
  | begin request hp => exact .inl (.cons rfl (by simp))
  | receive hp hRx =>
    simp only [receive, hRx]
    exact .inl (.cons rfl (by simp))
  | complete answer hc =>
    simp only [complete, hc]
    exact .inl (.cons rfl (by simp))
  | refused hp hb => exact .inl (.of_quiet (quiet_fail _ s))
  | tick run calls hp =>
    have hr : Keeps s s.atRoot := .of_eq rfl
    exact .inl (hr.trans (.of_performed (performed_performAll cfg true s.atRoot calls)))
  | cancel hw => exact .inl (.cons rfl (by simp))
  | renewed calls hp => exact .inl (keeps_renew calls s)
  | _ => exact .inl (.of_eq rfl)

variable {input : Input}

/-- And from the states described it is. -/
theorem Forwards.step_eq (h : Forwards cfg exports s input s') (hs : Served s) :
    step cfg exports s input = forward s' := by
  cases h with
  | @hook after run v hp hRun hLast hl ha =>
    have hLive : (s.returned cfg (.stream after) run v).ctxId ∈
        (s.returned cfg (.stream after) run v).host.live :=
      (performed_performAll cfg false s run.calls).mem_live (hs (by rw [hp]; rfl))
    simp only [step, hp, runHook, hRun]
    exact afterHook_of_isLastRequest exports hLast hl hLive ha
  | @callback after token bodySize run v hp hRun hLast hl hPending =>
    have hLive := (performed_performAll cfg false s run.calls).mem_live (hs (by rw [hp]; rfl))
    simp only [step, hp, runCallback, hRun]
    rw [driveUntilContinue_of_nil exports hLive hPending, leave_of_isLastRequest exports hLast hl]

theorem Forwards.keeps (h : Forwards cfg exports s input s') : Keeps s s' := by
  cases h with
  | @hook after run v =>
    have hRun : Keeps s (s.performAll cfg false run.calls) :=
      .of_performed (performed_performAll cfg false s run.calls)
    exact hRun.trans (.cons rfl (by simp))
  | @callback after token bodySize run v =>
    exact .of_performed (performed_performAll cfg false s run.calls)

theorem isRequest_of_isLastRequest {after : StreamHook} (h : exports.isLastRequest after) :
    after.isRequest := by
  cases after with
  | responseHeaders => cases h
  | responseBody => cases h
  | _ => rfl

theorem paused_returned {after : StreamHook} (h : exports.isLastRequest after) (ctxId : Nat)
    (action : Action) (log : List Event) :
    paused ctxId (.returned (.stream after) action :: log) = decide (action = .pause) := by
  simp [paused, isRequest_of_isLastRequest h]

theorem not_busy_iff : ¬ Busy s ↔ s.host.pendingCalls = [] ∧ s.localResponse = none := by
  simp [Busy]

theorem Forwards.resumed (h : Forwards cfg exports s input s')
    (hb : StaysBusy cfg exports s input) : paused s'.ctxId s'.log = false := by
  cases h with
  | @hook after run v hp hRun hLast hl ha =>
    show paused _ (.returned (.stream after) (.fromU32 v) :: _) = false
    rw [paused_returned hLast, decide_eq_false_iff_not]
    intro hPause
    exact not_busy_iff.mpr ⟨ha hPause, hl⟩ ((hb after v hLast hRun).1 hp hPause)
  | @callback after token bodySize run v hp hRun hLast hl hPending =>
    rw [(performed_performAll cfg false s run.calls).ctxId, ← Bool.not_eq_true]
    intro hPaused
    exact not_busy_iff.mpr ⟨hPending, hl⟩ ((hb after v hLast hRun).2 token bodySize hp hPaused)

/-- A request that is forwarded although its guest is not busy was resumed. -/
theorem staysBusy_of_justified (hs : Served s)
    (hj : Trace.Justified ForwardedResumed (step cfg exports s input).log) :
    StaysBusy cfg exports s input := by
  have hr : ∀ s', Forwards cfg exports s input s' → paused s'.ctxId s'.log = false := by
    intro s' h
    rw [h.step_eq hs] at hj
    exact hj [] (.forwarded s'.ctxId) s'.log rfl
  cases input with
  | run run =>
    intro after v hLast hRun
    constructor
    · intro hPhase hPause
      by_contra hi
      obtain ⟨hp, hl⟩ := not_busy_iff.mp hi
      have h : paused _ (.returned (.stream after) (.fromU32 v) :: _) = false :=
        hr _ (.hook hPhase hRun hLast hl fun _ => hp)
      rw [paused_returned hLast, hPause] at h
      cases h
    · intro token bodySize hPhase hPaused
      by_contra hi
      obtain ⟨hp, hl⟩ := not_busy_iff.mp hi
      have h := hr _ (.callback hPhase hRun hLast hl hp)
      rw [(performed_performAll cfg false s run.calls).ctxId, hPaused] at h
      cases h
  | _ => trivial

/-! ## Results -/

structure Inv (s : State) : Prop where
  served : Served s
  resumed : Trace.Justified ForwardedResumed s.log

theorem inv_init : Inv (.init cfg calls) :=
  ⟨served_renew calls .blank, (keeps_renew calls .blank).justified Trace.justified_nil⟩

theorem Inv.step (h : Inv s) (hb : StaysBusy cfg exports s input) :
    Inv (step cfg exports s input) := by
  refine ⟨h.served.step input, ?_⟩
  rcases step_cases h.served input with hk | ⟨s', hf, hs⟩
  · exact hk.justified h.resumed
  · rw [hs]
    exact (hf.keeps.justified h.resumed).cons (hf.resumed hb)

/-- A paused request is forwarded in no state that is reached if and only if guests stay busy as
long as their requests are paused. -/
theorem resumed_iff_staysBusy (cfg : WasmPluginShellConfig) (exports : Exports)
    (calls : List HostCall) (inputs : List Input) :
    (∀ earlier later, inputs = earlier ++ later →
        Trace.Justified ForwardedResumed (run cfg exports calls earlier).log) ↔
      Trace.Along (step cfg exports) (StaysBusy cfg exports) (.init cfg calls) inputs := by
  have hg : ∀ s, Inv s → Trace.Justified ForwardedResumed s.log := fun _ h => h.resumed
  refine Trace.reached_iff_along hg ?_ ?_ (inv_init calls)
  · intro s input h hb
    exact h.step hb
  · intro s input h hj
    exact staysBusy_of_justified h.served hj

/-- The guest pauses the request for an outbound call.  The call fails, and the guest neither
resumes nor answers the request. -/
theorem failedCall_forwarded :
    let s := run (limitedTo 2) fewHooks []
      [.begin plainRequest, .run (returns 0), .run pausing, .complete 0 (.error "refused"),
        .receive, .run (returns 0)]
    s.log = [.forwarded 2, .callback 2 1 0 { headers := [], status := 0, body := some [] },
        .completed 0 { status := 0, statusMessage := "refused", headers := [], body := [] },
        .returned (.stream .requestHeaders) .pause, .dispatched 0 1 2 plainCall false,
        .returned .contextCreate .continue, .began 2] ∧
      ¬ Trace.Justified ForwardedResumed s.log := by
  refine ⟨rfl, fun h => ?_⟩
  exact Bool.noConfusion (h [] (.forwarded 2) _ rfl)

end Spacegate.PluginWasm.Vm.PausedRequests
