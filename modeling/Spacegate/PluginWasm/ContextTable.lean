import Spacegate.Foundation.Trace
import Spacegate.PluginWasm.VmSteps

/-!
# The contexts of a `Vm`

Between two requests only the root context is there, and the guest was told of the end of every
other one, where it wants to be told.

A body that is too large ends a request at once, without the last hooks, and the `Vm` stays as it
is.  So does a request that is abandoned while it waits, and an error for which a new `Vm` could
not be made.  Context ids start anew after `2 ^ 32` requests, and one of them is the root's.
-/

namespace Spacegate.PluginWasm.Vm.ContextTable

open Foundation HostState

variable (cfg : WasmPluginShellConfig) (exports : Exports)

/-- The guest was told that a context is gone, where it wants to be told. -/
structure Told (told : List Hook) : Prop where
  done : exports.onDone → .done ∈ told
  delete : exports.onDelete → .delete ∈ told

/-- The `Vm` stays after this end of a request. -/
def keepsVm (error : Option WasmHostError) : Bool :=
  !error.any (·.requiresVmRebuild)

/-- So it was with every request that has ended. -/
def ExitsTold (log : List Event) : Prop :=
  ∀ ctxId error told, .exited ctxId error told ∈ log → keepsVm error → Told exports told

/-- Contexts end with their requests. -/
structure NoneLeft (s : State) : Prop where
  idle : s.phase = .idle → s.host.live = {rootContextId}
  bounded : s.host.live ⊆ {rootContextId, s.ctxId}
  told : ExitsTold exports s.log

/-- The body stream ends, and within the limit. -/
def FitsLimit (body : Except String Bytes) : Prop :=
  ∀ limit, cfg.limits.maxBodyBytes = some limit → ∃ bytes, body = .ok bytes ∧ bytes.length ≤ limit

/-- Nothing ends a request without the last hooks, unless a new `Vm` is made. -/
def RunsToEnd (s : State) : Input → Prop
  | .begin _ => s.nextCtxId ≠ rootContextId
  | .body body =>
    s.phase = .collectRequestBody ∨ s.phase = .collectResponseBody → FitsLimit cfg body
  | .cancel => s.phase.waits = false
  | .rebuild calls => s.phase = .rebuild → calls.isSome
  | _ => True

/-! ## The invariant -/

/-- The contexts that are there in a phase. -/
def expected : Phase → Nat → Set Nat
  | .idle, _ | .hook .contextCreate, _ => {rootContextId}
  | _, ctxId => {rootContextId, ctxId}

structure Inv (s : State) : Prop where
  live : s.phase ≠ .rebuild → s.host.live = expected s.phase s.ctxId
  bounded : s.host.live ⊆ {rootContextId, s.ctxId}
  notRoot : s.phase ≠ .idle → s.ctxId ≠ rootContextId
  done : s.phase = .hook .delete → exports.onDone → .done ∈ s.told
  exits : ExitsTold exports s.log

/-- The context of the request is there. -/
structure Open (s : State) : Prop where
  live : s.host.live = {rootContextId, s.ctxId}
  notRoot : s.ctxId ≠ rootContextId
  exits : ExitsTold exports s.log

variable {cfg exports} {s s' : State}

theorem Inv.noneLeft (h : Inv exports s) : NoneLeft exports s where
  idle := by
    intro hp
    rw [h.live (by rw [hp]; simp), hp]
    rfl
  bounded := h.bounded
  told := h.exits

theorem expected_of_serves {phase : Phase} (h : phase.serves) (ctxId : Nat) :
    expected phase ctxId = {rootContextId, ctxId} := by
  unfold expected
  split
  · cases h
  · cases h
  · rfl

theorem Inv.open (h : Inv exports s) (hs : s.phase.serves) : Open exports s := by
  refine ⟨(h.live ?_).trans (expected_of_serves hs _), h.notRoot ?_, h.exits⟩
  · intro hp
    simp [hp, Phase.serves] at hs
  · intro hp
    simp [hp, Phase.serves] at hs

theorem exitsTold_of_performed (hp : Performed s s') (h : ExitsTold exports s.log) :
    ExitsTold exports s'.log := by
  intro ctxId error told he
  exact h ctxId error told (hp.mem_log he rfl)

theorem Open.of_performed (h : Open exports s) (hp : Performed s s') : Open exports s' where
  live := by rw [hp.live, hp.ctxId, h.live]
  notRoot := by rw [hp.ctxId]; exact h.notRoot
  exits := exitsTold_of_performed hp h.exits

theorem Open.change (h : Open exports s) (hl : s'.host.live = s.host.live)
    (hCtx : s'.ctxId = s.ctxId) (hLog : s'.log = s.log) : Open exports s' where
  live := by rw [hl, hCtx, h.live]
  notRoot := by rw [hCtx]; exact h.notRoot
  exits := by
    intro ctxId error told he
    rw [hLog] at he
    exact h.exits ctxId error told he

theorem Open.goOn (h : Open exports s) (hl : s'.host.live = s.host.live)
    (hCtx : s'.ctxId = s.ctxId) (hLog : s'.log = s.log)
    (he : expected s'.phase s'.ctxId = {rootContextId, s'.ctxId})
    (hd : s'.phase = .hook .delete → exports.onDone → .done ∈ s'.told) : Inv exports s' := by
  have ho : Open exports s' := h.change hl hCtx hLog
  exact {
    live := fun _ => ho.live.trans he.symm
    bounded := ho.live.subset
    notRoot := fun _ => ho.notRoot
    done := hd
    exits := ho.exits }

theorem exitsTold_cons {e : Event} {log : List Event} (h : ExitsTold exports log)
    (he : ∀ ctxId error told, e = .exited ctxId error told → keepsVm error → Told exports told) :
    ExitsTold exports (e :: log) := by
  intro ctxId error told hExit
  rcases List.mem_cons.mp hExit with hExit | hExit
  · exact he ctxId error told hExit.symm
  · exact h ctxId error told hExit

/-! ## The end of a request -/

theorem Inv.fail {error : WasmHostError} (hb : s.host.live ⊆ {rootContextId, s.ctxId})
    (hr : s.ctxId ≠ rootContextId) (hExits : ExitsTold exports s.log)
    (he : error.requiresVmRebuild) : Inv exports (fail error s) := by
  have hp : (Vm.fail error s).phase = .rebuild := by simp [Vm.fail, exit, he]
  refine ⟨?_, hb, fun _ => hr, ?_, ?_⟩
  · rw [hp]
    simp
  · rw [hp]
    simp
  · refine exitsTold_cons hExits ?_
    intro ctxId error told hExit hk
    cases hExit
    simp [keepsVm, he] at hk

variable (h : Open exports s)
include h

theorem Open.fail {error : WasmHostError} (he : error.requiresVmRebuild) :
    Inv exports (Vm.fail error s) :=
  Inv.fail h.live.subset h.notRoot h.exits he

theorem Open.finish (ht : Told exports s.told) : Inv exports (finish s) := by
  have hl : (s.host.removeContext s.ctxId).live = {rootContextId} := by
    rw [live_removeContext, h.live]
    ext id
    have hr := h.notRoot
    simp only [Set.mem_sdiff, Set.mem_insert_iff, Set.mem_singleton_iff]
    constructor
    · rintro ⟨hId | hId, hNot⟩
      · exact hId
      · exact absurd hId hNot
    · intro hId
      exact ⟨.inl hId, by rw [hId]; exact hr.symm⟩
  refine ⟨fun _ => hl, ?_, fun hi => absurd rfl hi, by simp [Vm.finish, exit], ?_⟩
  · show (s.host.removeContext s.ctxId).live ⊆ {rootContextId, s.ctxId}
    rw [hl]
    simp
  · refine exitsTold_cons h.exits ?_
    intro ctxId error told he _
    cases he
    exact ht

theorem Open.enterDelete (hDone : exports.onDone → .done ∈ s.told) :
    Inv exports (enterDelete exports s) := by
  unfold Vm.enterDelete
  split_ifs with hd
  · exact h.goOn rfl rfl rfl rfl fun _ => hDone
  · exact h.finish ⟨hDone, fun he => absurd he hd⟩

theorem Open.enterDone : Inv exports (enterDone exports s) := by
  unfold Vm.enterDone
  split_ifs with hd
  · exact h.goOn (alike_modifyContext _).live rfl rfl rfl (by simp)
  · exact h.enterDelete fun he => absurd he hd

theorem Open.invokeLogDoneDelete : Inv exports (invokeLogDoneDelete exports s) := by
  have ho : Open exports { s with
      host := { s.host with effectiveContext := s.ctxId }.modifyContext s.ctxId fun c =>
        { c with stage := .log } } :=
    h.change (alike_modifyContext _).live rfl rfl
  unfold Vm.invokeLogDoneDelete
  split_ifs
  · exact ho.goOn rfl rfl rfl rfl (by simp)
  · exact ho.enterDone

omit h

/-! ## From hook to hook -/

variable (h : Open exports s)
include h

theorem Open.forward : Inv exports (forward s) := by
  have he : ExitsTold exports (Vm.forward s).log := exitsTold_cons h.exits (by simp)
  exact ⟨fun _ => h.live, h.live.subset, fun _ => h.notRoot, by simp [Vm.forward], he⟩

theorem Open.leaveRequestBody : Inv exports (leaveRequestBody exports s) := by
  unfold Vm.leaveRequestBody
  split_ifs
  · exact h.goOn (alike_enterTrailers s _).live rfl rfl rfl (by simp)
  · exact h.forward

theorem Open.leaveRequestHeaders : Inv exports (leaveRequestHeaders exports s) := by
  unfold Vm.leaveRequestHeaders
  split_ifs
  · exact h.goOn rfl rfl rfl rfl (by simp)
  · exact h.leaveRequestBody

theorem Open.leaveResponseBody : Inv exports (leaveResponseBody exports s) := by
  unfold Vm.leaveResponseBody
  split_ifs
  · exact h.goOn (alike_enterTrailers s _).live rfl rfl rfl (by simp)
  · exact h.invokeLogDoneDelete

theorem Open.leaveResponseHeaders : Inv exports (leaveResponseHeaders exports s) := by
  unfold Vm.leaveResponseHeaders
  split_ifs
  · exact h.goOn rfl rfl rfl rfl (by simp)
  · exact h.leaveResponseBody

theorem Open.unlessAnswered {next : State → State}
    (hn : Inv exports (next s)) : Inv exports (unlessAnswered exports next s) := by
  unfold Vm.unlessAnswered
  split_ifs
  · have ho : Open exports { s with
        host := s.host.modifyContext s.ctxId fun c => { c with localResponse := none } } :=
      h.change (alike_modifyContext _).live rfl rfl
    exact ho.invokeLogDoneDelete
  · exact hn

theorem Open.leave (after : StreamHook) : Inv exports (leave exports after s) := by
  cases after with
  | requestHeaders => exact h.unlessAnswered h.leaveRequestHeaders
  | requestBody => exact h.unlessAnswered h.leaveRequestBody
  | requestTrailers => exact h.unlessAnswered h.forward
  | responseHeaders => exact h.unlessAnswered h.leaveResponseHeaders
  | responseBody => exact h.leaveResponseBody

theorem Open.driveUntilContinue (after : StreamHook) :
    Inv exports (driveUntilContinue exports after s) := by
  unfold Vm.driveUntilContinue
  cases hc : s.host.contexts s.ctxId with
  | none =>
    -- the context of a request is there as long as it is served
    have hl : s.ctxId ∈ s.host.live := by rw [h.live]; simp
    simp [HostState.live, hc] at hl
  | some c =>
    dsimp only
    split_ifs
    · exact h.leave after
    · exact h.leave after
    · exact h.leave after
    · exact h.goOn rfl rfl rfl rfl (by simp)

variable {hook : Hook}

theorem Open.afterHook (hh : hook ≠ .contextCreate)
    (action : Action) (hDone : hook = .done ∨ hook = .delete → exports.onDone → .done ∈ s.told)
    (hd : hook = .delete → .delete ∈ s.told) : Inv exports (afterHook exports hook action s) := by
  cases hook with
  | contextCreate => exact absurd rfl hh
  | stream after =>
    rcases afterHook_stream exports after action s with hDrive | hl
    · rw [hDrive]
      exact h.driveUntilContinue after
    · rw [hl]
      exact h.leave after
  | responseTrailers => exact h.invokeLogDoneDelete
  | log => exact h.enterDone
  | done => exact h.enterDelete (hDone (.inl rfl))
  | delete => exact h.finish ⟨hDone (.inr rfl), fun _ => hd rfl⟩

omit h

/-! ## Guest calls -/

/-- After the guest has run in a hook. -/
theorem Inv.afterHook (h : Inv exports s) (hp : s.phase = .hook hook)
    (hl : s'.host.live = s.host.live) (hCtx : s'.ctxId = s.ctxId)
    (ht : s'.told = hook :: s.told) (hExits : ExitsTold exports s'.log) (action : Action) :
    Inv exports (afterHook exports hook action s') := by
  have hr : s'.ctxId ≠ rootContextId := by
    rw [hCtx]
    exact h.notRoot (by rw [hp]; simp)
  have he : s'.host.live = expected (.hook hook) s'.ctxId := by
    rw [hl, h.live (by rw [hp]; simp), hp, hCtx]
  by_cases hh : hook = .contextCreate
  · subst hh
    have hc : (s'.host.setContext s'.ctxId s'.createdContext).live = {rootContextId, s'.ctxId} := by
      rw [live_setContext, he]
      exact Set.pair_comm _ _
    exact ⟨fun _ => hc, hc.subset, fun _ => hr, by simp [Vm.afterHook], hExits⟩
  · have ho : Open exports s' := by
      refine ⟨?_, hr, hExits⟩
      rw [he]
      cases hook with
      | contextCreate => exact absurd rfl hh
      | _ => rfl
    refine ho.afterHook hh action ?_ ?_
    · rintro (rfl | rfl) hd
      · simp [ht]
      · rw [ht]
        exact List.mem_cons_of_mem _ (h.done hp hd)
    · rintro rfl
      simp [ht]

theorem Inv.runHook (h : Inv exports s) (hp : s.phase = .hook hook)
    (run : HookRun) : Inv exports (runHook cfg exports hook run s) := by
  have hr := h.notRoot (by rw [hp]; simp)
  have hRun := performed_performAll cfg false s run.calls
  have ht : (s.called cfg hook run).told = hook :: s.told := congrArg (hook :: ·) hRun.told
  have he := exitsTold_of_performed hRun h.exits
  unfold Vm.runHook
  cases run.outcome with
  | refused message => exact Inv.fail h.bounded hr h.exits rfl
  | returned v =>
    refine h.afterHook hp ?_ ?_ ?_ ?_ _
    · exact hRun.live
    · exact hRun.ctxId
    · exact ht
    · exact exitsTold_cons he (by simp)
  | trapped message =>
    split_ifs
    · refine h.afterHook hp ?_ ?_ ?_ ?_ _
      · exact hRun.live
      · exact hRun.ctxId
      · exact ht
      · exact he
    · refine Inv.fail ?_ ?_ he rfl
      · show (s.performAll cfg false run.calls).host.live ⊆
          {rootContextId, (s.performAll cfg false run.calls).ctxId}
        rw [hRun.live, hRun.ctxId]
        exact h.bounded
      · show (s.performAll cfg false run.calls).ctxId ≠ rootContextId
        rw [hRun.ctxId]
        exact hr

theorem Open.runCallback (h : Open exports s) (after : StreamHook) (run : HookRun) :
    Inv exports (runCallback cfg exports after run s) := by
  have hRun := h.of_performed (performed_performAll cfg false s run.calls)
  unfold Vm.runCallback
  cases run.outcome with
  | refused message => exact h.fail rfl
  | returned v => exact hRun.driveUntilContinue after
  | trapped message => exact hRun.fail rfl

/-! ## What arrives -/

theorem Open.receive (h : Open exports s) (after : StreamHook) {arrived : Arrived}
    {rest : List Arrived} (hRx : s.dispatchRx = arrived :: rest) :
    Inv exports (receive after s) := by
  have hl : (s.received arrived).live = {rootContextId, s.ctxId} :=
    (live_received s arrived).trans h.live
  simp only [Vm.receive, hRx]
  exact ⟨fun _ => hl, hl.subset, fun _ => h.notRoot, by simp, exitsTold_cons h.exits (by simp)⟩

theorem Inv.same (h : Inv exports s) (hl : s'.host.live = s.host.live)
    (hp : s'.phase = s.phase) (hCtx : s'.ctxId = s.ctxId) (ht : s'.told = s.told)
    (he : ExitsTold exports s'.log) : Inv exports s' where
  live := by
    rw [hp, hl, hCtx]
    exact h.live
  bounded := by
    rw [hl, hCtx]
    exact h.bounded
  notRoot := by
    rw [hp, hCtx]
    exact h.notRoot
  done := by
    rw [hp, ht]
    exact h.done
  exits := he

theorem collectBodyLimited_of_fits {body : Except String Bytes} (h : FitsLimit cfg body) :
    ∃ bytes, collectBodyLimited cfg body = .ok bytes := by
  unfold collectBodyLimited
  cases hl : cfg.limits.maxBodyBytes with
  | none => exact ⟨_, rfl⟩
  | some limit =>
    obtain ⟨bytes, rfl, hb⟩ := h limit hl
    exact ⟨bytes, by simp [Nat.not_lt.mpr hb]⟩

/-! ## Requests -/

theorem Inv.begin (h : Inv exports s) (hp : s.phase = .idle)
    (hr : s.nextCtxId ≠ rootContextId) (request : Kernel.Request Unit) :
    Inv exports (begin request s) := by
  have hl : s.host.live = {rootContextId} := by
    rw [h.live (by rw [hp]; simp), hp]
    rfl
  refine ⟨fun _ => hl, ?_, fun _ => hr, by simp [Vm.begin], ?_⟩
  · show s.host.live ⊆ {rootContextId, s.nextCtxId}
    rw [hl]
    simp
  · exact exitsTold_cons h.exits (by simp)

theorem inv_renew (he : ExitsTold exports s.log) (calls : List HostCall) :
    Inv exports (renew cfg calls s) := by
  have hRun := performed_performAll cfg false s.fresh calls
  have hl : (renew cfg calls s).host.live = {rootContextId} := hRun.live.trans live_new
  have hp : (renew cfg calls s).phase = .idle := hRun.phase
  refine ⟨?_, ?_, ?_, ?_, exitsTold_of_performed hRun he⟩
  · rw [hp, hl]
    intro _
    rfl
  · rw [hl]
    simp
  · rw [hp]
    simp
  · rw [hp]
    simp

theorem Inv.ran (h : Inv exports s) {run : HookRun} (hRan : Ran cfg exports s run s') :
    Inv exports s' := by
  cases hRan with
  | hook hp => exact h.runHook hp run
  | callback hp => exact (h.open (by rw [hp]; rfl)).runCallback _ run

theorem Inv.step (h : Inv exports s) {input : Input} (hi : RunsToEnd cfg s input) :
    Inv exports (step cfg exports s input) := by
  have hs := stepped_step cfg exports s input
  generalize Vm.step cfg exports s input = s' at hs
  cases hs with
  | ignored => exact h
  | begin request hp => exact h.begin hp hi request
  | run hRan => exact h.ran hRan
  | receive hp hRx => exact (h.open (by rw [hp]; rfl)).receive _ hRx
  | complete answer hc =>
    simp only [complete, hc]
    exact h.same rfl rfl rfl rfl (exitsTold_cons h.exits (by simp))
  | entered stage f after hw =>
    have ho := h.open (Phase.serves_of_waits hw)
    exact ho.goOn (alike_enterStage s _ _).live rfl rfl rfl (by simp)
  | refused hp hb =>
    obtain ⟨bytes, hBytes⟩ := collectBodyLimited_of_fits (hi hp)
    rw [hBytes] at hb
    cases hb
  | tick run calls hp =>
    have hRun := performed_performAll cfg true s.atRoot calls
    exact h.same hRun.live hRun.phase hRun.ctxId hRun.told (exitsTold_of_performed hRun h.exits)
  | cancel hw =>
    have hNot : s.phase.waits = false := hi
    rw [hNot] at hw
    cases hw
  | kept hp => cases hi hp
  | renewed calls hp => exact inv_renew h.exits calls

variable (calls : List HostCall)

theorem inv_run {inputs : List Input}
    (hi : Trace.Along (step cfg exports) (RunsToEnd cfg) (.init cfg calls) inputs) :
    Inv exports (run cfg exports calls inputs) := by
  have hs : Inv exports (.init cfg calls) := by
    refine inv_renew ?_ calls
    intro ctxId error told he
    cases he
  exact hi.foldl hs fun _ _ h => h.step

/-! ## Results -/

/-- As long as requests run to their end, no context is left between two of them, and the guest
was told of the end of each. -/
theorem noneLeft_of_runsToEnd (inputs : List Input)
    (hInputs : Trace.Along (step cfg exports) (RunsToEnd cfg) (.init cfg calls) inputs) :
    NoneLeft exports (run cfg exports calls inputs) :=
  (inv_run calls hInputs).noneLeft

/-- A request that runs to its end, through all hooks. -/
theorem served_noneLeft :
    NoneLeft allHooks (run (limitedTo 2) allHooks []
      [.begin plainRequest, .run (returns 0), .run (returns 0), .body (.ok [7]),
        .run (returns 0), .run (returns 0), .respond 200 [], .run (returns 0), .body (.ok [7, 8]),
        .run (returns 0), .run (returns 0), .run (returns 0), .run (returns 0),
        .run (returns 0)]) := by
  have hf : ∀ bytes : Bytes, bytes.length ≤ 2 → FitsLimit (limitedTo 2) (.ok bytes) := by
    intro bytes hb limit hl
    cases hl
    exact ⟨bytes, rfl, hb⟩
  refine noneLeft_of_runsToEnd [] _ ⟨?_, trivial, trivial, ?_, trivial, trivial, trivial, trivial,
    ?_, trivial, trivial, trivial, trivial, trivial, trivial⟩
  · show rootContextId + 1 ≠ rootContextId
    decide
  · exact fun _ => hf [7] (by decide)
  · exact fun _ => hf [7, 8] (by decide)

/-- A body over the limit leaves the context, and the guest is not told. -/
theorem tooLarge_left :
    ¬ NoneLeft allHooks (run (limitedTo 2) allHooks []
      [.begin plainRequest, .run (returns 0), .run (returns 0), .body (.ok [7, 8, 9])]) := by
  intro h
  have hl := h.idle rfl
  have hc : 2 ∈ (run (limitedTo 2) allHooks []
      [.begin plainRequest, .run (returns 0), .run (returns 0), .body (.ok [7, 8, 9])]).host.live :=
    rfl
  rw [hl] at hc
  cases hc

end Spacegate.PluginWasm.Vm.ContextTable
