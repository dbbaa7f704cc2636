import Spacegate.Foundation.Trace
import Spacegate.PluginWasm.VmSteps

/-!
# Ids of contexts and tokens of calls

Both come from counters of 32 bits.  The ids of contexts start at 2 and pass 0, so that the
request number `2 ^ 32` of a `Vm` gets the id of the root context.  Tokens pass over 0: a call
gets that of an earlier one if `2 ^ 32 - 1` calls were dispatched since, and the earlier one may
still be pending.
-/

namespace Spacegate.PluginWasm.Vm.FreshIds

open Foundation HostState List

variable (cfg : WasmPluginShellConfig) (exports : Exports)

/-- A `Vm`, with the number of requests that it has begun. -/
structure Counted where
  vm : State
  requests : Nat

namespace Counted

/-- Before a `Vm` is made for the first time. -/
def start : Counted where
  vm := { State.blank with phase := .rebuild }
  requests := 0

def step (c : Counted) (input : Input) : Counted where
  vm := Vm.step cfg exports c.vm input
  requests :=
    match input with
    | .begin _ => if c.vm.phase = .idle then c.requests + 1 else c.requests
    | .rebuild (some _) => if c.vm.phase = .rebuild then 0 else c.requests
    | _ => c.requests

end Counted

/-- The host functions that the guest calls in a run. -/
def made (run : HookRun) : List HostCall :=
  match run.outcome with
  | .refused _ => []
  | _ => run.calls

/-- The calls that a guest makes on an input, the state before them and whether a tick makes
them. -/
def guestCalls (s : State) : Input → State × Bool × List HostCall
  | .run run =>
    match s.phase with
    | .hook _ | .callback _ _ _ => (s, false, made run)
    | _ => (s, false, [])
  | .tick run =>
    if s.phase = .idle ∧ exports.onTick then (s.atRoot, true, made run) else (s, true, [])
  | .rebuild (some calls) => if s.phase = .rebuild then (s.fresh, false, calls) else (s, false, [])
  | _ => (s, false, [])

/-- Something holds when a request begins, and something when a call is dispatched. -/
def AtEach (onBegin : Counted → Prop) (onDispatch : State → Prop) (c : Counted) (input : Input) :
    Prop :=
  (∀ request, input = .begin request → c.vm.phase = .idle → onBegin c) ∧
    Trace.Along (State.perform cfg (guestCalls exports c.vm input).2.1)
      (fun s call => ∀ httpCall, call = .httpCall httpCall → s.host.refuses cfg httpCall = none →
        onDispatch s)
      (guestCalls exports c.vm input).1 (guestCalls exports c.vm input).2.2

/-- New ids and tokens are not in use. -/
def Fresh : Counted → Input → Prop :=
  AtEach cfg exports
    (fun c => c.vm.nextCtxId ≠ rootContextId ∧ c.vm.nextCtxId ∉ c.vm.host.live)
    fun s => s.host.nextToken ∉ s.host.pendingCalls.map Prod.fst

/-- The `Vm` has begun fewer requests and a pending call is followed by fewer calls than there
are ids and tokens. -/
def InRange : Counted → Input → Prop :=
  AtEach cfg exports (fun c => c.requests + 1 < 2 ^ 32)
    fun s => ∀ entry ∈ s.host.pendingCalls, s.nextNumber < entry.2.number + (2 ^ 32 - 1)

variable {cfg exports} {s s' : State} {requests : Nat}

/-! ## Tokens -/

/-- The token of a call is as far behind the next one as its number is behind the next number,
going round at most once. -/
structure Tokens (s : State) : Prop where
  next : 1 ≤ s.host.nextToken ∧ s.host.nextToken < 2 ^ 32
  pending : ∀ entry ∈ s.host.pendingCalls, 1 ≤ entry.1 ∧ entry.1 < 2 ^ 32 ∧
    entry.2.number < s.nextNumber ∧ s.nextNumber ≤ entry.2.number + (2 ^ 32 - 1) ∧
    (s.host.nextToken + entry.2.number = entry.1 + s.nextNumber ∨
      s.host.nextToken + entry.2.number + (2 ^ 32 - 1) = entry.1 + s.nextNumber)

namespace Tokens

variable (h : Tokens s)
include h

theorem fresh_iff : s.host.nextToken ∉ s.host.pendingCalls.map Prod.fst ↔
      ∀ entry ∈ s.host.pendingCalls, s.nextNumber < entry.2.number + (2 ^ 32 - 1) := by
  obtain ⟨hPos, hLt⟩ := h.next
  rw [mem_map, not_exists]
  refine forall_congr' fun entry => ?_
  rw [not_and]
  refine imp_congr_right fun he => ?_
  obtain ⟨hToken, hToken', hNumber, hRound, hNext⟩ := h.pending entry he
  omega

theorem mono (hn : s'.host.nextToken = s.host.nextToken) (hNumber : s'.nextNumber = s.nextNumber)
    (hp : s'.host.pendingCalls ⊆ s.host.pendingCalls) : Tokens s' := by
  constructor
  · rw [hn]
    exact h.next
  · rw [hn, hNumber]
    exact fun entry he => h.pending entry (hp he)

theorem alike (hh : s.host.Alike s'.host) (hNumber : s'.nextNumber = s.nextNumber) : Tokens s' :=
  h.mono hh.nextToken hNumber (by rw [hh.pendingCalls]; exact List.Subset.refl _)

/-- An entry that is as old as the tokens go round gives way to the new one. -/
theorem dispatch (hn : s'.host.nextToken = tokenAfter s.host.nextToken)
    (hNumber : s'.nextNumber = s.nextNumber + 1)
    (hp : ∀ entry ∈ s'.host.pendingCalls, entry ∈ s.host.pendingCalls ∧
      entry.1 ≠ s.host.nextToken ∨ entry.1 = s.host.nextToken ∧ entry.2.number = s.nextNumber) :
    Tokens s' := by
  obtain ⟨hPos, hLt⟩ := h.next
  have hAfter : s.host.nextToken + 1 = 2 ^ 32 ∧ s'.host.nextToken = 1 ∨
      s.host.nextToken + 1 < 2 ^ 32 ∧ s'.host.nextToken = s.host.nextToken + 1 := by
    rw [hn, tokenAfter]
    omega
  refine ⟨by omega, fun entry he => ?_⟩
  rw [hNumber]
  rcases hp entry he with ⟨hOld, hNe⟩ | ⟨hToken, hNew⟩
  · obtain ⟨hToken, hToken', hOlder, hRound, hNext⟩ := h.pending entry hOld
    omega
  · omega

theorem perform (byTick : Bool) (call : HostCall) : Tokens (s.perform cfg byTick call) := by
  cases call with
  | httpCall call =>
    simp only [State.perform]
    split
    next => exact h
    next hr =>
      simp only [HostState.perform, hr]
      refine h.dispatch rfl rfl fun entry he => ?_
      simp only [insertPending, mem_append, mem_filter, decide_eq_true_eq,
        mem_singleton] at he
      exact he.imp_right fun he => by simp [he]
  | _ => exact h.alike (alike_host_perform cfg byTick s (by simp)) rfl

theorem performAll (byTick : Bool) (calls : List HostCall) :
    Tokens (s.performAll cfg byTick calls) :=
  Trace.Along.foldl (V := fun _ _ => True) (Trace.along_of_forall fun _ _ => trivial) h
    fun _ call h _ => h.perform byTick call

omit h

theorem fresh (s : State) : Tokens s.fresh := by
  constructor
  · simp [State.fresh, new]
  · simp [State.fresh, new]

end Tokens

/-! ## The invariant -/

/-- The ids of the requests that were begun. -/
def Given (requests id : Nat) : Prop :=
  ∃ k < requests, id = (2 + k) % 2 ^ 32

structure Inv (s : State) (requests : Nat) : Prop where
  nextCtxId : s.nextCtxId = (2 + requests) % 2 ^ 32
  ctxId : s.phase ≠ .idle → s.phase ≠ .rebuild → Given requests s.ctxId
  live : ∀ id ∈ s.host.live, id = rootContextId ∨ Given requests id
  tokens : Tokens s

namespace Inv

theorem begun (h : Inv s requests) (request : Kernel.Request Unit) :
    Inv (begin request s) (requests + 1) where
  nextCtxId := by
    show (s.nextCtxId + 1) % 2 ^ 32 = _
    rw [h.nextCtxId]
    omega
  ctxId := fun _ _ => ⟨requests, by omega, h.nextCtxId⟩
  live := by
    intro id hi
    refine (h.live id hi).imp_right ?_
    rintro ⟨k, hk, hId⟩
    exact ⟨k, by omega, hId⟩
  tokens := h.tokens.mono rfl rfl (nil_subset _)

theorem renewed (s : State) (calls : List HostCall) : Inv (renew cfg calls s) 0 := by
  have hp := performed_performAll cfg false s.fresh calls
  refine ⟨hp.nextCtxId, fun hi => absurd hp.phase hi, fun id hi => ?_,
    (Tokens.fresh s).performAll false calls⟩
  have hl : id ∈ new.live := hp.live ▸ hi
  rw [live_new] at hl
  exact .inl hl

variable (h : Inv s requests)
include h

/-- The contexts stay as they are. -/
theorem same (hs : SameHead s s') (hl : s'.host.live = s.host.live)
    (hp : s'.phase = s.phase ∨ s'.phase = .idle) (ht : Tokens s') : Inv s' requests where
  nextCtxId := hs.nextCtxId.trans h.nextCtxId
  ctxId := by
    rw [hs.ctxId]
    rcases hp with hp | hp
    · rw [hp]
      exact h.ctxId
    · exact fun hi => absurd hp hi
  live := hl ▸ h.live
  tokens := ht

/-- The request goes on. -/
theorem goOn (hi : s.phase ≠ .idle) (hb : s.phase ≠ .rebuild)
    (hs : SameHead s s') (hl : s'.host.live ⊆ insert s.ctxId s.host.live) (ht : Tokens s') :
    Inv s' requests := by
  have hGiven := h.ctxId hi hb
  refine ⟨hs.nextCtxId.trans h.nextCtxId, fun _ _ => hs.ctxId ▸ hGiven, fun id hId => ?_, ht⟩
  rcases hl hId with rfl | hId
  · exact .inr hGiven
  · exact h.live id hId

theorem settles (hi : s.phase ≠ .idle) (hb : s.phase ≠ .rebuild)
    (hs : Settles s s') : Inv s' requests :=
  h.goOn hi hb hs.toSameHead hs.live (h.tokens.mono hs.nextToken hs.nextNumber
    (by rw [hs.pendingCalls]; exact List.Subset.refl _))

theorem performAll (byTick : Bool) (calls : List HostCall) :
    Inv (s.performAll cfg byTick calls) requests := by
  have hp := performed_performAll cfg byTick s calls
  exact h.same hp.toSameHead hp.live (.inl hp.phase) (h.tokens.performAll byTick calls)

/-- Neither a request nor a `Vm` begins. -/
theorem stepped {input : Input} (hs : Stepped cfg exports s input s')
    (hb : ∀ request, input ≠ .begin request) (hr : ∀ calls, input ≠ .rebuild (some calls)) :
    Inv s' requests := by
  cases hs with
  | ignored => exact h
  | begin request hp => exact absurd rfl (hb request)
  | run hRan =>
    obtain ⟨calls, hs⟩ := hRan.settles
    refine (h.performAll false calls).settles ?_ ?_ hs
    all_goals
      rw [(performed_performAll cfg false s calls).phase]
      cases hRan with
      | hook hp => simp [hp]
      | callback hp => simp [hp]
  | @receive after arrived rest hp hRx =>
    have ha : HostState.Alike { s.host.removePending arrived.token with
        effectiveContext := _ } (s.received arrived) := alike_modifyContext _
    simp only [receive, hRx]
    refine h.goOn (by simp [hp]) (by simp [hp]) ⟨rfl, rfl, rfl, rfl⟩ ?_
      (h.tokens.mono ha.nextToken rfl (ha.pendingCalls ▸ filter_subset_self _))
    rw [live_received]
    exact Set.subset_insert _ _
  | complete answer hc =>
    simp only [complete, hc]
    exact h.same ⟨rfl, rfl, rfl, rfl⟩ rfl (.inl rfl) (h.tokens.alike (.refl _) rfl)
  | entered stage f after hw =>
    have hq : Quiet s { s with host := s.enterStage stage f, phase := .hook (.stream after) } :=
      .of_host (alike_enterStage s stage f) rfl
    refine h.settles ?_ ?_ hq.settles
    all_goals
      intro hp
      simp [hp, Phase.waits] at hw
  | refused hp hBody =>
    refine h.settles ?_ ?_ (quiet_fail _ s).settles
    all_goals rcases hp with hp | hp <;> simp [hp]
  | tick run calls hp =>
    have hRoot : Inv s.atRoot requests :=
      h.same ⟨rfl, rfl, rfl, rfl⟩ rfl (.inl rfl) (h.tokens.alike ⟨rfl, rfl, rfl⟩ rfl)
    exact hRoot.performAll true calls
  | cancel hw => exact h.same ⟨rfl, rfl, rfl, rfl⟩ rfl (.inr rfl) (h.tokens.alike (.refl _) rfl)
  | kept hp => exact h.same ⟨rfl, rfl, rfl, rfl⟩ rfl (.inr rfl) (h.tokens.alike (.refl _) rfl)
  | renewed calls hp => exact absurd rfl (hr calls)

theorem step (input : Input) :
    Inv (Vm.step cfg exports s input) (Counted.step cfg exports ⟨s, requests⟩ input).requests := by
  cases input with
  | begin request =>
    simp only [Vm.step, Counted.step]
    split_ifs
    · exact h.begun request
    · exact h
  | rebuild calls =>
    cases calls with
    | none => exact h.stepped (stepped_step cfg exports s _) (by simp) (by simp)
    | some calls =>
      simp only [Vm.step, Counted.step]
      split_ifs
      · exact renewed s calls
      · exact h
  | _ => exact h.stepped (stepped_step cfg exports s _) (by simp) (by simp)

omit h

end Inv

/-! ## Results -/

theorem inv_start : Inv Counted.start.vm 0 where
  nextCtxId := rfl
  ctxId := fun _ hb => absurd rfl hb
  live := fun id hi => .inl (by rwa [← Set.mem_singleton_iff, ← live_new])
  tokens := (Tokens.fresh State.blank).alike (.refl _) rfl

theorem Inv.idFresh_iff (h : Inv s requests) (hr : requests < 2 ^ 32) :
    (s.nextCtxId ≠ rootContextId ∧ s.nextCtxId ∉ s.host.live) ↔ requests + 1 < 2 ^ 32 := by
  have hn := h.nextCtxId
  unfold rootContextId
  constructor
  · rintro ⟨hRoot, -⟩
    omega
  · intro hLt
    refine ⟨by omega, fun hi => ?_⟩
    rcases h.live _ hi with hi | ⟨k, hk, hi⟩
    · unfold rootContextId at hi
      omega
    · omega

theorem Tokens.guestCalls (h : Tokens s) (input : Input) :
    Tokens (guestCalls exports s input).1 := by
  cases input with
  | run run =>
    simp only [FreshIds.guestCalls]
    split <;> exact h
  | tick run =>
    simp only [FreshIds.guestCalls]
    split_ifs
    · exact h.alike ⟨rfl, rfl, rfl⟩ rfl
    · exact h
  | rebuild calls =>
    cases calls with
    | none => exact h
    | some calls =>
      simp only [FreshIds.guestCalls]
      split_ifs
      · exact .fresh s
      · exact h
  | _ => exact h

theorem Inv.fresh_iff (h : Inv s requests) (hr : requests < 2 ^ 32) (input : Input) :
    Fresh cfg exports ⟨s, requests⟩ input ↔ InRange cfg exports ⟨s, requests⟩ input := by
  refine and_congr ?_ ?_
  · exact forall_congr' fun _ => imp_congr_right fun _ => imp_congr_right fun _ => h.idFresh_iff hr
  · refine Trace.along_iff_of_inv (V := fun _ _ => True) Tokens ?_ ?_ (h.tokens.guestCalls input)
      (Trace.along_of_forall fun _ _ => trivial)
    · exact fun s call ht _ => ht.perform _ call
    · exact fun s call ht _ => forall_congr' fun _ => imp_congr_right fun _ =>
        imp_congr_right fun _ => ht.fresh_iff

theorem requests_step_lt {c : Counted} {input : Input} (hr : c.requests < 2 ^ 32)
    (hi : InRange cfg exports c input) : (c.step cfg exports input).requests < 2 ^ 32 := by
  cases input with
  | begin request =>
    simp only [Counted.step]
    split_ifs with hp
    · exact hi.1 request rfl hp
    · exact hr
  | rebuild calls =>
    cases calls with
    | none => exact hr
    | some calls =>
      simp only [Counted.step]
      split_ifs
      · decide
      · exact hr
  | _ => exact hr

variable (cfg : WasmPluginShellConfig)

/-- Ids and tokens are fresh exactly as long as the counters have not gone round. -/
theorem fresh_iff_inRange (exports : Exports) (inputs : List Input) :
    Trace.Along (Counted.step cfg exports) (Fresh cfg exports) .start inputs ↔
      Trace.Along (Counted.step cfg exports) (InRange cfg exports) .start inputs := by
  refine Trace.along_congr (fun c => Inv c.vm c.requests ∧ c.requests < 2 ^ 32) ?_ ?_
    ⟨inv_start, by decide⟩
  · exact fun c input h hi => ⟨h.1.step input, requests_step_lt h.2 hi⟩
  · exact fun c input h => h.1.fresh_iff h.2 input

/-! ## A long run -/

/-- A request that a guest without optional hooks lets pass. -/
def passing : List Input :=
  [.begin plainRequest, .run (returns 0), .run (returns 0), .respond 200 [], .run (returns 0)]

theorem passing_run (hp : s.phase = .idle) (hc : s.host.contexts s.nextCtxId = none) :
    (passing.foldl (Vm.step cfg fewHooks) s).phase = .idle ∧
      (passing.foldl (Vm.step cfg fewHooks) s).nextCtxId = (s.nextCtxId + 1) % 2 ^ 32 ∧
      (passing.foldl (Vm.step cfg fewHooks) s).host.contexts = s.host.contexts := by
  simp [passing, Vm.step, hp, begin, runHook, returns, State.returned, State.called,
    State.performAll, Vm.afterHook, Action.fromU32, Vm.leave, Vm.unlessAnswered,
    State.localResponse, setContext, State.createdContext, hc, leaveRequestHeaders, fewHooks,
    Vm.leaveRequestBody, forward, responded, State.enterStage, leaveResponseHeaders,
    Vm.leaveResponseBody, Vm.invokeLogDoneDelete, modifyContext, Vm.enterDone, Vm.enterDelete,
    Vm.finish, exit, removeContext, RequestContext.empty]

/-- A new `Vm` and some requests. -/
def passingAll (count : Nat) : List Input :=
  .rebuild (some []) :: (replicate count passing).flatten

theorem passingAll_run (count : Nat) (h : count < 2 ^ 32) :
    ((passingAll count).foldl (Vm.step cfg fewHooks) Counted.start.vm).phase = .idle ∧
      ((passingAll count).foldl (Vm.step cfg fewHooks) Counted.start.vm).nextCtxId =
        (2 + count) % 2 ^ 32 ∧
      ((passingAll count).foldl (Vm.step cfg fewHooks) Counted.start.vm).host.contexts =
        new.contexts := by
  induction count with
  | zero => exact ⟨rfl, rfl, rfl⟩
  | succ count ih =>
    obtain ⟨hp, hn, hc⟩ := ih (by omega)
    have hSucc : passingAll (count + 1) = passingAll count ++ passing := by
      simp [passingAll, replicate_succ']
    have hRoot : (2 + count) % 2 ^ 32 ≠ rootContextId := by
      unfold rootContextId
      omega
    have hNone : new.contexts ((2 + count) % 2 ^ 32) = none := by
      have hNot : (2 + count) % 2 ^ 32 ∉ new.live := by
        rw [live_new]
        exact hRoot
      simpa [live] using hNot
    obtain ⟨hp', hn', hc'⟩ := passing_run cfg hp (by rw [hc, hn, hNone])
    rw [hSucc, foldl_append, hp', hn', hc', hn, hc]
    exact ⟨rfl, by omega, rfl⟩

variable {cfg}

theorem vm_foldl (inputs : List Input) (c : Counted) :
    (inputs.foldl (Counted.step cfg exports) c).vm = inputs.foldl (Vm.step cfg exports) c.vm := by
  induction inputs generalizing c with
  | nil => rfl
  | cons input inputs ih => exact ih (c.step cfg exports input)

/-- Request number `2 ^ 32` gets the id of the root context. -/
theorem passingAll_not_fresh :
    ¬ Trace.Along (Counted.step (limitedTo 2) fewHooks) (Fresh (limitedTo 2) fewHooks) .start
      (passingAll (2 ^ 32 - 1) ++ [.begin plainRequest]) := by
  intro h
  obtain ⟨hBegin, -⟩ := (Trace.along_append.mp h).2.1
  obtain ⟨hp, hn, -⟩ := passingAll_run (limitedTo 2) (2 ^ 32 - 1) (by decide)
  rw [← vm_foldl] at hp hn
  exact (hBegin plainRequest rfl hp).1 hn

end Spacegate.PluginWasm.Vm.FreshIds
