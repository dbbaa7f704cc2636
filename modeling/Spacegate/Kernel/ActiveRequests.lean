import Mathlib.Data.Int.Cast.Lemmas
import Spacegate.Foundation.Trace
import Spacegate.Kernel.Http

/-!
# The gauge of active requests

`HyperServiceAdapter::call` raises the gauge `http.server.active_requests` at once and returns a
future.  The future waits for the inner service and lowers the gauge after it, at the very end.
The server may drop a future before that: when the client goes away, or when the server stops.

A future waits at one point only, for the inner service; what follows the answer is done without
a further wait.
-/

namespace Spacegate.Kernel

open Foundation List

/-- `http_protocol_version`. -/
def httpProtocolVersion : Version → String
  | .http10 => "1.0"
  | .http11 => "1.1"
  | .http2 => "2"
  | .http3 => "3"
  | _ => "unknown"

/-- `HttpMetricLabels`, as far as they are attributes of the gauge. -/
structure HttpMetricLabels where
  gateway : String
  method : String
  protocolName : String
  protocolVersion : String
  deriving DecidableEq, Repr

/-- The labels are made once, and both changes of the gauge use them. -/
def activeRequestLabels {ext : Type} (gatewayName : String) (req : Request ext) :
    HttpMetricLabels where
  gateway := gatewayName
  method := req.method
  protocolName := "http"
  protocolVersion := httpProtocolVersion req.version

namespace ActiveRequests

/-- The future of a call. -/
inductive Phase (R : Type) where
  | created
  | awaiting
  | answered (resp : R)
  | dropped

/-- A call, with the changes of the gauge that it has made, the latest first. -/
structure Call (R : Type) where
  labels : HttpMetricLabels
  phase : Phase R
  deltas : List Int

/-- The calls so far in the order of their arrival, and the gauge. -/
structure State (R : Type) where
  calls : List (Call R)
  gauge : HttpMetricLabels → Int

inductive Event (ext R : Type) where
  /-- `HyperServiceAdapter::call`. -/
  | call (gatewayName : String) (req : Request ext)
  /-- The future is polled; the inner service may be ready. -/
  | poll (i : ℕ) (answer : Option R)
  /-- The future is dropped. -/
  | drop (i : ℕ)

variable {ext R : Type}

/-- The request is being handled. -/
def Call.isActive (call : Call R) : Bool :=
  match call.phase with
  | .created | .awaiting => true
  | .answered _ | .dropped => false

/-- `record_http_server_active_request`. -/
def recordHttpServerActiveRequest (labels : HttpMetricLabels) (delta : Int)
    (gauge : HttpMetricLabels → Int) : HttpMetricLabels → Int :=
  Function.update gauge labels (gauge labels + delta)

theorem recordHttpServerActiveRequest_apply (labels labels' : HttpMetricLabels) (delta : Int)
    (gauge : HttpMetricLabels → Int) : recordHttpServerActiveRequest labels delta gauge labels' =
      gauge labels' + if labels = labels' then delta else 0 := by
  by_cases hl : labels = labels'
  · subst hl
    rw [recordHttpServerActiveRequest, Function.update_self, if_pos rfl]
  · rw [recordHttpServerActiveRequest, Function.update_of_ne (Ne.symm hl), if_neg hl, add_zero]

def State.init : State R where
  calls := []
  gauge := fun _ => 0

def State.enter (s : State R) (labels : HttpMetricLabels) : State R where
  calls := s.calls ++ [⟨labels, .created, [1]⟩]
  gauge := recordHttpServerActiveRequest labels 1 s.gauge

/-- One poll of the future of an active call. -/
def State.poll (s : State R) (i : ℕ) (call : Call R) : Option R → State R
  | none => { s with calls := s.calls.set i { call with phase := .awaiting } }
  | some resp =>
    { calls := s.calls.set i { call with phase := .answered resp, deltas := -1 :: call.deltas }
      gauge := recordHttpServerActiveRequest call.labels (-1) s.gauge }

/-- The call is active. -/
def State.active (s : State R) (i : ℕ) : Option (Call R) :=
  s.calls[i]?.filter Call.isActive

def step (s : State R) : Event ext R → State R
  | .call gatewayName req => s.enter (activeRequestLabels gatewayName req)
  | .poll i answer =>
    match s.active i with
    | some call => s.poll i call answer
    | none => s
  | .drop i =>
    match s.active i with
    -- the future has nothing that would be done when it is dropped
    | some call => { s with calls := s.calls.set i { call with phase := .dropped } }
    | none => s

def run (events : List (Event ext R)) : State R :=
  events.foldl step .init

/-! ## The balance -/

/-- How many requests with these labels are being handled. -/
def State.activeCount (s : State R) (labels : HttpMetricLabels) : ℕ :=
  s.calls.countP fun call => call.isActive && call.labels == labels

/-- Every request has raised the gauge once, and has lowered it once if it is no longer being
handled; the gauge is the number of requests that are being handled. -/
structure Balanced (s : State R) : Prop where
  deltas : ∀ call ∈ s.calls, call.deltas = if call.isActive then [1] else [-1, 1]
  gauge : ∀ labels, s.gauge labels = s.activeCount labels

/-- No request is dropped while it is being handled. -/
def NotDropped (s : State R) : Event ext R → Prop
  | .drop i => s.active i = none
  | _ => True

variable {s : State R}

theorem Balanced.gauge_eq_zero (h : Balanced s)
    (hn : ∀ call ∈ s.calls, call.isActive = false) (labels : HttpMetricLabels) :
    s.gauge labels = 0 := by
  have hc : s.activeCount labels = 0 := by
    apply countP_eq_zero.mpr
    intro call hCall
    simp [hn call hCall]
  rw [h.gauge, hc, Nat.cast_zero]

/-! ## Steps -/

variable {i : ℕ} {call : Call R}

theorem getElem?_of_active (h : s.active i = some call) :
    s.calls[i]? = some call ∧ call.isActive = true := by
  simpa [State.active, Option.filter_eq_some_iff] using h

/-- The gauge still counts the call. -/
def Call.isCounted (call : Call R) : Bool :=
  match call.phase with
  | .answered _ => false
  | .created | .awaiting | .dropped => true

def State.count (s : State R) (labels : HttpMetricLabels) : ℕ :=
  s.calls.countP fun call => call.isCounted && call.labels == labels

/-- What holds in every state: the gauge counts the requests that are being handled and those
that were dropped. -/
structure Accounted (s : State R) : Prop where
  deltas : ∀ call ∈ s.calls, call.deltas = if call.isCounted then [1] else [-1, 1]
  gauge : ∀ labels, s.gauge labels = s.count labels

theorem accounted_init : Accounted (.init : State R) :=
  ⟨fun _ hc => absurd hc not_mem_nil, fun _ => rfl⟩

theorem Accounted.enter (h : Accounted s) (labels : HttpMetricLabels) :
    Accounted (s.enter labels) := by
  constructor
  · intro call hCall
    rcases mem_append.mp hCall with hOld | hNew
    · exact h.deltas call hOld
    · rw [mem_singleton.mp hNew]
      rfl
  · intro labels'
    have hc : (s.enter labels).count labels' =
        s.count labels' + if labels = labels' then 1 else 0 := by
      simp [State.enter, State.count, Call.isCounted, countP_append, countP_singleton]
    show recordHttpServerActiveRequest labels 1 s.gauge labels' = _
    rw [recordHttpServerActiveRequest_apply, h.gauge, hc]
    split_ifs <;> simp

theorem count_set {call call' : Call R} (h : s.calls[i]? = some call)
    (gauge : HttpMetricLabels → Int) (labels : HttpMetricLabels) :
    State.count ⟨s.calls.set i call', gauge⟩ labels +
        (if (call.isCounted && call.labels == labels) = true then 1 else 0) =
      s.count labels + (if (call'.isCounted && call'.labels == labels) = true then 1 else 0) := by
  obtain ⟨hl, rfl⟩ := List.getElem?_eq_some_iff.mp h
  simp only [State.count]
  rw [List.countP_set hl]
  by_cases hOld : (s.calls[i].isCounted && s.calls[i].labels == labels) = true
  · have hPos : 0 < s.calls.countP fun call => call.isCounted && call.labels == labels :=
      countP_pos_iff.mpr ⟨s.calls[i], getElem_mem hl, hOld⟩
    rw [if_pos hOld]
    omega
  · rw [if_neg hOld]
    omega

theorem Accounted.set (h : Accounted s) {call call' : Call R}
    (hCall : s.calls[i]? = some call) (hl : call'.labels = call.labels)
    (hd : call'.deltas = call.deltas) (hc : call'.isCounted = call.isCounted) :
    Accounted { s with calls := s.calls.set i call' } := by
  constructor
  · intro other ho
    rcases mem_or_eq_of_mem_set ho with hOld | rfl
    · exact h.deltas other hOld
    · rw [hd, hc]
      exact h.deltas call (mem_of_getElem? hCall)
  · intro labels
    have hCount := @count_set R s i call call' hCall s.gauge labels
    rw [hl, hc] at hCount
    rw [h.gauge, Nat.add_right_cancel hCount]

theorem Accounted.answer (h : Accounted s)
    (hCall : s.calls[i]? = some call) (hc : call.isCounted = true) (resp : R) :
    Accounted (s.poll i call (some resp)) := by
  have hd : call.deltas = [1] := by
    rw [h.deltas call (mem_of_getElem? hCall), if_pos hc]
  constructor
  · intro other ho
    rcases mem_or_eq_of_mem_set ho with hOld | rfl
    · exact h.deltas other hOld
    · simp [Call.isCounted, hd]
  · intro labels
    have hCount : (s.poll i call (some resp)).count labels +
        (if call.labels = labels then 1 else 0) = s.count labels := by
      have hSet := @count_set R s i call
        { call with phase := .answered resp, deltas := -1 :: call.deltas } hCall
        (s.poll i call (some resp)).gauge labels
      rw [hc, Bool.true_and] at hSet
      simp only [Call.isCounted, Bool.false_and, Bool.false_eq_true, if_false, add_zero,
        beq_iff_eq] at hSet
      exact hSet
    show recordHttpServerActiveRequest call.labels (-1) s.gauge labels = _
    rw [recordHttpServerActiveRequest_apply, h.gauge, ← hCount]
    split_ifs <;> simp

theorem isCounted_of_isActive (h : call.isActive = true) : call.isCounted = true := by
  obtain ⟨labels, phase, deltas⟩ := call
  cases phase with
  | created => rfl
  | awaiting => rfl
  | answered resp => cases h
  | dropped => cases h

theorem Accounted.step (h : Accounted s) (event : Event ext R) : Accounted (step s event) := by
  cases event with
  | call gatewayName req => exact h.enter _
  | poll i answer =>
    rw [ActiveRequests.step]
    cases ha : s.active i with
    | none => exact h
    | some call =>
      obtain ⟨hc, hia⟩ := getElem?_of_active ha
      cases answer with
      | none => exact h.set hc rfl rfl (isCounted_of_isActive hia).symm
      | some resp => exact h.answer hc (isCounted_of_isActive hia) resp
  | drop i =>
    rw [ActiveRequests.step]
    cases ha : s.active i with
    | none => exact h
    | some call =>
      obtain ⟨hc, hia⟩ := getElem?_of_active ha
      exact h.set hc rfl rfl (isCounted_of_isActive hia).symm

/-! ## Dropped requests -/

def NoneDropped (s : State R) : Prop :=
  ∀ call ∈ s.calls, call.isActive = call.isCounted

theorem Accounted.balanced (h : Accounted s) (hn : NoneDropped s) : Balanced s := by
  constructor
  · intro call hc
    rw [h.deltas call hc, hn call hc]
  · intro labels
    rw [h.gauge, State.count, State.activeCount]
    congr 1
    apply countP_congr
    intro call hc
    rw [hn call hc]

theorem Accounted.noneDropped (h : Accounted s) (hb : Balanced s) : NoneDropped s := by
  intro call hCall
  have hd := (h.deltas call hCall).symm.trans (hb.deltas call hCall)
  cases ha : call.isActive <;> cases hc : call.isCounted <;> simp [ha, hc] at hd ⊢

theorem NoneDropped.set (h : NoneDropped s) {call' : Call R}
    (hc : call'.isActive = call'.isCounted) (i : ℕ) (gauge : HttpMetricLabels → Int) :
    NoneDropped ⟨s.calls.set i call', gauge⟩ := by
  intro call hMem
  rcases mem_or_eq_of_mem_set hMem with hOld | rfl
  · exact h call hOld
  · exact hc

theorem NoneDropped.step (h : NoneDropped s) {event : Event ext R}
    (he : NotDropped s event) : NoneDropped (step s event) := by
  cases event with
  | call gatewayName req =>
    intro call hc
    rcases mem_append.mp hc with hOld | hNew
    · exact h call hOld
    · rw [mem_singleton.mp hNew]
      rfl
  | poll i answer =>
    rw [ActiveRequests.step]
    cases s.active i with
    | none => exact h
    | some call =>
      cases answer with
      | none => exact h.set rfl i s.gauge
      | some resp => exact h.set rfl i _
  | drop i =>
    rw [ActiveRequests.step, he]
    exact h

theorem notDropped_of_noneDropped {event : Event ext R}
    (h : NoneDropped (step s event)) : NotDropped s event := by
  cases event with
  | call gatewayName req => trivial
  | poll i answer => trivial
  | drop i =>
    rw [NotDropped]
    cases ha : s.active i with
    | none => rfl
    | some call =>
      obtain ⟨hc, -⟩ := getElem?_of_active ha
      obtain ⟨hl, -⟩ := List.getElem?_eq_some_iff.mp hc
      rw [ActiveRequests.step, ha] at h
      have hLost := h { call with phase := .dropped } (List.mem_set hl _)
      cases hLost

/-- **Active requests.**  For every sequence of calls, polls and drops, the gauge is balanced in
every state that is reached exactly if no request is dropped while it is being handled. -/
theorem balanced_iff_notDropped (events : List (Event ext R)) :
    (∀ earlier later, events = earlier ++ later → Balanced (run earlier)) ↔
      Trace.Along step NotDropped .init events := by
  have hg : ∀ s : State R, Accounted s ∧ NoneDropped s → Balanced s := fun s h => h.1.balanced h.2
  refine Trace.reached_iff_along hg ?_ ?_ ⟨accounted_init, ?_⟩
  · intro s event h he
    exact ⟨h.1.step event, h.2.step he⟩
  · intro s event h hb
    exact notDropped_of_noneDropped ((h.1.step event).noneDropped hb)
  · intro call hc
    cases hc

def getRequest : Request Unit where
  method := "GET"
  uri := .origin ⟨"/", by decide⟩
  version := .http11
  headers := []
  extensions := ()

/-- The client goes away while the inner service is at work: no request is being handled, and
the gauge stays at one. -/
theorem dropped_not_balanced :
    let s : State Unit := run [.call "edge" getRequest, .poll 0 none, .drop 0]
    (∀ call ∈ s.calls, call.isActive = false) ∧
      s.gauge (activeRequestLabels "edge" getRequest) = 1 ∧ ¬ Balanced s := by
  intro s
  have hn : ∀ call ∈ s.calls, call.isActive = false := forall_iff_forall_mem.mp (by decide)
  have hg : s.gauge (activeRequestLabels "edge" getRequest) = 1 := by decide
  refine ⟨hn, hg, ?_⟩
  intro hb
  have hz := hb.gauge_eq_zero hn (activeRequestLabels "edge" getRequest)
  rw [hg] at hz
  exact absurd hz (by decide)

end ActiveRequests
end Spacegate.Kernel
