import Spacegate.AiGateway.QueueLease

/-!
# The bodies of stored results

A response of the upstream is accepted with its status; its body is read after that and may
break off.  `process_job` then goes on with an empty body, so that a result is stored as
completed whose body is not that of the response.
-/

namespace Spacegate.AiGateway.Queue

open Foundation Trace

/-- The body of a response, where all of it was read. -/
def Upstream.wholeBody : Upstream → Option (List UInt8)
  | .failed _ => none
  | .responded _ _ body => body

/-- The body of the response broke off. -/
def Upstream.BreaksOff : Upstream → Prop
  | .responded _ _ none => True
  | _ => False

/-- The queue, and what the upstream did when a call asked it last. -/
structure Asked (ι : Type) where
  state : State ι
  upstream : ι → Option Upstream

variable {ι : Type}

def Asked.init : Asked ι where
  state := .init
  upstream := fun _ => none

/-- The call that writes a result, and the result. -/
def writes (s : State ι) : Action ι → Option (ι × StoredResult)
  | .operate i input =>
    match s.calls i with
    | .working _ _ (.setResult result) =>
      if input.outcome = .failed then none else some (i, result)
    | _ => none
  | _ => none

variable (a : Asked ι)

/-- A result that is written as completed has the whole body of the response. -/
def WritesWhole (action : Action ι) : Prop :=
  ∀ i result, writes a.state action = some (i, result) → result.status = "completed" →
    ∃ upstream, a.upstream i = some upstream ∧ upstream.wholeBody = some result.body

/-- The body of a response of which a result is written did not break off. -/
def ReadWhole (action : Action ι) : Prop :=
  ∀ i result, writes a.state action = some (i, result) →
    ∀ upstream, a.upstream i = some upstream → ¬ upstream.BreaksOff

variable [DecidableEq ι]

def ask (cfg : Config) (a : Asked ι) (action : Action ι) : Asked ι where
  state := step cfg a.state action
  upstream := fun j =>
    match a.state.calls j, action with
    | .working _ _ .callUpstream, .operate i input =>
      if i = j then some input.upstream else a.upstream j
    | _, _ => a.upstream j

/-- A result that is to be written was made of what the upstream did last. -/
def Made : Prop :=
  ∀ i copy leasedAt result, a.state.calls i = .working copy leasedAt (.setResult result) →
    ∃ clock upstream, a.upstream i = some upstream ∧ result = storedResult copy.jobId clock upstream

variable {cfg : Config} {a : Asked ι}

omit [DecidableEq ι] in
theorem made_init : Made (Asked.init : Asked ι) := by
  intro i copy leasedAt result hc
  cases hc

variable {result : StoredResult}

theorem upstream_ask_of_setResult {action : Action ι} {i : ι} {copy : Copy} {leasedAt : Nat}
    (hc : a.state.calls i = .working copy leasedAt (.setResult result)) :
    (ask cfg a action).upstream i = a.upstream i := by
  simp [ask, hc]

omit [DecidableEq ι] in
/-- A call is to write a result after it has asked the upstream, and then only. -/
theorem nextPhase_eq_setResult {copy : Copy} {input : Input} {r : Redis ι} {phase : Phase}
    (h : nextPhase cfg copy input r phase = .setResult result) :
    phase = .callUpstream ∧ result = storedResult copy.jobId input.clock input.upstream := by
  unfold nextPhase at h
  cases phase <;> simp only [proceed, recover] at h <;> split_ifs at h <;> cases h <;>
    exact ⟨rfl, rfl⟩

theorem Made.ask (h : Made a) (action : Action ι) : Made (ask cfg a action) := by
  intro j copy' leasedAt' result hc'
  change (step cfg a.state action).calls j = _ at hc'
  have hKept : a.state.calls j = .working copy' leasedAt' (.setResult result) →
      ∃ clock upstream, (Queue.ask cfg a action).upstream j = some upstream ∧
        result = storedResult copy'.jobId clock upstream := by
    intro hb
    rw [upstream_ask_of_setResult hb]
    exact h j copy' leasedAt' result hb
  rcases step_cases cfg a.state action with hq | ⟨ms, rfl⟩ | ⟨stream, fields, rfl⟩ |
    ⟨i, input, copy, leasedAt, phase, rfl, hc, hs⟩
  · rcases hq.working hc' with hb | ⟨hb, -⟩
    · exact hKept hb
    · cases (begin_eq_working hb).2
  · exact hKept hc'
  · exact hKept hc'
  · rw [hs] at hc'
    rcases calls_operate_cases _ _ _ _ _ _ hc' with ⟨rfl, rfl, -, hn⟩ | ⟨hj, hb⟩
    · obtain ⟨rfl, rfl⟩ := nextPhase_eq_setResult hn.symm
      refine ⟨input.clock, input.upstream, ?_, rfl⟩
      simp [Queue.ask, hc]
    · exact hKept hb

omit [DecidableEq ι] in
theorem writes_eq_some {s : State ι} {action : Action ι} {i : ι}
    (h : writes s action = some (i, result)) :
    ∃ copy leasedAt, s.calls i = .working copy leasedAt (.setResult result) := by
  cases action with
  | operate j input =>
    simp only [writes] at h
    split at h
    next copy leasedAt result' hc =>
      split_ifs at h
      cases h
      exact ⟨copy, leasedAt, hc⟩
    next => cases h
  | _ => cases h

omit [DecidableEq ι] in
theorem Made.writesWhole_iff (h : Made a) (action : Action ι) :
    WritesWhole a action ↔ ReadWhole a action := by
  refine forall_congr' fun i => forall_congr' fun result => forall_congr' fun hw => ?_
  obtain ⟨copy, leasedAt, hc⟩ := writes_eq_some hw
  obtain ⟨clock, upstream, hu, rfl⟩ := h i copy leasedAt result hc
  rcases upstream with error | ⟨status, headers, _ | body⟩ <;>
    simp [hu, storedResult, Upstream.wholeBody, Upstream.BreaksOff]

/-- Every result that is written as completed has the whole body of the response exactly if no
result is written of a response whose body broke off. -/
theorem writesWhole_iff_readWhole (cfg : Config) (actions : List (Action ι)) :
    Along (ask cfg) WritesWhole Asked.init actions ↔
      Along (ask cfg) ReadWhole Asked.init actions :=
  along_iff_of_inv Made (fun _ action h _ => h.ask action)
    (fun _ action h _ => h.writesWhole_iff action) made_init (along_of_forall fun _ _ => trivial)

/-- The upstream responds, and the body breaks off. -/
def brokenOff : List (Action (Fin 1)) :=
  [.add "jobs" [("job_id", .text "j1")], .read 0 "jobs"] ++ operations 0 4 ++
    [.operate 0 { ending .done with upstream := .responded 200 [] none }, .operate 0 (ending .done)]

theorem brokenOff_not_whole : ¬ Along (ask twoMinutes) WritesWhole Asked.init brokenOff := by
  intro h
  rw [brokenOff, along_append, along_append] at h
  obtain ⟨-, -, hw, -⟩ := h
  obtain ⟨upstream, hu, hb⟩ := hw 0 _ rfl rfl
  cases hu
  cases hb

end Spacegate.AiGateway.Queue
