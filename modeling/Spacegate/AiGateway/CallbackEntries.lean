import Spacegate.AiGateway.CallbackKept
import Spacegate.Foundation.Trace

/-!
# How many entries a callback takes

Every attempt to deliver a callback is to take one entry of the retry stream.  An entry that is
not due is added once more each time it is read, and an entry that is delivered again after its
successor was added gets another one.  Where neither happens, the attempts of the entries of a
callback are all different (`withinMaximum_of_once`).
-/

namespace Spacegate.AiGateway.CallbackRetry

open Foundation List Subset Nat
open Queue (Fields trimmed)

variable {V ι : Type} [DecidableEq ι]

/-- All entries that were added so far, and those among them that were added because another one
was not due. -/
structure Added (V ι : Type) where
  state : State V ι
  entries : List Entry
  waiting : List Entry

def Added.init : Added V ι where
  state := .init
  entries := []
  waiting := []

/-- A call adds an entry that is not due once more. -/
def waits (s : State V ι) : Action V ι → Bool
  | .operate i _ =>
    match s.calls i with
    | .working _ .addAgain => true
    | _ => false
  | _ => false

/-- The entries that an action adds. -/
def addedBy (s s' : State V ι) : List Entry :=
  s'.redis.retries.filter (s.redis.nextId ≤ ·.id)

variable (cfg : Config)

def count (json : Json V) (g : Added V ι) (action : Action V ι) : Added V ι where
  state := step cfg json g.state action
  entries := g.entries ++ addedBy g.state (step cfg json g.state action)
  waiting := g.waiting ++
    if waits g.state action then addedBy g.state (step cfg json g.state action) else []

structure WithinMaximum (cfg : Config) (g : Added V ι) : Prop where
  entries : ∀ origin,
    (g.entries.filter (·.origin = origin)).length ≤ cfg.callbackMaxRetryAttempts
  waiting : g.waiting = []

/-- There is an attempt for a callback, a call begins with an entry only when it is due, and no
entry gets a second successor. -/
def Once (g : Added V ι) : Action V ι → Prop
  | .enqueue _ _ _ => 1 ≤ cfg.callbackMaxRetryAttempts
  | .trim _ => True
  | .read i now => g.state.calls i = .idle →
    ∀ e ∈ g.state.redis.retries.find? (g.state.redis.lastDelivered < ·.id), e.nextAttemptAtMs ≤ now
  | .claim i id now => g.state.calls i = .idle → id ∈ g.state.redis.pending →
    ∀ e ∈ g.state.redis.retries.find? (·.id == id), e.nextAttemptAtMs ≤ now
  | .operate i input => ∀ e now message, g.state.calls i = .working e (.addNext now message) →
    input.outcome ≠ .failed → ∀ e' ∈ g.entries, e'.previous ≠ some e.id

/-- What a call comes to that has begun with an entry when it was due. -/
def Phase.Allowed (e : Entry) : Phase → Prop
  | .addAgain => False
  | .addNext _ _ => e.attempt < cfg.callbackMaxRetryAttempts
  | _ => True

/-! ## Chains of attempts -/

/-- The attempts of a callback are different, and each follows an earlier one. -/
structure Chained (cfg : Config) (g : Added V ι) : Prop where
  known : g.state.redis.retries ⊆ g.entries
  fresh : ∀ e ∈ g.entries, e.origin ≤ e.id ∧ e.id < g.state.redis.nextId
  attempts : ∀ e ∈ g.entries, 1 ≤ e.attempt ∧ e.attempt ≤ cfg.callbackMaxRetryAttempts
  follows : ∀ e ∈ g.entries, e.attempt ≠ 1 →
    ∃ p ∈ g.entries, e.previous = some p.id ∧ p.origin = e.origin ∧ e.attempt = p.attempt + 1
  nodup : (g.entries.map fun e => (e.origin, e.attempt)).Nodup
  calls : ∀ i e phase, g.state.calls i = .working e phase → e ∈ g.entries ∧ phase.Allowed cfg e
  waiting : g.waiting = []

variable {cfg : Config} {json : Json V} {g : Added V ι} {s : State V ι} {e : Entry}

omit [DecidableEq ι] in
theorem chained_init : Chained cfg (.init : Added V ι) := by
  refine ⟨refl _, ?_, ?_, ?_, nodup_nil, ?_, rfl⟩
  · simp [Added.init]
  · simp [Added.init]
  · simp [Added.init]
  · intro i e phase h
    cases h

omit [DecidableEq ι] in
/-- As many entries as there are attempts. -/
theorem Chained.withinMaximum (h : Chained cfg g) : WithinMaximum cfg g := by
  refine ⟨fun origin => ?_, h.waiting⟩
  have hNodup : ((g.entries.filter (·.origin = origin)).map Entry.attempt).Nodup := by
    refine (h.nodup.of_map.filter _).map_on fun e he e' he' hEq => ?_
    obtain ⟨hMem, ho⟩ := mem_filter.mp he
    obtain ⟨hMem', ho'⟩ := mem_filter.mp he'
    refine inj_on_of_nodup_map h.nodup hMem hMem' ?_
    rw [of_decide_eq_true ho, of_decide_eq_true ho', hEq]
  have hSubset : (g.entries.filter (·.origin = origin)).map Entry.attempt ⊆
      range' 1 cfg.callbackMaxRetryAttempts := by
    intro attempt ha
    obtain ⟨e, he, rfl⟩ := mem_map.mp ha
    have ha := h.attempts e (mem_of_mem_filter he)
    rw [mem_range'_1]
    omega
  have hLength := (hNodup.subperm hSubset).length_le
  rwa [length_map, length_range'] at hLength

/-! ## One action -/

/-- What is to hold of the calls after an action. -/
def CallsKnown (cfg : Config) (g : Added V ι) (calls : ι → Call) : Prop :=
  ∀ i e phase, calls i = .working e phase → e ∈ g.entries ∧ phase.Allowed cfg e

variable {phase : Phase}

theorem CallsKnown.update (h : CallsKnown cfg g g.state.calls) (he : e ∈ g.entries)
    (hp : phase.Allowed cfg e) (i : ι) :
    CallsKnown cfg g (Function.update g.state.calls i (.working e phase)) := by
  intro j e' phase' hc
  by_cases hj : j = i
  · subst hj
    rw [Function.update_self] at hc
    cases hc
    exact ⟨he, hp⟩
  · rw [Function.update_of_ne hj] at hc
    exact h j e' phase' hc

variable {action : Action V ι}

theorem Chained.quiet (h : Chained cfg g)
    (hr : (step cfg json g.state action).redis.retries ⊆ g.state.redis.retries)
    (hn : (step cfg json g.state action).redis.nextId = g.state.redis.nextId)
    (hc : CallsKnown cfg g (step cfg json g.state action).calls) :
    Chained cfg (count cfg json g action) := by
  have hNone : addedBy g.state (step cfg json g.state action) = [] := by
    refine filter_eq_nil_iff.mpr fun e he => ?_
    have hId := (h.fresh e (h.known (hr he))).2
    simpa using hId
  have hEq : count cfg json g action =
      { state := step cfg json g.state action, entries := g.entries, waiting := g.waiting } := by
    simp [count, hNone]
  rw [hEq]
  refine ⟨fun e he => h.known (hr he), fun e he => ?_, h.attempts, h.follows, h.nodup, hc,
    h.waiting⟩
  rw [hn]
  exact h.fresh e he

/-- An entry for an attempt that the callback has not had is added. -/
theorem Chained.add (h : Chained cfg g) (new : Entry)
    (hw : waits g.state action = false) (hId : new.id = g.state.redis.nextId)
    (hr : (step cfg json g.state action).redis.retries = g.state.redis.retries ++ [new])
    (hn : (step cfg json g.state action).redis.nextId = g.state.redis.nextId + 1)
    (hc : CallsKnown cfg g (step cfg json g.state action).calls) (ho : new.origin ≤ new.id)
    (ha : 1 ≤ new.attempt ∧ new.attempt ≤ cfg.callbackMaxRetryAttempts)
    (hf : new.attempt ≠ 1 → ∃ p ∈ g.entries, new.previous = some p.id ∧ p.origin = new.origin ∧
      new.attempt = p.attempt + 1)
    (hNew : ∀ e ∈ g.entries, e.origin = new.origin → e.attempt ≠ new.attempt) :
    Chained cfg (count cfg json g action) := by
  have hOne : addedBy g.state (step cfg json g.state action) = [new] := by
    have hNone : g.state.redis.retries.filter (g.state.redis.nextId ≤ ·.id) = [] := by
      refine filter_eq_nil_iff.mpr fun e he => ?_
      simpa using (h.fresh e (h.known he)).2
    rw [addedBy, hr, filter_append, hNone]
    simp [hId]
  have hEq : count cfg json g action =
      { state := step cfg json g.state action, entries := g.entries ++ [new]
        waiting := g.waiting } := by
    simp [count, hOne, hw]
  rw [hEq]
  refine ⟨?_, ?_, ?_, ?_, ?_, ?_, h.waiting⟩
  · rw [hr]
    exact append_subset.mpr ⟨fun e he => mem_append_left _ (h.known he), subset_append_right _ _⟩
  · rw [hn]
    refine forall_mem_append.mpr ⟨fun e he => ?_, forall_mem_singleton.mpr ⟨ho, by omega⟩⟩
    exact ⟨(h.fresh e he).1, lt_succ_of_lt (h.fresh e he).2⟩
  · exact forall_mem_append.mpr ⟨h.attempts, forall_mem_singleton.mpr ha⟩
  · refine forall_mem_append.mpr ⟨fun e he hne => ?_, forall_mem_singleton.mpr fun hne => ?_⟩
    · obtain ⟨p, hp, hr⟩ := h.follows e he hne
      exact ⟨p, mem_append_left _ hp, hr⟩
    · obtain ⟨p, hp, hr⟩ := hf hne
      exact ⟨p, mem_append_left _ hp, hr⟩
  · rw [map_append]
    refine h.nodup.append (nodup_singleton _) fun pair hMem hp => ?_
    obtain ⟨e, he, rfl⟩ := mem_map.mp hMem
    have hEq := Prod.mk.inj (mem_singleton.mp hp)
    exact hNew e he hEq.1 hEq.2
  · intro i e phase hCall
    exact ⟨mem_append_left _ (hc i e phase hCall).1, (hc i e phase hCall).2⟩

theorem Chained.enqueue (h : Chained cfg g) (c : Callback V) (lastError : String) (clock : Nat)
    (hMax : 1 ≤ cfg.callbackMaxRetryAttempts) :
    Chained cfg (count cfg json g (.enqueue c lastError clock)) := by
  have hAttempt : ∀ e : Entry, e.fields = retryFields c.callbackUrl c.jobId (json.toString c.body) 1
      (saturatingAdd 64 clock cfg.callbackRetryInitialDelayMs) lastError clock →
      e.attempt = 1 := by
    intro e hEq
    rw [Entry.attempt, hEq, fieldU32_attempt (by decide)]
    rfl
  refine h.add _ rfl rfl rfl rfl h.calls le_rfl ?_ ?_ ?_
  · rw [hAttempt _ rfl]
    exact ⟨le_rfl, hMax⟩
  · intro hne
    exact absurd (hAttempt _ rfl) hne
  · intro e he ho
    -- The id of the first entry is new.
    have hFresh := h.fresh e he
    change e.origin = g.state.redis.nextId at ho
    omega

variable {input : Input}

theorem allowed_nextPhase : (nextPhase cfg e input phase).Allowed cfg e := by
  unfold nextPhase
  split_ifs
  · cases phase with
    | addAgain | addNext now message | addDlq message =>
      simp only [proceed]
      split_ifs <;> trivial
    | _ => trivial
  · cases phase with
    | post now =>
      simp only [recover]
      split_ifs with hMax
      · trivial
      · exact Nat.lt_of_not_le hMax
    | _ => trivial

variable (h : Chained cfg g)
include h

variable (hMax : cfg.callbackMaxRetryAttempts < 2 ^ 32)
include hMax

/-- The next attempt is added for an entry that has no successor. -/
theorem Chained.addNext {i : ι}
    {now : Nat} {message : String} (hCall : g.state.calls i = .working e (.addNext now message))
    (hPerformed : input.outcome ≠ .failed) (hOnce : ∀ e' ∈ g.entries, e'.previous ≠ some e.id) :
    Chained cfg (count cfg json g (.operate i input)) := by
  obtain ⟨he, hLt⟩ : e ∈ g.entries ∧ e.attempt < cfg.callbackMaxRetryAttempts :=
    h.calls i e _ hCall
  have hs : step cfg json g.state (.operate i input) =
      operate cfg json g.state i e (.addNext now message) input := by
    simp [step, hCall]
  have hNext : saturatingAdd 32 e.attempt 1 = e.attempt + 1 := by
    unfold saturatingAdd
    omega
  have hAttempt : ∀ new : Entry, new.fields = retryFields e.callbackUrl e.jobId
      (json.toString (e.parsed json)) (saturatingAdd 32 e.attempt 1) (saturatingAdd 64 now
        (callbackRetryDelayMs cfg.callbackRetryInitialDelayMs cfg.callbackRetryMaxDelayMs
          (saturatingAdd 32 e.attempt 1))) message input.clock → new.attempt = e.attempt + 1 := by
    intro new hEq
    rw [Entry.attempt, hEq, fieldU32_attempt (saturatingAdd_one_lt _), hNext]
    rfl
  have hRedis : (step cfg json g.state (.operate i input)).redis =
      effect cfg json e input g.state.redis (.addNext now message) := by
    rw [hs]
    exact if_neg hPerformed
  refine h.add ⟨g.state.redis.nextId, _, e.origin, some e.id⟩ ?_ rfl (by rw [hRedis]; rfl)
    (by rw [hRedis]; rfl) ?_ ?_ ?_ ?_ ?_
  · simp [waits, hCall]
  · rw [hs]
    exact CallsKnown.update h.calls he allowed_nextPhase i
  · exact le_of_lt (lt_of_le_of_lt (h.fresh e he).1 (h.fresh e he).2)
  · rw [hAttempt _ rfl]
    exact ⟨le_add_left 1 _, hLt⟩
  · intro _
    exact ⟨e, he, rfl, rfl, hAttempt _ rfl⟩
  · intro x hx ho hEq
    -- Another entry for the attempt would have been made from the same one.
    replace hEq := hEq.trans (hAttempt _ rfl)
    have hPos := (h.attempts e he).1
    obtain ⟨p, hp, hPrevious, hOrigin, hSucc⟩ := h.follows x hx (by omega)
    have hSame : p = e := inj_on_of_nodup_map h.nodup hp he
      (Prod.ext (hOrigin.trans ho) (by omega))
    exact hOnce x hx (hSame ▸ hPrevious)

omit hMax in
/-- An operation that adds nothing. -/
theorem Chained.operateQuiet {i : ι} (hCall : g.state.calls i = .working e phase)
    (hr : (operate cfg json g.state i e phase input).redis.retries ⊆ g.state.redis.retries)
    (hn : (operate cfg json g.state i e phase input).redis.nextId = g.state.redis.nextId) :
    Chained cfg (count cfg json g (.operate i input)) := by
  have hs : step cfg json g.state (.operate i input) =
      operate cfg json g.state i e phase input := by
    simp [step, hCall]
  refine h.quiet (by rwa [hs]) (by rwa [hs]) ?_
  rw [hs]
  exact CallsKnown.update h.calls (h.calls i e phase hCall).1 allowed_nextPhase i

theorem Chained.operate {i : ι} (hCall : g.state.calls i = .working e phase)
    (ho : ∀ now message, phase = .addNext now message → input.outcome ≠ .failed →
      ∀ e' ∈ g.entries, e'.previous ≠ some e.id) :
    Chained cfg (count cfg json g (.operate i input)) := by
  by_cases hf : input.outcome = .failed
  · refine h.operateQuiet hCall ?_ ?_ <;> simp [CallbackRetry.operate, hf]
  · cases phase with
    | addAgain => exact (h.calls i e _ hCall).2.elim
    | addNext now message => exact h.addNext hMax hCall hf (ho now message rfl hf)
    | trimRetry =>
      refine h.operateQuiet hCall ?_ ?_ <;> simp [CallbackRetry.operate, hf, effect]
      exact drop_subset _ _
    | _ => refine h.operateQuiet hCall ?_ ?_ <;> simp [CallbackRetry.operate, hf, effect]

theorem Chained.count (ho : Once cfg g action) : Chained cfg (count cfg json g action) := by
  have hBegin {e : Entry} {now : Nat} (hDue : e.nextAttemptAtMs ≤ now) :
      (Phase.begin e now).Allowed cfg e := by
    rw [Phase.begin, if_neg (not_lt.mpr hDue)]
    trivial
  have hIdle (hs : step cfg json g.state action = g.state) :
      Chained cfg (CallbackRetry.count cfg json g action) := by
    refine h.quiet ?_ ?_ ?_ <;> rw [hs]
    · exact refl _
    · exact h.calls
  cases action with
  | enqueue c lastError clock => exact h.enqueue c lastError clock ho
  | trim removed =>
    refine h.quiet ?_ ?_ ?_ <;> simp only [step] <;> split_ifs
    · exact drop_subset _ _
    · exact refl _
    · rfl
    · rfl
    · exact h.calls
    · exact h.calls
  | read i now =>
    cases hc : g.state.calls i with
    | working e phase => exact hIdle (by simp only [step, hc])
    | idle =>
      cases hf : g.state.redis.retries.find? (g.state.redis.lastDelivered < ·.id) with
      | none => exact hIdle (by simp only [step, hc, hf])
      | some e =>
        have he := h.known (mem_of_find?_eq_some hf)
        refine h.quiet ?_ ?_ ?_ <;> simp [step, hc, hf]
        · exact refl _
        · rfl
        · exact CallsKnown.update h.calls he (hBegin (ho hc e hf)) i
  | claim i id now =>
    cases hc : g.state.calls i with
    | working e phase => exact hIdle (by simp only [step, hc])
    | idle =>
      cases hf : g.state.redis.retries.find? (·.id == id) with
      | none => exact hIdle (by simp only [step, hc, hf])
      | some e =>
        by_cases hp : id ∈ g.state.redis.pending
        · have he := h.known (mem_of_find?_eq_some hf)
          refine h.quiet ?_ ?_ ?_ <;> simp [step, hc, hf, if_pos hp]
          · exact refl _
          · rfl
          · exact CallsKnown.update h.calls he (hBegin (ho hc hp e hf)) i
        · exact hIdle (by simp only [step, hc, hf, if_neg hp])
  | operate i input =>
    cases hc : g.state.calls i with
    | idle => exact hIdle (by simp only [step, hc])
    | working e phase =>
      refine h.operate hMax hc fun now message hp => ?_
      subst hp
      exact ho e now message hc

omit hMax

omit h

/-- As long as calls begin with entries that are due, and none gets a second successor, a callback
takes at most as many entries as it has attempts. -/
theorem withinMaximum_of_once (cfg : Config) (json : Json V)
    (hMax : cfg.callbackMaxRetryAttempts < 2 ^ 32) {actions : List (Action V ι)}
    (hOnce : Trace.Along (count cfg json) (Once cfg) .init actions) :
    WithinMaximum cfg (actions.foldl (count cfg json) .init) :=
  (hOnce.foldl chained_init fun _ _ h ho => h.count hMax ho).withinMaximum

def twoRetries : Config :=
  { oneRetry with callbackMaxRetryAttempts := 2 }

/-- The callback is posted in vain, and the next attempt is added and read when it is due. -/
def nextAttempt : List (Action String Nat) :=
  [.enqueue plainCallback "503" 0, .read 0 10, .operate 0 (withOutcome .failed),
    .operate 0 (withOutcome .done), .read 1 20, .operate 1 (withOutcome .failed)]

theorem nextAttempt_withinMaximum :
    (nextAttempt.foldl (count twoRetries plainJson) .init).entries.map Entry.attempt = [1, 2] ∧
      WithinMaximum twoRetries (nextAttempt.foldl (count twoRetries plainJson) .init) := by
  refine ⟨by decide +kernel, withinMaximum_of_once twoRetries plainJson (by decide)
    ⟨le_of_lt one_lt_two, ?_, ?_, ?_, ?_, ?_, trivial⟩⟩
  · rintro - e ⟨⟩
    decide +kernel
  · rintro e now message ⟨⟩
  · rintro e now message ⟨⟩ -
    decide +kernel
  · rintro - e ⟨⟩
    decide +kernel
  · rintro e now message ⟨⟩

/-- An entry is read before it is due, and again. -/
def tooEarly : List (Action String Nat) :=
  [.enqueue plainCallback "503" 0, .read 0 1, .operate 0 (withOutcome .done),
    .operate 0 (withOutcome .done), .read 1 2, .operate 1 (withOutcome .done)]

/-- Three entries are added for a callback with one attempt, two of them by waiting. -/
theorem tooEarly_not_withinMaximum :
    (tooEarly.foldl (count oneRetry plainJson) .init).entries.map (·.origin) = [1, 1, 1] ∧
      ¬WithinMaximum oneRetry (tooEarly.foldl (count oneRetry plainJson) .init) := by
  refine ⟨by decide +kernel, fun h => ?_⟩
  have hEntries := h.entries 1
  revert hEntries
  decide +kernel

end Spacegate.AiGateway.CallbackRetry
