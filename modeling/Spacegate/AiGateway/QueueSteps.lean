import Mathlib.Tactic
import Spacegate.AiGateway.Queue

/-!
# The steps of the queue

What a step of the queue can change, and that calls work on copies of entries that were
added.
-/

namespace Spacegate.AiGateway.Queue

open Foundation Function List
open Foundation.Expiring

variable {ι : Type}

/-! ## Operations -/

/-- What no operation of a call changes. -/
structure Redis.Unmoved (r r' : Redis ι) : Prop where
  now : r'.now = r.now
  streams : r'.streams = r.streams
  nextId : r'.nextId = r.nextId

theorem Redis.Unmoved.refl (r : Redis ι) : r.Unmoved r :=
  ⟨rfl, rfl, rfl⟩

section Effect

variable (cfg : Config) (i : ι) (copy : Copy) (input : Input) (r : Redis ι) (phase : Phase)

theorem unmoved_effect : r.Unmoved (effect cfg i copy input r phase) := by
  cases phase with
  | acquire =>
    simp only [effect]
    split <;> exact ⟨rfl, rfl, rfl⟩
  | _ => exact ⟨rfl, rfl, rfl⟩

theorem leases_effect (ha : phase ≠ .acquire) (hr : ∀ outcome, phase ≠ .release outcome) :
    (effect cfg i copy input r phase).leases = r.leases := by
  cases phase with
  | acquire => exact absurd rfl ha
  | release outcome => exact absurd rfl (hr outcome)
  | _ => rfl

end Effect

variable {phase : Phase} {leasedAt : Nat}

theorem begin_eq_working {copy copy' : Copy} (h : Call.begin copy = .working copy' leasedAt phase) :
    copy' = copy ∧ phase.holdsLease = false := by
  unfold Call.begin at h
  split at h <;> cases h <;> exact ⟨rfl, rfl⟩

variable {cfg : Config} {copy : Copy} {event : Event}

theorem begun_eq_some (h : begun cfg copy phase = some event) :
    event = .started copy.entry ∧ ∃ attempt, phase = .expire attempt := by
  unfold begun at h
  split at h
  · rename_i attempt
    split_ifs at h
    cases h
    exact ⟨rfl, attempt, rfl⟩
  · cases h

theorem leaseTime_of_ne_acquire {now leasedAt : Nat} (h : phase ≠ .acquire) :
    leaseTime now leasedAt phase = leasedAt := by
  cases phase with
  | acquire => exact absurd rfl h
  | _ => rfl

/-! ## Steps -/

/-- What the steps may do that neither add an entry nor are operations of a call, and in
which no time passes. -/
structure Quiet (cfg : Config) (s s' : State ι) : Prop where
  leases : s'.redis.leases = s.redis.leases
  attempts : s'.redis.attempts = s.redis.attempts
  dlq : s'.redis.dlq = s.redis.dlq
  retries : s'.redis.retries = s.redis.retries
  results : s'.redis.results = s.redis.results
  now : s'.redis.now = s.redis.now
  log : s'.log = s.log
  nextId : s'.redis.nextId = s.redis.nextId
  streams : ∀ stream entry, entry ∈ s'.redis.streams stream → entry ∈ s.redis.streams stream
  /-- Entries are removed by trimming only. -/
  kept : cfg.streamMaxLen = 0 → s'.redis.streams = s.redis.streams
  calls : ∀ i, s'.calls i = s.calls i ∨ s.calls i = .idle ∧ ∃ copy : Copy,
    s'.calls i = .begin copy ∧ (copy.entry.id, copy.fields) ∈ s.redis.streams copy.entry.stream

theorem Quiet.refl (cfg : Config) (s : State ι) : Quiet cfg s s :=
  ⟨rfl, rfl, rfl, rfl, rfl, rfl, rfl, rfl, fun _ _ h => h, fun _ => rfl, fun _ => .inl rfl⟩

theorem Quiet.working {s s' : State ι} (h : Quiet cfg s s') {i : ι}
    (hc : s'.calls i = .working copy leasedAt phase) :
    s.calls i = .working copy leasedAt phase ∨
      Call.begin copy = .working copy leasedAt phase ∧
        (copy.entry.id, copy.fields) ∈ s.redis.streams copy.entry.stream := by
  rcases h.calls i with hs | ⟨-, copy', hb, hMem⟩
  · rw [hs] at hc
    exact .inl hc
  · rw [hb] at hc
    obtain ⟨rfl, -⟩ := begin_eq_working hc
    exact .inr ⟨hc, hMem⟩

section Steps

variable [DecidableEq ι] {cfg : Config} {s s' : State ι}

theorem Quiet.setCall (h : Quiet cfg s s') (hc : s'.calls = s.calls) {i : ι}
    (hi : s.calls i = .idle)
    (hMem : (copy.entry.id, copy.fields) ∈ s.redis.streams copy.entry.stream) :
    Quiet cfg s (s'.setCall i (.begin copy)) := by
  refine { h with calls := ?_ }
  intro j
  by_cases hj : j = i
  · subst hj
    exact .inr ⟨hi, copy, update_self _ _ _, hMem⟩
  · left
    show Function.update s'.calls i (.begin copy) j = s.calls j
    rw [update_of_ne hj, hc]

theorem Quiet.trim (stream : String) (removed : Nat) :
    Quiet cfg s (step cfg s (.trim stream removed)) := by
  simp only [step]
  split_ifs with hml
  · refine ⟨rfl, rfl, rfl, rfl, rfl, rfl, rfl, rfl, ?_, fun hz => absurd hz (by omega),
      fun _ => .inl rfl⟩
    intro stream' entry hMem
    simp only [Redis.setStream] at hMem
    by_cases hs : stream' = stream
    · subst hs
      rw [update_self] at hMem
      exact mem_of_mem_drop hMem
    · rwa [update_of_ne hs] at hMem
  · exact Quiet.refl cfg s

theorem Quiet.read (i : ι) (stream : String) : Quiet cfg s (step cfg s (.read i stream)) := by
  simp only [step]
  split
  · rename_i id fields hi hf
    refine Quiet.setCall ?_ ?_ hi ?_
    · exact ⟨rfl, rfl, rfl, rfl, rfl, rfl, rfl, rfl, fun _ _ h => h, fun _ => rfl,
        fun _ => .inl rfl⟩
    · rfl
    · exact mem_of_find?_eq_some hf
  · exact Quiet.refl cfg s

theorem Quiet.claim (i : ι) (entry : EntryId) : Quiet cfg s (step cfg s (.claim i entry)) := by
  simp only [step]
  split
  · rename_i id fields hi hf
    have hId : id = entry.id := by simpa using find?_some hf
    split_ifs
    · refine (Quiet.refl cfg s).setCall rfl hi ?_
      rw [← hId]
      exact mem_of_find?_eq_some hf
    · exact Quiet.refl cfg s
  · exact Quiet.refl cfg s

theorem step_cases (cfg : Config) (s : State ι) (action : Action ι) :
    Quiet cfg s (step cfg s action) ∨ (∃ ms, action = .tick ms) ∨
      (∃ stream fields, action = .add stream fields) ∨
      ∃ i input copy leasedAt phase, action = .operate i input ∧
        s.calls i = .working copy leasedAt phase ∧
        step cfg s action = operate cfg s i copy leasedAt phase input := by
  cases action with
  | tick ms => exact .inr (.inl ⟨ms, rfl⟩)
  | add stream fields => exact .inr (.inr (.inl ⟨stream, fields, rfl⟩))
  | trim stream removed => exact .inl (Quiet.trim stream removed)
  | read i stream => exact .inl (Quiet.read i stream)
  | claim i entry => exact .inl (Quiet.claim i entry)
  | operate i input =>
    cases hc : s.calls i with
    | idle =>
      left
      simp only [step, hc]
      exact Quiet.refl cfg s
    | working copy leasedAt phase =>
      exact .inr (.inr (.inr ⟨i, input, copy, leasedAt, phase, rfl, hc, by simp only [step, hc]⟩))

end Steps

section Operate

variable [DecidableEq ι] (cfg : Config) (s : State ι) {i j : ι} (copy : Copy) (leasedAt : Nat)
  (phase : Phase) (input : Input)

theorem calls_operate_of_ne (h : j ≠ i) :
    (operate cfg s i copy leasedAt phase input).calls j = s.calls j :=
  update_of_ne h _ _

theorem calls_operate_self : (operate cfg s i copy leasedAt phase input).calls i =
      .working copy (leaseTime s.redis.now leasedAt phase)
        (nextPhase cfg copy input s.redis phase) :=
  update_self _ _ _

theorem calls_operate_cases {copy' : Copy} {leasedAt' : Nat} {phase' : Phase}
    (h : (operate cfg s i copy leasedAt phase input).calls j = .working copy' leasedAt' phase') :
    (j = i ∧ copy' = copy ∧ leasedAt' = leaseTime s.redis.now leasedAt phase ∧
      phase' = nextPhase cfg copy input s.redis phase) ∨
    j ≠ i ∧ s.calls j = .working copy' leasedAt' phase' := by
  by_cases hj : j = i
  · subst hj
    rw [calls_operate_self] at h
    cases h
    exact .inl ⟨rfl, rfl, rfl, rfl⟩
  · rw [calls_operate_of_ne _ _ _ _ _ _ hj] at h
    exact .inr ⟨hj, h⟩

theorem redis_operate : (operate cfg s i copy leasedAt phase input).redis =
      if input.outcome = .failed then s.redis else effect cfg i copy input s.redis phase :=
  rfl

theorem log_operate : (operate cfg s i copy leasedAt phase input).log =
      (if input.outcome = .done then begun cfg copy phase else none).toList ++
        (if input.outcome = .failed then none else performed cfg copy input phase).toList ++
          s.log :=
  rfl

theorem unmoved_operate : s.redis.Unmoved (operate cfg s i copy leasedAt phase input).redis := by
  rw [redis_operate]
  split_ifs
  · exact .refl _
  · exact unmoved_effect ..

/-- An operation adds at most one event to the log. -/
theorem log_operate_cases : (operate cfg s i copy leasedAt phase input).log = s.log ∨
      ∃ event, (operate cfg s i copy leasedAt phase input).log = event :: s.log ∧
        (input.outcome = .done ∧ begun cfg copy phase = some event ∨
          input.outcome ≠ .failed ∧ performed cfg copy input phase = some event) := by
  rw [log_operate]
  cases hb : (if input.outcome = .done then begun cfg copy phase else none) with
  | some event =>
    -- only the step into `process_job` is logged as a beginning, and it does nothing else
    split_ifs at hb with hd
    have hp : performed cfg copy input phase = none := by
      obtain ⟨-, attempt, rfl⟩ := begun_eq_some hb
      rfl
    exact .inr ⟨event, by simp [hp], .inl ⟨hd, hb⟩⟩
  | none =>
    cases hp : (if input.outcome = .failed then none
        else performed cfg copy input phase) with
    | none => exact .inl rfl
    | some event =>
      split_ifs at hp with hf
      exact .inr ⟨event, rfl, .inr ⟨hf, hp⟩⟩

theorem mem_log_operate (h : event ∈ (operate cfg s i copy leasedAt phase input).log) :
    (input.outcome = .done ∧ begun cfg copy phase = some event ∨
      input.outcome ≠ .failed ∧ performed cfg copy input phase = some event) ∨
      event ∈ s.log := by
  rcases log_operate_cases cfg s copy leasedAt phase input with hs | ⟨event', hLog, he⟩
  · rw [hs] at h
    exact .inr h
  · rw [hLog, mem_cons] at h
    rcases h with rfl | h
    · exact .inl he
    · exact .inr h

theorem mem_log_operate_of_mem (h : event ∈ s.log) :
    event ∈ (operate cfg s i copy leasedAt phase input).log := by
  exact mem_append_right _ h

theorem added_mem_log_operate {entry : EntryId} {fields : Fields} :
    .added entry fields ∈ (operate cfg s i copy leasedAt phase input).log ↔
      .added entry fields ∈ s.log := by
  refine ⟨fun h => ?_, mem_log_operate_of_mem cfg s copy leasedAt phase input⟩
  rcases mem_log_operate cfg s copy leasedAt phase input h with
    (⟨-, hb⟩ | ⟨-, hp⟩) | hLog
  · cases (begun_eq_some hb).1
  · cases phase <;> simp [performed] at hp
  · exact hLog

end Operate

/-! ## Entries and their copies -/

/-- The copies that calls work on are copies of entries that were added, and no two entries
have one id. -/
structure Entries (s : State ι) : Prop where
  fresh : ∀ entry fields, .added entry fields ∈ s.log → entry.id < s.redis.nextId
  unique : ∀ entry fields fields', .added entry fields ∈ s.log → .added entry fields' ∈ s.log →
    fields = fields'
  streams : ∀ stream id fields, (id, fields) ∈ s.redis.streams stream →
    .added { stream := stream, id := id } fields ∈ s.log
  copies : ∀ i copy leasedAt phase, s.calls i = .working copy leasedAt phase →
    .added copy.entry copy.fields ∈ s.log

theorem entries_init : Entries (State.init : State ι) where
  fresh := fun _ _ h => by cases h
  unique := fun _ _ _ h => by cases h
  streams := fun _ _ _ h => by cases h
  copies := fun _ _ _ _ h => by cases h

theorem Entries.quiet {s s' : State ι} (h : Entries s) (hq : Quiet cfg s s') : Entries s' := by
  refine ⟨?_, ?_, ?_, ?_⟩
  · rw [hq.log, hq.nextId]
    exact h.fresh
  · rw [hq.log]
    exact h.unique
  · intro stream id fields hMem
    rw [hq.log]
    exact h.streams stream id fields (hq.streams stream _ hMem)
  · intro i copy leasedAt phase hc
    rw [hq.log]
    rcases hq.working hc with hb | ⟨-, hMem⟩
    · exact h.copies i copy leasedAt phase hb
    · exact h.streams _ _ _ hMem

section EntriesSteps

variable [DecidableEq ι] {s : State ι}

theorem Entries.operate {i : ι} {input : Input} (h : Entries s)
    (hc : s.calls i = .working copy leasedAt phase) :
    Entries (operate cfg s i copy leasedAt phase input) := by
  refine ⟨?_, ?_, ?_, ?_⟩
  · intro entry fields ha
    rw [(unmoved_operate ..).nextId]
    exact h.fresh entry fields ((added_mem_log_operate ..).mp ha)
  · intro entry fields fields' ha ha'
    exact h.unique entry fields fields' ((added_mem_log_operate ..).mp ha)
      ((added_mem_log_operate ..).mp ha')
  · intro stream id fields hMem
    rw [(unmoved_operate ..).streams] at hMem
    exact (added_mem_log_operate ..).mpr (h.streams stream id fields hMem)
  · intro j copy' leasedAt' phase' hc'
    refine (added_mem_log_operate ..).mpr ?_
    rcases calls_operate_cases _ _ _ _ _ _ hc' with ⟨rfl, rfl, -, -⟩ | ⟨-, hb⟩
    · exact h.copies j copy' leasedAt phase hc
    · exact h.copies j copy' leasedAt' phase' hb

theorem Entries.add (h : Entries s) (stream : String)
    (fields : Fields) : Entries (step cfg s (.add stream fields)) := by
  -- the id of the new entry is not in use
  have hNew : ∀ stream fields, .added { stream := stream, id := s.redis.nextId } fields ∉ s.log :=
    fun stream fields ha => lt_irrefl _ (h.fresh _ fields ha)
  refine ⟨?_, ?_, ?_, ?_⟩
  · intro entry fields' ha
    rcases mem_cons.mp ha with hEq | hLog
    · cases hEq
      exact Nat.lt_succ_self _
    · exact Nat.lt_succ_of_lt (h.fresh entry fields' hLog)
  · intro entry fields' fields'' ha ha'
    rcases mem_cons.mp ha with hEq | hLog
    · cases hEq
      rcases mem_cons.mp ha' with hEq' | hl'
      · cases hEq'
        rfl
      · exact absurd hl' (hNew stream fields'')
    · rcases mem_cons.mp ha' with hEq' | hl'
      · cases hEq'
        exact absurd hLog (hNew stream fields')
      · exact h.unique entry fields' fields'' hLog hl'
  · intro stream' id fields' hMem
    refine mem_cons.mpr ?_
    simp only [step, Redis.setStream] at hMem
    by_cases hs : stream' = stream
    · subst hs
      rw [update_self, mem_append, mem_singleton] at hMem
      rcases hMem with hOld | hEq
      · exact .inr (h.streams stream' id fields' hOld)
      · cases hEq
        exact .inl rfl
    · rw [update_of_ne hs] at hMem
      exact .inr (h.streams stream' id fields' hMem)
  · intro i copy leasedAt phase hc
    exact mem_cons_of_mem _ (h.copies i copy leasedAt phase hc)

theorem Entries.step (h : Entries s) (action : Action ι) : Entries (step cfg s action) := by
  rcases step_cases cfg s action with hq | ⟨ms, rfl⟩ | ⟨stream, fields, rfl⟩ |
    ⟨i, input, copy, leasedAt, phase, rfl, hc, hs⟩
  · exact h.quiet hq
  · exact ⟨h.fresh, h.unique, h.streams, h.copies⟩
  · exact h.add stream fields
  · rw [hs]
    exact h.operate hc

end EntriesSteps

end Spacegate.AiGateway.Queue
