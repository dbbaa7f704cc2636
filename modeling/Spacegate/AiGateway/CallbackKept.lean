import Spacegate.AiGateway.CallbackRetry

/-!
# No callback is lost

Every entry of the retry stream is still to be delivered, or pending, or settled: it was posted,
or another entry was made from it, or it has gone to the DLQ.  Entries are made from earlier ones
only, so from the first entry of a callback the chain leads to one that is not acknowledged, to a
delivery or to the DLQ.
-/

namespace Spacegate.AiGateway.CallbackRetry

open Foundation List.Subset List Option Nat
open Queue (Fields Outcome fieldString trimmed)
open Enqueue (asI64)

variable {V ι : Type}

/-! ## What is meant -/

/-- The value is read from the text it is written as. -/
def Json.ReadsBack (json : Json V) (v : V) : Prop :=
  json.fromStr (json.toString v) = some v

structure Carries (json : Json V) (fields : Fields) (c : Callback V) : Prop where
  callbackUrl : fieldString fields "callback_url" = some c.callbackUrl
  jobId : fieldString fields "job_id" = some c.jobId
  body : (fieldString fields "body").bind json.fromStr = some c.body

variable (s : State V ι)

/-- A delivery for the entry has failed. -/
def Failed (origin id : Nat) : Prop :=
  ∃ c outcome, Event.posted id origin c outcome ∈ s.log ∧ outcome ≠ .done

/-- Where a callback is. -/
inductive Found (json : Json V) (s : State V ι) (origin : Nat) (c : Callback V) : Prop where
  | delivered (id : Nat) (hPosted : .posted id origin c .done ∈ s.log)
  | waiting (e : Entry) (hMem : e ∈ s.redis.retries) (hOrigin : e.origin = origin)
      (hWaiting : s.redis.Unacknowledged e.id) (hCarries : Carries json e.fields c)
  | dead (d : DeadEntry) (hMem : d ∈ s.redis.dlq) (hOrigin : d.origin = origin)
      (hCarries : Carries json d.fields c)

/-- The entry is the first one of its callback, or it was made from an earlier one, and its
attempt is not less. -/
def Entry.Continues (e : Entry) : Prop :=
  e.id = e.origin ∨ ∃ p ∈ s.redis.retries, e.previous = some p.id ∧ p.origin = e.origin ∧
    p.id < e.id ∧ p.attempt ≤ e.attempt

/-- So many entries of the callback had a failed delivery. -/
def FailedFor (origin count : Nat) (P : Nat → Prop) : Prop :=
  ∃ failed : List Nat, failed.Nodup ∧ count ≤ failed.length ∧
    ∀ id ∈ failed, P id ∧ Failed s origin id

structure Kept (cfg : Config) (json : Json V) (s : State V ι) (origin : Nat) (c : Callback V) :
    Prop where
  found : Found json s origin c
  attempts : ∀ e ∈ s.redis.retries, e.origin = origin → e.Continues s
  /-- A callback in the DLQ has failed as often as it was to be tried. -/
  failures : ∀ d ∈ s.redis.dlq, d.origin = origin →
    FailedFor s origin cfg.callbackMaxRetryAttempts fun _ => True

/-! ## Fields -/

section Fields

variable {callbackUrl jobId body message : String} {attempt next clock : Nat}

theorem saturatingAdd_one_lt (n : Nat) : saturatingAdd 32 n 1 < 2 ^ 32 := by
  unfold saturatingAdd
  omega

theorem fieldU32_attempt (h : attempt < 2 ^ 32) :
    fieldU32 (retryFields callbackUrl jobId body attempt next message clock) "attempt" =
      some attempt := by
  have ht : fieldString (retryFields callbackUrl jobId body attempt next message clock)
      "attempt" = some (toString attempt) := by
    show some (toString (asI64 attempt)) = _
    rw [asI64, mod_eq_of_lt (by omega), if_pos (by omega)]
    rfl
  have hl : attempt < 2 ^ 64 := by omega
  rw [fieldU32, fieldU64, ht, bind_some, Text.parseUnsigned_toString hl,
    filter_some, if_pos (decide_eq_true h)]

theorem Entry.attempt_lt (e : Entry) : e.attempt < 2 ^ 32 := by
  unfold Entry.attempt fieldU32
  cases h : (fieldU64 e.fields "attempt").filter (· < 2 ^ 32) with
  | none =>
    decide
  | some attempt => exact of_decide_eq_true (filter_eq_some_iff.mp h).2

variable {json : Json V} {e : Entry} {c : Callback V} (h : Carries json e.fields c)
include h

theorem Carries.parsed : e.callback json = c := by
  obtain ⟨text, ht, hb⟩ := bind_eq_some_iff.mp h.body
  have hp : e.parsed json = c.body := by
    rw [Entry.parsed, Entry.body, ht, getD_some, hb, getD_some]
  rw [Entry.callback, Entry.callbackUrl, Entry.jobId, h.callbackUrl, h.jobId, hp]
  rfl

theorem Carries.again :
    Carries json (retryFields e.callbackUrl e.jobId e.body attempt next message clock) c := by
  obtain ⟨text, ht, hb⟩ := bind_eq_some_iff.mp h.body
  refine ⟨?_, ?_, ?_⟩
  · show some e.callbackUrl = _
    rw [Entry.callbackUrl, h.callbackUrl]
    rfl
  · show some e.jobId = _
    rw [Entry.jobId, h.jobId]
    rfl
  · show json.fromStr e.body = _
    rw [Entry.body, ht]
    exact hb

theorem carries_retryFields (hj : json.ReadsBack c.body) :
    Carries json (retryFields e.callbackUrl e.jobId (json.toString (e.parsed json)) attempt next
      message clock) c := by
  have hp := h.parsed
  subst hp
  exact ⟨rfl, rfl, hj⟩

theorem carries_dlqFields (hj : json.ReadsBack c.body) :
    Carries json (dlqFields e.callbackUrl e.jobId (json.toString (e.parsed json)) attempt
      message clock) c := by
  have hp := h.parsed
  subst hp
  exact ⟨rfl, rfl, hj⟩

omit h

end Fields

/-! ## What holds in every state -/

section Invariant

variable (cfg : Config) (json : Json V)

structure EntryInv (s : State V ι) (e : Entry) : Prop where
  id_lt : e.id < s.redis.nextId
  origin_le : e.origin ≤ e.id
  continues : e.Continues s
  carries : ∀ c, .enqueued e.origin c ∈ s.log → json.ReadsBack c.body → Carries json e.fields c
  failures : FailedFor s e.origin (e.attempt - 1) (· < e.id)

structure DeadInv (s : State V ι) (d : DeadEntry) : Prop where
  origin_lt : d.origin < s.redis.nextId
  carries : ∀ c, .enqueued d.origin c ∈ s.log → json.ReadsBack c.body → Carries json d.fields c
  failures : FailedFor s d.origin cfg.callbackMaxRetryAttempts fun _ => True

/-- The entry is not needed any more. -/
inductive Settled (s : State V ι) (e : Entry) : Prop where
  | posted (hPosted : .posted e.id e.origin (e.callback json) .done ∈ s.log)
  | added (e' : Entry) (hMem : e' ∈ s.redis.retries) (hOrigin : e'.origin = e.origin)
      (hLater : e.id < e'.id)
  | dead (d : DeadEntry) (hMem : d ∈ s.redis.dlq) (hOrigin : d.origin = e.origin)

def PhaseInv (s : State V ι) (e : Entry) : Phase → Prop
  | .addNext _ _ => Failed s e.origin e.id
  | .addDlq _ => Failed s e.origin e.id ∧ cfg.callbackMaxRetryAttempts ≤ e.attempt
  | .ack => Settled json s e
  | .trimRetry | .trimDlq => False
  | .addAgain | .post _ | .returned _ => True

structure Inv (s : State V ι) : Prop where
  sorted : s.redis.retries.Pairwise (·.id < ·.id)
  delivered_lt : s.redis.lastDelivered < s.redis.nextId
  entries : ∀ e ∈ s.redis.retries, EntryInv json s e
  covered : ∀ e ∈ s.redis.retries, s.redis.Unacknowledged e.id ∨ Settled json s e
  deads : ∀ d ∈ s.redis.dlq, DeadInv cfg json s d
  calls : ∀ i e phase, s.calls i = .working e phase →
    e ∈ s.redis.retries ∧ PhaseInv cfg json s e phase
  enqueued : ∀ id c, .enqueued id c ∈ s.log → ∃ e ∈ s.redis.retries, e.id = id ∧ e.origin = id

end Invariant

variable {cfg : Config} {json : Json V} {s s' : State V ι}

/-! ## States that grow -/

/-- Nothing is taken out of the streams and of the log, and what is enqueued is new. -/
structure Grows (s s' : State V ι) : Prop where
  log : s.log ⊆ s'.log
  retries : s.redis.retries ⊆ s'.redis.retries
  dlq : s.redis.dlq ⊆ s'.redis.dlq
  nextId : s.redis.nextId ≤ s'.redis.nextId
  enqueued : ∀ id c, .enqueued id c ∈ s'.log → .enqueued id c ∈ s.log ∨ s.redis.nextId ≤ id

theorem Grows.of_eq (hLog : s'.log = s.log) (hr : s'.redis.retries = s.redis.retries)
    (hDlq : s'.redis.dlq = s.redis.dlq) (hni : s'.redis.nextId = s.redis.nextId) : Grows s s' where
  log := by rw [hLog]; exact refl _
  retries := by rw [hr]; exact refl _
  dlq := by rw [hDlq]; exact refl _
  nextId := le_of_eq hni.symm
  enqueued := by
    intro id c h
    rw [hLog] at h
    exact .inl h

variable (hg : Grows s s')
include hg

theorem Failed.mono {origin id : Nat} (h : Failed s origin id) : Failed s' origin id := by
  obtain ⟨c, outcome, hp, ho⟩ := h
  exact ⟨c, outcome, hg.log hp, ho⟩

theorem FailedFor.mono {origin count : Nat} {P : Nat → Prop}
    (h : FailedFor s origin count P) : FailedFor s' origin count P := by
  obtain ⟨failed, hn, hc, hf⟩ := h
  exact ⟨failed, hn, hc, fun id hId => ⟨(hf id hId).1, (hf id hId).2.mono hg⟩⟩

variable {e : Entry}

theorem Settled.mono (h : Settled json s e) : Settled json s' e := by
  cases h with
  | posted hp => exact .posted (hg.log hp)
  | added e' hMem ho hl => exact .added e' (hg.retries hMem) ho hl
  | dead d hMem ho => exact .dead d (hg.dlq hMem) ho

theorem EntryInv.mono (h : EntryInv json s e) : EntryInv json s' e where
  id_lt := lt_of_lt_of_le h.id_lt hg.nextId
  origin_le := h.origin_le
  continues := by
    rcases h.continues with hf | ⟨p, hMem, hr⟩
    · exact .inl hf
    · exact .inr ⟨p, hg.retries hMem, hr⟩
  carries := by
    intro c he
    rcases hg.enqueued _ c he with hOld | hNew
    · exact h.carries c hOld
    · have ho := h.origin_le
      have hId := h.id_lt
      omega
  failures := h.failures.mono hg

theorem DeadInv.mono {d : DeadEntry} (h : DeadInv cfg json s d) :
    DeadInv cfg json s' d where
  origin_lt := lt_of_lt_of_le h.origin_lt hg.nextId
  carries := by
    intro c he
    rcases hg.enqueued _ c he with hOld | hNew
    · exact h.carries c hOld
    · have ho := h.origin_lt
      omega
  failures := h.failures.mono hg

theorem PhaseInv.mono {phase : Phase} (h : PhaseInv cfg json s e phase) :
    PhaseInv cfg json s' e phase := by
  cases phase with
  | addNext now message => exact Failed.mono hg h
  | addDlq message => exact ⟨h.1.mono hg, h.2⟩
  | ack => exact Settled.mono hg h
  | trimRetry | trimDlq => exact h
  | addAgain | post _ | returned _ => trivial

omit hg

theorem failedFor_succ {origin count id : Nat} {P : Nat → Prop}
    (h : FailedFor s origin count (· < id)) (hf : Failed s origin id)
    (hP : ∀ id' ≤ id, P id') : FailedFor s origin (count + 1) P := by
  obtain ⟨failed, hn, hc, hAll⟩ := h
  refine ⟨id :: failed, ?_, succ_le_succ hc, ?_⟩
  · refine nodup_cons.mpr ⟨?_, hn⟩
    intro hMem
    exact lt_irrefl id (hAll id hMem).1
  · intro id' hMem
    rcases mem_cons.mp hMem with rfl | hMem
    · exact ⟨hP _ (le_refl _), hf⟩
    · exact ⟨hP _ (le_of_lt (hAll id' hMem).1), (hAll id' hMem).2⟩

theorem phaseInv_begin (e : Entry) (now : Nat) : PhaseInv cfg json s e (.begin e now) := by
  unfold Phase.begin
  split_ifs
  · trivial
  · trivial

/-! ## Single changes -/

theorem inv_init : Inv cfg json (.init : State V ι) where
  sorted := .nil
  delivered_lt := one_pos
  entries := fun _ h => by cases h
  covered := fun _ h => by cases h
  deads := fun _ h => by cases h
  calls := fun _ _ _ h => by cases h
  enqueued := fun _ _ h => by cases h

/-- What is left to show of a state that has grown: the facts about what is new, and that no
entry was acknowledged before it was settled. -/
structure Change (cfg : Config) (json : Json V) (s s' : State V ι) : Prop extends Grows s s' where
  calls : s'.calls = s.calls
  sorted : s'.redis.retries.Pairwise (·.id < ·.id)
  delivered_lt : s'.redis.lastDelivered < s'.redis.nextId
  entries : ∀ e ∈ s'.redis.retries,
    e ∈ s.redis.retries ∨ EntryInv json s' e ∧ s'.redis.Unacknowledged e.id
  covered : ∀ e ∈ s.redis.retries, s.redis.Unacknowledged e.id →
    s'.redis.Unacknowledged e.id ∨ Settled json s' e
  deads : ∀ d ∈ s'.redis.dlq, d ∈ s.redis.dlq ∨ DeadInv cfg json s' d
  firsts : ∀ id c, .enqueued id c ∈ s'.log →
    .enqueued id c ∈ s.log ∨ ∃ e ∈ s'.redis.retries, e.id = id ∧ e.origin = id

variable (hInv : Inv cfg json s)
include hInv

theorem Inv.change (h : Change cfg json s s') : Inv cfg json s' where
  sorted := h.sorted
  delivered_lt := h.delivered_lt
  entries := by
    intro e he
    rcases h.entries e he with hOld | ⟨hNew, -⟩
    · exact (hInv.entries e hOld).mono h.toGrows
    · exact hNew
  covered := by
    intro e he
    rcases h.entries e he with hOld | ⟨-, hw⟩
    · rcases hInv.covered e hOld with hw | hs
      · exact h.covered e hOld hw
      · exact .inr (hs.mono h.toGrows)
    · exact .inl hw
  deads := by
    intro d hd
    rcases h.deads d hd with hOld | hNew
    · exact (hInv.deads d hOld).mono h.toGrows
    · exact hNew
  calls := by
    intro i e phase hc
    rw [h.calls] at hc
    obtain ⟨hMem, hp⟩ := hInv.calls i e phase hc
    exact ⟨h.retries hMem, hp.mono h.toGrows⟩
  enqueued := by
    intro id c hEnqueued
    rcases h.firsts id c hEnqueued with hOld | hNew
    · obtain ⟨e, he, hId⟩ := hInv.enqueued id c hOld
      exact ⟨e, h.retries he, hId⟩
    · exact hNew

theorem Inv.post (id origin : Nat) (c : Callback V) (outcome : Outcome) :
    Inv cfg json { s with log := .posted id origin c outcome :: s.log } := by
  have hEnqueued : ∀ id' c', Event.enqueued id' c' ∈ .posted id origin c outcome :: s.log →
      .enqueued id' c' ∈ s.log := by
    intro id' c' h
    simpa using h
  exact hInv.change {
    log := subset_cons_self _ _
    retries := refl _
    dlq := refl _
    nextId := le_refl _
    enqueued := fun id' c' h => .inl (hEnqueued id' c' h)
    calls := rfl
    sorted := hInv.sorted
    delivered_lt := hInv.delivered_lt
    entries := fun e he => .inl he
    covered := fun e _ hw => .inl hw
    deads := fun d hd => .inl hd
    firsts := fun id' c' h => .inl (hEnqueued id' c' h) }

/-- An entry is added, with or without an event that says so. -/
theorem Inv.addRetry {fields : Fields} {origin : Nat}
    {previous : Option Nat} (events : List (Event V))
    (hEvents : ∀ id c, .enqueued id c ∈ events → id = s.redis.nextId ∧ origin = s.redis.nextId)
    (hEntry : EntryInv json
      { s with redis := s.redis.addRetry fields origin previous, log := events ++ s.log }
      { id := s.redis.nextId, fields := fields, origin := origin, previous := previous }) :
    Inv cfg json
      { s with redis := s.redis.addRetry fields origin previous, log := events ++ s.log } := by
  have hNew : s.redis.lastDelivered < s.redis.nextId := hInv.delivered_lt
  refine hInv.change {
    log := subset_append_right _ _
    retries := subset_append_left _ _
    dlq := refl _
    nextId := le_succ _
    enqueued := ?_
    calls := rfl
    sorted := ?_
    delivered_lt := lt_succ_of_lt hNew
    entries := ?_
    covered := fun e _ hw => .inl hw
    deads := fun d hd => .inl hd
    firsts := ?_ }
  · intro id c h
    rcases mem_append.mp h with hEvent | hOld
    · exact .inr (le_of_eq (hEvents id c hEvent).1.symm)
    · exact .inl hOld
  · refine pairwise_append.mpr ⟨hInv.sorted, pairwise_singleton _ _, ?_⟩
    intro e he e' he'
    rw [mem_singleton.mp he']
    exact (hInv.entries e he).id_lt
  · intro e he
    rcases mem_append.mp he with hOld | ha
    · exact .inl hOld
    · rw [mem_singleton.mp ha]
      exact .inr ⟨hEntry, .inl hNew⟩
  · intro id c h
    rcases mem_append.mp h with hEvent | hOld
    · obtain ⟨rfl, rfl⟩ := hEvents id c hEvent
      exact .inr ⟨_, mem_append_right _ (mem_singleton.mpr rfl), rfl, rfl⟩
    · exact .inl hOld

theorem Inv.addDlq {d : DeadEntry} (hd : DeadInv cfg json s d) :
    Inv cfg json { s with redis := { s.redis with dlq := s.redis.dlq ++ [d] } } := by
  have hg : Grows s { s with redis := { s.redis with dlq := s.redis.dlq ++ [d] } } :=
    ⟨refl _, refl _, subset_append_left _ _, le_refl _, fun _ _ h => .inl h⟩
  refine hInv.change {
    toGrows := hg
    calls := rfl
    sorted := hInv.sorted
    delivered_lt := hInv.delivered_lt
    entries := fun e he => .inl he
    covered := fun e _ hw => .inl hw
    deads := ?_
    firsts := fun id c h => .inl h }
  intro d' hd'
  rcases mem_append.mp hd' with hOld | hNew
  · exact .inl hOld
  · rw [mem_singleton.mp hNew]
    exact .inr (hd.mono hg)

theorem Inv.eq_of_id_eq {e' : Entry} (he : e ∈ s.redis.retries)
    (he' : e' ∈ s.redis.retries) (hId : e.id = e'.id) : e = e' := by
  have hn : (s.redis.retries.map (·.id)).Nodup :=
    pairwise_map.mpr (hInv.sorted.imp ne_of_lt)
  exact inj_on_of_nodup_map hn he he' hId

theorem Inv.ack (he : e ∈ s.redis.retries) (hs : Settled json s e) : Inv cfg json
      { s with redis := { s.redis with pending := s.redis.pending.filter (· ≠ e.id) } } := by
  have hg : Grows s
      { s with redis := { s.redis with pending := s.redis.pending.filter (· ≠ e.id) } } :=
    .of_eq rfl rfl rfl rfl
  refine hInv.change {
    toGrows := hg
    calls := rfl
    sorted := hInv.sorted
    delivered_lt := hInv.delivered_lt
    entries := fun e he => .inl he
    covered := ?_
    deads := fun d hd => .inl hd
    firsts := fun id c h => .inl h }
  intro e' he' hw
  by_cases hId : e'.id = e.id
  · rw [hInv.eq_of_id_eq he' he hId]
    exact .inr (hs.mono hg)
  · refine .inl (hw.imp_right fun hp => ?_)
    exact mem_filter.mpr ⟨hp, decide_eq_true hId⟩

/-- The entry that is read next is the first one that was not delivered. -/
theorem Inv.read (h : s.redis.retries.find? (s.redis.lastDelivered < ·.id) = some e) : Inv cfg json
      { s with redis :=
        { s.redis with lastDelivered := e.id, pending := s.redis.pending ++ [e.id] } } := by
  have he : e ∈ s.redis.retries := mem_of_find?_eq_some h
  refine hInv.change {
    toGrows := .of_eq rfl rfl rfl rfl
    calls := rfl
    sorted := hInv.sorted
    delivered_lt := (hInv.entries e he).id_lt
    entries := fun e he => .inl he
    covered := ?_
    deads := fun d hd => .inl hd
    firsts := fun id c h => .inl h }
  intro e' he' hw
  left
  rcases hw with hn | hp
  · obtain ⟨-, before, after, hSplit, hb⟩ := find?_eq_some_iff_append.mp h
    have hs := hInv.sorted
    rw [hSplit] at he' hs
    rcases mem_append.mp he' with hMem | hMem
    · have hDelivered := hb e' hMem
      simp only [Bool.not_eq_true', decide_eq_false_iff_not] at hDelivered
      exact absurd hn hDelivered
    · rcases mem_cons.mp hMem with rfl | ha
      · exact .inr (mem_append_right _ (mem_singleton.mpr rfl))
      · exact .inl (rel_of_pairwise_cons (pairwise_append.mp hs).2.1 ha)
  · exact .inr (mem_append_left _ hp)

/-! ## One step -/

/-- An entry that is made from another one. -/
theorem Inv.addLater (he : e ∈ s.redis.retries) {fields : Fields}
    {attempt : Nat} (hf : fieldU32 fields "attempt" = some attempt)
    (hc : ∀ c, Carries json e.fields c → json.ReadsBack c.body → Carries json fields c)
    (ha : e.attempt ≤ attempt) (hFailed : FailedFor s e.origin (attempt - 1) (· < s.redis.nextId)) :
    Inv cfg json { s with redis := s.redis.addRetry fields e.origin (some e.id) } := by
  have hEntry := hInv.entries e he
  have hr : ∀ e' : Entry, e'.fields = fields → e'.attempt = attempt := by
    intro e' hEq
    rw [Entry.attempt, hEq, hf]
    rfl
  refine hInv.addRetry [] (fun id c h => by cases h) ?_
  refine ⟨lt_succ_self _, ?_, .inr ⟨e, ?_, rfl, rfl, hEntry.id_lt, ?_⟩, ?_, ?_⟩
  · exact le_trans hEntry.origin_le (le_of_lt hEntry.id_lt)
  · exact mem_append_left _ he
  · exact le_trans ha (le_of_eq (hr _ rfl).symm)
  · intro c hEnqueued hj
    exact hc c (hEntry.carries c hEnqueued hj) hj
  · rw [hr _ rfl]
    obtain ⟨failed, hn, hCount, hAll⟩ := hFailed
    exact ⟨failed, hn, hCount, hAll⟩

/-- What an operation that is performed does to Redis. -/
theorem Inv.effect (he : e ∈ s.redis.retries) {phase : Phase}
    (hp : PhaseInv cfg json s e phase) (input : Input) :
    Inv cfg json { s with redis := effect cfg json e input s.redis phase } := by
  have hEntry := hInv.entries e he
  have hil := hEntry.id_lt
  cases phase with
  | addAgain =>
    refine hInv.addLater he (fieldU32_attempt e.attempt_lt) (fun c h _ => h.again)
      (le_refl _) ?_
    obtain ⟨failed, hn, hc, hAll⟩ := hEntry.failures
    refine ⟨failed, hn, hc, fun id hId => ⟨?_, (hAll id hId).2⟩⟩
    have hEarlier := (hAll id hId).1
    omega
  | addNext now message =>
    have ha := e.attempt_lt
    refine hInv.addLater he (fieldU32_attempt (saturatingAdd_one_lt _))
      (fun c h hj => carries_retryFields h hj) ?_ ?_
    · unfold saturatingAdd
      omega
    · obtain ⟨failed, hn, hc, hAll⟩ := failedFor_succ (P := (· < s.redis.nextId))
        hEntry.failures hp (fun id hId => by omega)
      refine ⟨failed, hn, ?_, hAll⟩
      unfold saturatingAdd
      omega
  | addDlq message =>
    refine hInv.addDlq ⟨?_, ?_, ?_⟩
    · exact lt_of_le_of_lt hEntry.origin_le hil
    · intro c hEnqueued hj
      exact carries_dlqFields (hEntry.carries c hEnqueued hj) hj
    · obtain ⟨failed, hn, hc, hAll⟩ := failedFor_succ (P := fun _ => True)
        hEntry.failures hp.1 (fun _ _ => trivial)
      have hMax := hp.2
      exact ⟨failed, hn, by omega, hAll⟩
  | ack => exact hInv.ack he hp
  | post _ | returned _ => exact hInv
  | trimRetry | trimDlq => exact hp.elim

/-- The state after an operation, before the call goes on. -/
def State.performed (cfg : Config) (json : Json V) (s : State V ι) (e : Entry) (phase : Phase)
    (input : Input) : State V ι :=
  { s with
    redis := if input.outcome = .failed then s.redis else effect cfg json e input s.redis phase
    log := phase.events json e input ++ s.log }

/-- Where a call stands after an operation. -/
theorem Inv.phase (hml : cfg.streamMaxLen = 0) (he : e ∈ s.redis.retries) {phase : Phase}
    (hp : PhaseInv cfg json s e phase) (input : Input) :
    PhaseInv cfg json (s.performed cfg json e phase input) e (nextPhase cfg e input phase) := by
  have hil := (hInv.entries e he).id_lt
  unfold nextPhase
  by_cases hd : input.outcome = .done
  · rw [State.performed, hd]
    cases phase with
    | addAgain | addNext _ _ =>
      simp only [proceed, hml, gt_iff_lt, lt_irrefl, if_false]
      exact .added _ (mem_append_right _ (mem_singleton.mpr rfl)) rfl hil
    | addDlq message =>
      simp only [proceed, hml, gt_iff_lt, lt_irrefl, if_false]
      exact .dead _ (mem_append_right _ (mem_singleton.mpr rfl)) rfl
    | post now =>
      refine .posted ?_
      simp only [Phase.events, hd]
      exact mem_cons_self
    | ack | returned _ => trivial
    | trimRetry | trimDlq => exact hp.elim
  · rw [if_neg hd]
    cases phase with
    | post now =>
      simp only [recover]
      by_cases hMax : cfg.callbackMaxRetryAttempts ≤ e.attempt
      · rw [if_pos hMax]
        exact ⟨⟨_, input.outcome, mem_cons_self, hd⟩, hMax⟩
      · rw [if_neg hMax]
        exact ⟨_, input.outcome, mem_cons_self, hd⟩
    | _ => trivial

theorem Inv.enqueue (c : Callback V) (lastError : String) (clock : Nat) :
    Inv cfg json (enqueue cfg json s c lastError clock) := by
  refine hInv.addRetry [.enqueued s.redis.nextId c] ?_ ?_
  · intro id c' h
    cases mem_singleton.mp h
    exact ⟨rfl, rfl⟩
  · refine ⟨lt_succ_self _, le_refl _, .inl rfl, ?_, ?_⟩
    · intro c' hEnqueued hj
      rcases mem_append.mp hEnqueued with hNew | hOld
      · cases mem_singleton.mp hNew
        exact ⟨rfl, rfl, hj⟩
      · -- no earlier event has this id
        obtain ⟨e, he, hId, -⟩ := hInv.enqueued _ c' hOld
        exact absurd hId (Nat.ne_of_lt (hInv.entries e he).id_lt)
    · refine ⟨[], nodup_nil, ?_, fun id hId => by cases hId⟩
      rw [Entry.attempt, fieldU32_attempt (by decide)]
      exact le_refl _

/-! ## Chains of entries -/

/-- The entries that are made from one another lead to where the callback is. -/
theorem Inv.found {origin : Nat} {c : Callback V}
    (hEnqueued : .enqueued origin c ∈ s.log) (hj : json.ReadsBack c.body)
    (he : e ∈ s.redis.retries) (ho : e.origin = origin) : Found json s origin c := by
  -- later entries have larger ids, and there are only so many
  induction hr : s.redis.nextId - e.id using Nat.strong_induction_on generalizing e with
  | _ rest ih =>
    subst ho
    have hEntry := hInv.entries e he
    have hc := hEntry.carries c hEnqueued hj
    rcases hInv.covered e he with hw | hSettled
    · exact .waiting e he rfl hw hc
    · cases hSettled with
      | posted hp =>
        rw [hc.parsed] at hp
        exact .delivered e.id hp
      | added e' hMem hs hl =>
        have hil := (hInv.entries e' hMem).id_lt
        exact ih (s.redis.nextId - e'.id) (by omega) hMem hs rfl
      | dead d hMem hs =>
        have hd := (hInv.deads d hMem).carries c
        rw [hs] at hd
        exact .dead d hMem hs (hd hEnqueued hj)

/-! ## Steps of the calls -/

variable [DecidableEq ι]

theorem Inv.setCall {phase : Phase} (hMem : e ∈ s.redis.retries)
    (hp : PhaseInv cfg json s e phase) (i : ι) : Inv cfg json (s.setCall i (.working e phase)) := by
  have hg : Grows s (s.setCall i (.working e phase)) := .of_eq rfl rfl rfl rfl
  refine ⟨hInv.sorted, hInv.delivered_lt, fun e he => (hInv.entries e he).mono hg, ?_,
    fun d hd => (hInv.deads d hd).mono hg, ?_, hInv.enqueued⟩
  · intro e he
    exact (hInv.covered e he).imp_right (Settled.mono hg)
  · intro j e' phase' hc
    have hc : Function.update s.calls i (.working e phase) j = .working e' phase' := hc
    by_cases hj : j = i
    · subst hj
      rw [Function.update_self] at hc
      cases hc
      exact ⟨hMem, hp.mono hg⟩
    · rw [Function.update_of_ne hj] at hc
      obtain ⟨hm', hp'⟩ := hInv.calls j e' phase' hc
      exact ⟨hm', hp'.mono hg⟩

variable (hml : cfg.streamMaxLen = 0)
include hml

theorem Inv.operate {i : ι} {phase : Phase} (hc : s.calls i = .working e phase) (input : Input) :
    Inv cfg json (operate cfg json s i e phase input) := by
  obtain ⟨he, hp⟩ := hInv.calls i e phase hc
  have hPerformed : Inv cfg json (s.performed cfg json e phase input) := by
    have hEffect := hInv.effect he hp input
    unfold State.performed
    split_ifs <;> cases phase with
    | post now => exact hInv.post _ _ _ _
    | _ => first | exact hInv | exact hEffect
  have hMem : e ∈ (s.performed cfg json e phase input).redis.retries := by
    unfold State.performed
    split_ifs
    · exact he
    · cases phase with
      | addAgain | addNext _ _ => exact mem_append_left _ he
      | trimRetry => exact hp.elim
      | _ => exact he
  exact hPerformed.setCall hMem (hInv.phase hml he hp input) i

theorem Inv.step (action : Action V ι) : Inv cfg json (step cfg json s action) := by
  cases action with
  | enqueue c lastError clock => exact hInv.enqueue c lastError clock
  | trim removed =>
    simp only [CallbackRetry.step, hml, gt_iff_lt, lt_irrefl, if_false]
    exact hInv
  | read i now =>
    simp only [CallbackRetry.step]
    split
    next e hi hf =>
        exact (hInv.read hf).setCall (mem_of_find?_eq_some hf) (phaseInv_begin e now) i
    next => exact hInv
  | claim i id now =>
    simp only [CallbackRetry.step]
    split
    next e hi hf =>
        split_ifs
        · exact hInv.setCall (mem_of_find?_eq_some hf) (phaseInv_begin e now) i
        · exact hInv
    next => exact hInv
  | operate i input =>
    simp only [CallbackRetry.step]
    split
    next => exact hInv
    next e phase hc => exact hInv.operate hml hc input

omit hInv

theorem inv_run (actions : List (Action V ι)) : Inv cfg json (run cfg json actions) := by
  refine List.foldlRecOn actions (CallbackRetry.step cfg json) inv_init ?_
  intro s hInv action _
  exact hInv.step hml action

omit hml

/-! ## Whole runs -/

def oneRetry : Config where
  callbackMaxRetryAttempts := 1
  callbackRetryInitialDelayMs := 5
  callbackRetryMaxDelayMs := 5
  streamMaxLen := 0

/-- Values that are their own texts. -/
def plainJson : Json String where
  toString := id
  fromStr := some
  ofBody := id

def plainCallback : Callback String where
  callbackUrl := "https://client/done"
  jobId := "job"
  body := "\"result\""

def withOutcome (outcome : Outcome) : Input where
  outcome := outcome
  message := "503"
  clock := 10
  removed := 0

/-- The callback is read, posted in vain and added to the DLQ, and the worker stops before it
acknowledges the entry. -/
def lastAttempt : List (Action String Unit) :=
  [.enqueue plainCallback "503" 0, .read () 10, .operate () (withOutcome .failed),
    .operate () (withOutcome .lost)]

end Spacegate.AiGateway.CallbackRetry
