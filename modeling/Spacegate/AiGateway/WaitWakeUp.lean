import Spacegate.AiGateway.Wait
import Spacegate.Foundation.Trace

/-!
# Waking up the calls that wait

A call looks for the result before it subscribes and not again afterwards.  A message that is
published in between is lost for it, and it waits for a result that is there.  It does not look
for the result at its timeout either.  Between these gaps nothing is lost: while no message is
published for a call that has looked and not yet subscribed, and no timer fires while a
notification is under way, a call never waits for a result that is there.
-/

namespace Spacegate.AiGateway.Wait

open Foundation Function
open Queue (Outcome StoredResult)

variable {ι κ : Type} (cfg : Config) (requests : ι → Request) (stored : κ → StoredResult)

/-! ## What is promised -/

def keyOf (i : ι) : String :=
  cfg.resultKey (requests i).jobId

def channelOf (i : ι) : String :=
  cfg.resultChannel (requests i).jobId

variable (s : State ι κ)

def Stored (i : ι) : Prop :=
  (s.results (keyOf cfg requests i)).isSome

/-- A `store_result` for the job stands between its two commands. -/
def Publishing (i : ι) : Prop :=
  ∃ k, (stored k).jobId = (requests i).jobId ∧ s.writes k = .publish

/-- A notification for the call is still to be published or to be dispatched. -/
def InFlight (i : ι) : Prop :=
  Publishing requests stored s i ∨ s.listening = true ∧ channelOf cfg requests i ∈ s.inbox

/-- No call waits in vain, and none that could have had its result has got the answer of a
timeout, or the one of a missing result. -/
structure NoLostWakeUp (s : State ι κ) : Prop where
  waits : ∀ i deadline, s.calls i = .waiting deadline → s.notified i = false →
    Stored cfg requests s i → InFlight cfg requests stored s i
  timesOut : ∀ i deadline time, s.calls i = .returned (.timedOut deadline) →
    (keyOf cfg requests i, time) ∈ s.stores → deadline ≤ time
  misses : ∀ i, s.calls i ≠ .returned .missing

/-! ## What is asked of a run -/

/-- No message is published while a call for the job has looked for the result and not yet
subscribed; publishing does not fail while one waits, and the answer to the writing of a result
is not lost before all of them have returned.  No timer fires while a notification for its call
is in flight.  The dispatch loop goes on, and results do not expire before their calls have
returned. -/
def Orderly : Action ι κ → Prop
  | .write k outcome =>
    ∀ i, (requests i).jobId = (stored k).jobId →
      match s.writes k, s.calls i with
      | .set, phase => outcome = .lost → phase.isReturned = true
      | .publish, .register | .publish, .subscribe => False
      | .publish, .waiting _ => outcome ≠ .failed
      | _, _ => True
  | .timer i =>
    ∀ deadline, s.calls i = .waiting deadline → deadline ≤ s.now → s.notified i = false →
      ¬ InFlight cfg requests stored s i
  | .receiveError => False
  | .expire key => ∀ i, keyOf cfg requests i = key → (s.calls i).isReturned = true
  | .tick _ | .operate _ _ _ | .dispatch => True

/-! ## The invariant -/

/-- What is known of a call before its next operation. -/
def PhaseInv (i : ι) : Phase → Prop
  | .check => s.notified i = false ∧ ∀ channel, i ∉ s.waiters channel
  | .register =>
    s.notified i = false ∧ (∀ channel, i ∉ s.waiters channel) ∧
      channelOf cfg requests i ∉ s.inbox ∧
        (Stored cfg requests s i → Publishing requests stored s i)
  | .subscribe =>
    s.notified i = false ∧ i ∈ s.waiters (channelOf cfg requests i) ∧
      channelOf cfg requests i ∉ s.inbox ∧
        (Stored cfg requests s i → Publishing requests stored s i)
  | .waiting _ =>
    s.subscribed (channelOf cfg requests i) = true ∧
      (s.notified i = false → i ∈ s.waiters (channelOf cfg requests i) ∧
        (Stored cfg requests s i → InFlight cfg requests stored s i)) ∧
      (s.notified i = true → Stored cfg requests s i)
  | .reload => Stored cfg requests s i
  | .returned (.timedOut deadline) =>
    deadline ≤ s.now ∧ ∀ time, (keyOf cfg requests i, time) ∈ s.stores → deadline ≤ time
  | .returned .missing => False
  | .returned _ => True

structure CallInv (s : State ι κ) (i : ι) : Prop where
  listening : s.listening = true
  /-- The sender of a call is registered for its own channel. -/
  own : ∀ channel, i ∈ s.waiters channel → channel = channelOf cfg requests i
  /-- As long as the call goes on, what was written is there. -/
  kept : (s.calls i).isReturned = false →
    (∃ time, (keyOf cfg requests i, time) ∈ s.stores) ∨ InFlight cfg requests stored s i →
      Stored cfg requests s i
  phase : PhaseInv cfg requests stored s i (s.calls i)

def Inv : Prop :=
  ∀ i, CallInv cfg requests stored s i

variable {cfg requests stored} {s s' : State ι κ}

theorem inv_init : Inv cfg requests stored (State.init : State ι κ) := by
  intro i
  refine ⟨rfl, ?_, ?_, ?_⟩
  · intro channel h
    simp [State.init] at h
  · rintro - (⟨time, h⟩ | ⟨k, -, h⟩ | ⟨-, h⟩)
    · simp [State.init] at h
    · cases h
    · simp [State.init] at h
  · exact ⟨rfl, fun channel => by simp [State.init]⟩

theorem Inv.noLostWakeUp (h : Inv cfg requests stored s) : NoLostWakeUp cfg requests stored s where
  waits := by
    intro i deadline hc hn hs
    have hp := (h i).phase
    rw [hc] at hp
    exact (hp.2.1 hn).2 hs
  timesOut := by
    intro i deadline time hc ht
    have hp := (h i).phase
    rw [hc] at hp
    exact hp.2 time ht
  misses := by
    intro i hc
    have hp := (h i).phase
    rw [hc] at hp
    exact hp

/-! ## Steps that do not concern a call -/

/-- The part of the state a call depends on is the same, but for the time and more
subscriptions. -/
structure SameFor (cfg : Config) (requests : ι → Request) (stored : κ → StoredResult)
    (s s' : State ι κ) (i : ι) : Prop where
  calls : s'.calls i = s.calls i
  now : s.now ≤ s'.now
  results : s'.results (keyOf cfg requests i) = s.results (keyOf cfg requests i)
  stores : ∀ time, (keyOf cfg requests i, time) ∈ s'.stores ↔
    (keyOf cfg requests i, time) ∈ s.stores
  publishing : Publishing requests stored s' i ↔ Publishing requests stored s i
  inbox : channelOf cfg requests i ∈ s'.inbox ↔ channelOf cfg requests i ∈ s.inbox
  subscribed : s.subscribed (channelOf cfg requests i) = true →
    s'.subscribed (channelOf cfg requests i) = true
  listening : s'.listening = s.listening
  waiters : ∀ channel, i ∈ s'.waiters channel ↔ i ∈ s.waiters channel
  notified : s'.notified i = s.notified i

theorem SameFor.refl (s : State ι κ) (i : ι) : SameFor cfg requests stored s s i where
  calls := rfl
  now := Nat.le_refl _
  results := rfl
  stores := fun _ => Iff.rfl
  publishing := Iff.rfl
  inbox := Iff.rfl
  subscribed := id
  listening := rfl
  waiters := fun _ => Iff.rfl
  notified := rfl

variable {i : ι}

theorem SameFor.stored_iff (h : SameFor cfg requests stored s s' i) :
    Stored cfg requests s' i ↔ Stored cfg requests s i := by
  rw [Stored, Stored, h.results]

theorem SameFor.inFlight_iff (h : SameFor cfg requests stored s s' i) :
    InFlight cfg requests stored s' i ↔ InFlight cfg requests stored s i := by
  rw [InFlight, InFlight, h.publishing, h.inbox, h.listening]

theorem CallInv.same (hInv : CallInv cfg requests stored s i)
    (h : SameFor cfg requests stored s s' i) : CallInv cfg requests stored s' i := by
  refine ⟨h.listening.trans hInv.listening, ?_, ?_, ?_⟩
  · intro channel hMem
    exact hInv.own channel ((h.waiters channel).mp hMem)
  · rw [h.calls, h.stored_iff, h.inFlight_iff]
    simpa only [h.stores] using hInv.kept
  · have hp := hInv.phase
    rw [h.calls]
    generalize s.calls i = phase at hp ⊢
    cases phase with
    | check => simpa only [PhaseInv, h.notified, h.waiters] using hp
    | register | subscribe =>
      simpa only [PhaseInv, h.notified, h.waiters, h.inbox, h.stored_iff, h.publishing] using hp
    | waiting deadline =>
      refine ⟨h.subscribed hp.1, ?_⟩
      simpa only [h.notified, h.waiters, h.stored_iff, h.inFlight_iff] using hp.2
    | reload => exact h.stored_iff.mpr hp
    | returned answer =>
      cases answer with
      | timedOut deadline =>
        refine ⟨Nat.le_trans hp.1 h.now, ?_⟩
        simpa only [h.stores] using hp.2
      | missing => exact hp
      | result result => trivial
      | failed error => trivial

/-! ## Operations of a call -/

theorem sameFor_addWaiter {i j : ι} (h : i ≠ j) (channel : String) :
    SameFor cfg requests stored s (s.addWaiter channel j) i := by
  refine { SameFor.refl s i with waiters := ?_ }
  intro channel'
  by_cases hc : channel' = channel
  · subst hc
    simp [State.addWaiter, h]
  · simp [State.addWaiter, update_of_ne hc]

theorem sameFor_addSubscription (i : ι) (channel : String) :
    SameFor cfg requests stored s (s.addSubscription channel) i := by
  refine { SameFor.refl s i with subscribed := ?_ }
  intro hs
  by_cases hc : channelOf cfg requests i = channel
  · simp [State.addSubscription, hc]
  · simpa [State.addSubscription, update_of_ne hc] using hs

variable {outcome : Outcome} {message : String}

theorem phaseInv_load {absent : Phase}
    (h : ¬ Stored cfg requests s i → PhaseInv cfg requests stored s i absent) :
    PhaseInv cfg requests stored s i (load cfg s (requests i).jobId outcome message absent) := by
  unfold load
  split_ifs with hd
  · cases hr : s.results (cfg.resultKey (requests i).jobId) with
    | some result => trivial
    | none =>
      refine h ?_
      rw [Stored, keyOf, hr]
      simp
  · trivial

section Calls

variable [DecidableEq ι]

theorem calls_setCall_self (s : State ι κ) (i : ι) (phase : Phase) :
    (s.setCall i phase).calls i = phase :=
  update_self ..

theorem sameFor_setCall {i j : ι} (h : i ≠ j) (phase : Phase) :
    SameFor cfg requests stored s (s.setCall j phase) i :=
  { SameFor.refl s i with calls := update_of_ne h _ _ }

theorem CallInv.setCall {phase : Phase} (h : CallInv cfg requests stored s i)
    (ho : phase.isReturned = false → (s.calls i).isReturned = false)
    (hp : PhaseInv cfg requests stored s i phase) :
    CallInv cfg requests stored (s.setCall i phase) i := by
  refine ⟨h.listening, h.own, ?_, ?_⟩
  · rw [calls_setCall_self]
    exact fun hr => h.kept (ho hr)
  · rw [calls_setCall_self]
    cases phase with
    | returned answer => cases answer <;> exact hp
    | _ => exact hp

variable (h : Inv cfg requests stored s)
include h

theorem Inv.setCall {phase : Phase} (ho : phase.isReturned = false → (s.calls i).isReturned = false)
    (hp : PhaseInv cfg requests stored s i phase) :
    Inv cfg requests stored (s.setCall i phase) := by
  intro j
  by_cases hj : j = i
  · subst hj
    exact (h j).setCall ho hp
  · exact (h j).same (sameFor_setCall hj phase)

theorem Inv.register (hCall : s.calls i = .register) :
    Inv cfg requests stored ((s.addWaiter (channelOf cfg requests i) i).setCall i .subscribe) := by
  intro j
  by_cases hj : j = i
  · subst hj
    have hPhase := (h j).phase
    rw [hCall] at hPhase
    obtain ⟨hn, hw, hi, hp⟩ := hPhase
    refine ⟨(h j).listening, ?_, ?_, ?_⟩
    · intro channel hMem
      by_contra hc
      refine hw channel ?_
      simpa [State.setCall, State.addWaiter, update_of_ne hc] using hMem
    · exact fun _ => (h j).kept (by rw [hCall]; rfl)
    · rw [calls_setCall_self]
      refine ⟨hn, ?_, hi, hp⟩
      simp [State.setCall, State.addWaiter]
  · exact ((h j).same (sameFor_addWaiter hj _)).same (sameFor_setCall hj _)

theorem Inv.subscribe (hc : s.calls i = .subscribe) :
    Inv cfg requests stored (Wait.operate cfg requests s i outcome message .subscribe) := by
  have hPhase := (h i).phase
  rw [hc] at hPhase
  obtain ⟨hn, hw, -, hp⟩ := hPhase
  simp only [Wait.operate]
  by_cases hd : outcome = .done
  · subst hd
    have hInv : Inv cfg requests stored
        (s.addSubscription (cfg.resultChannel (requests i).jobId)) :=
      fun j => (h j).same (sameFor_addSubscription j _)
    refine hInv.setCall (fun _ => by rw [show (s.addSubscription _).calls i = _ from hc]; rfl) ?_
    refine ⟨update_self .., fun _ => ⟨hw, ?_⟩, ?_⟩
    · exact fun hs => .inl (hp hs)
    · intro ht
      rw [show (s.addSubscription _).notified i = s.notified i from rfl, hn] at ht
      cases ht
  · rw [if_neg hd]
    split_ifs with hFailed
    · exact h.setCall (fun hf => by cases hf) trivial
    · have hInv : Inv cfg requests stored
          (s.addSubscription (cfg.resultChannel (requests i).jobId)) :=
        fun j => (h j).same (sameFor_addSubscription j _)
      exact hInv.setCall (fun hf => by cases hf) trivial

theorem Inv.operate :
    Inv cfg requests stored (operate cfg requests s i outcome message (s.calls i)) := by
  have hp := (h i).phase
  cases hc : s.calls i with
  | check =>
    rw [hc] at hp
    refine h.setCall (fun _ => by rw [hc]; rfl) (phaseInv_load ?_)
    intro hNot
    refine ⟨hp.1, hp.2, ?_, fun hs => absurd hs hNot⟩
    intro hi
    exact hNot ((h i).kept (by rw [hc]; rfl) (.inr (.inr ⟨(h i).listening, hi⟩)))
  | register => exact h.register hc
  | subscribe => exact h.subscribe hc
  | waiting deadline =>
    rw [hc] at hp
    simp only [Wait.operate]
    split_ifs with hn
    · exact h.setCall (fun _ => by rw [hc]; rfl) (hp.2.2 hn)
    · exact h
  | reload =>
    rw [hc] at hp
    refine h.setCall (fun _ => by rw [hc]; rfl) (phaseInv_load ?_)
    exact fun hNot => absurd hp hNot
  | returned answer => exact h

theorem Inv.timer {deadline : Nat} (hc : s.calls i = .waiting deadline) (hd : deadline ≤ s.now)
    (hn : s.notified i = false) (hf : ¬ InFlight cfg requests stored s i) :
    Inv cfg requests stored (s.setCall i (.returned (.timedOut deadline))) := by
  have hp := (h i).phase
  rw [hc] at hp
  refine h.setCall (fun hFalse => by cases hFalse) ⟨hd, ?_⟩
  intro time ht
  have hs := (h i).kept (by rw [hc]; rfl) (.inl ⟨time, ht⟩)
  exact absurd ((hp.2.1 hn).2 hs) hf

omit h

end Calls

/-! ## Writing and publishing -/

theorem resultKey_inj {jobId jobId' : String} :
    cfg.resultKey jobId = cfg.resultKey jobId' ↔ jobId = jobId' := by
  simp [Config.resultKey]

theorem resultChannel_inj {jobId jobId' : String} :
    cfg.resultChannel jobId = cfg.resultChannel jobId' ↔ jobId = jobId' := by
  simp [Config.resultChannel]

theorem sameFor_store {key : String} (h : keyOf cfg requests i ≠ key)
    (result : StoredResult) : SameFor cfg requests stored s (s.store key result) i := by
  refine { SameFor.refl s i with results := update_of_ne h _ _, stores := ?_ }
  simp [State.store, h]

theorem sameFor_receive {channel : String} (h : channelOf cfg requests i ≠ channel) :
    SameFor cfg requests stored s (s.receive channel) i := by
  unfold State.receive
  split_ifs with hs
  · exact { SameFor.refl s i with inbox := by simp [h] }
  · exact .refl s i

section Writes

variable [DecidableEq κ] {writing : Writing} {k : κ} {outcome : Outcome}
  (h : (stored k).jobId = (requests i).jobId → (writing = .publish ↔ s.writes k = .publish))
include h

theorem publishing_setWrite :
    Publishing requests stored (s.setWrite k writing) i ↔ Publishing requests stored s i := by
  refine exists_congr fun k' => and_congr_right fun hJob => ?_
  show Function.update s.writes k writing k' = .publish ↔ s.writes k' = .publish
  by_cases hk : k' = k
  · subst hk
    rw [update_self]
    exact h hJob
  · rw [update_of_ne hk]

theorem sameFor_setWrite : SameFor cfg requests stored s (s.setWrite k writing) i := by
  have hr : SameFor cfg requests stored s s i := .refl s i
  exact { hr with publishing := publishing_setWrite h }

omit h

variable (hInv : CallInv cfg requests stored s i)
include hInv

/-- A write for another job. -/
theorem CallInv.write_other (h : (stored k).jobId ≠ (requests i).jobId) :
    CallInv cfg requests stored (write cfg stored s k outcome writing) i := by
  have hSet : ∀ {t : State ι κ} (writing : Writing), CallInv cfg requests stored t i →
      CallInv cfg requests stored (t.setWrite k writing) i :=
    fun _ ht => ht.same (sameFor_setWrite fun hJob => absurd hJob h)
  cases writing with
  | set =>
    have hKey : keyOf cfg requests i ≠ cfg.resultKey (stored k).jobId := by
      rw [keyOf, Ne, resultKey_inj]
      exact Ne.symm h
    refine hSet _ ?_
    split_ifs with hf
    · exact hInv
    · exact hInv.same (sameFor_store hKey _)
  | publish =>
    have hc : channelOf cfg requests i ≠ cfg.resultChannel (stored k).jobId := by
      rw [channelOf, Ne, resultChannel_inj]
      exact Ne.symm h
    refine hSet _ ?_
    split_ifs with hf
    · exact hInv
    · exact hInv.same (sameFor_receive hc)
  | returned => exact hInv

/-- The result of the call's job is written, and unless the call has returned a message is to
follow. -/
theorem CallInv.store {result : StoredResult}
    (hNext : (s.calls i).isReturned = false → (stored k).jobId = (requests i).jobId ∧
      writing = .publish) :
    CallInv cfg requests stored ((s.store (keyOf cfg requests i) result).setWrite k writing) i := by
  have hs : Stored cfg requests ((s.store (keyOf cfg requests i) result).setWrite k writing) i := by
    simp [Stored, State.setWrite, State.store]
  have hPublishing : (s.calls i).isReturned = false →
      Publishing requests stored
        ((s.store (keyOf cfg requests i) result).setWrite k writing) i := by
    intro ho
    obtain ⟨hJob, rfl⟩ := hNext ho
    exact ⟨k, hJob, update_self ..⟩
  refine ⟨hInv.listening, hInv.own, fun _ _ => hs, ?_⟩
  show PhaseInv cfg requests stored _ i (s.calls i)
  have hp := hInv.phase
  generalize s.calls i = phase at hp hPublishing ⊢
  cases phase with
  | check => exact hp
  | register | subscribe => exact ⟨hp.1, hp.2.1, hp.2.2.1, fun _ => hPublishing rfl⟩
  | waiting deadline =>
    refine ⟨hp.1, ?_, fun _ => hs⟩
    exact fun hn => ⟨(hp.2.1 hn).1, fun _ => .inl (hPublishing rfl)⟩
  | reload => exact hs
  | returned answer =>
    cases answer with
    | timedOut deadline =>
      refine ⟨hp.1, ?_⟩
      intro time ht
      rcases List.mem_cons.mp ht with hNow | he
      · rw [(Prod.mk.inj hNow).2]
        exact hp.1
      · exact hp.2 time he
    | missing => exact hp
    | result result => trivial
    | failed error => trivial

theorem CallInv.set (h : (stored k).jobId = (requests i).jobId) (hw : s.writes k = .set)
    (hl : outcome = .lost → (s.calls i).isReturned = true) :
    CallInv cfg requests stored (write cfg stored s k outcome .set) i := by
  have hKey : cfg.resultKey (stored k).jobId = keyOf cfg requests i := by rw [h, keyOf]
  simp only [Wait.write, hKey]
  cases outcome with
  | failed => exact hInv.same (sameFor_setWrite fun _ => by simp [hw])
  | lost =>
    refine hInv.store fun ho => ?_
    rw [hl rfl] at ho
    cases ho
  | done => exact hInv.store fun _ => ⟨h, rfl⟩

omit hInv

theorem exists_write_publish (cfg : Config) (stored : κ → StoredResult) (s : State ι κ) (k : κ)
    (outcome : Outcome) : ∃ inbox writes, write cfg stored s k outcome .publish =
      { s with inbox := inbox, writes := writes } ∧
        (outcome ≠ .failed → s.subscribed (cfg.resultChannel (stored k).jobId) = true →
          cfg.resultChannel (stored k).jobId ∈ inbox) := by
  simp only [Wait.write, State.receive]
  split_ifs with hf hs
  · exact ⟨s.inbox, _, rfl, fun hNot => absurd hf hNot⟩
  · exact ⟨_, _, rfl, fun _ _ => by simp⟩
  · exact ⟨s.inbox, _, rfl, fun _ ht => absurd ht hs⟩

/-- A message is published on the call's channel. -/
theorem CallInv.publish (hInv : CallInv cfg requests stored s i)
    (h : (stored k).jobId = (requests i).jobId) (hw : s.writes k = .publish)
    (hl : s.calls i ≠ .register ∧ s.calls i ≠ .subscribe)
    (hWaits : ∀ deadline, s.calls i = .waiting deadline → outcome ≠ .failed) :
    CallInv cfg requests stored (write cfg stored s k outcome .publish) i := by
  -- the message was under way before, so the result is there as long as the call goes on
  have hs : (s.calls i).isReturned = false → Stored cfg requests s i :=
    fun ho => hInv.kept ho (.inr (.inl ⟨k, h, hw⟩))
  obtain ⟨inbox, writes, hState, hi⟩ := exists_write_publish cfg stored s k outcome
  have hChannel : cfg.resultChannel (stored k).jobId = channelOf cfg requests i := by
    rw [h, channelOf]
  rw [hChannel] at hi
  rw [hState]
  refine ⟨hInv.listening, hInv.own, fun ho _ => hs ho, ?_⟩
  have hp := hInv.phase
  show PhaseInv cfg requests stored _ i (s.calls i)
  generalize s.calls i = phase at hp hl hWaits ⊢
  cases phase with
  | check | reload => exact hp
  | register => exact absurd rfl hl.1
  | subscribe => exact absurd rfl hl.2
  | waiting deadline =>
    have hr := hi (hWaits deadline rfl) hp.1
    refine ⟨hp.1, fun hn => ⟨(hp.2.1 hn).1, fun _ => ?_⟩, hp.2.2⟩
    exact .inr ⟨hInv.listening, hr⟩
  | returned answer => cases answer <;> exact hp

theorem Inv.write (h : Inv cfg requests stored s)
    (ho : Orderly cfg requests stored s (.write k outcome)) :
    Inv cfg requests stored (write cfg stored s k outcome (s.writes k)) := by
  intro i
  by_cases hJob : (stored k).jobId = (requests i).jobId
  · have hs := ho i hJob.symm
    cases hw : s.writes k with
    | set =>
      rw [hw] at hs
      exact (h i).set hJob hw hs
    | publish =>
      rw [hw] at hs
      refine (h i).publish hJob hw ⟨?_, ?_⟩ ?_
      · intro hc
        rw [hc] at hs
        exact hs
      · intro hc
        rw [hc] at hs
        exact hs
      · intro deadline hc
        rw [hc] at hs
        exact hs
    | returned => exact h i
  · exact (h i).write_other hJob

end Writes

/-! ## The dispatch loop -/

section Dispatch

variable [DecidableEq ι]

/-- A message on the call's channel is dispatched.  A call that waits is registered. -/
theorem CallInv.notify {inbox : List String} (hInv : CallInv cfg requests stored s i)
    (hi : s.inbox = channelOf cfg requests i :: inbox) : CallInv cfg requests stored
      ({ s with inbox := inbox }.notify (channelOf cfg requests i)) i := by
  have hMem : channelOf cfg requests i ∈ s.inbox := by rw [hi]; exact List.mem_cons_self
  have hs : (s.calls i).isReturned = false → Stored cfg requests s i :=
    fun ho => hInv.kept ho (.inr (.inr ⟨hInv.listening, hMem⟩))
  have hw : ∀ channel, i ∈ ({ s with inbox := inbox }.notify
      (channelOf cfg requests i)).waiters channel → i ∈ s.waiters channel := by
    intro channel hIn
    by_cases hChannel : channel = channelOf cfg requests i
    · subst hChannel
      simp [State.notify] at hIn
    · simpa [State.notify, update_of_ne hChannel] using hIn
  refine ⟨hInv.listening, fun channel hIn => hInv.own channel (hw channel hIn),
    fun ho _ => hs ho, ?_⟩
  show PhaseInv cfg requests stored _ i (s.calls i)
  have hp := hInv.phase
  generalize s.calls i = phase at hp hs ⊢
  cases phase with
  | check =>
    refine ⟨?_, fun channel hIn => hp.2 channel (hw channel hIn)⟩
    simp [State.notify, hp.1, hp.2]
  | register | subscribe => exact absurd hMem hp.2.2.1
  | waiting deadline =>
    refine ⟨hp.1, ?_, fun _ => hs rfl⟩
    intro hNot
    have hn' : s.notified i = false ∧ i ∉ s.waiters (channelOf cfg requests i) := by
      simpa [State.notify] using hNot
    exact absurd (hp.2.1 hn'.1).1 hn'.2
  | reload => exact hp
  | returned answer => cases answer <;> exact hp

theorem Inv.dispatch {channel : String} {inbox : List String} (h : Inv cfg requests stored s)
    (hi : s.inbox = channel :: inbox) :
    Inv cfg requests stored ({ s with inbox := inbox }.notify channel) := by
  intro i
  by_cases hc : channelOf cfg requests i = channel
  · subst hc
    exact (h i).notify hi
  · -- the call is not registered for this channel
    have hOut : i ∉ s.waiters channel := fun hMem => hc ((h i).own channel hMem).symm
    refine (h i).same { SameFor.refl s i with inbox := ?_, waiters := ?_, notified := ?_ }
    · rw [hi]
      simp [State.notify, hc]
    · intro channel'
      by_cases ho : channel' = channel
      · subst ho
        simp [State.notify, hOut]
      · simp [State.notify, update_of_ne ho]
    · simp [State.notify, hOut]

end Dispatch

/-! ## Runs -/

variable (h : Inv cfg requests stored s)
include h

theorem Inv.tick (ms : Nat) : Inv cfg requests stored { s with now := s.now + ms } :=
  fun i => (h i).same { SameFor.refl s i with now := Nat.le_add_right _ _ }

theorem Inv.expire {key : String}
    (hr : ∀ i, keyOf cfg requests i = key → (s.calls i).isReturned = true) :
    Inv cfg requests stored { s with results := Function.update s.results key none } := by
  intro i
  by_cases hKey : keyOf cfg requests i = key
  · have ho := hr i hKey
    refine ⟨(h i).listening, (h i).own, fun hOpen => ?_, ?_⟩
    · rw [ho] at hOpen
      cases hOpen
    · show PhaseInv cfg requests stored _ i (s.calls i)
      have hp := (h i).phase
      cases hc : s.calls i with
      | returned answer =>
        rw [hc] at hp
        cases answer <;> exact hp
      | _ =>
        rw [hc] at ho
        cases ho
  · exact (h i).same { SameFor.refl s i with results := update_of_ne hKey _ _ }

variable [DecidableEq ι] [DecidableEq κ]

theorem Inv.step {action : Action ι κ} (ho : Orderly cfg requests stored s action) :
    Inv cfg requests stored (step cfg requests stored s action) := by
  cases action with
  | tick ms => exact h.tick ms
  | operate i outcome message => exact h.operate
  | timer i =>
    simp only [Wait.step]
    cases hc : s.calls i with
    | waiting deadline =>
      simp only []
      split_ifs with hf
      · exact h.timer hc hf.1 hf.2 (ho deadline hc hf.1 hf.2)
      · exact h
    | _ => exact h
  | write k outcome => exact h.write ho
  | dispatch =>
    simp only [Wait.step]
    cases hi : s.inbox with
    | nil => exact h
    | cons channel inbox =>
      split_ifs with hl
      · exact h.dispatch hi
      · exact h
  | receiveError => exact absurd ho id
  | expire key => exact h.expire ho

theorem Inv.run {actions : List (Action ι κ)}
    (ho : Trace.Along (Wait.step cfg requests stored) (Orderly cfg requests stored) s
      actions) : Inv cfg requests stored (run cfg requests stored s actions) :=
  ho.foldl h fun _ _ h => h.step

omit h

/-- In an orderly run no wake-up is lost. -/
theorem noLostWakeUp_of_orderly (cfg : Config) (requests : ι → Request)
    (stored : κ → StoredResult) (actions : List (Action ι κ))
    (hOrderly : Trace.Along (Wait.step cfg requests stored) (Orderly cfg requests stored)
      State.init actions) :
    ∀ earlier later, actions = earlier ++ later →
      NoLostWakeUp cfg requests stored (run cfg requests stored State.init earlier) := by
  rintro earlier later rfl
  exact (inv_init.run (Trace.along_append.mp hOrderly).1).noLostWakeUp

/-! ## One call and one write -/

def oneCall : Unit → Request :=
  fun _ => { jobId := "job", timeoutMs := 1000 }

def oneResult : Unit → StoredResult :=
  fun _ => { jobId := "job", status := "completed", httpStatus := 200, headers := [], body := []
             completedAtMs := 0, error := none }

def prefixed : Config where
  resultKeyPrefix := "ai:result:"
  resultChannelPrefix := "ai:result:channel:"

/-- The call goes on, and so does the write. -/
def goesOn : Action Unit Unit := .operate () .done ""

def writes : Action Unit Unit := .write () .done

/-- The call has subscribed when the result is written and published. -/
def publishedLater : List (Action Unit Unit) :=
  [goesOn, goesOn, goesOn, writes, writes, .dispatch, goesOn, goesOn]

/-- The result is written and published after the call has looked for it, and before it
subscribes. -/
def publishedEarly : List (Action Unit Unit) :=
  [goesOn, writes, writes, goesOn, goesOn]

/-- The call gets its result. -/
theorem publishedLater_noLostWakeUp :
    NoLostWakeUp prefixed oneCall oneResult (run prefixed oneCall oneResult .init publishedLater) ∧
    (run prefixed oneCall oneResult .init publishedLater).calls () =
      .returned (.result (oneResult ())) := by
  refine ⟨noLostWakeUp_of_orderly prefixed oneCall oneResult publishedLater ?_ publishedLater []
    (List.append_nil _).symm, rfl⟩
  refine ⟨trivial, trivial, trivial, ?_, ?_, trivial, trivial, trivial, trivial⟩
  · intro i _ hl
    cases hl
  · intro i _ hf
    cases hf

/-- The result is there, no notification is in flight, and the call waits; it gets the answer of
a timeout. -/
theorem publishedEarly_lost :
    (run prefixed oneCall oneResult .init publishedEarly).calls () = .waiting 1000 ∧
    ¬ NoLostWakeUp prefixed oneCall oneResult
      (run prefixed oneCall oneResult .init publishedEarly) ∧
    (run prefixed oneCall oneResult .init (publishedEarly ++ [.tick 1000, .timer ()])).calls () =
      .returned (.timedOut 1000) := by
  refine ⟨rfl, ?_, rfl⟩
  intro h
  rcases h.waits () 1000 rfl rfl rfl with ⟨k, -, hp⟩ | ⟨-, hi⟩
  · cases hp
  · cases hi

end Spacegate.AiGateway.Wait
