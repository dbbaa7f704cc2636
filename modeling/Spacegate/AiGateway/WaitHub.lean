import Spacegate.AiGateway.WaitWakeUp

/-!
# What waiting calls leave in the hub

The sender of a call is taken from the map by the dispatch loop only, and no channel is ever
unsubscribed.  So a call that ends otherwise leaves its sender behind, and the last call that
waits on a channel leaves the subscription.
-/

namespace Spacegate.AiGateway.Wait

open Foundation Function Phase List
open Queue (Outcome StoredResult)

/-- The call has registered its sender and has not returned from `wait_for_channel`. -/
def Phase.inHub : Phase → Bool
  | .subscribe | .waiting _ => true
  | _ => false

variable {ι κ : Type}

/-- The call that returns from `wait_for_channel`. -/
def leaves (s : State ι κ) : Action ι κ → Option ι
  | .operate i outcome _ =>
    match s.calls i with
    | .subscribe => if outcome = .done then none else some i
    | .waiting _ => if s.notified i then some i else none
    | _ => none
  | .timer i =>
    match s.calls i with
    | .waiting deadline => if deadline ≤ s.now ∧ s.notified i = false then some i else none
    | _ => none
  | _ => none

variable (cfg : Config) (requests : ι → Request) (stored : κ → StoredResult)

/-- A call that waits for messages on a channel. -/
def WaitsOn (s : State ι κ) (channel : String) (i : ι) : Prop :=
  (s.calls i).inHub = true ∧ channelOf cfg requests i = channel

/-- The map has one sender at most for each call that waits, and no other ones; every channel
that is in the map or subscribed has a call that waits. -/
structure Clean (s : State ι κ) : Prop where
  senders : ∀ channel i, i ∈ s.waiters channel → WaitsOn cfg requests s channel i
  once : ∀ channel, (s.waiters channel).Nodup
  channels : ∀ channel, s.waiters channel ≠ [] ∨ s.subscribed channel = true →
    ∃ i, WaitsOn cfg requests s channel i

/-- A call returns only after its sender was used, and while another call waits on its
channel. -/
def LeavesOthers (s : State ι κ) (action : Action ι κ) : Prop :=
  ∀ i, leaves s action = some i → s.notified i = true ∧
    ∃ j ≠ i, WaitsOn cfg requests s (channelOf cfg requests i) j

/-- What the steps keep.  A sender is in the map from its registration until it is used. -/
structure Hub (s : State ι κ) : Prop where
  senders : ∀ channel i, i ∈ s.waiters channel ↔
    WaitsOn cfg requests s channel i ∧ s.notified i = false
  once : ∀ channel, (s.waiters channel).Nodup
  channels : ∀ channel, s.subscribed channel = true → ∃ i, WaitsOn cfg requests s channel i
  fresh : ∀ i, s.calls i = .check ∨ s.calls i = .register → s.notified i = false
  subscribed : ∀ i, s.notified i = true → s.subscribed (channelOf cfg requests i) = true
  inbox : ∀ channel ∈ s.inbox, s.subscribed channel = true

variable {cfg requests stored} {s s' : State ι κ} {i : ι}

theorem hub_init : Hub cfg requests (State.init : State ι κ) := by
  constructor <;> simp [State.init, WaitsOn, inHub]

theorem Hub.clean (h : Hub cfg requests s) : Clean cfg requests s where
  senders channel i hi := ((h.senders channel i).mp hi).1
  once := h.once
  channels := by
    rintro channel (hw | hs)
    · obtain ⟨i, hi⟩ := exists_mem_of_ne_nil _ hw
      exact ⟨i, ((h.senders channel i).mp hi).1⟩
    · exact h.channels channel hs

theorem Hub.frame (h : Hub cfg requests s) (hc : s'.calls = s.calls)
    (hw : s'.waiters = s.waiters) (hn : s'.notified = s.notified)
    (hs : s'.subscribed = s.subscribed)
    (hi : ∀ channel ∈ s'.inbox, s.subscribed channel = true) : Hub cfg requests s' := by
  obtain ⟨h₁, h₂, h₃, h₄, h₅, -⟩ := h
  unfold WaitsOn at h₁ h₃
  rw [← hc, ← hw, ← hn, ← hs] at *
  exact ⟨h₁, h₂, h₃, h₄, h₅, hi⟩

/-- The loading of a result does not lead back into the hub. -/
theorem inHub_load (s : State ι κ) (jobId : String) (outcome : Outcome) (message : String)
    {absent : Phase} (h : absent.inHub = false) :
    (load cfg s jobId outcome message absent).inHub = false := by
  unfold load
  split
  · split
    · rfl
    · exact h
  · rfl

theorem subscribed_addSubscription {channel other : String} (h : s.subscribed other = true) :
    (s.addSubscription channel).subscribed other = true := by
  simp only [State.addSubscription, update_apply]
  split_ifs
  · rfl
  · exact h

theorem Hub.addSubscription (h : Hub cfg requests s) (hi : (s.calls i).inHub = true) :
    Hub cfg requests (s.addSubscription (channelOf cfg requests i)) := by
  refine ⟨h.senders, h.once, fun channel hc => ?_, h.fresh,
    fun j hj => subscribed_addSubscription (h.subscribed j hj),
    fun channel hc => subscribed_addSubscription (h.inbox channel hc)⟩
  by_cases he : channelOf cfg requests i = channel
  · exact ⟨i, hi, he⟩
  · refine h.channels channel ?_
    simpa [State.addSubscription, update_of_ne (Ne.symm he)] using hc

variable [DecidableEq ι]

/-- A call goes on, and others wait on its channel if it did. -/
theorem Hub.setCall (h : Hub cfg requests s) {phase : Phase}
    (hf : phase = .check ∨ phase = .register → s.notified i = false)
    (hr : phase.inHub = true → (s.calls i).inHub = true)
    (hl : (s.calls i).inHub = true → phase.inHub = true ∨ s.notified i = true ∧
      ∃ j ≠ i, WaitsOn cfg requests s (channelOf cfg requests i) j) :
    Hub cfg requests (s.setCall i phase) := by
  have hOther : ∀ {j}, j ≠ i → (s.setCall i phase).calls j = s.calls j := fun hj =>
    update_of_ne hj _ _
  have hSelf : (s.setCall i phase).calls i = phase := update_self _ _ _
  refine ⟨fun channel j => ?_, h.once, fun channel hc => ?_, fun j hj => ?_, h.subscribed, h.inbox⟩
  · refine (h.senders channel j).trans (and_congr_left fun hn => and_congr_left fun _ => ?_)
    by_cases he : j = i
    · subst he
      rw [hSelf]
      exact ⟨fun hIn => (hl hIn).resolve_right fun hx => by simp [hn] at hx, hr⟩
    · rw [hOther he]
  · obtain ⟨j, hIn, hj⟩ := h.channels channel hc
    by_cases he : j = i
    · subst he
      rcases hl hIn with hp | ⟨-, k, hk, hw, hkc⟩
      · exact ⟨j, by rw [hSelf]; exact hp, hj⟩
      · exact ⟨k, by rw [hOther hk]; exact hw, hkc.trans hj⟩
    · exact ⟨j, by rw [hOther he]; exact hIn, hj⟩
  · by_cases he : j = i
    · subst he
      rw [hSelf] at hj
      exact hf hj
    · rw [hOther he] at hj
      exact h.fresh j hj

theorem Hub.register (h : Hub cfg requests s) (hc : s.calls i = .register) :
    Hub cfg requests ((s.addWaiter (channelOf cfg requests i) i).setCall i .subscribe) := by
  have hFresh := h.fresh i (.inr hc)
  have hNot : ∀ channel, i ∉ s.waiters channel := by
    intro channel hi
    simpa [WaitsOn, hc, inHub] using (h.senders channel i).mp hi
  have hOther : ∀ {j}, j ≠ i → ((s.addWaiter (channelOf cfg requests i) i).setCall i
      .subscribe).calls j = s.calls j := fun hj => update_of_ne hj _ _
  refine ⟨fun channel j => ?_, fun channel => ?_, fun channel hs => ?_, fun j hj => ?_,
    h.subscribed, h.inbox⟩
  · by_cases he : j = i
    · subst he
      by_cases hEq : channel = channelOf cfg requests j
      · simp [State.setCall, State.addWaiter, WaitsOn, inHub, hEq, hFresh]
      · simp [State.setCall, State.addWaiter, WaitsOn, hEq, Ne.symm hEq, hNot]
    · rw [WaitsOn, hOther he]
      by_cases hEq : channel = channelOf cfg requests i
      · simpa [State.setCall, State.addWaiter, hEq, he, WaitsOn] using h.senders _ j
      · simpa [State.setCall, State.addWaiter, hEq, WaitsOn] using h.senders channel j
  · simp only [State.setCall, State.addWaiter, update_apply]
    split_ifs
    · exact nodup_append.mpr ⟨h.once _, nodup_singleton i, by
        simpa using fun j hj => ne_of_mem_of_not_mem hj (hNot _)⟩
    · exact h.once channel
  · obtain ⟨j, hIn, hj⟩ := h.channels channel hs
    have he : j ≠ i := by
      rintro rfl
      rw [hc] at hIn
      cases hIn
    exact ⟨j, by rw [hOther he]; exact hIn, hj⟩
  · by_cases he : j = i
    · rw [he]
      exact hFresh
    · rw [hOther he] at hj
      exact h.fresh j hj

theorem Hub.notify (h : Hub cfg requests s) {channel : String}
    (hs : s.subscribed channel = true) : Hub cfg requests (s.notify channel) := by
  have hNotified : ∀ j, (s.notify channel).notified j = true ↔
      s.notified j = true ∨ j ∈ s.waiters channel := by
    simp [State.notify]
  refine ⟨fun other j => ?_, fun other => ?_, h.channels, fun j hj => ?_, fun j hn => ?_, h.inbox⟩
  · rw [← Bool.not_eq_true, hNotified, not_or, Bool.not_eq_true]
    by_cases he : other = channel
    · subst he
      simp only [State.notify, update_self, not_mem_nil, false_iff]
      exact fun hx => hx.2.2 ((h.senders other j).mpr ⟨hx.1, hx.2.1⟩)
    · -- a sender is registered for one channel only
      simp only [State.notify, update_of_ne he, h.senders]
      exact ⟨fun hx => ⟨hx.1, hx.2, fun hy => he (hx.1.2.symm.trans hy.1.2)⟩,
        fun hx => ⟨hx.1, hx.2.1⟩⟩
  · simp only [State.notify, update_apply]
    split_ifs
    · exact nodup_nil
    · exact h.once other
  · rw [← Bool.not_eq_true, hNotified, h.fresh j hj, h.senders]
    rcases hj with hj | hj <;> simp [WaitsOn, show s.calls j = _ from hj, inHub]
  · rcases (hNotified j).mp hn with hb | hb
    · exact h.subscribed j hb
    · rw [((h.senders channel j).mp hb).1.2]
      exact hs

variable [DecidableEq κ] {action : Action ι κ}

theorem Hub.step (h : Hub cfg requests s) (hl : LeavesOthers cfg requests s action) :
    Hub cfg requests (step cfg requests stored s action) := by
  cases action with
  | operate i outcome message =>
    have hLeave := hl i
    simp only [Wait.step]
    cases hc : s.calls i with
    | check =>
      refine h.setCall (fun _ => h.fresh i (.inl hc)) (fun hp => ?_) (by simp [hc, inHub])
      rw [inHub_load s _ outcome message rfl] at hp
      cases hp
    | register => exact h.register hc
    | subscribe =>
      have hIn : (s.calls i).inHub = true := by
        rw [hc]
        rfl
      have hs : Hub cfg requests (if outcome = .failed then s
          else s.addSubscription (channelOf cfg requests i)) := by
        split_ifs
        · exact h
        · exact h.addSubscription hIn
      have hCalls : ∀ j, ((if outcome = .failed then s
          else s.addSubscription (channelOf cfg requests i)).calls j) = s.calls j := by
        intro j
        split_ifs <;> rfl
      refine hs.setCall ?_ (fun _ => ?_) (fun _ => ?_)
      · split_ifs <;> simp
      · rw [hCalls]
        exact hIn
      · by_cases hd : outcome = .done
        · exact .inl (by rw [if_pos hd]; rfl)
        · obtain ⟨hn, j, hj, hw⟩ := hLeave (by simp [leaves, hc, hd])
          refine .inr ⟨by split_ifs <;> exact hn, j, hj, ?_, hw.2⟩
          rw [hCalls]
          exact hw.1
    | waiting deadline =>
      simp only [operate]
      split_ifs with hn
      · refine h.setCall (by simp) (by simp [inHub]) (fun _ => .inr ?_)
        exact hLeave (by simp [leaves, hc, hn])
      · exact h
    | reload =>
      refine h.setCall ?_ (fun hp => ?_) (by simp [hc, inHub])
      · simp only [load]
        split
        · split <;> simp
        · simp
      · rw [inHub_load s _ outcome message rfl] at hp
        cases hp
    | returned answer => exact h
  | timer i =>
    have hLeave := hl i
    simp only [Wait.step]
    split
    next deadline hc =>
      split_ifs with ht
      · refine h.setCall (by simp) (by simp [inHub]) (fun _ => .inr ?_)
        exact hLeave (by simp only [leaves, hc, if_pos ht])
      · exact h
    next => exact h
  | write k outcome =>
    simp only [Wait.step]
    cases s.writes k with
    | set =>
      simp only [write]
      split_ifs <;> exact h.frame rfl rfl rfl rfl h.inbox
    | publish =>
      simp only [write, State.receive]
      split_ifs with hf hs
      · exact h.frame rfl rfl rfl rfl h.inbox
      · refine h.frame rfl rfl rfl rfl fun channel hMem => ?_
        rcases mem_append.mp hMem with hb | hb
        · exact h.inbox channel hb
        · rw [mem_singleton.mp hb]
          exact hs
      · exact h.frame rfl rfl rfl rfl h.inbox
    | returned => exact h
  | dispatch =>
    simp only [Wait.step]
    split
    next channel inbox hi =>
      have hb : ∀ other ∈ channel :: inbox, s.subscribed other = true := hi ▸ h.inbox
      have hf : Hub cfg requests { s with inbox := inbox } :=
        h.frame rfl rfl rfl rfl fun other ho => hb other (mem_cons_of_mem _ ho)
      split_ifs
      · exact hf.notify (hb channel mem_cons_self)
      · exact h
    next => exact h
  | tick ms => exact h.frame rfl rfl rfl rfl h.inbox
  | receiveError => exact h.frame rfl rfl rfl rfl h.inbox
  | expire key => exact h.frame rfl rfl rfl rfl h.inbox

/-- A call that leaves is out of the hub, where at most a subscription is added. -/
theorem leaves_eq_some (hl : leaves s action = some i) :
    (s.calls i).inHub = true ∧ ∃ phase s', phase.inHub = false ∧
      step cfg requests stored s action = State.setCall s' i phase ∧ s'.calls = s.calls ∧
      s'.waiters = s.waiters ∧ ∀ channel, s.subscribed channel = true →
        s'.subscribed channel = true := by
  cases action with
  | operate j outcome message =>
    simp only [leaves] at hl
    split at hl
    next hc =>
      split_ifs at hl with hd
      cases hl
      refine ⟨by rw [hc]; rfl, _, _, rfl, by simp only [step, hc, operate, if_neg hd]; rfl, ?_⟩
      split_ifs
      · exact ⟨rfl, rfl, fun _ hs => hs⟩
      · exact ⟨rfl, rfl, fun _ => subscribed_addSubscription⟩
    next deadline hc =>
      split_ifs at hl with hn
      cases hl
      exact ⟨by rw [hc]; rfl, .reload, s, rfl, by simp only [step, hc, operate, if_pos hn], rfl,
        rfl, fun _ hs => hs⟩
    next => cases hl
  | timer j =>
    simp only [leaves] at hl
    split at hl
    next deadline hc =>
      split_ifs at hl with ht
      cases hl
      exact ⟨by rw [hc]; rfl, .returned (.timedOut deadline), s, rfl,
        by simp only [step, hc, if_pos ht], rfl, rfl, fun _ hs => hs⟩
    next => cases hl
  | _ => cases hl

theorem Hub.leavesOthers (h : Hub cfg requests s)
    (hc : Clean cfg requests (Wait.step cfg requests stored s action)) :
    LeavesOthers cfg requests s action := by
  intro i hl
  obtain ⟨hIn, phase, s', hOut, hStep, hCalls, hw, hs⟩ := leaves_eq_some hl
  rw [hStep] at hc
  have hSelf : ∀ channel, ¬ WaitsOn cfg requests (s'.setCall i phase) channel i := by
    rintro channel ⟨hi, -⟩
    simp [State.setCall, hOut] at hi
  have hn : s.notified i = true := by
    by_contra hn
    have hMem := (h.senders _ i).mpr ⟨⟨hIn, rfl⟩, by simpa using hn⟩
    rw [← hw] at hMem
    exact hSelf _ (hc.senders _ i hMem)
  obtain ⟨j, hj⟩ := hc.channels _ (.inr (hs _ (h.subscribed i hn)))
  have hne : j ≠ i := by
    rintro rfl
    exact hSelf _ hj
  refine ⟨hn, j, hne, ?_, hj.2⟩
  rw [← hCalls, ← update_of_ne hne phase s'.calls]
  exact hj.1

/-- The hub is clean in every state that is reached exactly if every call that returns leaves
another one on its channel, and was notified. -/
theorem clean_iff_leavesOthers (cfg : Config) (requests : ι → Request) (stored : κ → StoredResult)
    (actions : List (Action ι κ)) :
    (∀ earlier later, actions = earlier ++ later →
      Clean cfg requests (run cfg requests stored State.init earlier)) ↔
      Trace.Along (Wait.step cfg requests stored) (LeavesOthers cfg requests) State.init actions :=
  Trace.reached_iff_along (fun _ h => h.clean) (fun _ _ h hl => h.step hl)
    (fun _ _ h hc => h.leavesOthers hc) hub_init

/-- A single call that finds no result, and whose time is over at once. -/
def impatient : List (Action (Fin 1) (Fin 1)) :=
  let call : Fin 1 := ⟨0, Nat.one_pos⟩
  [.operate call .done "", .operate call .done "", .operate call .done "", .timer call]

/-- The call has returned, and its sender is still registered. -/
theorem impatient_not_clean :
    ¬ Clean ⟨"result:", "result:"⟩ (fun _ => ⟨"j1", 0⟩)
      (run ⟨"result:", "result:"⟩ (fun _ => ⟨"j1", 0⟩)
        (fun _ => ⟨"j1", "completed", 200, [], [], 0, none⟩) State.init impatient) :=
  fun h => absurd (h.senders "result:j1" 0 (by decide +kernel)).1 (by decide +kernel)

end Spacegate.AiGateway.Wait
