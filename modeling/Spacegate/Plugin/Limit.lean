import Mathlib.Tactic

/-!
# The script of the limit plugin

The script counts the calls for one plugin instance and client address.  A window begins
with the first call, and again with a call that exceeds the maximum after the window has
elapsed.  The time is looked at only when the maximum is exceeded, so the calls of a window
may all come at its end or long after it.  Two windows then meet in one interval, and the
most that passes in an interval as long as a window is one less than twice the maximum.
-/

namespace Spacegate.Plugin.Limit

open List

/-- The two keys of the script, as numbers. -/
structure Keys where
  /-- `KEYS[1]`. -/
  counter : Option Nat
  /-- `KEYS[2]`. -/
  lastRefreshTime : Option Nat

/-- One run of the script.  Without a time to compare with, it fails.  Numbers are exact, as those
of Lua are while the counter and the end of the window stay below `2 ^ 53`. -/
def script (maxRequestNumber timeWindow now : Nat) (keys : Keys) : Except String Nat × Keys :=
  let currentCount := keys.counter.getD 0 + 1
  let refreshed := if currentCount = 1 then some now else keys.lastRefreshTime
  if currentCount > maxRequestNumber then
    match refreshed with
    | none =>
      (.error "attempt to perform arithmetic on a nil value",
        { counter := some currentCount, lastRefreshTime := none })
    | some lastRefreshTime =>
      if lastRefreshTime + timeWindow > now then
        (.ok 0, { counter := some currentCount, lastRefreshTime := some lastRefreshTime })
      else (.ok 1, { counter := some 1, lastRefreshTime := some now })
  else (.ok 1, { counter := some currentCount, lastRefreshTime := refreshed })

/-- The keys, and the times of the calls that have passed. -/
structure State where
  keys : Keys
  passed : List Nat

def State.init : State where
  keys := { counter := none, lastRefreshTime := none }
  passed := []

def step (maxRequestNumber timeWindow : Nat) (s : State) (now : Nat) : State :=
  let result := script maxRequestNumber timeWindow now s.keys
  { keys := result.2
    passed := if result.1 = .ok 1 then s.passed ++ [now] else s.passed }

def run (maxRequestNumber timeWindow : Nat) (s : State) (times : List Nat) : State :=
  times.foldl (step maxRequestNumber timeWindow) s

/-- How many of the times are in the interval of this length. -/
def countIn (start length : Nat) (times : List Nat) : Nat :=
  times.countP fun t => start ≤ t ∧ t < start + length

/-! ## Windows -/

variable {maxRequestNumber timeWindow : Nat}

/-- What has passed consists of earlier windows and the present one, which began with a
call at `start`. -/
structure Window (maxRequestNumber timeWindow : Nat) (s : State) (latest start count : Nat)
    (earlier present : List Nat) : Prop where
  counter : s.keys.counter = some count
  refreshed : s.keys.lastRefreshTime = some start
  passed : s.passed = earlier ++ start :: present
  /-- The calls that pass are counted. -/
  counted : present.length + 1 ≤ count
  full : present.length + 1 ≤ maxRequestNumber
  since : start ≤ latest
  within : ∀ t ∈ present, start ≤ t ∧ t ≤ latest
  before : ∀ t ∈ earlier, t ≤ start
  /-- An interval that reaches into the present window has few calls before it. -/
  few : ∀ a, start < a + timeWindow → earlier.countP (fun t => a ≤ t) + 1 ≤ maxRequestNumber
  bounded : ∀ a, countIn a timeWindow earlier ≤ 2 * maxRequestNumber - 1

theorem countIn_append (start length : Nat) (times later : List Nat) :
    countIn start length (times ++ later) =
      countIn start length times + countIn start length later :=
  countP_append

theorem countIn_le_countP (start length : Nat) (times : List Nat) :
    countIn start length times ≤ times.countP fun t => start ≤ t := by
  apply countP_mono_left
  intro t _ h
  simp only [decide_eq_true_eq] at h ⊢
  omega

section Step

variable {s : State} {latest start count now : Nat} {earlier present : List Nat}

/-- The bound, from the two windows that may meet in an interval. -/
theorem Window.countIn_passed_le
    (h : Window maxRequestNumber timeWindow s latest start count earlier present) (a : Nat) :
    countIn a timeWindow s.passed ≤ 2 * maxRequestNumber - 1 := by
  rw [h.passed, countIn_append]
  by_cases hr : start < a + timeWindow
  · have he : countIn a timeWindow earlier ≤ earlier.countP fun t => a ≤ t :=
      countIn_le_countP a timeWindow earlier
    have hp : countIn a timeWindow (start :: present) ≤ (start :: present).length :=
      countP_le_length
    have hFew := h.few a hr
    have hf := h.full
    rw [length_cons] at hp
    omega
  · have hn : countIn a timeWindow (start :: present) = 0 := by
      rw [countIn, countP_eq_zero]
      intro t ht hIn
      have hs : start ≤ t := by
        rcases mem_cons.mp ht with rfl | hMem
        · exact le_refl t
        · exact (h.within t hMem).1
      simp only [decide_eq_true_eq] at hIn
      omega
    have hb := h.bounded a
    omega

/-- The first call of all begins a window. -/
theorem window_init (timeWindow now : Nat) (hMax : 1 ≤ maxRequestNumber) :
    Window maxRequestNumber timeWindow (step maxRequestNumber timeWindow .init now) now now 1
      [] [] := by
  have hs : script maxRequestNumber timeWindow now State.init.keys =
      (.ok 1, { counter := some 1, lastRefreshTime := some now }) := by
    have hNot : ¬ 1 > maxRequestNumber := by omega
    simp [script, State.init, hNot]
  refine
    { counter := by rw [step, hs]
      refreshed := by rw [step, hs]
      passed := by rw [step, hs]; rfl
      counted := le_refl 1
      full := hMax
      since := le_refl now
      within := fun t ht => absurd ht not_mem_nil
      before := fun t ht => absurd ht not_mem_nil
      few := fun a _ => hMax
      bounded := fun a => Nat.zero_le _ }

variable (h : Window maxRequestNumber timeWindow s latest start count earlier present)
include h

variable (hNow : latest ≤ now)
include hNow

/-- A call that is counted and passes. -/
theorem Window.step_counted (hCount : count + 1 ≤ maxRequestNumber) :
    Window maxRequestNumber timeWindow (step maxRequestNumber timeWindow s now) now start
      (count + 1) earlier (present ++ [now]) := by
  have hc := h.counted
  have hSince := h.since
  have hs : script maxRequestNumber timeWindow now s.keys =
      (.ok 1, { counter := some (count + 1), lastRefreshTime := some start }) := by
    have hNot : ¬ count + 1 > maxRequestNumber := by omega
    have hf : count ≠ 0 := by omega
    simp [script, h.counter, h.refreshed, hNot, hf]
  refine
    { counter := by rw [step, hs]
      refreshed := by rw [step, hs]
      passed := by simp [step, hs, h.passed]
      counted := by rw [length_append, length_singleton]; omega
      full := by rw [length_append, length_singleton]; omega
      since := by omega
      within := ?_
      before := h.before
      few := h.few
      bounded := h.bounded }
  intro t ht
  rcases mem_append.mp ht with hMem | hMem
  · have hw := h.within t hMem
    omega
  · rw [mem_singleton.mp hMem]
    omega

/-- A call that is refused. -/
theorem Window.step_refused (hc : maxRequestNumber < count + 1) (hw : now < start + timeWindow) :
    Window maxRequestNumber timeWindow (step maxRequestNumber timeWindow s now) now start
      (count + 1) earlier present := by
  have hCounted := h.counted
  have hSince := h.since
  have hs : script maxRequestNumber timeWindow now s.keys =
      (.ok 0, { counter := some (count + 1), lastRefreshTime := some start }) := by
    have hf : count ≠ 0 := by omega
    simp [script, h.counter, h.refreshed, hc, hf, hw]
  refine
    { counter := by rw [step, hs]
      refreshed := by rw [step, hs]
      passed := by simp [step, hs, h.passed]
      counted := by omega
      full := h.full
      since := by omega
      within := fun t ht => ⟨(h.within t ht).1, (h.within t ht).2.trans hNow⟩
      before := h.before
      few := h.few
      bounded := h.bounded }

/-- A call that begins the next window. -/
theorem Window.step_renewed (hc : maxRequestNumber < count + 1)
    (hw : start + timeWindow ≤ now) (hl : 1 ≤ timeWindow) :
    Window maxRequestNumber timeWindow (step maxRequestNumber timeWindow s now) now now 1
      s.passed [] := by
  have hFull := h.full
  have hs : script maxRequestNumber timeWindow now s.keys =
      (.ok 1, { counter := some 1, lastRefreshTime := some now }) := by
    have hf : count ≠ 0 := by omega
    have hNot : ¬ start + timeWindow > now := by omega
    simp [script, h.counter, h.refreshed, hc, hf, hNot]
  refine
    { counter := by rw [step, hs]
      refreshed := by rw [step, hs]
      passed := by simp [step, hs]
      counted := le_refl 1
      full := by rw [length_nil]; omega
      since := le_refl now
      within := fun t ht => absurd ht not_mem_nil
      before := ?_
      few := ?_
      bounded := h.countIn_passed_le }
  · intro t ht
    rw [h.passed, mem_append, mem_cons] at ht
    rcases ht with hMem | rfl | hMem
    · have hb := h.before t hMem
      omega
    · omega
    · have hWithin := h.within t hMem
      omega
  · -- the interval begins behind `start`, so all windows before the present one are over
    intro a hr
    have he : earlier.countP (fun t => a ≤ t) = 0 := by
      rw [countP_eq_zero]
      intro t ht hLe
      have hb := h.before t ht
      simp only [decide_eq_true_eq] at hLe
      omega
    have hStart : ¬ a ≤ start := by omega
    have hp : present.countP (fun t => a ≤ t) ≤ present.length := countP_le_length
    rw [h.passed, countP_append, countP_cons]
    simp only [he, hStart, decide_false, Bool.false_eq_true, if_false]
    omega

theorem Window.step (hl : 1 ≤ timeWindow) :
    ∃ start' count' earlier' present', Window maxRequestNumber timeWindow
      (Limit.step maxRequestNumber timeWindow s now) now start' count' earlier' present' := by
  by_cases hc : count + 1 ≤ maxRequestNumber
  · exact ⟨_, _, _, _, h.step_counted hNow hc⟩
  · by_cases hw : now < start + timeWindow
    · exact ⟨_, _, _, _, h.step_refused hNow (by omega) hw⟩
    · exact ⟨_, _, _, _, h.step_renewed hNow (by omega) (by omega) hl⟩

omit hNow

theorem Window.run
    (hl : 1 ≤ timeWindow) {times : List Nat} (ht : (latest :: times).Pairwise (· ≤ ·)) :
    ∃ latest' start' count' earlier' present', Window maxRequestNumber timeWindow
      (Limit.run maxRequestNumber timeWindow s times) latest' start' count' earlier' present' := by
  induction times generalizing s latest start count earlier present with
  | nil => exact ⟨latest, start, count, earlier, present, h⟩
  | cons now times ih =>
    rw [pairwise_cons] at ht
    obtain ⟨start', count', earlier', present', h'⟩ := h.step (ht.1 now mem_cons_self) hl
    exact ih h' ht.2

omit h

end Step

/-- In an interval as long as the window, less than twice the maximum of calls pass. -/
theorem countIn_passed_lt (maxRequestNumber timeWindow : Nat) (hMax : 1 ≤ maxRequestNumber)
    (hLength : 1 ≤ timeWindow) (times : List Nat) (hTimes : times.Pairwise (· ≤ ·)) (start : Nat) :
    countIn start timeWindow (run maxRequestNumber timeWindow .init times).passed <
      2 * maxRequestNumber := by
  cases times with
  | nil =>
    show 0 < 2 * maxRequestNumber
    omega
  | cons first times =>
    obtain ⟨latest, start', count, earlier, present, h⟩ :=
      (window_init timeWindow first hMax).run hLength hTimes
    have hb := h.countIn_passed_le start
    show countIn start timeWindow (run maxRequestNumber timeWindow _ times).passed < _
    omega

theorem countIn_passed_lt_four :
    countIn 999 1000 (run 2 1000 .init [0, 999, 1000, 1001, 1002]).passed < 2 * 2 :=
  countIn_passed_lt 2 1000 (by decide) (by decide) [0, 999, 1000, 1001, 1002] (by decide) 999

/-- Two calls are allowed in a second, and three pass within three milliseconds. -/
theorem three_of_two_passed :
    [0, 999, 1000, 1001].Pairwise (· ≤ ·) ∧
      countIn 999 1000 (run 2 1000 .init [0, 999, 1000, 1001]).passed = 3 := by
  decide

end Spacegate.Plugin.Limit
