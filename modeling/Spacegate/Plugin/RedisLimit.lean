import Spacegate.Plugin.Limit

/-!
# The script of the Redis limit plugin

`check.lua` counts the calls for one key in fixed windows of a minute.  With a limit it does
what the script of the limit plugin does.  Without one it counts all the same, but does not
note the time.  If the first call of all came without a limit, no window ever begins, and once
there is a limit nothing is refused.
-/

namespace Spacegate.Plugin.RedisLimit

open List Option

open Limit (countIn)

/-- The three keys of the script, as numbers. -/
structure Keys where
  /-- `KEYS[1]`, if it is there and a number. -/
  freqLimit : Option Nat
  freq : Option Nat
  freqTs : Option Nat

/-- One run of `check.lua`.  `EXISTS` answers a number, which is true in Lua also if it is
zero, so the counter is never set before it is incremented.  Numbers are exact, as those of Lua
are below `2 ^ 53`. -/
def check (now : Nat) (keys : Keys) : Nat × Keys :=
  let currentCount := keys.freq.getD 0 + 1
  let counted := { keys with freq := some currentCount }
  match keys.freqLimit with
  | none => (1, counted)
  | some freqLimit =>
    let refreshed := if currentCount = 1 then { counted with freqTs := some now } else counted
    if currentCount > freqLimit then
      match refreshed.freqTs with
      | none => (1, refreshed)
      | some lastRefreshTime =>
        if lastRefreshTime + 60 > now then (0, refreshed)
        else (1, { refreshed with freq := some 1, freqTs := some now })
    else (1, refreshed)

/-- What happens to the keys: the limit is changed, or the script is called. -/
inductive Event where
  | setLimit (freqLimit : Option Nat)
  | call (now : Nat)

/-- The keys, the time of the latest call and those of the calls that have passed. -/
structure State where
  keys : Keys
  latest : Nat
  passed : List Nat

def State.init : State where
  keys := { freqLimit := none, freq := none, freqTs := none }
  latest := 0
  passed := []

def step (s : State) : Event → State
  | .setLimit freqLimit => { s with keys := { s.keys with freqLimit := freqLimit } }
  | .call now =>
    let result := check now s.keys
    { keys := result.2
      latest := now
      passed := if result.1 = 1 then s.passed ++ [now] else s.passed }

/-- The times of the calls. -/
def times (events : List Event) : List Nat :=
  events.filterMap fun
    | .setLimit _ => none
    | .call now => some now

/-- The limit is stored, and the calls from then on are recorded. -/
def State.limited (s : State) (freqLimit : Nat) : State :=
  { s with keys := { s.keys with freqLimit := some freqLimit }, passed := [] }

def calls (s : State) (later : List Nat) : State :=
  (later.map .call).foldl step s

/-- No minute has more than twice as many passed calls as the limit allows. -/
def Bounded (freqLimit : Nat) (s : State) : Prop :=
  ∀ later, (s.latest :: later).Pairwise (· ≤ ·) →
    ∀ start, countIn start 60 (calls (s.limited freqLimit) later).passed ≤ 2 * freqLimit

/-! ## With a limit -/

/-- If calls were counted, a window has begun. -/
def Keys.Begun (keys : Keys) : Prop :=
  keys.freq.isSome = true → keys.freqTs.isSome = true

instance (keys : Keys) : Decidable keys.Begun :=
  inferInstanceAs (Decidable (_ → _))

def Keys.toLimit (keys : Keys) : Limit.Keys where
  counter := keys.freq
  lastRefreshTime := keys.freqTs

theorem script_toLimit {keys : Keys} {freqLimit now : Nat} (hl : keys.freqLimit = some freqLimit)
    (hb : keys.Begun) : Limit.script freqLimit 60 now keys.toLimit =
        (.ok (check now keys).1, (check now keys).2.toLimit) ∧
      (check now keys).2.freqLimit = some freqLimit ∧ (check now keys).2.Begun := by
  obtain ⟨_, freq, freqTs⟩ := keys
  cases hl
  cases freq with
  | none => by_cases hc : 1 > freqLimit <;> simp [check, Limit.script, Keys.toLimit, Keys.Begun, hc]
  | some count =>
    obtain ⟨lastRefreshTime, rfl⟩ := isSome_iff_exists.mp (hb rfl)
    by_cases hf : count = 0 <;> by_cases hc : freqLimit ≤ count <;>
      by_cases hw : now < lastRefreshTime + 60 <;> by_cases hz : freqLimit = 0 <;>
      simp [check, Limit.script, Keys.toLimit, Keys.Begun, hf, hc, hw, hz]

variable {s : State}

theorem passed_calls {freqLimit : Nat} (hl : s.keys.freqLimit = some freqLimit)
    (hb : s.keys.Begun) (later : List Nat) : (calls s later).passed =
      (Limit.run freqLimit 60 { keys := s.keys.toLimit, passed := s.passed } later).passed := by
  induction later generalizing s with
  | nil => rfl
  | cons now later ih =>
    obtain ⟨hs, hl', hb'⟩ := @script_toLimit s.keys freqLimit now hl hb
    have hStep : Limit.step freqLimit 60 { keys := s.keys.toLimit, passed := s.passed } now =
        { keys := (step s (.call now)).keys.toLimit, passed := (step s (.call now)).passed } := by
      simp [Limit.step, hs, step]
    show (calls (step s (.call now)) later).passed =
      (Limit.run freqLimit 60 (Limit.step freqLimit 60 _ now) later).passed
    rw [hStep]
    exact ih hl' hb'

theorem run_passed_append (freqLimit : Nat) (keys : Limit.Keys) (earlier passed later : List Nat) :
    (Limit.run freqLimit 60 { keys := keys, passed := earlier ++ passed } later).passed =
      earlier ++ (Limit.run freqLimit 60 { keys := keys, passed := passed } later).passed := by
  induction later generalizing keys passed with
  | nil => rfl
  | cons now later ih =>
    simp only [Limit.run, foldl_cons, Limit.step]
    split_ifs
    · rw [append_assoc]
      exact ih _ _
    · exact ih _ _

/-! ## Histories -/

/-- What holds of the keys whatever has happened. -/
structure Reached (s : State) : Prop where
  counted : ∀ count ∈ s.keys.freq, 1 ≤ count
  fresh : s.keys.freq = none → s.keys.freqTs = none
  refreshed : ∀ lastRefreshTime ∈ s.keys.freqTs, lastRefreshTime ≤ s.latest

theorem check_cases (now : Nat) (keys : Keys) :
    (∃ count, (check now keys).2.freq = some (count + 1)) ∧
      ((check now keys).2.freqTs = keys.freqTs ∨ (check now keys).2.freqTs = some now) := by
  unfold check
  cases keys.freqLimit with
  | none => exact ⟨⟨_, rfl⟩, .inl rfl⟩
  | some freqLimit =>
    generalize keys.freq.getD 0 = count
    by_cases hf : count = 0 <;> by_cases hc : count + 1 > freqLimit <;>
      cases keys.freqTs <;> simp only [hf, hc, Nat.add_eq_right, if_true, if_false] <;>
      first | (split_ifs <;> simp) | simp

theorem Reached.call {now : Nat} (h : Reached s) (hNow : s.latest ≤ now) :
    Reached (step s (.call now)) := by
  obtain ⟨⟨count, hf⟩, hTs⟩ := check_cases now s.keys
  refine ⟨?_, ?_, ?_⟩ <;> simp only [step, hf]
  · rintro _ ⟨⟩
    omega
  · simp
  · rcases hTs with hs | hNew
    · rw [hs]
      exact fun t ht => (h.refreshed t ht).trans hNow
    · rw [hNew]
      rintro _ ⟨⟩
      exact le_rfl

theorem reached_foldl (h : Reached s) {events : List Event}
    (hc : (s.latest :: times events).Pairwise (· ≤ ·)) : Reached (events.foldl step s) := by
  induction events generalizing s with
  | nil => exact h
  | cons event events ih =>
    cases event with
    | setLimit freqLimit => exact ih ⟨h.counted, h.fresh, h.refreshed⟩ hc
    | call now =>
      simp only [times, filterMap_cons, pairwise_cons] at hc
      exact ih (h.call (hc.1 now mem_cons_self)) (pairwise_cons.mpr hc.2)

theorem bounded_of_begun {freqLimit : Nat} (h : Reached s) (hl : 1 ≤ freqLimit)
    (hBegun : s.keys.Begun) : Bounded freqLimit s := by
  intro later hc start
  rw [@passed_calls (s.limited freqLimit) freqLimit rfl hBegun]
  cases hf : s.keys.freq with
  | none =>
    -- the next call begins the first window
    cases later with
    | nil => exact Nat.zero_le _
    | cons now later =>
      obtain ⟨_, _, _, _, _, hw⟩ := (Limit.window_init 60 now hl).run (by omega)
        (pairwise_cons.mp hc).2
      have hk : (s.limited freqLimit).keys.toLimit = Limit.State.init.keys := by
        simp [State.limited, Keys.toLimit, Limit.State.init, hf, h.fresh hf]
      have hb := hw.countIn_passed_le start
      rw [hk]
      show countIn start 60 (Limit.run freqLimit 60 _ later).passed ≤ _
      exact hb.trans (Nat.sub_le _ _)
  | some count =>
    obtain ⟨lastRefreshTime, hTs⟩ := isSome_iff_exists.mp (hBegun (by rw [hf]; rfl))
    -- as if the call that began the window had passed
    have hw : Limit.Window freqLimit 60
        { keys := (s.limited freqLimit).keys.toLimit, passed := [lastRefreshTime] }
        s.latest lastRefreshTime count [] [] :=
      { counter := hf
        refreshed := hTs
        passed := rfl
        counted := h.counted count hf
        full := hl
        since := h.refreshed lastRefreshTime hTs
        within := fun t ht => absurd ht not_mem_nil
        before := fun t ht => absurd ht not_mem_nil
        few := fun _ _ => hl
        bounded := fun _ => Nat.zero_le _ }
    obtain ⟨_, _, _, _, _, hLater⟩ := hw.run (by omega) hc
    have hb := hLater.countIn_passed_le start
    have ha := run_passed_append freqLimit (s.limited freqLimit).keys.toLimit
      [lastRefreshTime] [] later
    rw [append_nil] at ha
    rw [ha, Limit.countIn_append] at hb
    show countIn start 60 (Limit.run freqLimit 60 { keys := _, passed := [] } later).passed ≤ _
    omega

/-- Without a window every call passes. -/
theorem passed_calls_of_not_begun (hFreq : s.keys.freq.isSome = true)
    (hc : ∀ count ∈ s.keys.freq, 1 ≤ count) (hTs : s.keys.freqTs = none) (later : List Nat) :
    (calls s later).passed = s.passed ++ later := by
  induction later generalizing s with
  | nil => exact (append_nil _).symm
  | cons now later ih =>
    obtain ⟨count, hCount⟩ := isSome_iff_exists.mp hFreq
    have hPos := hc count hCount
    have hCheck : check now s.keys = (1, { s.keys with freq := some (count + 1) }) := by
      have hf : count ≠ 0 := by omega
      cases hl : s.keys.freqLimit <;> simp [check, hCount, hl, hf, hTs]
    have hs : step s (.call now) = { keys := { s.keys with freq := some (count + 1) }
                                     latest := now, passed := s.passed ++ [now] } := by
      simp [step, hCheck]
    show (calls (step s (.call now)) later).passed = _
    rw [ih (by rw [hs]; rfl) (by simp [hs]) (by rw [hs]; exact hTs), hs, append_assoc]
    rfl

/-- Whatever has happened to the keys before a limit is stored, the limit is kept exactly if
no call was counted or a window has begun. -/
theorem bounded_iff_begun {events : List Event} (hClock : (times events).Pairwise (· ≤ ·))
    {freqLimit : Nat} (hLimit : 1 ≤ freqLimit) :
    Bounded freqLimit (events.foldl step .init) ↔ (events.foldl step .init).keys.Begun := by
  have hr : Reached (events.foldl step .init) := by
    refine reached_foldl ⟨by simp [State.init], fun _ => rfl, by simp [State.init]⟩ ?_
    exact pairwise_cons.mpr ⟨fun t _ => Nat.zero_le t, hClock⟩
  refine ⟨fun hb hf => ?_, bounded_of_begun hr hLimit⟩
  by_contra hTs
  generalize events.foldl step .init = s at *
  have hBound := hb (List.replicate (2 * freqLimit + 1) s.latest) (by simp) s.latest
  rw [@passed_calls_of_not_begun (s.limited freqLimit) hf hr.counted
    (not_isSome_iff_eq_none.mp hTs)] at hBound
  simp [State.limited, countIn, countP_replicate] at hBound

/-- The first call came with a limit. -/
theorem limited_bounded : Bounded 2 ([.setLimit (some 1), .call 0].foldl step .init) :=
  (bounded_iff_begun (by decide) (by decide)).mpr (by decide)

/-- A call before the limit is stored, and five at one time after it. -/
theorem unlimited_not_bounded : ¬ Bounded 2 ([.call 0].foldl step .init) := by
  intro h
  have hFive := h [100, 100, 100, 100, 100] (by decide) 100
  revert hFive
  decide

end Spacegate.Plugin.RedisLimit
