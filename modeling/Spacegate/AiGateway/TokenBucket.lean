import Spacegate.Foundation.Double
import Spacegate.Foundation.Trace

/-!
# The token bucket of the AI gateway

The script refills a tenant's bucket with the time that has passed since the last call and
takes the cost of the call from it.  The time is the caller's own.  The script does not count
time that runs backwards, but it stores the earlier time, so that the same span is counted
again with the next call.

The numbers of the script are doubles, so products are exact up to `2 ^ 53` only.  A number
that is stored is read back as it was.
-/

namespace Spacegate.AiGateway.TokenBucket

open Foundation Double Option Nat
open Foundation.Trace (Along)

/-- The two keys of the script, which are always set together. -/
structure Bucket where
  /-- Thousandths of a token. -/
  tokens : ℕ
  ts : ℕ
  /-- When the keys expire, by the clock of the store. -/
  expiresAt : ℕ

/-- What a call brings along; `clock` is the time of the store. -/
structure Call where
  clock : ℕ
  now : ℕ
  cost : ℕ

/-- What the script returns, before it is cut to 64 bits. -/
structure Answer where
  allowed : Bool
  remainingTokensMilli : ℕ
  retryAfterMs : ℕ
  deriving DecidableEq

/-- The latest time a key can expire at. -/
def maxDeadline : ℕ :=
  2 ^ 63 - 1

/-- `tonumber(n) * 1000`. -/
def milli (n : ℕ) : ℕ :=
  num (num n * 1000)

section Script

variable (rate burst : ℕ)

def ttl : ℕ :=
  max 300000 ⌈nearest (nearest ((milli burst : ℚ) / num rate) * 10)⌉₊

/-- The tokens after the refill. -/
def refill (tokens ts now : ℕ) : ℕ :=
  let elapsed := num (num now - num ts)
  min (milli burst) (num (num tokens + num (elapsed * num rate)))

/-- The answer to a call of some cost, and the tokens that are left. -/
def charge (cost tokens : ℕ) : Answer × ℕ :=
  if tokens ≥ milli cost then
    let left := num (tokens - milli cost)
    ({ allowed := true, remainingTokensMilli := left, retryAfterMs := 0 }, left)
  else
    ({ allowed := false, remainingTokensMilli := tokens
       retryAfterMs := ⌈nearest ((num (milli cost - tokens) : ℚ) / num rate)⌉₊ }, tokens)

/-- Missing keys are a full bucket. -/
def refilled (found : Option Bucket) (now : ℕ) : ℕ :=
  refill rate burst ((found.map Bucket.tokens).getD (milli burst))
    ((found.map Bucket.ts).getD now) now

/-- `TOKEN_BUCKET_LUA` on the keys that it finds: the answer, unless the script fails, and the
keys that it sets.  The store refuses to set a key that expires too late. -/
def script (call : Call) (found : Option Bucket) : Option Answer × Option Bucket :=
  if rate = 0 ∨ burst = 0 ∨ call.cost = 0 then
    (some { allowed := false, remainingTokensMilli := 0, retryAfterMs := 1000 }, none)
  else if call.clock + ttl rate burst > maxDeadline then
    (none, none)
  else
    let result := charge rate call.cost (refilled rate burst found call.now)
    (some result.1,
      some { tokens := result.2, ts := num call.now, expiresAt := call.clock + ttl rate burst })

/-- The keys, unless they have expired. -/
def live (call : Call) (bucket : Option Bucket) : Option Bucket :=
  bucket.filter (call.clock < ·.expiresAt)

/-- The keys, and the cost that was granted so far. -/
structure State where
  bucket : Option Bucket
  granted : ℕ

def State.init : State where
  bucket := none
  granted := 0

def step (s : State) (call : Call) : State :=
  let result := script rate burst call (live call s.bucket)
  { bucket := result.2.or s.bucket
    granted := if result.1.any (·.allowed) then s.granted + call.cost else s.granted }

def run (s : State) (calls : List Call) : State :=
  calls.foldl (step rate burst) s

/-- The caller's clock is not behind that of the last call, and where the keys have expired
by the clock of the store, they have by the callers' clocks, too. -/
def InTime (s : State) (call : Call) : Prop :=
  ∀ bucket ∈ s.bucket, bucket.ts ≤ call.now ∧
    (bucket.expiresAt ≤ call.clock → bucket.ts + ttl rate burst ≤ call.now)

instance (s : State) (call : Call) : Decidable (InTime rate burst s call) :=
  inferInstanceAs (Decidable (∀ bucket ∈ s.bucket, _))

/-- What was granted and what is left is covered by the burst and the time that has passed. -/
def Covered (t₀ t₁ : ℕ) (s : State) : Prop :=
  match s.bucket with
  | none => s.granted = 0
  | some bucket =>
    t₀ ≤ bucket.ts ∧ bucket.ts ≤ t₁ ∧
      s.granted * 1000 + bucket.tokens ≤ burst * 1000 + rate * (bucket.ts - t₀)

end Script

variable {rate burst t₀ t₁ tokens ts now n : ℕ} {s : State} {call : Call}

theorem charge_of_le {cost : ℕ} (h : milli cost ≤ tokens) : charge rate cost tokens =
    ({ allowed := true, remainingTokensMilli := num (tokens - milli cost), retryAfterMs := 0 },
      num (tokens - milli cost)) :=
  if_pos h

theorem charge_of_lt {cost : ℕ} (h : tokens < milli cost) : charge rate cost tokens =
    ({ allowed := false, remainingTokensMilli := tokens
       retryAfterMs := ⌈nearest ((num (milli cost - tokens) : ℚ) / num rate)⌉₊ }, tokens) :=
  if_neg h.not_ge

theorem charge_allowed (rate cost tokens : ℕ) :
    (charge rate cost tokens).1.allowed = decide (milli cost ≤ tokens) := by
  unfold charge
  split_ifs with h <;> simpa using h

/-! ## Below `2 ^ 53` -/

theorem milli_eq (h : n * 1000 ≤ 2 ^ 53) : milli n = n * 1000 := by
  rw [milli, num_eq_self (n := n) (by omega), num_eq_self h]

/-- A larger product is larger as a double, too. -/
theorem milli_eq_of_le (h : milli n ≤ 2 ^ 53) : milli n = n * 1000 := by
  refine milli_eq (not_lt.mp fun hLt => ?_)
  have hMono : milli 9007199254741 ≤ milli n :=
    num_mono (mul_le_mul_right 1000 (num_mono (by omega)))
  have hValue : milli 9007199254741 = 9007199254741000 := by decide +kernel
  omega

theorem num_rate_mul {δ : ℕ} (h : δ * rate < 2 ^ 53) : δ * num rate = δ * rate := by
  rcases Nat.eq_zero_or_pos δ with rfl | hδ
  · simp
  · have hle : rate ≤ δ * rate := Nat.le_mul_of_pos_left rate hδ
    rw [num_eq_self (by omega)]

theorem le_num_rate_mul {δ m : ℕ} (hm : m ≤ 2 ^ 53) (h : m ≤ δ * rate) : m ≤ δ * num rate := by
  by_cases hr : rate ≤ 2 ^ 53
  · rwa [num_eq_self hr]
  · rcases Nat.eq_zero_or_pos δ with rfl | hδ
    · simpa using h
    · calc m ≤ num rate := le_num hm (by omega)
        _ ≤ δ * num rate := Nat.le_mul_of_pos_left _ hδ

/-- The refill is exact. -/
theorem refill_eq (hb : burst * 1000 ≤ 2 ^ 53) (hn : now ≤ 2 ^ 53) :
    refill rate burst tokens ts now = min (burst * 1000) (tokens + (now - ts) * rate) := by
  have hElapsed : num (num now - num ts) = now - ts := by
    have hts : now - num ts = now - ts := by
      by_cases h : ts ≤ 2 ^ 53
      · rw [num_eq_self h]
      · have := le_num le_rfl (not_le.mp h).le
        omega
    rw [num_eq_self hn, hts, num_eq_self (by omega)]
  simp only [refill, hElapsed, milli_eq hb]
  generalize now - ts = δ
  by_cases hSum : tokens + δ * rate < 2 ^ 53
  · rw [num_eq_self (n := tokens) (by omega), num_rate_mul (by omega),
      num_eq_self (n := δ * rate) (by omega), num_eq_self hSum.le]
  · -- both sums reach the burst
    have hReach : 2 ^ 53 ≤ num (num tokens + num (δ * num rate)) := by
      refine le_num le_rfl ?_
      by_cases ht : 2 ^ 53 ≤ tokens
      · exact (le_num le_rfl ht).trans (le_add_right _ _)
      by_cases hd : 2 ^ 53 ≤ δ * rate
      · exact (le_num le_rfl (le_num_rate_mul le_rfl hd)).trans (le_add_left _ _)
      rw [num_eq_self (n := tokens) (by omega), num_rate_mul (by omega),
        num_eq_self (n := δ * rate) (by omega)]
      omega
    rw [min_eq_left (hb.trans hReach), min_eq_left (by omega)]

theorem num_pos (h : rate ≠ 0) : 0 < num rate :=
  le_num (by omega) (pos_of_ne_zero h)

theorem refilled_none (hb : burst * 1000 ≤ 2 ^ 53) :
    refilled rate burst none now = burst * 1000 := by
  simp [refilled, refill, milli_eq hb, num_eq_self hb, num_eq_self (zero_le _)]

theorem refilled_some (bucket : Bucket) : refilled rate burst (some bucket) now =
    refill rate burst bucket.tokens bucket.ts now :=
  rfl

/-- The keys live several times as long as it takes to fill the bucket. -/
theorem milli_le_ttl_mul (burst : ℕ) (hr : rate ≠ 0) :
    5 * milli burst ≤ ttl rate burst * num rate := by
  have hRate : (0 : ℚ) < num rate := cast_pos.mpr (num_pos hr)
  have hq : (0 : ℚ) ≤ (milli burst : ℚ) / num rate := by positivity
  have hRound := mul_le_nearest hq
  have hTen := mul_le_nearest (x := nearest ((milli burst : ℚ) / num rate) * 10)
    (mul_nonneg (nearest_nonneg hq) (by norm_num))
  have hTtl : nearest (nearest ((milli burst : ℚ) / num rate) * 10) ≤ ttl rate burst :=
    (le_ceil _).trans (cast_le.mpr (le_max_right _ _))
  have hDiv : 5 * ((milli burst : ℚ) / num rate) ≤ ttl rate burst := by linarith
  rw [← mul_div_assoc, div_le_iff₀ hRate] at hDiv
  exact_mod_cast hDiv

theorem ttl_le (hb : burst * 1000 ≤ 2 ^ 53) (hr : rate ≠ 0) : ttl rate burst ≤ 10 * 2 ^ 53 := by
  have hRate : (1 : ℚ) ≤ num rate := one_le_cast.mpr (num_pos hr)
  have hMilli : milli burst ≤ 2 ^ 53 := (milli_eq hb).trans_le hb
  have hq : (0 : ℚ) ≤ (milli burst : ℚ) / num rate := by positivity
  have hRound : nearest ((milli burst : ℚ) / num rate) ≤ 2 ^ 53 :=
    calc nearest ((milli burst : ℚ) / num rate)
        ≤ nearest (milli burst) := nearest_mono hq (div_le_self (cast_nonneg _) hRate)
      _ = milli burst := nearest_natCast hMilli
      _ ≤ 2 ^ 53 := by exact_mod_cast hMilli
  have hTen : nearest (2 ^ 53 * 10) = 10 * 2 ^ 53 := by decide +kernel
  have hMono := nearest_mono (mul_nonneg (nearest_nonneg hq) (by norm_num : (0 : ℚ) ≤ 10))
    (mul_le_mul_of_nonneg_right hRound (by norm_num))
  rw [hTen] at hMono
  exact max_le (by norm_num) (ceil_le.mpr (by exact_mod_cast hMono))

theorem burst_le_ttl_mul (hb : burst * 1000 ≤ 2 ^ 53) (hr : rate ≠ 0) :
    burst * 1000 ≤ ttl rate burst * rate := by
  have hm := milli_le_ttl_mul burst hr
  have hTtl : 300000 ≤ ttl rate burst := le_max_left _ _
  rw [milli_eq hb] at hm
  by_cases h : rate ≤ 2 ^ 53
  · rw [num_eq_self h] at hm
    omega
  · have := Nat.le_mul_of_pos_left rate (by omega : 0 < ttl rate burst)
    omega

/-! ## What is granted -/

/-- The refill is covered by the time that has passed. -/
theorem refilled_le (hb : burst * 1000 ≤ 2 ^ 53) (hr : rate ≠ 0) (hn : call.now ≤ 2 ^ 53)
    (h : Covered rate burst t₀ t₁ s) (ht : InTime rate burst s call) (hs : t₀ ≤ call.now) :
    s.granted * 1000 + refilled rate burst (live call s.bucket) call.now ≤
      burst * 1000 + rate * (call.now - t₀) := by
  unfold Covered at h
  cases hBucket : s.bucket with
  | none =>
    rw [hBucket] at h
    simp only at h
    simp [h, live, refilled_none hb]
  | some bucket =>
    rw [hBucket] at h
    obtain ⟨hLater, he⟩ := ht bucket hBucket
    obtain ⟨hTs, -, hc⟩ := h
    have hSplit : rate * (call.now - t₀) =
        rate * (bucket.ts - t₀) + (call.now - bucket.ts) * rate := by
      rw [mul_comm _ rate, ← mul_add]
      congr 1
      omega
    by_cases hl : call.clock < bucket.expiresAt
    · rw [live, filter_some, if_pos (by simpa using hl), refilled_some, refill_eq hb hn]
      have hMin : min (burst * 1000) (bucket.tokens + (call.now - bucket.ts) * rate) ≤
          bucket.tokens + (call.now - bucket.ts) * rate := min_le_right _ _
      linarith
    · -- the bucket is full again, but the time that has passed would have filled it
      rw [live, filter_some, if_neg (by simpa using hl), refilled_none hb]
      have ha : bucket.ts + ttl rate burst ≤ call.now := he (not_lt.mp hl)
      have hf : burst * 1000 ≤ (call.now - bucket.ts) * rate :=
        (burst_le_ttl_mul hb hr).trans (Nat.mul_le_mul_right rate (Nat.le_sub_of_add_le' ha))
      linarith

theorem covered_step (hb : burst * 1000 ≤ 2 ^ 53) (ht₁ : t₁ ≤ 2 ^ 53)
    (h : Covered rate burst t₀ t₁ s) (ht : InTime rate burst s call)
    (hs : t₀ ≤ call.now) (hEnd : call.now ≤ t₁) :
    Covered rate burst t₀ t₁ (step rate burst s call) := by
  unfold step script
  split_ifs with hp hd
  · exact h
  · exact h
  · have hn := hEnd.trans ht₁
    have hr := refilled_le hb (by tauto) hn h ht hs
    have hle : refilled rate burst (live call s.bucket) call.now ≤ 2 ^ 53 :=
      (min_le_left _ _).trans ((milli_eq hb).trans_le hb)
    generalize refilled rate burst (live call s.bucket) call.now = tokens at hr hle
    simp only [Covered, some_or, any_some, num_eq_self hn]
    refine ⟨hs, hEnd, ?_⟩
    rcases le_or_gt (milli call.cost) tokens with he | he
    · have hCost := milli_eq_of_le (he.trans hle)
      simp only [charge_of_le he, if_true]
      rw [num_eq_self ((Nat.sub_le _ _).trans hle)]
      have hl := Nat.sub_add_cancel he
      linarith
    · rw [charge_of_lt he]
      exact hr

theorem covered_run (hb : burst * 1000 ≤ 2 ^ 53) (ht₁ : t₁ ≤ 2 ^ 53) {calls : List Call}
    (h : Covered rate burst t₀ t₁ s) (ht : Along (step rate burst) (InTime rate burst) s calls)
    (hs : ∀ call ∈ calls, t₀ ≤ call.now ∧ call.now ≤ t₁) :
    Covered rate burst t₀ t₁ (run rate burst s calls) := by
  induction calls generalizing s with
  | nil => exact h
  | cons call calls ih =>
    obtain ⟨hStart, hEnd⟩ := hs call List.mem_cons_self
    exact ih (covered_step hb ht₁ h ht.1 hStart hEnd) ht.2 fun later hl =>
      hs later (List.mem_cons_of_mem call hl)

/-- Where the callers' clocks do not run backwards, the cost that is granted is covered by the
burst and the rate. -/
theorem granted_le_of_inTime (rate burst t₀ t₁ : ℕ) (hBurst : burst * 1000 ≤ 2 ^ 53)
    (hEnd : t₁ ≤ 2 ^ 53) (calls : List Call)
    (hSpan : ∀ call ∈ calls, t₀ ≤ call.now ∧ call.now ≤ t₁)
    (hTime : Along (step rate burst) (InTime rate burst) .init calls) :
    (run rate burst .init calls).granted * 1000 ≤ burst * 1000 + rate * (t₁ - t₀) := by
  have hc : Covered rate burst t₀ t₁ (run rate burst .init calls) :=
    covered_run hBurst hEnd rfl hTime hSpan
  unfold Covered at hc
  cases hb : (run rate burst .init calls).bucket with
  | none =>
    rw [hb] at hc
    simp only at hc
    simp [hc]
  | some bucket =>
    rw [hb] at hc
    obtain ⟨-, hEnd, hc⟩ := hc
    have hs : rate * (bucket.ts - t₀) ≤ rate * (t₁ - t₀) :=
      Nat.mul_le_mul_left rate (Nat.sub_le_sub_right hEnd t₀)
    linarith

/-- One token per second, and a burst of one. -/
theorem forward_granted :
    (run 1 1 .init [⟨0, 0, 1⟩, ⟨500, 500, 1⟩, ⟨1000, 1000, 1⟩]).granted = 2 ∧
      (run 1 1 .init [⟨0, 0, 1⟩, ⟨500, 500, 1⟩, ⟨1000, 1000, 1⟩]).granted * 1000 ≤
        1 * 1000 + 1 * (1000 - 0) := by
  exact ⟨by decide +kernel,
    granted_le_of_inTime 1 1 0 1000 (by decide) (by decide) _ (by decide) (by decide +kernel)⟩

/-- Two callers whose clocks are a second apart take turns. -/
theorem takingTurns_granted :
    (∀ call ∈ [⟨0, 1000, 1⟩, ⟨1, 0, 1⟩, ⟨2, 1000, 1⟩, ⟨3, 0, 1⟩, (⟨4, 1000, 1⟩ : Call)],
      0 ≤ call.now ∧ call.now ≤ 1000) ∧
    ¬ (run 1 1 .init
        [⟨0, 1000, 1⟩, ⟨1, 0, 1⟩, ⟨2, 1000, 1⟩, ⟨3, 0, 1⟩, ⟨4, 1000, 1⟩]).granted * 1000 ≤
      1 * 1000 + 1 * (1000 - 0) := by
  decide +kernel

/-! ## Expiry -/

/-- The keys, as if they never expired. -/
def kept (_ : Call) (bucket : Option Bucket) : Option Bucket :=
  bucket

/-- What a sequence of calls is answered, with one of the two ways to read the keys. -/
def answers (rate burst : ℕ) (read : Call → Option Bucket → Option Bucket) :
    Option Bucket → List Call → List (Option Answer)
  | _, [] => []
  | bucket, call :: calls =>
    let result := script rate burst call (read call bucket)
    result.1 :: answers rate burst read (result.2.or bucket) calls

/-- A call that is made on the clock of the store. -/
def OnClock (call : Call) : Prop :=
  call.clock = call.now ∧ call.now ≤ 2 ^ 53

/-- The keys were set by a call on the clock of the store. -/
def SetOnClock (rate burst : ℕ) (bucket : Option Bucket) : Prop :=
  ∀ b ∈ bucket, b.tokens ≤ burst * 1000 ∧ b.expiresAt = b.ts + ttl rate burst

variable {bucket : Option Bucket}

/-- A bucket whose keys have expired would be full. -/
theorem script_live (hr : rate ≠ 0) (hb : burst * 1000 ≤ 2 ^ 53)
    (h : SetOnClock rate burst bucket) (hc : OnClock call) :
    script rate burst call (live call bucket) = script rate burst call bucket := by
  have hRefilled : refilled rate burst (live call bucket) call.now =
      refilled rate burst bucket call.now := by
    cases bucket with
    | none => rfl
    | some b =>
      rw [live, filter_some]
      split_ifs with hl
      · rfl
      · have hExpired : ttl rate burst ≤ call.now - b.ts := by
          simp only [(h b rfl).2, hc.1, decide_eq_true_eq] at hl
          omega
        have hFull := (burst_le_ttl_mul hb hr).trans (mul_le_mul_right rate hExpired)
        rw [refilled_none hb, refilled_some, refill_eq hb hc.2, min_eq_left (by omega)]
  unfold script
  rw [hRefilled]

theorem setOnClock_script (hb : burst * 1000 ≤ 2 ^ 53) (h : SetOnClock rate burst bucket)
    (hc : OnClock call) (found : Option Bucket) :
    SetOnClock rate burst ((script rate burst call found).2.or bucket) := by
  unfold script
  split_ifs
  · exact h
  · exact h
  · rintro b ⟨⟩
    refine ⟨?_, by simp only [num_eq_self hc.2, hc.1]⟩
    have hFull : refilled rate burst found call.now ≤ burst * 1000 :=
      (min_le_left _ _).trans_eq (milli_eq hb)
    rcases le_or_gt (milli call.cost) (refilled rate burst found call.now) with he | he
    · rw [charge_of_le he]
      have hLeft := (sub_le _ (milli call.cost)).trans hFull
      exact (num_eq_self (hLeft.trans hb)).trans_le hLeft
    · rw [charge_of_lt he]
      exact hFull

theorem expiry_along (hr : rate ≠ 0) (hb : burst * 1000 ≤ 2 ^ 53) {calls : List Call}
    (h : SetOnClock rate burst s.bucket) (hc : ∀ call ∈ calls, OnClock call) :
    answers rate burst live s.bucket calls = answers rate burst kept s.bucket calls ∧
      SetOnClock rate burst (run rate burst s calls).bucket := by
  induction calls generalizing s with
  | nil => exact ⟨rfl, h⟩
  | cons call calls ih =>
    rw [List.forall_mem_cons] at hc
    have hNext := setOnClock_script hb h hc.1 (live call s.bucket)
    obtain ⟨hRest, hRun⟩ := ih (s := step rate burst s call) hNext hc.2
    refine ⟨?_, hRun⟩
    simp only [answers, kept]
    rw [← script_live hr hb h hc.1]
    exact congrArg _ hRest

/-- As long as doubles are exact, no answer depends on the expiry of the keys, and the tokens stay
within the burst. -/
theorem expiry_unobservable (rate burst : ℕ) (hRate : 0 < rate) (hBurst : burst * 1000 ≤ 2 ^ 53)
    (calls : List Call) (hClock : ∀ call ∈ calls, OnClock call) :
    answers rate burst live none calls = answers rate burst kept none calls ∧
      ∀ bucket ∈ (run rate burst .init calls).bucket,
        0 ≤ bucket.tokens ∧ bucket.tokens ≤ burst * 1000 := by
  obtain ⟨hAnswers, hSet⟩ := @expiry_along rate burst .init hRate.ne' hBurst calls
    (fun _ hb => nomatch hb) hClock
  exact ⟨hAnswers, fun bucket hb => ⟨zero_le _, (hSet bucket hb).1⟩⟩

/-- The keys have expired when the second call is made. -/
theorem expired_unobservable :
    answers 1 1 live none [⟨0, 0, 1⟩, ⟨300000, 300000, 1⟩] =
        answers 1 1 kept none [⟨0, 0, 1⟩, ⟨300000, 300000, 1⟩] ∧
      ∀ bucket ∈ (run 1 1 .init [⟨0, 0, 1⟩, ⟨300000, 300000, 1⟩]).bucket,
        0 ≤ bucket.tokens ∧ bucket.tokens ≤ 1 * 1000 :=
  expiry_unobservable 1 1 (by decide) (by decide) _ (by simp [OnClock])

/-- A call that costs more than the burst leaves a full bucket, and its thousandths are rounded
up. -/
theorem roundedUp_exceeds :
    (run 1000000000 72057594037931 .init [⟨0, 0, 72057594037932⟩]).bucket.map Bucket.tokens =
        some 72057594037931008 ∧
      ¬ 72057594037931008 ≤ 72057594037931 * 1000 := by
  decide +kernel

/-! ## The time to wait -/

/-- The time to wait is exact. -/
theorem wait_le_iff {δ : ℕ} (hr : rate ≠ 0) (hn : n < 2 ^ 53) :
    ⌈nearest ((num n : ℚ) / num rate)⌉₊ ≤ δ ↔ n ≤ δ * rate := by
  have hRate := num_pos hr
  rw [num_eq_self hn.le, ceil_nearest_div hn hRate, ceil_le,
    div_le_iff₀ (cast_pos.mpr hRate)]
  norm_cast
  constructor
  · intro h
    by_contra hLt
    rw [num_rate_mul (by omega)] at h
    omega
  · exact le_num_rate_mul hn.le

/-- After a denied call, one of the same cost is allowed from the time on that the answer has
named. -/
theorem allowed_iff_of_denied {cost δ c t : ℕ} {answer : Answer} (hb : burst * 1000 ≤ 2 ^ 53)
    (hr : rate ≠ 0) (hc : cost ≠ 0) (hle : cost ≤ burst) (ht : t + δ ≤ 2 ^ 53)
    (hClock : c + δ ≤ 2 ^ 53) {found : Option Bucket}
    (hd : (script rate burst ⟨c, t, cost⟩ found).1 = some answer)
    (hDenied : answer.allowed = false) :
    (script rate burst ⟨c + δ, t + δ, cost⟩ (live ⟨c + δ, t + δ, cost⟩
        ((script rate burst ⟨c, t, cost⟩ found).2.or bucket))).1.map (·.allowed) =
      some (decide (answer.retryAfterMs ≤ δ)) := by
  have hp : ¬ (rate = 0 ∨ burst = 0 ∨ cost = 0) := by omega
  have hDeadline : c + δ + ttl rate burst ≤ maxDeadline := by
    have hTtl := ttl_le hb hr
    rw [maxDeadline]
    omega
  have hCost : milli cost = cost * 1000 := milli_eq ((mul_le_mul_right 1000 hle).trans hb)
  have hTokens : refilled rate burst found t ≤ 2 ^ 53 :=
    (min_le_left _ _).trans ((milli_eq hb).trans_le hb)
  simp only [script, if_neg hp, if_neg (by omega : ¬ c + ttl rate burst > maxDeadline),
    if_neg (by omega : ¬ c + δ + ttl rate burst > maxDeadline), some_or, map_some,
    some.injEq] at hd ⊢
  generalize refilled rate burst found t = tokens at hd hTokens ⊢
  have hl : tokens < milli cost := by
    by_contra he
    rw [charge_of_le (not_lt.mp he)] at hd
    rw [← hd] at hDenied
    cases hDenied
  rw [charge_of_lt hl] at hd ⊢
  rw [charge_allowed, hCost, decide_eq_decide, ← hd, wait_le_iff hr (by omega), hCost]
  simp only
  rw [live, filter_some]
  split_ifs with hLive
  · rw [refilled_some, refill_eq hb ht, num_eq_self (by omega), Nat.add_sub_cancel_left,
      le_min_iff, tsub_le_iff_left]
    exact and_iff_right (Nat.mul_le_mul_right 1000 hle)
  · -- the keys have expired, but after that time the bucket is full in any case
    rw [refilled_none hb]
    have hm : ttl rate burst * rate ≤ δ * rate :=
      mul_le_mul_right rate (by simpa using hLive)
    have hFull := burst_le_ttl_mul hb hr
    omega

end Spacegate.AiGateway.TokenBucket
