import Spacegate.Foundation.Parties
import Spacegate.Foundation.Trace

/-!
# Counting requests in Redis

The `redis-count` plugin lets a client have a number of requests.  A request is counted
before it is let through, and the count is given back when the response is an error.  The
counter is begun by the request that finds none, which takes two commands, and another
request may come between them.
-/

namespace Spacegate.Plugin.RedisCount

open Foundation Option
open Foundation.Parties

/-- `u32::MAX`. -/
def u32Max : Nat := 2 ^ 32 - 1

/-- `get` of a `u32`.  A missing key and a number out of range are errors. -/
def getU32 (value : Option Int) : Option Nat :=
  value.bind fun v => if 0 ≤ v ∧ v ≤ u32Max then some v.toNat else none

/-- How far a request is. -/
inductive Request where
  | arrived
  /-- There was no counter. -/
  | missing
  /-- There was a counter. -/
  | found
  | counted
  | read (cumulative : Nat)
  /-- The inner service is called. -/
  | forwarded
  /-- The response is an error. -/
  | failed
  /-- The response is returned with the count given back. -/
  | givenBack
  /-- The response is returned. -/
  | answered
  /-- The limit is reached. -/
  | refused
  /-- The counter could not be read. -/
  | error
  deriving DecidableEq, Repr

/-- The next command of a request: `redis_call`, and `redis_call_on_resp` after a response
that is an error.  The counter and the limit are the numbers under the two keys. -/
def command (cumulative count : Option Int) : Request → Request × Option Int
  -- `EXISTS`
  | .arrived => (if cumulative.isSome then .found else .missing, cumulative)
  -- `SET`
  | .missing => (.counted, some 1)
  -- `INCR`
  | .found => (.counted, some (cumulative.getD 0 + 1))
  -- `GET`
  | .counted =>
    match getU32 cumulative with
    | some cumulative' => (.read cumulative', cumulative)
    | none => (.error, cumulative)
  -- `GET` of the limit, without which there is none
  | .read cumulative' =>
    (if cumulative' ≤ (getU32 count).getD u32Max then .forwarded else .refused, cumulative)
  -- `DECR`
  | .failed => (.givenBack, some (cumulative.getD 0 - 1))
  | request => (request, cumulative)

def isClientError (status : Nat) : Bool :=
  400 ≤ status && status < 500

def isServerError (status : Nat) : Bool :=
  500 ≤ status && status < 600

/-- The inner service has responded. -/
def respond (status : Nat) : Request → Request
  | .forwarded => if isServerError status || isClientError status then .failed else .answered
  | request => request

/-- The two keys of one client, and its requests. -/
structure State (ι : Type) where
  cumulative : Option Int
  count : Option Int
  requests : ι → Request

inductive Action (ι : Type) where
  | command (i : ι)
  | respond (i : ι) (status : Nat)

variable {ι : Type}

def State.init (cumulative : Option Nat) (count : Nat) : State ι where
  cumulative := cumulative.map Int.ofNat
  count := some count
  requests := fun _ => .arrived

/-- One request makes its next step. -/
def step [DecidableEq ι] (s : State ι) : Action ι → State ι
  | .command i =>
    let next := command s.cumulative s.count (s.requests i)
    { s with cumulative := next.2, requests := Function.update s.requests i next.1 }
  | .respond i status =>
    { s with requests := Function.update s.requests i (respond status (s.requests i)) }

def run [DecidableEq ι] (s : State ι) (actions : List (Action ι)) : State ι :=
  actions.foldl step s

/-- Counted, and not given back. -/
def Request.isCounted : Request → Bool
  | .arrived | .missing | .found | .givenBack => false
  | .counted | .read _ | .forwarded | .failed | .answered | .refused | .error => true

/-- Let through to the inner service, and not given back. -/
def Request.isLetThrough : Request → Bool
  | .forwarded | .failed | .answered => true
  | _ => false

/-- Let through, or about to be. -/
def Request.passes (limit : Nat) : Request → Bool
  | .read cumulative => cumulative ≤ limit
  | request => request.isLetThrough

/-- The counter has every increment that was not given back, and no more requests than the
limit have been let through. -/
structure Counted [Fintype ι] (cumulative : Option Nat) (count : Nat) (s : State ι) : Prop where
  exact : s.cumulative.getD 0 = cumulative.getD 0 + tally Request.isCounted s.requests
  bounded : tally Request.isLetThrough s.requests ≤ count

/-- A request that has found no counter begins one only while there is still none, or while
it stands at nothing. -/
def BeginsOnce (s : State ι) : Action ι → Prop
  | .command i => s.requests i = .missing → s.cumulative.getD 0 = 0
  | .respond _ _ => True

/-! ## One request -/

/-- A command changes the counter and what is counted alike, unless it begins the counter. -/
theorem command_exact (cumulative count : Option Int) (request : Request) : request = .missing ∨
      (command cumulative count request).2.getD 0 + request.isCounted.toNat =
        cumulative.getD 0 + ((command cumulative count request).1.isCounted.toNat : Int) := by
  cases request with
  | missing => exact .inl rfl
  | arrived =>
    right
    cases cumulative <;> simp [command, Request.isCounted]
  | counted =>
    right
    cases hr : getU32 cumulative <;> simp [command, hr, Request.isCounted]
  | read cumulative' =>
    right
    simp only [command]
    split_ifs <;> simp [Request.isCounted]
  | found | forwarded | failed | givenBack | answered | refused | error =>
    right
    simp [command, Request.isCounted]

theorem getU32_eq_some {value : Option Int} {n : Nat} (h : getU32 value = some n) :
    value.getD 0 = n ∧ n ≤ u32Max := by
  cases value with
  | none => cases h
  | some v =>
    simp only [getU32, bind_some] at h
    split_ifs at h with hr
    cases h
    simp only [getD_some]
    omega

variable {request : Request}

/-- A request passes after a command if it did before, or has just read a counter within the
limit. -/
theorem passes_command {cumulative count : Option Int}
    (h : (command cumulative count request).1.passes ((getU32 count).getD u32Max) = true) :
    request.passes ((getU32 count).getD u32Max) = true ∨
      (cumulative.getD 0 ≤ ((getU32 count).getD u32Max : Nat) ∧
        (command cumulative count request).2 = cumulative) := by
  cases request with
  | arrived =>
    cases cumulative <;> simp [command, Request.passes, Request.isLetThrough] at h
  | counted =>
    cases hr : getU32 cumulative with
    | none => simp [command, hr, Request.passes, Request.isLetThrough] at h
    | some cumulative' =>
      have hLe : cumulative' ≤ (getU32 count).getD u32Max := by
        simpa [command, hr, Request.passes] using h
      refine .inr ⟨?_, by simp [command, hr]⟩
      rw [(getU32_eq_some hr).1]
      exact_mod_cast hLe
  | read cumulative' =>
    simp only [command] at h
    split_ifs at h with hLe
    · exact .inl (by simpa [Request.passes] using hLe)
    · cases h
  | missing | found | failed => cases h
  | forwarded | answered => exact .inl rfl
  | givenBack | refused | error => cases h

theorem isCounted_respond (status : Nat) (request : Request) :
    (respond status request).isCounted = request.isCounted := by
  cases request with
  | forwarded =>
    simp only [respond]
    split_ifs <;> rfl
  | _ => rfl

theorem passes_respond (status limit : Nat) (request : Request) :
    (respond status request).passes limit = request.passes limit := by
  cases request with
  | forwarded =>
    simp only [respond]
    split_ifs <;> rfl
  | _ => rfl

theorem isCounted_of_passes (limit : Nat) (h : request.passes limit = true) :
    request.isCounted = true := by
  cases request <;> first | rfl | cases h

theorem passes_of_isLetThrough (limit : Nat)
    (h : request.isLetThrough = true) : request.passes limit = true := by
  cases request <;> first | exact h | cases h

/-! ## All requests -/

variable [Fintype ι] {cumulative : Option Nat} {count : Nat} {s : State ι}

theorem limit_le (count : Nat) : (getU32 (some (count : Int))).getD u32Max ≤ count := by
  cases hr : getU32 (some (count : Int)) with
  | some limit =>
    have hl := (getU32_eq_some hr).1
    simp only [getD_some] at hl ⊢
    omega
  | none =>
    simp only [getU32, bind_some] at hr
    split_ifs at hr with hRange
    simp only [getD_none]
    omega

/-- What the steps keep.  A request that has read a counter within the limit counts as let
through. -/
structure Inv (cumulative : Option Nat) (count : Nat) (s : State ι) : Prop where
  limit : s.count = some (count : Int)
  exact : s.cumulative.getD 0 = cumulative.getD 0 + tally Request.isCounted s.requests
  bounded : tally (Request.passes ((getU32 s.count).getD u32Max)) s.requests ≤
    (getU32 s.count).getD u32Max

theorem inv_init : Inv cumulative count (State.init cumulative count : State ι) where
  limit := rfl
  exact := by
    rw [tally_eq_zero fun _ => rfl]
    cases cumulative <;> rfl
  bounded := by
    rw [tally_eq_zero fun _ => rfl]
    exact Nat.zero_le _

theorem Inv.counted (h : Inv cumulative count s) : Counted cumulative count s where
  exact := h.exact
  bounded := by
    have hm : tally Request.isLetThrough s.requests ≤
        tally (Request.passes ((getU32 s.count).getD u32Max)) s.requests :=
      tally_mono (fun _ => passes_of_isLetThrough _) s.requests
    have hl := limit_le count
    rw [← h.limit] at hl
    exact hm.trans (h.bounded.trans hl)

variable [DecidableEq ι]

/-- The counter after the next command of a request. -/
theorem exact_command_iff (h : Inv cumulative count s) (i : ι) :
    (step s (.command i)).cumulative.getD 0 =
        cumulative.getD 0 + tally Request.isCounted (step s (.command i)).requests ↔
      BeginsOnce s (.command i) := by
  have he := h.exact
  have ht := tally_update Request.isCounted s.requests i
    (command s.cumulative s.count (s.requests i)).1
  simp only [step, BeginsOnce]
  rcases command_exact s.cumulative s.count (s.requests i) with hm | hc
  · rw [hm] at ht ⊢
    simp only [command, Request.isCounted, Bool.toNat_false, Bool.toNat_true,
      getD_some, forall_true_left] at ht ⊢
    omega
  · have hnm : s.requests i = .missing → s.cumulative.getD 0 = 0 := by
      intro hm
      rw [hm] at hc
      simp only [command, Request.isCounted, Bool.toNat_false, Bool.toNat_true,
        getD_some] at hc
      omega
    refine iff_of_true ?_ hnm
    omega

theorem bounded_command (h : Inv cumulative count s) (i : ι)
    (he : (step s (.command i)).cumulative.getD 0 =
      cumulative.getD 0 + tally Request.isCounted (step s (.command i)).requests) :
    tally (Request.passes ((getU32 s.count).getD u32Max)) (step s (.command i)).requests ≤
      (getU32 s.count).getD u32Max := by
  have hBounded := h.bounded
  have ht := tally_update (Request.passes ((getU32 s.count).getD u32Max)) s.requests i
    (command s.cumulative s.count (s.requests i)).1
  cases hp : (command s.cumulative s.count (s.requests i)).1.passes
      ((getU32 s.count).getD u32Max) with
  | false =>
    simp only [hp, Bool.toNat_false] at ht
    simp only [step]
    omega
  | true =>
    rcases passes_command hp with hb | ⟨hr, hs⟩
    · simp only [hp, hb] at ht
      simp only [step]
      omega
    · -- whatever passes is counted, and the counter is within the limit
      have hm : tally (Request.passes ((getU32 s.count).getD u32Max))
          (step s (.command i)).requests ≤
          tally Request.isCounted (step s (.command i)).requests :=
        tally_mono (fun _ => isCounted_of_passes _) _
      have hc : (step s (.command i)).cumulative = s.cumulative := hs
      rw [hc] at he
      omega

theorem Inv.respond (h : Inv cumulative count s) (i : ι) (status : Nat) :
    Inv cumulative count (step s (.respond i status)) := by
  have hc := tally_update Request.isCounted s.requests i (RedisCount.respond status (s.requests i))
  have hp := tally_update (Request.passes ((getU32 s.count).getD u32Max)) s.requests i
    (RedisCount.respond status (s.requests i))
  rw [isCounted_respond] at hc
  rw [passes_respond] at hp
  have he := h.exact
  have hb := h.bounded
  refine ⟨h.limit, ?_, ?_⟩
  · simp only [step]
    omega
  · simp only [step]
    omega

theorem Inv.step {action : Action ι} (h : Inv cumulative count s) (hb : BeginsOnce s action) :
    Inv cumulative count (step s action) := by
  cases action with
  | command i =>
    have he := (exact_command_iff h i).mpr hb
    exact ⟨h.limit, he, bounded_command h i he⟩
  | respond i status => exact h.respond i status

/-- In every state that is reached no increment is lost and no more requests than the limit
are let through without giving back, exactly when no request begins the counter anew. -/
theorem counted_iff_beginsOnce (cumulative : Option Nat) (count : Nat)
    (actions : List (Action ι)) :
    (∀ earlier later, actions = earlier ++ later →
      Counted cumulative count (run (State.init cumulative count) earlier)) ↔
    Trace.Along step BeginsOnce (State.init cumulative count) actions := by
  refine Trace.reached_iff_along (fun s (h : Inv cumulative count s) => h.counted)
    (fun _ _ => Inv.step) ?_ inv_init
  intro s action h hc
  cases action with
  | command i => exact (exact_command_iff h i).mp hc.exact
  | respond i status => trivial

/-- Two requests find no counter, and both begin it.  The limit of one lets both through. -/
theorem twoOfOne_letThrough :
    let actions : List (Action (Fin 2)) :=
      [.command 0, .command 1, .command 0, .command 1, .command 0, .command 1,
        .command 0, .command 1]
    let s := run (State.init none 1) actions
    s.cumulative = some 1 ∧ tally Request.isCounted s.requests = 2 ∧
      tally Request.isLetThrough s.requests = 2 := by
  decide

end Spacegate.Plugin.RedisCount
