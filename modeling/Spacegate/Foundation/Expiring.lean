import Mathlib.Logic.Function.Basic

/-!
# Keys that expire

A value under a key may have a deadline, from which on it is not found any more.  Whether
the store has already removed it makes no difference.
-/

namespace Spacegate.Foundation.Expiring

variable {κ ν : Type}

structure Timed (ν : Type) where
  value : ν
  deadline : Option Nat

def Timed.Live (now : Nat) (timed : Timed ν) : Prop :=
  ∀ deadline ∈ timed.deadline, now < deadline

instance (now : Nat) (timed : Timed ν) : Decidable (timed.Live now) :=
  inferInstanceAs (Decidable (∀ deadline ∈ timed.deadline, now < deadline))

/-- The value under a key at some time. -/
def get (now : Nat) (keys : κ → Option (Timed ν)) (key : κ) : Option ν :=
  (keys key).bind fun timed => if timed.Live now then some timed.value else none

variable {keys : κ → Option (Timed ν)} {key : κ}

theorem get_eq_some_iff {now : Nat} {value : ν} : get now keys key = some value ↔
      ∃ timed, keys key = some timed ∧ timed.Live now ∧ timed.value = value := by
  simp [get, Option.bind_eq_some_iff]

theorem get_of_deadline {now deadline : Nat} {value : ν}
    (h : keys key = some { value := value, deadline := some deadline }) (hNow : now < deadline) :
    get now keys key = some value :=
  get_eq_some_iff.mpr ⟨_, h, fun _ hd => by cases hd; exact hNow, rfl⟩

theorem get_congr {now : Nat} {keys' : κ → Option (Timed ν)} (h : keys key = keys' key) :
    get now keys key = get now keys' key := by
  simp [get, h]

theorem get_update_of_ne [DecidableEq κ] {now : Nat} {key other : κ} (h : other ≠ key)
    (value : Option (Timed ν)) :
    get now (Function.update keys key value) other = get now keys other :=
  get_congr (Function.update_of_ne h value keys)

theorem get_of_get_later {now later : Nat} {value : ν} (hl : now ≤ later)
    (h : get later keys key = some value) : get now keys key = some value := by
  obtain ⟨timed, ht, hLive, hv⟩ := get_eq_some_iff.mp h
  refine get_eq_some_iff.mpr ⟨timed, ht, fun deadline hd => ?_, hv⟩
  exact Nat.lt_of_le_of_lt hl (hLive deadline hd)

end Spacegate.Foundation.Expiring
