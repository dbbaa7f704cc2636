import Mathlib.Algebra.Order.BigOperators.Group.Finset
import Mathlib.Data.Fintype.BigOperators

/-!
# Many parties, each in a state of its own

A step of a system of many parties changes the state of one of them.  `tally p` is the
number of parties whose state has the property `p`.
-/

namespace Spacegate.Foundation.Parties

open Finset

variable {ι σ : Type} [Fintype ι]

def tally (p : σ → Bool) (states : ι → σ) : Nat :=
  ∑ i, (p (states i)).toNat

theorem tally_eq_zero {p : σ → Bool} {states : ι → σ} (h : ∀ i, p (states i) = false) :
    tally p states = 0 := by
  simp [tally, h]

theorem tally_mono {p q : σ → Bool} (h : ∀ x, p x = true → q x = true) (states : ι → σ) :
    tally p states ≤ tally q states := by
  refine sum_le_sum ?_
  intro i _
  cases hp : p (states i) with
  | false => exact Nat.zero_le _
  | true => rw [h _ hp]

theorem tally_update [DecidableEq ι] (p : σ → Bool) (states : ι → σ) (i : ι) (x : σ) :
    tally p (Function.update states i x) + (p (states i)).toNat = tally p states + (p x).toNat := by
  have ho : ∀ j ∈ univ.erase i,
      (p (Function.update states i x j)).toNat = (p (states j)).toNat := by
    intro j hj
    rw [Function.update_of_ne (ne_of_mem_erase hj)]
  have hu := add_sum_erase univ
    (fun j => (p (Function.update states i x j)).toNat) (mem_univ i)
  have hs := add_sum_erase univ (fun j => (p (states j)).toNat) (mem_univ i)
  rw [sum_congr rfl ho, Function.update_self] at hu
  unfold tally
  omega

end Spacegate.Foundation.Parties
