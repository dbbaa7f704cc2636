import Mathlib.Algebra.Order.Floor.Ring
import Mathlib.Data.Int.Log
import Mathlib.Data.Rat.Floor
import Mathlib.Tactic

/-!
# Double-precision numbers

A number that a scripting language computes is rounded to 53 binary digits; of two
neighbours that are equally near it becomes the even one.  Only numbers that are not
negative are needed.  The exponent is not bounded here: numbers between `2 ^ (-1022)` and
`2 ^ 1023` neither underflow nor overflow.

Whole numbers up to `2 ^ 53` are exact, and so is the quotient of two of them after it has
been rounded up (`ceil_nearest_div`).
-/

namespace Spacegate.Foundation.Double

open Nat

/-- The nearest integer; of two that are equally near, the even one. -/
def halfEven (x : ℚ) : ℤ :=
  if Int.fract x < 1 / 2 ∨ Int.fract x = 1 / 2 ∧ Even ⌊x⌋ then ⌊x⌋ else ⌊x⌋ + 1

/-- The exponent of the last of the 53 digits. -/
def lastPlace (x : ℚ) : ℤ :=
  Int.log 2 x - 52

/-- The double next to a number. -/
def nearest (x : ℚ) : ℚ :=
  halfEven (x / 2 ^ lastPlace x) * 2 ^ lastPlace x

/-! ## Integers -/

variable {x y : ℚ}

theorem floor_le_halfEven (x : ℚ) : ⌊x⌋ ≤ halfEven x := by
  unfold halfEven
  split_ifs <;> omega

theorem halfEven_le_floor_add_one (x : ℚ) : halfEven x ≤ ⌊x⌋ + 1 := by
  unfold halfEven
  split_ifs <;> omega

theorem halfEven_intCast (n : ℤ) : halfEven n = n := by
  simp [halfEven]

theorem halfEven_mono (h : x ≤ y) : halfEven x ≤ halfEven y := by
  rcases (Int.floor_le_floor h).lt_or_eq with hLt | hEq
  · exact (halfEven_le_floor_add_one x).trans (hLt.trans_le (floor_le_halfEven y))
  · -- with the same integer part the larger number has the larger fraction
    have hFract : Int.fract x ≤ Int.fract y := by
      rw [Int.fract, Int.fract, hEq]
      linarith
    unfold halfEven
    rw [hEq]
    split_ifs with hx hy hy
    · exact le_rfl
    · omega
    · refine absurd ?_ hx
      rcases hy with hy | ⟨hy, he⟩
      · exact .inl (hFract.trans_lt hy)
      · exact hFract.lt_or_eq.imp (·.trans_eq hy) fun hf => ⟨hf.trans hy, he⟩
    · exact le_rfl

theorem abs_halfEven_sub_le (x : ℚ) : |(halfEven x : ℚ) - x| ≤ 1 / 2 := by
  have hSplit := Int.floor_add_fract x
  have hLt := Int.fract_lt_one x
  have hNonneg := Int.fract_nonneg x
  rw [abs_le]
  unfold halfEven
  split_ifs with h
  · have hHalf : Int.fract x ≤ 1 / 2 := h.elim le_of_lt fun h => h.1.le
    constructor <;> linarith
  · have hHalf : 1 / 2 ≤ Int.fract x := not_lt.mp fun hf => h (.inl hf)
    push_cast
    constructor <;> linarith

/-! ## Doubles -/

theorem zpow_lastPlace_pos (x : ℚ) : (0 : ℚ) < 2 ^ lastPlace x :=
  zpow_pos two_pos _

theorem le_div_lastPlace (h : 0 < x) : (2 : ℚ) ^ 52 ≤ x / 2 ^ lastPlace x := by
  have hPlace : (52 : ℕ) + lastPlace x = Int.log 2 x := by
    unfold lastPlace
    omega
  rw [le_div_iff₀ (zpow_lastPlace_pos x), ← zpow_natCast, ← zpow_add₀ two_ne_zero, hPlace]
  exact_mod_cast Int.zpow_log_le_self one_lt_two h

theorem div_lastPlace_lt (x : ℚ) : x / 2 ^ lastPlace x < (2 : ℚ) ^ 53 := by
  have hPlace : (53 : ℕ) + lastPlace x = Int.log 2 x + 1 := by
    unfold lastPlace
    omega
  rw [div_lt_iff₀ (zpow_lastPlace_pos x), ← zpow_natCast, ← zpow_add₀ two_ne_zero, hPlace]
  exact_mod_cast Int.lt_zpow_succ_log_self one_lt_two x

theorem le_halfEven {k : ℤ} (h : k ≤ x) : k ≤ halfEven x := by
  have hMono := halfEven_mono h
  rwa [halfEven_intCast] at hMono

theorem halfEven_le {k : ℤ} (h : x ≤ k) : halfEven x ≤ k := by
  have hMono := halfEven_mono h
  rwa [halfEven_intCast] at hMono

theorem halfEven_div_nonneg (h : 0 ≤ x) : 0 ≤ halfEven (x / 2 ^ lastPlace x) := by
  refine le_halfEven ?_
  rw [Int.cast_zero]
  exact div_nonneg h (zpow_lastPlace_pos x).le

theorem halfEven_div_le (x : ℚ) : halfEven (x / 2 ^ lastPlace x) ≤ 2 ^ 53 := by
  refine halfEven_le ?_
  push_cast
  exact (div_lastPlace_lt x).le

theorem nearest_nonneg (h : 0 ≤ x) : 0 ≤ nearest x :=
  mul_nonneg (by exact_mod_cast halfEven_div_nonneg h) (zpow_lastPlace_pos x).le

theorem nearest_le_zpow (x : ℚ) : nearest x ≤ 2 ^ (lastPlace x + 53) := by
  rw [zpow_add₀ two_ne_zero, mul_comm]
  exact mul_le_mul_of_nonneg_right (by exact_mod_cast halfEven_div_le x) (zpow_lastPlace_pos x).le

theorem nearest_zero : nearest 0 = 0 := by
  decide +kernel

/-- Rounding keeps the order.  Between numbers of different length lies a power of two. -/
theorem nearest_mono (hx : 0 ≤ x) (h : x ≤ y) : nearest x ≤ nearest y := by
  rcases hx.eq_or_lt with rfl | hx
  · rw [nearest_zero]
    exact nearest_nonneg h
  have hPlace : lastPlace x ≤ lastPlace y := Int.sub_le_sub_right (Int.log_mono_right hx h) 52
  rcases hPlace.lt_or_eq with hLt | hEq
  · have hAbove : 2 ^ 52 ≤ halfEven (y / 2 ^ lastPlace y) := by
      refine le_halfEven ?_
      push_cast
      exact le_div_lastPlace (hx.trans_le h)
    calc nearest x ≤ 2 ^ (lastPlace x + 53) := nearest_le_zpow x
      _ ≤ 2 ^ (52 + lastPlace y) := zpow_le_zpow_right₀ one_le_two (by omega)
      _ ≤ nearest y := by
        rw [zpow_add₀ two_ne_zero]
        exact mul_le_mul_of_nonneg_right (by exact_mod_cast hAbove) (zpow_lastPlace_pos y).le
  · unfold nearest
    rw [hEq]
    refine mul_le_mul_of_nonneg_right ?_ (zpow_lastPlace_pos y).le
    exact_mod_cast halfEven_mono (div_le_div_of_nonneg_right h (zpow_lastPlace_pos y).le)

/-- A number with at most 53 digits before its last place is a double. -/
theorem nearest_eq_self {k : ℤ} (h : x = k * 2 ^ lastPlace x) : nearest x = x := by
  have hk : x / 2 ^ lastPlace x = k := by
    rw [div_eq_iff (zpow_lastPlace_pos x).ne', ← h]
  rw [nearest, hk, halfEven_intCast, ← h]

theorem abs_nearest_sub_le (h : 0 ≤ x) : |nearest x - x| ≤ x / 2 ^ 53 := by
  rcases h.eq_or_lt with rfl | h
  · simp [nearest_zero]
  have hp := zpow_lastPlace_pos x
  have hx : x = x / 2 ^ lastPlace x * 2 ^ lastPlace x := (div_mul_cancel₀ x hp.ne').symm
  have hle := le_div_lastPlace h
  calc |nearest x - x|
      = |(halfEven (x / 2 ^ lastPlace x) : ℚ) - x / 2 ^ lastPlace x| * 2 ^ lastPlace x := by
        rw [← abs_of_pos hp, ← abs_mul, sub_mul, abs_of_pos hp, ← hx, nearest]
    _ ≤ 1 / 2 * 2 ^ lastPlace x := mul_le_mul_of_nonneg_right (abs_halfEven_sub_le _) hp.le
    _ ≤ x / 2 ^ 53 := by
        rw [le_div_iff₀ (by positivity)]
        rw [le_div_iff₀ hp] at hle
        linarith

/-- Whole numbers are exact up to `2 ^ 53`. -/
theorem nearest_natCast {n : ℕ} (h : n ≤ 2 ^ 53) : nearest n = n := by
  rcases h.eq_or_lt with rfl | h
  · decide +kernel
  have hPlace : lastPlace n ≤ 0 := by
    have hLog : log 2 n < 53 := log_lt_of_lt_pow' (by omega) h
    rw [lastPlace, Int.log_natCast]
    omega
  obtain ⟨p, hp⟩ := Int.exists_eq_neg_ofNat hPlace
  refine nearest_eq_self (k := n * 2 ^ p) ?_
  rw [hp, zpow_neg, zpow_natCast]
  push_cast
  rw [mul_inv_cancel_right₀ (pow_ne_zero p two_ne_zero)]

theorem mul_le_nearest (h : 0 ≤ x) : 3 / 4 * x ≤ nearest x := by
  have hErr := (abs_le.mp (abs_nearest_sub_le h)).1
  have hSmall : x / 2 ^ 53 ≤ x / 4 := div_le_div_of_nonneg_left h (by norm_num) (by norm_num)
  linarith

/-- The quotient of two whole numbers, rounded up, is that of the exact quotient. -/
theorem ceil_nearest_div {n d : ℕ} (hn : n < 2 ^ 53) (hd : 0 < d) :
    ⌈nearest (n / d)⌉₊ = ⌈(n / d : ℚ)⌉₊ := by
  have hPos : (0 : ℚ) < d := cast_pos.mpr hd
  have hq : (0 : ℚ) ≤ n / d := div_nonneg n.cast_nonneg hPos.le
  have hqn : (n / d : ℚ) ≤ n := div_le_self n.cast_nonneg (by exact_mod_cast hd)
  refine eq_of_forall_ge_iff fun k => ?_
  rw [ceil_le, ceil_le]
  rcases le_or_gt k (2 ^ 53) with hk | hk
  · constructor
    · intro h
      by_contra hLt
      rw [not_le, lt_div_iff₀ hPos] at hLt
      -- the quotient is at least `1 / d` above the whole number, which is more than the error
      have hGap : (k * d : ℚ) + 1 ≤ n := by exact_mod_cast hLt
      have hErr := (abs_le.mp (abs_nearest_sub_le hq)).1
      have hSmall : (n / d : ℚ) / 2 ^ 53 < 1 / d := by
        rw [div_right_comm, div_lt_div_iff_of_pos_right hPos, div_lt_one (by positivity)]
        exact_mod_cast hn
      have hSplit : (k : ℚ) + 1 / d ≤ n / d := by
        rw [le_div_iff₀ hPos, add_mul, one_div_mul_cancel hPos.ne']
        exact hGap
      linarith
    · intro h
      have hMono := nearest_mono hq h
      rwa [nearest_natCast hk] at hMono
  · have hBig : (n / d : ℚ) ≤ k := hqn.trans (by exact_mod_cast (hn.trans hk).le)
    refine iff_of_true ((nearest_mono hq hqn).trans ?_) hBig
    rw [nearest_natCast hn.le]
    exact_mod_cast (hn.trans hk).le

/-! ## Whole numbers -/

/-- A whole number, rounded. -/
def num (n : ℕ) : ℕ :=
  ⌊nearest n⌋₊

variable {m n : ℕ}

theorem num_eq_self (h : n ≤ 2 ^ 53) : num n = n := by
  rw [num, nearest_natCast h, floor_natCast]

theorem num_mono (h : m ≤ n) : num m ≤ num n :=
  floor_le_floor (nearest_mono m.cast_nonneg (cast_le.mpr h))

theorem le_num (hm : m ≤ 2 ^ 53) (h : m ≤ n) : m ≤ num n :=
  (num_eq_self hm).symm.trans_le (num_mono h)

end Spacegate.Foundation.Double
