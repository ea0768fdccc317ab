import Mathlib.Algebra.Order.Ring.Abs
import Mathlib.Algebra.Ring.Int.Parity
import Mathlib.Data.Int.Log
import Mathlib.Data.Rat.Floor
import Mathlib.Tactic.Linarith

/-!
# Rounding in a floating-point format

A binary format has numbers of `prec` digits, the last of which counts `2 ^ emin` or more.
The result of an operation is the exact one rounded to a number of the format, to the
nearest one, and of two to the one whose last digit is even (`FloatFormat.round`).

Where the rounding of a rational is compared with an integer, nothing has to be evaluated:

* `FloatFormat.round_mono` — rounding keeps the order.
* `FloatFormat.round_intCast` — integers of up to `prec` digits are not rounded.

A format has no greatest number here, so a result that overflows is a large number.
-/

namespace Framework

/-! ### The nearest integer -/

/-- The nearest integer, and of two the even one. -/
def roundEven (x : ℚ) : ℤ :=
  if x - ⌊x⌋ < 1 / 2 then ⌊x⌋
  else if 1 / 2 < x - ⌊x⌋ then ⌊x⌋ + 1
  else if Even ⌊x⌋ then ⌊x⌋ else ⌊x⌋ + 1

theorem roundEven_intCast (n : ℤ) : roundEven n = n := by
  unfold roundEven
  rw [Int.floor_intCast, sub_self, if_pos (by norm_num)]

theorem floor_le_roundEven (x : ℚ) : ⌊x⌋ ≤ roundEven x := by
  unfold roundEven
  split_ifs <;> omega

theorem roundEven_le_floor_add_one (x : ℚ) : roundEven x ≤ ⌊x⌋ + 1 := by
  unfold roundEven
  split_ifs <;> omega

theorem roundEven_mono {x y : ℚ} (h : x ≤ y) : roundEven x ≤ roundEven y := by
  rcases (Int.floor_le_floor h).lt_or_eq with h_lt | h_floor
  · calc roundEven x ≤ ⌊x⌋ + 1 := roundEven_le_floor_add_one x
      _ ≤ ⌊y⌋ := h_lt
      _ ≤ roundEven y := floor_le_roundEven y
  · -- between the same two integers, the distances decide
    unfold roundEven
    rw [h_floor]
    split_ifs <;> first | omega | linarith

theorem roundEven_neg (x : ℚ) : roundEven (-x) = -roundEven x := by
  rcases eq_or_ne (x - ⌊x⌋) 0 with h_int | h_frac
  · have h_cast : x = ⌊x⌋ := sub_eq_zero.mp h_int
    rw [h_cast, ← Int.cast_neg, roundEven_intCast, roundEven_intCast]
  · -- the integers next to `-x` are those next to `x`, the other way round
    have h_pos : 0 < x - ⌊x⌋ := lt_of_le_of_ne (sub_nonneg.mpr (Int.floor_le x)) h_frac.symm
    have h_floor : ⌊-x⌋ = -⌊x⌋ - 1 := by
      rw [Int.floor_eq_iff]
      have h_lt := Int.lt_floor_add_one x
      push_cast
      constructor <;> linarith
    have h_even : Even (-⌊x⌋ - 1) ↔ ¬ Even ⌊x⌋ := by
      rw [Int.even_sub_one, even_neg]
    unfold roundEven
    simp only [h_floor, h_even]
    push_cast
    split_ifs <;> first | omega | linarith

/-! ### Formats -/

/-- A binary format: the digits of its numbers, and the exponent of the least one. -/
structure FloatFormat where
  prec : ℕ
  emin : ℤ
  prec_pos : 0 < prec

/-- Double precision. -/
def binary64 : FloatFormat := ⟨53, -1074, by decide⟩

namespace FloatFormat

variable (F : FloatFormat)

/-- The exponent of the last digit of a number of the size of `x`. -/
def lastExp (x : ℚ) : ℤ :=
  if x = 0 then F.emin else max F.emin (Int.log 2 |x| + 1 - F.prec)

/-- The nearest number of the format. -/
def round (x : ℚ) : ℚ := roundEven (x / 2 ^ F.lastExp x) * 2 ^ F.lastExp x

variable {F} {x y : ℚ}

theorem lastExp_neg : F.lastExp (-x) = F.lastExp x := by
  unfold lastExp
  simp only [neg_eq_zero, abs_neg]

theorem round_neg : F.round (-x) = -F.round x := by
  unfold round
  rw [lastExp_neg, neg_div, roundEven_neg, Int.cast_neg, neg_mul]

theorem emin_le_lastExp : F.emin ≤ F.lastExp x := by
  unfold lastExp
  split_ifs
  · exact le_rfl
  · exact le_max_left _ _

/-- The exponent goes by the size alone. -/
theorem lastExp_le_iff {k : ℤ} (hk : F.emin ≤ k) :
    F.lastExp x ≤ k ↔ |x| < 2 ^ (k + F.prec) := by
  unfold lastExp
  split_ifs with h_zero
  · rw [h_zero, abs_zero]
    exact iff_of_true hk (zpow_pos two_pos _)
  · have h_log := Int.lt_zpow_iff_log_lt (b := 2) (x := k + F.prec) one_lt_two
      (abs_pos.mpr h_zero)
    rw [Nat.cast_ofNat] at h_log
    rw [h_log, max_le_iff]
    omega

theorem lastExp_mono (h : |x| ≤ |y|) : F.lastExp x ≤ F.lastExp y := by
  rw [lastExp_le_iff emin_le_lastExp]
  exact h.trans_lt ((lastExp_le_iff emin_le_lastExp).mp le_rfl)

/-- A multiple of a greater power is one of the last digit. -/
theorem exists_multiple {e k : ℤ} (h : e ≤ k) (m : ℤ) : ∃ n : ℤ, (m * 2 ^ k : ℚ) = n * 2 ^ e := by
  refine ⟨m * 2 ^ (k - e).toNat, ?_⟩
  have h_split : (2 : ℚ) ^ k = 2 ^ (k - e).toNat * 2 ^ e := by
    rw [← zpow_natCast, Int.toNat_of_nonneg (by omega), ← zpow_add₀ two_ne_zero]
    congr 1
    omega
  rw [h_split]
  push_cast
  ring

/-- Rounding does not cross a multiple of the last digit. -/
theorem le_round {m k : ℤ} (hk : F.lastExp x ≤ k) (h : m * 2 ^ k ≤ x) :
    m * 2 ^ k ≤ F.round x := by
  obtain ⟨n, h_n⟩ := exists_multiple hk m
  have h_pos : (0 : ℚ) < 2 ^ F.lastExp x := zpow_pos two_pos _
  rw [h_n] at h ⊢
  have h_le : n ≤ roundEven (x / 2 ^ F.lastExp x) := by
    rw [← roundEven_intCast n]
    exact roundEven_mono ((le_div_iff₀ h_pos).mpr h)
  exact mul_le_mul_of_nonneg_right (Int.cast_le.mpr h_le) h_pos.le

theorem round_le {m k : ℤ} (hk : F.lastExp x ≤ k) (h : x ≤ m * 2 ^ k) :
    F.round x ≤ m * 2 ^ k := by
  have h_neg : ((-m : ℤ) : ℚ) * 2 ^ k ≤ F.round (-x) := by
    refine le_round (by rwa [lastExp_neg]) ?_
    push_cast
    linarith
  rw [round_neg] at h_neg
  push_cast at h_neg
  linarith

theorem round_nonneg (h : 0 ≤ x) : 0 ≤ F.round x := by
  have h_zero := le_round (F := F) (x := x) (m := 0) le_rfl (by simpa using h)
  simpa using h_zero

theorem round_mono_nonneg (hx : 0 ≤ x) (h : x ≤ y) : F.round x ≤ F.round y := by
  have h_abs : |x| ≤ |y| := abs_le_abs_of_nonneg hx h
  rcases (lastExp_mono (F := F) h_abs).lt_or_eq with h_exp | h_exp
  · -- the power that is the least number with the exponent of `y` lies between them
    have h_prec := F.prec_pos
    have h_lt : |x| < 2 ^ (F.lastExp y - 1 + F.prec) :=
      (lastExp_le_iff (by have := emin_le_lastExp (F := F) (x := x); omega)).mp (by omega)
    have h_ge : 2 ^ (F.lastExp y - 1 + F.prec) ≤ |y| := by
      by_contra h_not
      have h_small := (lastExp_le_iff (F := F) (x := y) (k := F.lastExp y - 1)
        (by have := emin_le_lastExp (F := F) (x := x); omega)).mpr (not_le.mp h_not)
      omega
    rw [abs_of_nonneg hx] at h_lt
    rw [abs_of_nonneg (hx.trans h)] at h_ge
    calc F.round x ≤ (1 : ℤ) * 2 ^ (F.lastExp y - 1 + F.prec) :=
          round_le (by omega) (by simpa using h_lt.le)
      _ ≤ F.round y := le_round (by omega) (by simpa using h_ge)
  · unfold round
    rw [h_exp]
    have h_pos : (0 : ℚ) < 2 ^ F.lastExp y := zpow_pos two_pos _
    refine mul_le_mul_of_nonneg_right (Int.cast_le.mpr ?_) h_pos.le
    exact roundEven_mono (div_le_div_of_nonneg_right h h_pos.le)

/-- **Rounding keeps the order.** -/
theorem round_mono (h : x ≤ y) : F.round x ≤ F.round y := by
  rcases le_total 0 x with hx | hx
  · exact round_mono_nonneg hx h
  rcases le_total 0 y with hy | hy
  · have h_left : 0 ≤ F.round (-x) := round_nonneg (neg_nonneg.mpr hx)
    have h_right : 0 ≤ F.round y := round_nonneg hy
    rw [round_neg] at h_left
    linarith
  · have h_neg := round_mono_nonneg (F := F) (neg_nonneg.mpr hy) (neg_le_neg h)
    rw [round_neg, round_neg] at h_neg
    exact neg_le_neg_iff.mp h_neg

/-- **A number of the format is not rounded.** -/
theorem round_eq_self {m k : ℤ} (hm : |m| < 2 ^ F.prec) (hk : F.emin ≤ k) :
    F.round (m * 2 ^ k) = m * 2 ^ k := by
  have h_exp : F.lastExp (m * 2 ^ k) ≤ k := by
    have h_pos : (0 : ℚ) < 2 ^ k := zpow_pos two_pos _
    rw [lastExp_le_iff hk, abs_mul, abs_of_pos h_pos, add_comm, zpow_add₀ two_ne_zero]
    refine mul_lt_mul_of_pos_right ?_ h_pos
    exact_mod_cast hm
  exact le_antisymm (round_le h_exp le_rfl) (le_round h_exp le_rfl)

theorem round_intCast {n : ℤ} (hn : |n| < 2 ^ F.prec) (hemin : F.emin ≤ 0) :
    F.round n = n := by
  simpa using round_eq_self hn hemin

end FloatFormat
end Framework
