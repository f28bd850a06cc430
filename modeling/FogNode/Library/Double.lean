import Mathlib.Algebra.Order.Field.Rat
import Mathlib.Algebra.Order.Floor.Ring
import Mathlib.Data.Int.Log
import Mathlib.Data.Rat.Floor
import Mathlib.Tactic.Linarith

namespace FogNode.Library.Double

/-- The nearest integer, of two equally near the even one. -/
def nearest (q : ℚ) : ℤ :=
  let rest := q - ⌊q⌋
  if rest < 1 / 2 ∨ rest = 1 / 2 ∧ ⌊q⌋ % 2 = 0 then ⌊q⌋ else ⌊q⌋ + 1

/-- The exponent of the last of the 53 binary digits of `q`. -/
def lastPlace (q : ℚ) : ℤ := Int.log 2 |q| - 52

/-- The number with 53 binary digits nearest to `q`. The exponent is unbounded: a sum of
doubles that is too small for a normal double is exact, and a number past the largest
double is past every double, as the infinity it overflows to is. -/
def round (q : ℚ) : ℚ := nearest (q / 2 ^ lastPlace q) * 2 ^ lastPlace q

/-- `x + y` on doubles. -/
def add (x y : ℚ) : ℚ := round (x + y)

theorem nearest_error (q : ℚ) : |(nearest q : ℚ) - q| ≤ 1 / 2 := by
  have hle := Int.floor_le q
  have hlt := Int.lt_floor_add_one q
  rw [abs_le]
  unfold nearest
  dsimp only
  split_ifs with h
  · constructor
    · rcases h with h | ⟨h, -⟩ <;> linarith
    · linarith
  · push Not at h
    push_cast
    constructor <;> linarith [h.1]

@[simp] theorem nearest_intCast (z : ℤ) : nearest z = z := by simp [nearest]

theorem zpow_lastPlace_pos (q : ℚ) : (0 : ℚ) < 2 ^ lastPlace q :=
  zpow_pos two_pos _

theorem lastPlace_eq {q : ℚ} {k : ℤ} (hle : (2 : ℚ) ^ (k + 52) ≤ |q|)
    (hlt : |q| < (2 : ℚ) ^ (k + 53)) : lastPlace q = k := by
  have hpos : 0 < |q| := lt_of_lt_of_le (zpow_pos two_pos _) hle
  have hlog : (2 : ℚ) ^ Int.log 2 |q| ≤ |q| := by
    exact_mod_cast Int.zpow_log_le_self Nat.one_lt_two hpos
  have hlog' : |q| < (2 : ℚ) ^ (Int.log 2 |q| + 1) := by
    exact_mod_cast Int.lt_zpow_succ_log_self Nat.one_lt_two |q|
  have hupper := (zpow_lt_zpow_iff_right₀ (a := (2 : ℚ)) one_lt_two).mp (hlog.trans_lt hlt)
  have hlower := (zpow_lt_zpow_iff_right₀ (a := (2 : ℚ)) one_lt_two).mp (hle.trans_lt hlog')
  rw [lastPlace]
  omega

/-- Rounding moves a number by at most one part in `2 ^ 53`. -/
theorem round_error (q : ℚ) : |round q - q| ≤ |q| / 2 ^ 53 := by
  rcases eq_or_ne q 0 with rfl | hq
  · simp [round, nearest]
  have hpos := zpow_lastPlace_pos q
  have hlog : (2 : ℚ) ^ Int.log 2 |q| ≤ |q| := by
    exact_mod_cast Int.zpow_log_le_self Nat.one_lt_two (abs_pos.mpr hq)
  have hplace : (2 : ℚ) ^ lastPlace q * 2 ^ 52 = 2 ^ Int.log 2 |q| := by
    rw [lastPlace, ← zpow_natCast, ← zpow_add₀ two_ne_zero]
    congr 1
    norm_num
  have hround : round q - q = (nearest (q / 2 ^ lastPlace q) - q / 2 ^ lastPlace q) *
      2 ^ lastPlace q := by
    rw [round, sub_mul, div_mul_cancel₀ _ hpos.ne']
  calc |round q - q|
      = |(nearest (q / 2 ^ lastPlace q) : ℚ) - q / 2 ^ lastPlace q| * 2 ^ lastPlace q := by
        rw [hround, abs_mul, abs_of_pos hpos]
    _ ≤ 1 / 2 * 2 ^ lastPlace q :=
        mul_le_mul_of_nonneg_right (nearest_error _) hpos.le
    _ = 2 ^ Int.log 2 |q| / 2 ^ 53 := by
        rw [← hplace]
        ring
    _ ≤ |q| / 2 ^ 53 := by gcongr

/-- A number with 53 binary digits is kept as it is. -/
theorem round_eq_self {q : ℚ} {z k : ℤ} (hq : q = z * 2 ^ k) (hz : |z| < 2 ^ 53) :
    round q = q := by
  rcases eq_or_ne q 0 with h0 | h0
  · simp [h0, round, nearest]
  have habs : |q| < 2 ^ (k + 53) := by
    have hpos : (0 : ℚ) < 2 ^ k := zpow_pos two_pos k
    have hz' : |(z : ℚ)| < 2 ^ (53 : ℤ) := by exact_mod_cast hz
    rw [hq, abs_mul, abs_of_pos hpos, add_comm, zpow_add₀ two_ne_zero]
    exact mul_lt_mul_of_pos_right hz' hpos
  have hlog : Int.log 2 |q| < k + 53 := by
    refine (zpow_lt_zpow_iff_right₀ (a := (2 : ℚ)) one_lt_two).mp (lt_of_le_of_lt ?_ habs)
    exact_mod_cast Int.zpow_log_le_self Nat.one_lt_two (abs_pos.mpr h0)
  obtain ⟨i, hi⟩ : ∃ i : ℕ, k = lastPlace q + i := by
    refine ⟨(k - lastPlace q).toNat, ?_⟩
    rw [lastPlace] at *
    omega
  have hdiv : q / 2 ^ lastPlace q = ((z * 2 ^ i : ℤ) : ℚ) := by
    rw [div_eq_iff (zpow_lastPlace_pos q).ne']
    calc q = z * 2 ^ (lastPlace q + i) := by rw [← hi, ← hq]
      _ = ((z * 2 ^ i : ℤ) : ℚ) * 2 ^ lastPlace q := by
        rw [zpow_add₀ two_ne_zero]
        push_cast
        rw [zpow_natCast]
        ring
  rw [round, hdiv, nearest_intCast, ← hdiv, div_mul_cancel₀ _ (zpow_lastPlace_pos q).ne']

end FogNode.Library.Double
