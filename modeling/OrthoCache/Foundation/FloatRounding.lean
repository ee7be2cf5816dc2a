import Mathlib.Algebra.Order.Floor.Ring
import Mathlib.Algebra.Order.Field.Basic
import Mathlib.Data.Int.Log
import Mathlib.Data.Rat.Floor
import Mathlib.Tactic.FieldSimp
import Mathlib.Tactic.Linarith
import Mathlib.Tactic.NormNum
import Mathlib.Tactic.Ring

/-!
Arithmetic with a rounding after every operation, by the laws that correct rounding keeps: it is
monotone, leaves what is already rounded and small integers alone, and the integer part of a rounded
number needs no rounding. Printing to decimal digits, with ties to the even neighbour, is monotone
and keeps integers as well.
-/

namespace OrthoCache.Foundation.FloatRounding

section Integers
variable {K : Type*} [Field K] [LinearOrder K] [FloorRing K]

def truncate (x : K) : ℤ := if 0 ≤ x then ⌊x⌋ else ⌈x⌉

/-- Rounding to the nearest integer, ties to the even one. -/
def roundEven (x : K) : ℤ :=
  let below := ⌊x⌋
  if x - below < 1 / 2 then below
  else if 1 / 2 < x - below then below + 1
  else if Even below then below
  else below + 1

def roundDigits (digits : ℕ) (x : K) : K :=
  roundEven (x * (10 ^ digits : ℕ)) / (10 ^ digits : ℕ)

theorem roundEven_choice (x : K) : roundEven x = ⌊x⌋ ∨ roundEven x = ⌊x⌋ + 1 := by
  simp only [roundEven]
  split_ifs
  · exact .inl rfl
  · exact .inr rfl
  · exact .inl rfl
  · exact .inr rfl

theorem truncate_of_nonneg {x : K} (nonneg : 0 ≤ x) : truncate x = ⌊x⌋ := if_pos nonneg

theorem truncate_nonneg {x : K} (nonneg : 0 ≤ x) : 0 ≤ truncate x :=
  truncate_of_nonneg nonneg ▸ Int.floor_nonneg.mpr nonneg

theorem truncate_mono {x y : K} (nonneg : 0 ≤ x) (le : x ≤ y) : truncate x ≤ truncate y := by
  rw [truncate_of_nonneg nonneg, truncate_of_nonneg (nonneg.trans le)]
  exact Int.floor_mono le

variable [IsStrictOrderedRing K]

theorem truncate_intCast (z : ℤ) : truncate (z : K) = z := by
  rw [truncate, Int.floor_intCast, Int.ceil_intCast, ite_self]

theorem roundEven_intCast (z : ℤ) : roundEven (z : K) = z := by
  simp only [roundEven, Int.floor_intCast]
  exact if_pos (by norm_num)

theorem roundEven_mono {x y : K} (le : x ≤ y) : roundEven x ≤ roundEven y := by
  have floors := Int.floor_mono le
  rcases floors.lt_or_eq with less | same
  · rcases roundEven_choice x with left | left <;>
      rcases roundEven_choice y with right | right <;> omega
  · -- between the same integers the larger number is at least as far from the lower one
    have fractions : x - ⌊y⌋ ≤ y - ⌊y⌋ := sub_le_sub_right le _
    simp only [roundEven, same]
    split_ifs <;> first | omega | (exfalso; linarith)

theorem roundDigits_mono (digits : ℕ) {x y : K} (le : x ≤ y) :
    roundDigits digits x ≤ roundDigits digits y := by
  have unit : (0 : K) < (10 ^ digits : ℕ) := Nat.cast_pos.mpr (by positivity)
  exact div_le_div_of_nonneg_right
    (Int.cast_le.mpr (roundEven_mono (mul_le_mul_of_nonneg_right le unit.le))) unit.le

theorem roundDigits_natCast (digits n : ℕ) : roundDigits digits (n : K) = n := by
  have unit : (0 : K) < (10 ^ digits : ℕ) := Nat.cast_pos.mpr (by positivity)
  have whole : (n : K) * (10 ^ digits : ℕ) = ((n * 10 ^ digits : ℤ) : K) := by push_cast; rfl
  rw [roundDigits, whole, roundEven_intCast, ← whole, mul_div_cancel_right₀ _ unit.ne']

end Integers

section Binary
variable {K : Type*} [Field K] [LinearOrder K] [IsStrictOrderedRing K] [FloorRing K]

/-- The power of two between the neighbours of a number of this size, with 53 significant bits down
to the least normal number and a fixed spacing below it. -/
def spacing (x : K) : ℤ := max (Int.log 2 |x| - 52) (-1074)

def snap (e : ℤ) (x : K) : K := roundEven (x / ((2 : ℕ) : K) ^ e) * ((2 : ℕ) : K) ^ e

/-- The nearest number with 53 significant bits. -/
def roundBinary (x : K) : K := snap (spacing x) x

theorem power_pos (e : ℤ) : (0 : K) < ((2 : ℕ) : K) ^ e := zpow_pos (by norm_num) e

theorem snap_mono (e : ℤ) {x y : K} (le : x ≤ y) : snap e x ≤ snap e y :=
  mul_le_mul_of_nonneg_right
    (Int.cast_le.mpr (roundEven_mono (div_le_div_of_nonneg_right le (power_pos e).le)))
    (power_pos e).le

theorem snap_multiple {e k : ℤ} (le : e ≤ k) (m : ℤ) :
    snap e (m * ((2 : ℕ) : K) ^ k) = m * ((2 : ℕ) : K) ^ k := by
  obtain ⟨n, rfl⟩ := Int.le.dest le
  have power := (power_pos (K := K) e).ne'
  have whole : (m : K) * ((2 : ℕ) : K) ^ (e + n) / ((2 : ℕ) : K) ^ e = ((m * 2 ^ n : ℤ) : K) := by
    rw [zpow_add₀ (by norm_num), zpow_natCast, mul_left_comm, mul_div_cancel_left₀ _ power]
    push_cast
    rfl
  rw [snap, whole, roundEven_intCast, ← whole, div_mul_cancel₀ _ power]

theorem snap_zero (e : ℤ) : snap e (0 : K) = 0 := by
  have zero := snap_multiple (K := K) (le_refl e) 0
  rwa [Int.cast_zero, zero_mul] at zero

theorem abs_lt_power (x : K) : |x| < ((2 : ℕ) : K) ^ (spacing x + 53) := by
  have exponent : Int.log 2 |x| + 1 ≤ spacing x + 53 := by
    unfold spacing
    omega
  exact (Int.lt_zpow_succ_log_self (by decide) |x|).trans_le
    (zpow_le_zpow_right₀ (by norm_num) exponent)

theorem spacing_le {x : K} {e : ℤ} (nonzero : x ≠ 0) (below : |x| < ((2 : ℕ) : K) ^ (e + 53))
    (least : -1074 ≤ e) : spacing x ≤ e := by
  have exponent := (Int.lt_zpow_iff_log_lt (by decide) (abs_pos.mpr nonzero)).mp below
  unfold spacing
  omega

theorem roundBinary_significand {e m : ℤ} (small : |m| ≤ 2 ^ 53) (least : -1074 ≤ e) :
    roundBinary ((m : K) * ((2 : ℕ) : K) ^ e) = m * ((2 : ℕ) : K) ^ e := by
  unfold roundBinary
  rcases eq_or_ne m 0 with rfl | nonzero
  · rw [Int.cast_zero, zero_mul, snap_zero]
  have apart : (m : K) * ((2 : ℕ) : K) ^ e ≠ 0 :=
    mul_ne_zero (Int.cast_ne_zero.mpr nonzero) (power_pos e).ne'
  have size : |(m : K) * ((2 : ℕ) : K) ^ e| = (|m| : ℤ) * ((2 : ℕ) : K) ^ e := by
    rw [abs_mul, abs_of_pos (power_pos (K := K) e), Int.cast_abs]
  have binade : ((2 : ℕ) : K) ^ (e + 53) = (2 ^ 53 : ℤ) * ((2 : ℕ) : K) ^ e := by
    rw [zpow_add₀ (by norm_num), mul_comm]
    norm_num
  rcases small.lt_or_eq with less | full
  · refine snap_multiple (spacing_le apart ?_ least) m
    rw [size, binade]
    exact mul_lt_mul_of_pos_right (Int.cast_lt.mpr less) (power_pos e)
  · -- the number is the power of two above its binade
    obtain ⟨sign, rfl⟩ : ∃ sign : ℤ, m = sign * 2 ^ 53 := by
      rcases abs_eq (by norm_num) |>.mp full with rfl | rfl
      · exact ⟨1, rfl⟩
      · exact ⟨-1, rfl⟩
    have moved : ((sign * 2 ^ 53 : ℤ) : K) * ((2 : ℕ) : K) ^ e = sign * ((2 : ℕ) : K) ^ (e + 53) := by
      rw [binade]
      push_cast
      ring
    have wide : spacing (((sign * 2 ^ 53 : ℤ) : K) * ((2 : ℕ) : K) ^ e) ≤ e + 53 := by
      refine (spacing_le apart ?_ (by omega : -1074 ≤ e + 1)).trans (by omega)
      rw [size, full, ← binade]
      exact zpow_lt_zpow_right₀ (by norm_num) (by omega)
    rw [moved] at wide ⊢
    exact snap_multiple wide sign

theorem snap_le_snap {e e' k m : ℤ} {x y : K} (fine : e ≤ k) (coarse : e' ≤ k)
    (below : x ≤ m * ((2 : ℕ) : K) ^ k) (above : m * ((2 : ℕ) : K) ^ k ≤ y) :
    snap e x ≤ snap e' y := by
  have left := snap_mono e below
  have right := snap_mono e' above
  rw [snap_multiple fine] at left
  rw [snap_multiple coarse] at right
  exact left.trans right

theorem spacing_mono {x y : K} (nonzero : x ≠ 0) (le : |x| ≤ |y|) : spacing x ≤ spacing y := by
  have logs := Int.log_mono_right (b := 2) (abs_pos.mpr nonzero) le
  unfold spacing
  omega

theorem power_between {x y : K} (nonzero : y ≠ 0) (less : spacing x < spacing y) :
    |x| ≤ ((2 : ℕ) : K) ^ (spacing y + 52) ∧ ((2 : ℕ) : K) ^ (spacing y + 52) ≤ |y| := by
  constructor
  · exact (abs_lt_power x).le.trans (zpow_le_zpow_right₀ (by norm_num) (by omega))
  · have normal : spacing y + 52 = Int.log 2 |y| := by
      unfold spacing at less ⊢
      omega
    rw [normal]
    exact Int.zpow_log_le_self (by decide) (abs_pos.mpr nonzero)

theorem roundBinary_mono : Monotone (roundBinary : K → K) := by
  intro x y le
  unfold roundBinary
  rcases lt_or_ge 0 x with positive | nonpos
  · have sizes : |x| ≤ |y| := by rwa [abs_of_pos positive, abs_of_pos (positive.trans_le le)]
    rcases (spacing_mono positive.ne' sizes).lt_or_eq with less | same
    · obtain ⟨below, above⟩ := power_between (positive.trans_le le).ne' less
      rw [abs_of_pos positive] at below
      rw [abs_of_pos (positive.trans_le le)] at above
      refine snap_le_snap (k := spacing y + 52) (m := 1) (by omega) (by omega) ?_ ?_
      · rwa [Int.cast_one, one_mul]
      · rwa [Int.cast_one, one_mul]
    · simp only [same]
      exact snap_mono _ le
  rcases lt_or_ge y 0 with negative | nonneg
  · have sizes : |y| ≤ |x| := by
      rw [abs_of_neg negative, abs_of_nonpos nonpos]
      exact neg_le_neg le
    rcases (spacing_mono negative.ne sizes).lt_or_eq with less | same
    · obtain ⟨below, above⟩ := power_between (le.trans_lt negative).ne less
      rw [abs_of_neg negative] at below
      rw [abs_of_nonpos nonpos] at above
      refine snap_le_snap (k := spacing x + 52) (m := -1) (by omega) (by omega) ?_ ?_
      · rw [Int.cast_neg, Int.cast_one, neg_one_mul]
        exact le_neg_of_le_neg above
      · rw [Int.cast_neg, Int.cast_one, neg_one_mul]
        exact neg_le_of_neg_le below
    · simp only [same]
      exact snap_mono _ le
  · have lower := snap_mono (spacing x) nonpos
    have upper := snap_mono (spacing y) nonneg
    rw [snap_zero] at lower upper
    exact lower.trans upper

theorem significand_le (x : K) : |roundEven (x / ((2 : ℕ) : K) ^ spacing x)| ≤ 2 ^ 53 := by
  have power := power_pos (K := K) (spacing x)
  have below : |x / ((2 : ℕ) : K) ^ spacing x| < (2 ^ 53 : ℤ) := by
    rw [abs_div, abs_of_pos power, div_lt_iff₀ power]
    have size := abs_lt_power x
    rw [zpow_add₀ (by norm_num), mul_comm] at size
    exact_mod_cast size
  rw [abs_lt, ← Int.cast_neg] at below
  have lower := roundEven_mono below.1.le
  have upper := roundEven_mono below.2.le
  rw [roundEven_intCast] at lower upper
  exact abs_le.mpr ⟨lower, upper⟩

omit [IsStrictOrderedRing K] in
theorem least_le_spacing (x : K) : -1074 ≤ spacing x := le_max_right _ _

theorem roundBinary_intCast {z : ℤ} (small : |z| ≤ 2 ^ 53) : roundBinary (z : K) = z := by
  have fixed := roundBinary_significand (K := K) small (e := 0) (by norm_num)
  rwa [zpow_zero, mul_one] at fixed

theorem abs_truncate_le {x : K} {z : ℤ} (size : |x| ≤ z) : |truncate x| ≤ z := by
  rw [abs_le] at size
  unfold truncate
  split_ifs with nonneg
  · rw [abs_of_nonneg (Int.floor_nonneg.mpr nonneg)]
    exact Int.floor_le_iff.mpr (size.2.trans_lt (lt_add_one _))
  · have upper : ⌈x⌉ ≤ 0 := Int.ceil_le.mpr (by rw [Int.cast_zero]; exact (not_le.mp nonneg).le)
    rw [abs_of_nonpos upper]
    have lower := (size.1).trans (Int.le_ceil x)
    rw [← Int.cast_neg, Int.cast_le] at lower
    omega

theorem roundBinary_truncate (x : K) :
    roundBinary (truncate (roundBinary x) : K) = truncate (roundBinary x) := by
  set m := roundEven (x / ((2 : ℕ) : K) ^ spacing x) with hm
  have small := significand_le x
  rw [← hm] at small
  change roundBinary (truncate ((m : K) * ((2 : ℕ) : K) ^ spacing x) : K) =
    truncate ((m : K) * ((2 : ℕ) : K) ^ spacing x)
  rcases lt_or_ge (spacing x) 0 with fraction | whole
  · refine roundBinary_intCast ((abs_truncate_le (z := |m|) ?_).trans small)
    rw [abs_mul, abs_of_pos (power_pos (K := K) _), Int.cast_abs]
    exact mul_le_of_le_one_right (abs_nonneg _) (zpow_le_one_of_nonpos₀ (by norm_num) fraction.le)
  · obtain ⟨n, exponent⟩ := Int.eq_ofNat_of_zero_le whole
    have integer : (m : K) * ((2 : ℕ) : K) ^ spacing x = ((m * 2 ^ n : ℤ) : K) := by
      rw [exponent, zpow_natCast]
      push_cast
      rfl
    rw [integer, truncate_intCast, ← integer]
    exact roundBinary_significand small (least_le_spacing x)

end Binary

/-- A floating-point format: the number that an exact result is rounded to. Overflow is left out. -/
structure FloatFormat (K : Type*) [Field K] [LinearOrder K] [FloorRing K] where
  round : K → K
  round_mono : Monotone round
  round_round : ∀ x : K, round (round x) = round x
  round_natCast : ∀ n : ℕ, n ≤ 2 ^ 53 → round n = n
  round_truncate : ∀ x : K, round (truncate (round x)) = truncate (round x)

namespace FloatFormat
variable {K : Type*} [Field K] [LinearOrder K] [FloorRing K]

def exact : FloatFormat K where
  round := id
  round_mono := monotone_id
  round_round _ := rfl
  round_natCast _ _ := rfl
  round_truncate _ := rfl

/-- The numbers of the format `binary64`, with nothing above the largest one. -/
def binary64 [IsStrictOrderedRing K] : FloatFormat K where
  round := roundBinary
  round_mono := roundBinary_mono
  round_round x := roundBinary_significand (significand_le x) (least_le_spacing x)
  round_natCast n small := by
    have fixed := roundBinary_intCast (K := K) (z := n) (by rw [Nat.abs_cast]; exact_mod_cast small)
    exact_mod_cast fixed
  round_truncate := roundBinary_truncate

example : (binary64 : FloatFormat ℚ).round (2 ^ 53 + 1) = 2 ^ 53 := by decide +kernel

variable (format : FloatFormat K)

def roundTo (digits : ℕ) (x : K) : K := format.round (roundDigits digits x)

theorem round_zero : format.round 0 = 0 := by
  have zero := format.round_natCast 0 (by norm_num)
  rwa [Nat.cast_zero] at zero

theorem round_one : format.round 1 = 1 := by
  have one := format.round_natCast 1 (by norm_num)
  rwa [Nat.cast_one] at one

theorem round_nonneg {x : K} (nonneg : 0 ≤ x) : 0 ≤ format.round x :=
  format.round_zero.ge.trans (format.round_mono nonneg)

theorem round_le_one {x : K} (le : x ≤ 1) : format.round x ≤ 1 :=
  (format.round_mono le).trans format.round_one.le

theorem round_le_natCast {x : K} {n : ℕ} (small : n ≤ 2 ^ 53) (le : x ≤ n) : format.round x ≤ n :=
  (format.round_mono le).trans (format.round_natCast n small).le

variable [IsStrictOrderedRing K]

theorem roundTo_mono (digits : ℕ) {x y : K} (le : x ≤ y) :
    format.roundTo digits x ≤ format.roundTo digits y :=
  format.round_mono (roundDigits_mono digits le)

theorem roundTo_natCast (digits : ℕ) {n : ℕ} (small : n ≤ 2 ^ 53) :
    format.roundTo digits (n : K) = n := by
  rw [roundTo, roundDigits_natCast, format.round_natCast n small]

theorem roundTo_zero (digits : ℕ) : format.roundTo digits (0 : K) = 0 := by
  have zero := format.roundTo_natCast digits (Nat.zero_le (2 ^ 53))
  rwa [Nat.cast_zero] at zero

theorem roundTo_nonneg (digits : ℕ) {x : K} (nonneg : 0 ≤ x) : 0 ≤ format.roundTo digits x :=
  (format.roundTo_zero digits).ge.trans (format.roundTo_mono digits nonneg)

end FloatFormat

end OrthoCache.Foundation.FloatRounding
