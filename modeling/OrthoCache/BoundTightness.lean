import OrthoCache.EnergyGate
import OrthoCache.QueryAwareGate

/-!
The query-aware bound against the energy bound. The alignment takes the mean key at its full
length, so for a query along the mean the two parts can add up to more than the root of the total
energy, by a factor of at most `√(513 / 512)`.
-/

namespace OrthoCache.BoundTightness
open Finset Foundation.WalshFunctions Foundation.RowMajor Arrays SpectralEnergy EnergyGate
open QueryAwareGate

section Parts
variable {nb heads dim : ℕ} (keys : Tensor ℝ (nb * 512) heads dim) (b : Fin nb) (h : Fin heads)

noncomputable def acEnergy : ℝ := ∑ s ∈ Ico 1 512, energyAt keys b h s

theorem acEnergy_nonneg : 0 ≤ acEnergy keys b h :=
  sum_nonneg (fun s _ => energyAt_nonneg keys b h s)

theorem blockEnergy_split :
    computeBlockEnergyJax keys b h = energyAt keys b h 0 + acEnergy keys b h := by
  rw [computeBlockEnergyJax_eq, acEnergy, range_eq_Ico, sum_eq_sum_Ico_succ_bot (by decide)]

theorem alignment_le (q : Fin dim → ℝ) : ∑ d, q d * blockMean keys b h d ≤
    √(∑ d, q d ^ 2) * (1 / √512 * √(energyAt keys b h 0)) := by
  have constant : ∑ d, q d * blockMean keys b h d =
      1 / √512 * ∑ d, q d * projection (column keys b h d) 0 := by
    rw [mul_sum]
    exact sum_congr rfl (fun d _ => by rw [blockMean]; ring)
  have schwarz := Real.sum_mul_le_sqrt_mul_sqrt univ q (fun d => projection (column keys b h d) 0)
  rw [constant, mul_left_comm]
  exact mul_le_mul_of_nonneg_left schwarz (by positivity)

end Parts

section Roots

theorem mul_add_le_sqrt_mul_sqrt (c x y : ℝ) : c * x + y ≤ √(c ^ 2 + 1) * √(x ^ 2 + y ^ 2) := by
  rw [← Real.sqrt_mul (by positivity)]
  apply Real.le_sqrt_of_sq_le
  linarith only [sq_nonneg (x - c * y)]

theorem sqrt_add_sqrt_le_iff {dc ac : ℝ} (constant : 0 < dc) (residual : 0 ≤ ac) :
    1 / √512 * √dc + √ac ≤ √(dc + ac) ↔ 2048 * ac ≤ 511 ^ 2 * dc := by
  have unit : (1 / √512 : ℝ) ^ 2 = 1 / 512 := by
    rw [div_pow, one_pow, Real.sq_sqrt (by norm_num)]
  have nonneg : (0 : ℝ) ≤ 1 / √512 := by positivity
  have dcRoot := Real.sq_sqrt constant.le
  have acRoot := Real.sq_sqrt residual
  have positive : 0 < √dc := Real.sqrt_pos.mpr constant
  have total : 0 ≤ dc + ac := add_nonneg constant.le residual
  set r : ℝ := 1 / √512
  set x := √dc
  set y := √ac
  have square : (r * x + y) ^ 2 = 1 / 512 * dc + 2 * (r * y * x) + ac := by
    rw [← unit, ← dcRoot, ← acRoot]
    ring
  calc r * x + y ≤ √(dc + ac) ↔ (r * x + y) ^ 2 ≤ dc + ac := Real.le_sqrt (by positivity) total
    _ ↔ 1024 * (r * y) * x ≤ 511 * x * x := by
        rw [square, mul_assoc 511, ← sq, dcRoot]
        constructor <;> intro bound <;> linarith only [bound]
    _ ↔ 1024 * (r * y) ≤ 511 * x := mul_le_mul_iff_left₀ positive
    _ ↔ (1024 * (r * y)) ^ 2 ≤ (511 * x) ^ 2 :=
        (pow_le_pow_iff_left₀ (by positivity) (by positivity) two_ne_zero).symm
    _ ↔ 2048 * ac ≤ 511 ^ 2 * dc := by
        rw [mul_pow, mul_pow, mul_pow, unit, acRoot, dcRoot]
        constructor <;> intro bound <;> linarith only [bound]

end Roots

section Bounds
variable {Q nb heads dim : ℕ} (q : Tensor ℝ Q heads dim) (keys : Tensor ℝ (nb * 512) heads dim)

/-- The bound that the total energy of a block puts on its logits. -/
noncomputable def energyBound (i : Fin Q) (b : Fin nb) (h : Fin heads) : ℝ :=
  √(∑ d, q i h d ^ 2) * √(computeBlockEnergyJax keys b h) / √dim

/-- The deviation of a block's keys does not dwarf their mean, or there is no mean. -/
def DeviationModerate (b : Fin nb) (h : Fin heads) : Prop :=
  energyAt keys b h 0 = 0 ∨ 2048 * acEnergy keys b h ≤ 511 ^ 2 * energyAt keys b h 0

theorem bound_le_roots (i : Fin Q) (b : Fin nb) (h : Fin heads) :
    computeQueryAwareBounds .exact q keys i b h ≤
      √(∑ d, q i h d ^ 2) * (1 / √512 * √(energyAt keys b h 0) + √(acEnergy keys b h)) / √dim := by
  rw [computeQueryAwareBounds_exact, ← acEnergy, ← add_div, mul_add]
  gcongr
  exact alignment_le keys b h (q i h)

theorem bound_le_factor_mul_energyBound (i : Fin Q) (b : Fin nb) (h : Fin heads) :
    computeQueryAwareBounds .exact q keys i b h ≤ √(513 / 512) * energyBound q keys i b h := by
  have roots := mul_add_le_sqrt_mul_sqrt (1 / √512) √(energyAt keys b h 0) √(acEnergy keys b h)
  have factor : (1 / √512 : ℝ) ^ 2 + 1 = 513 / 512 := by
    rw [div_pow, one_pow, Real.sq_sqrt (by norm_num)]
    norm_num
  rw [factor, Real.sq_sqrt (energyAt_nonneg keys b h 0), Real.sq_sqrt (acEnergy_nonneg keys b h),
    ← blockEnergy_split] at roots
  calc computeQueryAwareBounds .exact q keys i b h
      ≤ √(∑ d, q i h d ^ 2) *
          (1 / √512 * √(energyAt keys b h 0) + √(acEnergy keys b h)) / √dim :=
        bound_le_roots q keys i b h
    _ ≤ √(∑ d, q i h d ^ 2) * (√(513 / 512) * √(computeBlockEnergyJax keys b h)) / √dim := by
        gcongr
    _ = √(513 / 512) * energyBound q keys i b h := by
        rw [energyBound]
        ring

theorem bound_le_of_opposed (i : Fin Q) (b : Fin nb) (h : Fin heads)
    (opposed : ∑ d, q i h d * blockMean keys b h d ≤ 0) :
    computeQueryAwareBounds .exact q keys i b h ≤ energyBound q keys i b h := by
  have larger : √(acEnergy keys b h) ≤ √(computeBlockEnergyJax keys b h) := by
    rw [blockEnergy_split]
    exact Real.sqrt_le_sqrt (le_add_of_nonneg_left (energyAt_nonneg keys b h 0))
  calc computeQueryAwareBounds .exact q keys i b h
      = (∑ d, q i h d * blockMean keys b h d) / √dim +
          √(∑ d, q i h d ^ 2) * √(acEnergy keys b h) / √dim :=
        computeQueryAwareBounds_exact q keys i b h
    _ ≤ 0 + √(∑ d, q i h d ^ 2) * √(computeBlockEnergyJax keys b h) / √dim :=
        add_le_add (div_nonpos_of_nonpos_of_nonneg opposed (Real.sqrt_nonneg _))
          (div_le_div_of_nonneg_right (mul_le_mul_of_nonneg_left larger (Real.sqrt_nonneg _))
            (Real.sqrt_nonneg _))
    _ = energyBound q keys i b h := zero_add _

theorem bound_le_of_moderate (i : Fin Q) (b : Fin nb) (h : Fin heads)
    (moderate : DeviationModerate keys b h) :
    computeQueryAwareBounds .exact q keys i b h ≤ energyBound q keys i b h := by
  have residual := acEnergy_nonneg keys b h
  rcases (energyAt_nonneg keys b h 0).eq_or_lt' with zero | positive
  · apply bound_le_of_opposed
    have aligned := alignment_le keys b h (q i h)
    rwa [zero, Real.sqrt_zero, mul_zero, mul_zero] at aligned
  · have roots := (sqrt_add_sqrt_le_iff positive residual).mpr
      (moderate.resolve_left positive.ne')
    rw [← blockEnergy_split] at roots
    refine (bound_le_roots q keys i b h).trans ?_
    exact div_le_div_of_nonneg_right (mul_le_mul_of_nonneg_left roots (Real.sqrt_nonneg _))
      (Real.sqrt_nonneg _)

theorem bound_of_mean (i : Fin Q) (b : Fin nb) (h : Fin heads)
    (along : q i h = blockMean keys b h) :
    √(∑ d, q i h d ^ 2) = 1 / √512 * √(energyAt keys b h 0) ∧
      computeQueryAwareBounds .exact q keys i b h =
        √(∑ d, q i h d ^ 2) * (1 / √512 * √(energyAt keys b h 0) + √(acEnergy keys b h)) / √dim := by
  have length : √(∑ d, q i h d ^ 2) = 1 / √512 * √(energyAt keys b h 0) := by
    have square : ∑ d, q i h d ^ 2 = (1 / √512) ^ 2 * energyAt keys b h 0 := by
      rw [energyAt, mul_sum, along]
      exact sum_congr rfl (fun d _ => by rw [blockMean]; ring)
    rw [square, Real.sqrt_mul (sq_nonneg _), Real.sqrt_sq (by positivity)]
  have aligned : ∑ d, q i h d * blockMean keys b h d = √(∑ d, q i h d ^ 2) * √(∑ d, q i h d ^ 2) := by
    rw [Real.mul_self_sqrt (sum_nonneg (fun d _ => sq_nonneg _)), along]
    exact sum_congr rfl (fun d _ => (sq _).symm)
  refine ⟨length, ?_⟩
  rw [computeQueryAwareBounds_exact, ← acEnergy, aligned, ← add_div, ← mul_add, length]

variable [NeZero Q]

/-- No query exceeds the energy bound exactly when the deviation is moderate. -/
theorem forall_bound_le_energyBound_iff (b : Fin nb) (h : Fin heads) :
    (∀ (q : Tensor ℝ Q heads dim) i,
        computeQueryAwareBounds .exact q keys i b h ≤ energyBound q keys i b h) ↔
      DeviationModerate keys b h := by
  constructor
  · intro bounded
    rcases (energyAt_nonneg keys b h 0).eq_or_lt' with zero | positive
    · exact .inl zero
    have entries : 0 < dim := by
      by_contra empty
      obtain rfl : dim = 0 := by omega
      exact positive.ne' (sum_empty)
    obtain ⟨length, entry⟩ := bound_of_mean (fun (_ : Fin Q) _ => blockMean keys b h) keys 0 b h rfl
    have below := bounded (fun _ _ => blockMean keys b h) 0
    have scale : 0 < √(∑ d, blockMean keys b h d ^ 2) := by
      rw [length]
      have root := Real.sqrt_pos.mpr positive
      positivity
    rw [entry, energyBound, blockEnergy_split, div_le_div_iff_of_pos_right (by positivity),
      mul_le_mul_iff_right₀ scale, sqrt_add_sqrt_le_iff positive (acEnergy_nonneg keys b h)] at below
    exact .inr below
  · intro moderate q i
    exact bound_le_of_moderate q keys i b h moderate

theorem evicted_of_bounds (tau : ℝ) (b : Fin nb) (h : Fin heads)
    (below : ∀ i, computeQueryAwareBounds .exact q keys i b h < tau) :
    computeQueryAwareMask .exact q keys tau b h = false := by
  rw [evicted_iff, maxBounds, sup'_lt_iff]
  exact fun i _ => below i

end Bounds

section Attained
variable (c : ℝ)

/-- One block of keys around one: `1 + c` in its first half, `1 - c` in its second. -/
def steppedKeys : Tensor ℝ (1 * 512) 1 1 := flattened (fun _ t _ _ => 1 + c * walshSign 256 t)

theorem column_steppedKeys (d : Fin 1) (t : Fin 512) :
    column (steppedKeys c) 0 0 d t = 1 + c * walshSign 256 t := by
  rw [column, steppedKeys, blocked_flattened]

theorem sum_walshSign_half : ∑ t : Fin 512, (walshSign 256 t : ℝ) = 0 := by
  have orthogonal := walshSum_walshSign (R := ℝ) 9 0 256 (by decide) (by decide)
  simp only [walshSum, walshSign_zero_left, one_mul, sum_range] at orthogonal
  exact orthogonal

theorem projection_steppedKeys (d : Fin 1) :
    projection (column (steppedKeys c) 0 0 d) 0 = 512 / √512 := by
  have total : ∑ t : Fin 512, (1 + c * walshSign 256 t) = 512 := by
    rw [sum_add_distrib, ← mul_sum, sum_walshSign_half]
    simp
  simp only [projection, orthonormalWalsh, walshSign_zero_left, column_steppedKeys, ← mul_sum,
    total, Nat.cast_ofNat]
  rw [one_div_mul_eq_div]

theorem blockMean_steppedKeys (d : Fin 1) : blockMean (steppedKeys c) 0 0 d = 1 := by
  rw [blockMean, projection_steppedKeys, div_div, Real.mul_self_sqrt (by norm_num),
    div_self (by norm_num)]

theorem acEnergy_steppedKeys : acEnergy (steppedKeys c) 0 0 = 512 * c ^ 2 := by
  rw [acEnergy, sum_energyAt_deviation]
  simp only [column_steppedKeys, blockMean_steppedKeys, add_sub_cancel_left, mul_pow,
    sq (walshSign 256 _ : ℝ), walshSign_mul_self, mul_one, sum_const, card_univ, Fintype.card_fin,
    nsmul_eq_mul, Nat.cast_ofNat, Nat.cast_one, one_mul]

theorem energyAt_steppedKeys : energyAt (steppedKeys c) 0 0 0 = 512 := by
  rw [energyAt, univ_unique, sum_singleton, projection_steppedKeys, div_pow,
    Real.sq_sqrt (by norm_num)]
  norm_num

theorem computeBlockEnergyJax_steppedKeys :
    computeBlockEnergyJax (steppedKeys c) 0 0 = 512 * (1 + c ^ 2) := by
  rw [blockEnergy_split, energyAt_steppedKeys, acEnergy_steppedKeys]
  ring

theorem bound_steppedKeys (positive : 0 ≤ c) (i : Fin 1) :
    computeQueryAwareBounds .exact (ones : Tensor ℝ 1 1 1) (steppedKeys c) i 0 0 =
      1 + √512 * c := by
  rw [computeQueryAwareBounds_exact, ← acEnergy, acEnergy_steppedKeys,
    Real.sqrt_mul (by norm_num), Real.sqrt_sq positive]
  simp [blockMean_steppedKeys, ones]

theorem energyBound_steppedKeys (i : Fin 1) :
    energyBound (ones : Tensor ℝ 1 1 1) (steppedKeys c) i 0 0 = √(512 * (1 + c ^ 2)) := by
  rw [energyBound, computeBlockEnergyJax_steppedKeys]
  simp [ones]

theorem bound_eq_factor_mul_energyBound :
    computeQueryAwareBounds .exact (ones : Tensor ℝ 1 1 1) (steppedKeys √512) 0 0 0 =
      √(513 / 512) * energyBound (ones : Tensor ℝ 1 1 1) (steppedKeys √512) 0 0 0 := by
  have square : (513 / 512 * (512 * (1 + 512)) : ℝ) = 513 ^ 2 := by norm_num
  rw [bound_steppedKeys _ (Real.sqrt_nonneg _), energyBound_steppedKeys,
    Real.mul_self_sqrt (by norm_num), Real.sq_sqrt (by norm_num), ← Real.sqrt_mul (by norm_num),
    square, Real.sqrt_sq (by norm_num)]
  norm_num

end Attained

section Comparison
variable {Q nb heads dim : ℕ} [NeZero Q] (keys : Tensor ℝ (nb * 512) heads dim)

/-- The query-aware bound exceeds the energy bound by a factor of at most `√(513 / 512)`; it never
does for queries that do not point along the mean, and for no query at all exactly when the deviation
is moderate. A block below the threshold by these bounds is not retained. -/
theorem queryAwareBounds_le_energyBound :
    (∀ (q : Tensor ℝ Q heads dim) i b h, computeQueryAwareBounds .exact q keys i b h ≤
        √(513 / 512) * energyBound q keys i b h) ∧
      (∀ (q : Tensor ℝ Q heads dim) i b h, ∑ d, q i h d * blockMean keys b h d ≤ 0 →
        computeQueryAwareBounds .exact q keys i b h ≤ energyBound q keys i b h) ∧
      (∀ b h, (∀ (q : Tensor ℝ Q heads dim) i, computeQueryAwareBounds .exact q keys i b h ≤
          energyBound q keys i b h) ↔ DeviationModerate keys b h) ∧
      ∀ (q : Tensor ℝ Q heads dim) (tau : ℝ) b h,
        (∀ i, √(513 / 512) * energyBound q keys i b h < tau ∨
          (∑ d, q i h d * blockMean keys b h d ≤ 0 ∨ DeviationModerate keys b h) ∧
            energyBound q keys i b h < tau) →
        computeQueryAwareMask .exact q keys tau b h = false := by
  refine ⟨fun q => bound_le_factor_mul_energyBound q keys, fun q => bound_le_of_opposed q keys,
    forall_bound_le_energyBound_iff keys, ?_⟩
  intro q tau b h below
  apply evicted_of_bounds
  intro i
  rcases below i with scaled | ⟨opposed | moderate, bounded⟩
  · exact (bound_le_factor_mul_energyBound q keys i b h).trans_lt scaled
  · exact (bound_le_of_opposed q keys i b h opposed).trans_lt bounded
  · exact (bound_le_of_moderate q keys i b h moderate).trans_lt bounded

theorem queryAwareBounds_le_energyBound_stepped :
    computeQueryAwareBounds .exact (ones : Tensor ℝ 1 1 1) (steppedKeys 1) 0 0 0 ≤
      energyBound (ones : Tensor ℝ 1 1 1) (steppedKeys 1) 0 0 0 := by
  have moderate : DeviationModerate (steppedKeys 1) 0 0 := by
    right
    rw [energyAt_steppedKeys, acEnergy_steppedKeys]
    norm_num
  exact ((queryAwareBounds_le_energyBound (steppedKeys 1)).2.2.1 0 0).mpr moderate ones 0

/-- Keys 23 and -21: the energy bound, below 498.4, is under the threshold 498.5 and the entry of the
query-aware bounds, above 498.7, is not. -/
theorem bound_gt_energyBound_stepped :
    let q : Tensor ℝ 1 1 1 := ones
    energyBound q (steppedKeys 22) 0 0 0 < computeQueryAwareBounds .exact q (steppedKeys 22) 0 0 0 ∧
      (∀ i, energyBound q (steppedKeys 22) i 0 0 < 498.5) ∧
      computeQueryAwareMask .exact q (steppedKeys 22) 498.5 0 0 = true := by
  have energy (i : Fin 1) : energyBound (ones : Tensor ℝ 1 1 1) (steppedKeys 22) i 0 0 < 498.5 := by
    rw [energyBound_steppedKeys, Real.sqrt_lt' (by norm_num)]
    norm_num
  have root : (22.62 : ℝ) < √512 := Real.lt_sqrt_of_sq_lt (by norm_num)
  have entry : 498.5 < computeQueryAwareBounds .exact (ones : Tensor ℝ 1 1 1) (steppedKeys 22)
      0 0 0 := by
    rw [bound_steppedKeys 22 (by norm_num)]
    linarith
  refine ⟨(energy 0).trans entry, energy, ?_⟩
  rw [computeQueryAwareMask, decide_eq_true_eq]
  exact entry.le.trans (bound_le_maxBounds _ _ 0 0 0)

end Comparison

end OrthoCache.BoundTightness
