import OrthoCache.Reference
import OrthoCache.SpectralEnergy

/-!
The truncation bound. The total variation distance between full attention and attention
renormalised over the retained tokens is the softmax mass that was evicted. The logit gate
bounds that mass through its threshold; the decay-ratio gate does not bound it at all.
-/

namespace OrthoCache.TruncationBound
open Finset Foundation.SoftmaxMean Foundation.RowMajor Foundation.WalshFunctions Arrays
open AttentionSpec Reference SpectralEnergy

section Distance
variable {n : ℕ}

noncomputable def fullSoftmax (z : Fin n → ℝ) (k : Fin n) : ℝ := Real.exp (z k) / expMass univ z

noncomputable def truncatedSoftmax (S : Finset (Fin n)) (z : Fin n → ℝ) (k : Fin n) : ℝ :=
  if k ∈ S then Real.exp (z k) / expMass S z else 0

theorem tvDistance_truncated (S : Finset (Fin n)) (z : Fin n → ℝ) (nonempty : S.Nonempty) :
    computeTvDistance (fullSoftmax z) (truncatedSoftmax S z) = expMass Sᶜ z / expMass univ z := by
  rw [← half_l1_truncation S z nonempty, computeTvDistance, show (0.5 : ℝ) = 1 / 2 by norm_num]
  rfl

end Distance

section Gates
variable {Q nb heads dim : ℕ} [NeZero Q] (q : Tensor ℝ Q heads dim)
  (keys : Tensor ℝ (nb * 512) heads dim) (tau zetaMax : ℝ)

/-- Tokens of the blocks that the logit gate evicts on head `h`. -/
noncomputable def logitEvicted (h : Fin heads) : Finset (Fin (nb * 512)) :=
  tokensOf (fun b => !computeQueryAwareMask .exact q keys tau b h)

/-- Tokens of the blocks that pass the logit gate on head `h` and fail the decay-ratio gate. -/
noncomputable def zetaEvicted (h : Fin heads) : Finset (Fin (nb * 512)) :=
  tokensOf (fun b => computeQueryAwareMask .exact q keys tau b h &&
    !computeMultibandMask .exact q keys tau zetaMax b h)

/-- The logit gate keeps the evicted mass below its threshold, measured at any token. -/
theorem logitEvicted_mass_le (i : Fin Q) (h : Fin heads) (j : Fin (nb * 512)) :
    expMass (logitEvicted q keys tau h) (logits q keys i h) / expMass univ (logits q keys i h) ≤
      (logitEvicted q keys tau h).card * Real.exp (tau - logits q keys i h j) := by
  apply mass_fraction_le
  intro k evicted
  have dropped := (mem_tokensOf _ k).mp evicted
  exact (logits_lt_of_evicted q keys tau i h k (by simpa using dropped)).le

theorem expMass_multiband_compl (i : Fin Q) (h : Fin heads) :
    expMass (tokensOf (fun b => computeMultibandMask .exact q keys tau zetaMax b h))ᶜ
        (logits q keys i h) =
      expMass (logitEvicted q keys tau h) (logits q keys i h) +
        expMass (zetaEvicted q keys tau zetaMax h) (logits q keys i h) := by
  have disjoint : Disjoint (logitEvicted q keys tau h) (zetaEvicted q keys tau zetaMax h) := by
    rw [Finset.disjoint_left]
    intro k logitGate zetaGate
    rw [logitEvicted, mem_tokensOf] at logitGate
    rw [zetaEvicted, mem_tokensOf] at zetaGate
    simp_all
  rw [expMass, expMass, expMass, ← sum_union disjoint, compl_tokensOf]
  congr 1
  ext k
  simp only [logitEvicted, zetaEvicted, mem_union, mem_tokensOf, computeMultibandMask]
  cases computeQueryAwareMask .exact q keys tau k.divNat h <;> simp

/-- The query-aware mask alone meets the published bound. -/
theorem queryAware_truncation_bound (i : Fin Q) (h : Fin heads)
    (retained : ∃ b, computeQueryAwareMask .exact q keys tau b h = true) :
    let z := logits q keys i h
    let kept := tokensOf (fun b => computeQueryAwareMask .exact q keys tau b h)
    computeTvDistance (fullSoftmax z) (truncatedSoftmax kept z) ≤
      keptᶜ.card * Real.exp (tau - kept.sup' ((tokensOf_nonempty_iff _).mpr retained) z) := by
  intro z kept
  have nonempty : kept.Nonempty := (tokensOf_nonempty_iff _).mpr retained
  obtain ⟨j, -, attained⟩ := exists_mem_eq_sup' nonempty z
  rw [tvDistance_truncated kept z nonempty, attained, compl_tokensOf]
  exact logitEvicted_mass_le q keys tau i h j

end Gates

section Wave
variable {nb : ℕ} (amplitude : Fin nb → Fin 1 → ℝ) (tau zetaMax : ℝ) (b : Fin nb) (h : Fin 1)

theorem computeQueryAwareMask_wave (low : tau ≤ 0) :
    computeQueryAwareMask .exact (ones : Tensor ℝ 1 1 1) (walshKeys 256 amplitude) tau b h = true := by
  rw [computeQueryAwareMask, maxBounds_walshKeys _ _ _ _ (by decide), if_neg (by decide)]
  exact decide_eq_true (low.trans (Real.sqrt_nonneg _))

theorem computeMultibandMask_wave (low : tau ≤ 0) :
    computeMultibandMask .exact (ones : Tensor ℝ 1 1 1) (walshKeys 256 amplitude) tau zetaMax b h =
      decide (512 * amplitude b h ^ 2 / 1e-6 ≤ zetaMax) := by
  simp only [computeMultibandMask, computeQueryAwareMask_wave amplitude tau b h low, Bool.true_and]
  rw [computeSpectralDecayRatio_walshKeys _ _ _ _ (by decide), if_pos (by decide),
    if_neg (by decide), zero_add]

theorem expMass_wave_le (unit : ∀ b, |amplitude b 0| ≤ 1) :
    expMass univ (logits (ones : Tensor ℝ 1 1 1) (walshKeys 256 amplitude) 0 0) ≤
      (nb * 512 : ℕ) * Real.exp 1 := by
  have small : ∀ k ∈ univ, Real.exp (logits (ones : Tensor ℝ 1 1 1) (walshKeys 256 amplitude) 0 0 k) ≤
      Real.exp 1 := by
    intro k _
    have bound : |amplitude k.divNat 0 * walshSign 256 k.modNat| ≤ 1 := by
      rw [abs_mul]
      exact mul_le_one₀ (unit _) (abs_nonneg _) (abs_walshSign_le_one _ _)
    rw [← index_div_mod k, logits_walshKeys]
    exact Real.exp_le_exp.mpr (le_of_abs_le bound)
  have sum := sum_le_card_nsmul univ _ _ small
  rwa [card_univ, Fintype.card_fin, nsmul_eq_mul] at sum

end Wave

private theorem exp_neg_hundred_le : Real.exp (-100) ≤ (1 / 2) ^ 100 := by
  have base : (2 : ℝ) ^ 100 ≤ Real.exp 100 := by
    have two := pow_le_pow_left₀ (by norm_num) (Real.add_one_le_exp 1) 100
    rw [← Real.exp_nat_mul] at two
    norm_num at two ⊢
    exact two
  calc Real.exp (-100) = 1 / Real.exp 100 := by rw [Real.exp_neg, one_div]
    _ ≤ 1 / 2 ^ 100 := one_div_le_one_div_of_le (by positivity) base
    _ = (1 / 2) ^ 100 := by rw [one_div_pow]

theorem queryAware_truncation_bound_opposed :
    let keys : Tensor ℝ (2 * 512) 1 1 := walshKeys 0 (fun b _ => ![1, -1] b)
    let z := logits (ones : Tensor ℝ 1 1 1) keys 0 0
    let mask := fun b => computeQueryAwareMask .exact (ones : Tensor ℝ 1 1 1) keys 0 b 0
    let kept : Finset (Fin (2 * 512)) := tokensOf mask
    (mask 0 = true ∧ mask 1 = false) ∧
      ∃ nonempty : kept.Nonempty, computeTvDistance (fullSoftmax z) (truncatedSoftmax kept z) ≤
        keptᶜ.card * Real.exp (0 - kept.sup' nonempty z) := by
  intro keys z mask kept
  have opposed (b : Fin 2) : mask b = decide ((0 : ℝ) ≤ ![1, -1] b) :=
    computeQueryAwareMask_constant _ b 0 0
  have retained : mask 0 = true := by simp [opposed]
  exact ⟨⟨retained, by simp [opposed]⟩, _, queryAware_truncation_bound ones keys 0 0 0 ⟨0, retained⟩⟩

section TwoGates
variable {Q nb heads dim : ℕ} [NeZero Q] (q : Tensor ℝ Q heads dim)
  (keys : Tensor ℝ (nb * 512) heads dim) (tau zetaMax : ℝ)

/-- With both gates, the tokens that only the decay-ratio gate evicts add their own mass. -/
theorem multiband_truncation_bound (i : Fin Q) (h : Fin heads)
    (retained : ∃ b, computeMultibandMask .exact q keys tau zetaMax b h = true) :
    let z := logits q keys i h
    let kept := tokensOf (fun b => computeMultibandMask .exact q keys tau zetaMax b h)
    let zMax := kept.sup' ((tokensOf_nonempty_iff _).mpr retained) z
    computeTvDistance (fullSoftmax z) (truncatedSoftmax kept z) ≤
        (logitEvicted q keys tau h).card * Real.exp (tau - zMax) +
          expMass (zetaEvicted q keys tau zetaMax h) z / expMass univ z ∧
      (zetaEvicted q keys tau zetaMax h = ∅ →
        computeTvDistance (fullSoftmax z) (truncatedSoftmax kept z) ≤
          keptᶜ.card * Real.exp (tau - zMax)) := by
  intro z kept zMax
  have nonempty : kept.Nonempty := (tokensOf_nonempty_iff _).mpr retained
  obtain ⟨j, -, attained⟩ := exists_mem_eq_sup' nonempty z
  have logitGate : expMass (logitEvicted q keys tau h) z / expMass univ z ≤
      (logitEvicted q keys tau h).card * Real.exp (tau - zMax) := by
    rw [show zMax = z j from attained]
    exact logitEvicted_mass_le q keys tau i h j
  have within : logitEvicted q keys tau h ⊆ keptᶜ := by
    intro k evicted
    rw [logitEvicted, mem_tokensOf] at evicted
    rw [compl_tokensOf, mem_tokensOf]
    simp_all [computeMultibandMask]
  have split := expMass_multiband_compl q keys tau zetaMax i h
  rw [tvDistance_truncated kept z nonempty, split, add_div]
  constructor
  · exact add_le_add_left logitGate _
  · intro none
    rw [none, expMass_empty, zero_div, add_zero]
    refine logitGate.trans (mul_le_mul_of_nonneg_right ?_ (Real.exp_pos _).le)
    exact_mod_cast card_le_card within

end TwoGates

theorem multiband_truncation_bound_opposed :
    let keys : Tensor ℝ (2 * 512) 1 1 := walshKeys 0 (fun b _ => ![1, -1] b)
    let z := logits (ones : Tensor ℝ 1 1 1) keys 0 0
    let mask := fun b => computeMultibandMask .exact (ones : Tensor ℝ 1 1 1) keys 0 5 b 0
    let kept : Finset (Fin (2 * 512)) := tokensOf mask
    (mask 0 = true ∧ mask 1 = false) ∧
      ∃ nonempty : kept.Nonempty,
        computeTvDistance (fullSoftmax z) (truncatedSoftmax kept z) ≤
            (logitEvicted (ones : Tensor ℝ 1 1 1) keys 0 0).card *
                Real.exp (0 - kept.sup' nonempty z) +
              expMass (zetaEvicted (ones : Tensor ℝ 1 1 1) keys 0 5 0) z / expMass univ z ∧
          (zetaEvicted (ones : Tensor ℝ 1 1 1) keys 0 5 0 = ∅ →
            computeTvDistance (fullSoftmax z) (truncatedSoftmax kept z) ≤
              keptᶜ.card * Real.exp (0 - kept.sup' nonempty z)) := by
  intro keys z mask kept
  have opposed (b : Fin 2) : mask b = decide ((0 : ℝ) ≤ ![1, -1] b) :=
    computeMultibandMask_constant _ b 0 0 5 (by norm_num)
  have retained : mask 0 = true := by simp [opposed]
  exact ⟨⟨retained, by simp [opposed]⟩, _,
    multiband_truncation_bound ones keys 0 5 0 0 ⟨0, retained⟩⟩

/-- A block of zeros and a square wave. The wave passes the logit gate, its decay ratio is over
the limit, and a threshold of `-100` promises far less than the mass that is lost. -/
theorem zeta_gate_exceeds_bound :
    let keys : Tensor ℝ (2 * 512) 1 1 := walshKeys 256 (fun b _ => ![0, 1] b)
    let z := logits (ones : Tensor ℝ 1 1 1) keys 0 0
    let kept :=
      tokensOf (fun b => computeMultibandMask .exact (ones : Tensor ℝ 1 1 1) keys (-100) 5 b 0)
    ∃ nonempty : kept.Nonempty, ¬computeTvDistance (fullSoftmax z) (truncatedSoftmax kept z) ≤
      keptᶜ.card * Real.exp (-100 - kept.sup' nonempty z) := by
  intro keys z kept
  have wave (b : Fin 2) (t : Fin 512) : z (finProdFinEquiv (b, t)) = ![0, 1] b * walshSign 256 t :=
    logits_walshKeys 256 (fun b _ => ![0, 1] b) b 0 0 t
  have member (b : Fin 2) (t : Fin 512) : finProdFinEquiv (b, t) ∈ kept ↔ b = 0 := by
    rw [mem_tokensOf, index_divNat, computeMultibandMask_wave _ _ _ _ _ (by norm_num)]
    fin_cases b <;> norm_num
  have retained : finProdFinEquiv ((0 : Fin 2), (0 : Fin 512)) ∈ kept := (member 0 0).mpr rfl
  refine ⟨⟨_, retained⟩, not_le.mpr ?_⟩
  rw [tvDistance_truncated kept z ⟨_, retained⟩]
  have top : 0 ≤ kept.sup' ⟨_, retained⟩ z := by
    have reached := le_sup' z retained
    rwa [wave, Matrix.cons_val_zero, zero_mul] at reached
  have lost : Real.exp 1 ≤ expMass keptᶜ z := by
    have outside : finProdFinEquiv ((1 : Fin 2), (0 : Fin 512)) ∈ keptᶜ := by
      rw [mem_compl, member]
      decide
    have mass := exp_le_expMass keptᶜ z _ outside
    rwa [wave, Fin.val_zero, walshSign_zero_right, mul_one] at mass
  have total : expMass univ z ≤ 1024 * Real.exp 1 := by
    have unit (b : Fin 2) : |(![0, 1] b : ℝ)| ≤ 1 := by
      fin_cases b <;> norm_num
    have bound := expMass_wave_le (fun b _ => ![0, 1] b) unit
    rwa [show ((2 * 512 : ℕ) : ℝ) = 1024 by norm_num] at bound
  have threshold : Real.exp (-100 - kept.sup' ⟨_, retained⟩ z) ≤ (1 / 2) ^ 100 :=
    (Real.exp_le_exp.mpr (by linarith)).trans exp_neg_hundred_le
  have size : (keptᶜ.card : ℝ) ≤ 1024 := by
    exact_mod_cast (card_le_univ keptᶜ).trans (Fintype.card_fin _).le
  calc keptᶜ.card * Real.exp (-100 - kept.sup' ⟨_, retained⟩ z) ≤ 1024 * (1 / 2) ^ 100 :=
        mul_le_mul size threshold (Real.exp_pos _).le (by norm_num)
    _ < 1 / 1024 := by norm_num
    _ = Real.exp 1 / (1024 * Real.exp 1) := by field_simp
    _ ≤ expMass keptᶜ z / expMass univ z :=
        div_le_div₀ (expMass_nonneg _ _) lost
          (expMass_pos _ _ (univ_nonempty_iff.mpr ⟨0⟩)) total

end OrthoCache.TruncationBound
