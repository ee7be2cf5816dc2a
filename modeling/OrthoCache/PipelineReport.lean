import OrthoCache.ExecutionModes

/-!
What the end-to-end call reports. The counts partition the blocks by the two gates at the reported
threshold, the rate is the evicted share, and the statistics of the decay ratio are in order. Both
modes that evict report the same.
-/

namespace OrthoCache.PipelineReport
open Finset Foundation.RowMajor Arrays SpectralEnergy Pipeline ExecutionModes

section Statistics
variable {n : ℕ} [NeZero n] (x : Fin n → ℝ) {low high : ℝ}

theorem sum_eq_mul_mean : ∑ i, x i = n * mean x := by
  rw [mean, mul_div_cancel₀ _ (Nat.cast_ne_zero.mpr (NeZero.ne n))]

theorem mean_between (between : ∀ i, low ≤ x i ∧ x i ≤ high) : low ≤ mean x ∧ mean x ≤ high := by
  have size : (0 : ℝ) < n := Nat.cast_pos.mpr (NeZero.pos n)
  have lower : ∑ _i : Fin n, low ≤ ∑ i, x i := sum_le_sum (fun i _ => (between i).1)
  have upper : ∑ i, x i ≤ ∑ _i : Fin n, high := sum_le_sum (fun i _ => (between i).2)
  simp only [sum_const, card_univ, Fintype.card_fin, nsmul_eq_mul, sum_eq_mul_mean] at lower upper
  exact ⟨le_of_mul_le_mul_left lower size, le_of_mul_le_mul_left upper size⟩

/-- The squared deviation is at most the product of the distances of the mean from both ends: no entry
lies outside them, so the product of its own distances is not negative. -/
theorem std_sq_le (between : ∀ i, low ≤ x i ∧ x i ≤ high) :
    std .exact x ^ 2 ≤ (high - mean x) * (mean x - low) := by
  have size : (0 : ℝ) < n := Nat.cast_pos.mpr (NeZero.pos n)
  have inside : 0 ≤ ∑ i, (high - x i) * (x i - low) :=
    sum_nonneg (fun i _ => mul_nonneg (sub_nonneg.mpr (between i).2) (sub_nonneg.mpr (between i).1))
  have total : ∑ i, (high - x i) * (x i - low) =
      n * ((high - mean x) * (mean x - low) - std .exact x ^ 2) := by
    have expand (i : Fin n) : (high - x i) * (x i - low) =
        (high - mean x) * (mean x - low) - (high + low - 2 * mean x) * (mean x - x i) -
          (x i - mean x) ^ 2 := by ring
    rw [sum_congr rfl (fun i _ => expand i), sum_sub_distrib, sum_sub_distrib,
      ← mul_sum univ _ (high + low - 2 * mean x), sum_mean_sub, ← mul_std_sq, sum_const, card_univ,
      Fintype.card_fin, nsmul_eq_mul]
    ring
  rw [total] at inside
  exact sub_nonneg.mp (nonneg_of_mul_nonneg_right inside size)

end Statistics

section Report
variable {Q nb heads dim : ℕ} [NeZero Q] (q : Tensor ℝ Q heads dim)
  (keys values : Tensor ℝ (nb * 512) heads dim) (zetaMax : ℝ) (tau : Option ℝ)

theorem computeSpectralDecayRatio_nonneg (b : Fin nb) (h : Fin heads) :
    0 ≤ computeSpectralDecayRatio .exact keys bandLow bandHigh b h := by
  have energy (low high : ℕ) : 0 ≤ ∑ s ∈ Ico low high, energyAt keys b h s :=
    sum_nonneg (fun s _ => energyAt_nonneg keys b h s)
  unfold computeSpectralDecayRatio computeSpectralBands bandLow bandHigh
  simp only [bandEnergy_eq _ 1 64 (by decide), bandEnergy_eq _ 256 512 le_rfl]
  exact div_nonneg (energy 256 512) (add_nonneg (energy 1 64) (by norm_num))

/-- Blocks that every head evicts at a threshold: by the bound on the logits or by the ratio. -/
noncomputable def evictedBlocks (tau : ℝ) : Finset (Fin nb) :=
  {b | ∀ h, maxBounds .exact q keys b h < tau ∨
    zetaMax < computeSpectralDecayRatio .exact keys bandLow bandHigh b h}

theorem card_evictedBlocks : countActive (anyHead (gateMask .flushing q keys zetaMax tau)) +
    #(evictedBlocks q keys zetaMax (tau.getD (computeAutoTau .flushing q keys))) = nb := by
  have split : evictedBlocks q keys zetaMax (tau.getD (computeAutoTau .flushing q keys)) =
      ({b | ¬anyHead (gateMask .flushing q keys zetaMax tau) b = true} : Finset (Fin nb)) := by
    ext b
    rw [evictedBlocks, mem_filter_univ, mem_filter_univ, anyHead_iff, not_exists]
    refine forall_congr' (fun h => ?_)
    change _ ↔ ¬(decide (maxBounds .exact q keys b h ≥ tau.getD (computeAutoTau .flushing q keys)) &&
      decide (computeSpectralDecayRatio .exact keys bandLow bandHigh b h ≤ zetaMax)) = true
    rw [Bool.and_eq_true, decide_eq_true_eq, decide_eq_true_eq, not_and_or, not_le, not_le]
  rw [split, countActive, ← card_filter, card_filter_add_card_filter_not, card_univ, Fintype.card_fin]

/-- What the reported numbers have to do with each other and with the gates. -/
structure Coherent (metadata : Metadata ℝ) (report : SpectralReport ℝ) : Prop where
  threshold : report.tau = tau.getD (computeAutoTau .flushing q keys)
  evicted : report.blocksEvicted = #(evictedBlocks q keys zetaMax report.tau)
  counted : report.blocksRetained + report.blocksEvicted = nb
  rate : metadata.evictionRate * nb = report.blocksEvicted
  rate_between : 0 ≤ metadata.evictionRate ∧ metadata.evictionRate ≤ 1
  zeta_range : ∀ low high, (∀ b h,
    low ≤ computeSpectralDecayRatio .exact keys bandLow bandHigh b h ∧
      computeSpectralDecayRatio .exact keys bandLow bandHigh b h ≤ high) →
    low ≤ report.zetaMin ∧ report.zetaMaxObserved ≤ high
  zeta_order : 0 ≤ report.zetaMin ∧ report.zetaMin ≤ report.zetaMean ∧
    report.zetaMean ≤ report.zetaMaxObserved
  zeta_std : 0 ≤ report.zetaStd ∧ report.zetaStd ^ 2 ≤
    (report.zetaMaxObserved - report.zetaMean) * (report.zetaMean - report.zetaMin)

variable [NeZero nb]

theorem zeta_statistics :
    let zeta := fun b => mean (computeSpectralDecayRatio .exact keys bandLow bandHigh b)
    let low := univ.inf' (axis_univ_nonempty nb) zeta
    let high := univ.sup' (axis_univ_nonempty nb) zeta
    (0 ≤ low ∧ low ≤ mean zeta ∧ mean zeta ≤ high) ∧
      0 ≤ std .exact zeta ∧ std .exact zeta ^ 2 ≤ (high - mean zeta) * (mean zeta - low) := by
  intro zeta low high
  have between (b : Fin nb) : low ≤ zeta b ∧ zeta b ≤ high :=
    ⟨inf'_le _ (mem_univ b), le_sup' _ (mem_univ b)⟩
  refine ⟨⟨le_inf' _ _ (fun b _ => ?_), mean_between zeta between⟩, Real.sqrt_nonneg _,
    std_sq_le zeta between⟩
  exact div_nonneg (sum_nonneg (fun h _ => computeSpectralDecayRatio_nonneg keys b h))
    (Nat.cast_nonneg heads)

variable [NeZero heads]

theorem zeta_range (low high : ℝ) (between : ∀ b h,
    low ≤ computeSpectralDecayRatio .exact keys bandLow bandHigh b h ∧
      computeSpectralDecayRatio .exact keys bandLow bandHigh b h ≤ high) :
    let zeta := fun b => mean (computeSpectralDecayRatio .exact keys bandLow bandHigh b)
    low ≤ univ.inf' (axis_univ_nonempty nb) zeta ∧ univ.sup' (axis_univ_nonempty nb) zeta ≤ high :=
  ⟨le_inf' _ _ (fun b _ => (mean_between _ (between b)).1),
    sup'_le _ _ (fun b _ => (mean_between _ (between b)).2)⟩

/-- Both modes that evict report the same, and coherently; dense mode reports no eviction. -/
theorem orthocacheForward_coherent (isTpu : Bool) : ∃ compact sparse dense metadata report,
    orthocacheForward .flushing isTpu q keys values zetaMax tau .compact = .ok (compact, metadata) ∧
      metadata.spectral = some report ∧
      report.compactNumActive = some report.blocksRetained ∧
      orthocacheForward .flushing isTpu q keys values zetaMax tau .sparse =
        .ok (sparse, { metadata with
          mode := .sparse
          spectral := some { report with compactNumActive := none } }) ∧
      orthocacheForward .flushing isTpu q keys values zetaMax tau .dense =
        .ok (dense, { metadata with mode := .dense, evictionRate := 0, spectral := none }) ∧
      Coherent q keys zetaMax tau metadata report := by
  have blocks := card_evictedBlocks q keys zetaMax tau
  set retained := countActive (anyHead (gateMask .flushing q keys zetaMax tau))
  have evicted : nb - retained =
      #(evictedBlocks q keys zetaMax (tau.getD (computeAutoTau .flushing q keys))) := by omega
  have room : retained ≤ nb := by omega
  have size : (0 : ℝ) < nb := Nat.cast_pos.mpr (NeZero.pos nb)
  have share : (retained : ℝ) / nb ≤ 1 := (div_le_one size).mpr (Nat.cast_le.mpr room)
  have nonneg : 0 ≤ (retained : ℝ) / nb := by positivity
  obtain ⟨order, deviation⟩ := zeta_statistics keys
  refine ⟨_, _, _, _, _, rfl, rfl, rfl, rfl, rfl, rfl, evicted, Nat.add_sub_cancel' room, ?_,
    ⟨?_, ?_⟩, zeta_range keys, order, deviation⟩
  · change (1 - (retained : ℝ) / nb) * nb = (nb - retained : ℕ)
    rw [Nat.cast_sub room, sub_mul, one_mul, div_mul_cancel₀ _ size.ne']
  · exact sub_nonneg.mpr share
  · exact sub_le_self 1 nonneg

end Report

theorem orthocacheForward_coherent_level : ∃ output metadata report,
    orthocacheForward .flushing true (ones : Tensor ℝ 1 2 1) (walshKeys 0 level) secondBlock 5 (some 0)
        .compact = .ok (output, metadata) ∧
      metadata.spectral = some report ∧
      Coherent (ones : Tensor ℝ 1 2 1) (walshKeys 0 level) 5 (some 0) metadata report := by
  obtain ⟨output, -, -, metadata, report, call, spectral, -, -, -, coherent⟩ :=
    orthocacheForward_coherent (ones : Tensor ℝ 1 2 1) (walshKeys 0 level) secondBlock 5 (some 0) true
  exact ⟨output, metadata, report, call, spectral, coherent⟩

end OrthoCache.PipelineReport
