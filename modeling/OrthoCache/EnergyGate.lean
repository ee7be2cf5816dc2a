import OrthoCache.ReferenceAgreement
import OrthoCache.TruncationBound

/-!
Block energies. The spatial energy of a block is the energy of its coefficients, however the index
axis is cut into bands, and a block with little energy has small logits: the gate that evicts such
blocks loses a bounded share of the softmax mass.
-/

namespace OrthoCache.EnergyGate
open Finset Foundation.SoftmaxMean Foundation.WalshFunctions Foundation.RowMajor Arrays
open AttentionSpec SpectralEnergy Reference ReferenceAgreement TruncationBound

section Conservation
variable {nb heads dim : ℕ} (keys : Tensor ℝ (nb * 512) heads dim)

theorem computeBlockEnergyJax_eq (b : Fin nb) (h : Fin heads) :
    computeBlockEnergyJax keys b h = ∑ s ∈ range 512, energyAt keys b h s := by
  rw [sum_energyAt, sum_comm]
  rfl

theorem sum_bands_eq (low high : ℕ) (first : 1 ≤ low) (order : low ≤ high) (last : high ≤ 512)
    (b : Fin nb) (h : Fin heads) :
    let bands := computeSpectralBands .exact keys (1, low) (low, high) (high, 512)
    ∑ d, bands.dcComponent b h d ^ 2 + bands.lowEnergy b h + bands.midEnergy b h +
        bands.highEnergy b h = computeBlockEnergyJax keys b h := by
  have zero : (bandDc : ℕ) = 0 := Fin.val_zero 512
  have constant : ∑ d, runFwhtOnBlocks .exact keys b bandDc h d ^ 2 = energyAt keys b h 0 := by
    simp only [runFwhtOnBlocks_exact, energyAt, zero]
  simp only [computeSpectralBands]
  rw [constant, bandEnergy_eq keys 1 low (order.trans last), bandEnergy_eq keys low high last,
    bandEnergy_eq keys high 512 le_rfl, computeBlockEnergyJax_eq, range_eq_Ico, add_assoc, add_assoc,
    sum_Ico_consecutive _ order last, sum_Ico_consecutive _ first (order.trans last),
    sum_eq_sum_Ico_succ_bot (show 0 < 512 by decide)]

theorem computeBlockEnergyReference_eq :
    computeBlockEnergyReference .exact keys = .ok (computeBlockEnergyJax keys) := by
  have energy (b : Fin nb) (h : Fin heads) :
      ∑ s, ∑ d, runFwhtOnBlocks .exact keys b s h d ^ 2 = computeBlockEnergyJax keys b h := by
    rw [computeBlockEnergyJax_eq, sum_range]
    simp only [runFwhtOnBlocks_exact]
    rfl
  obtain ⟨final, loop, final_eq⟩ := forHeadsBlocks_fill (blockEnergyStep .exact keys)
    (fun energies place => energies place.1 place.2)
    (fun place => computeBlockEnergyJax keys place.1 place.2)
    (fun energies h b => by
      unfold blockEnergyStep
      rw [numpyFwht_blockKeys]
      refine ⟨_, rfl, ?_⟩
      funext place
      rw [setEntry_apply, energy])
    (fun _ _ => 0)
  apply loop.trans (congrArg Except.ok _)
  funext b h
  exact congrFun final_eq (b, h)

/-- No energy is lost or counted twice, whatever the two inner boundaries are. -/
theorem blockEnergy_conserved (low high : ℕ) (first : 1 ≤ low) (order : low ≤ high)
    (last : high ≤ 512) :
    (∀ b h, let bands := computeSpectralBands .exact keys (1, low) (low, high) (high, 512)
      ∑ d, bands.dcComponent b h d ^ 2 + bands.lowEnergy b h + bands.midEnergy b h +
        bands.highEnergy b h = computeBlockEnergyJax keys b h) ∧
    computeBlockEnergyReference .exact keys = .ok (computeBlockEnergyJax keys) :=
  ⟨sum_bands_eq keys low high first order last, computeBlockEnergyReference_eq keys⟩

end Conservation

theorem blockEnergy_conserved_default :
    let keys : Tensor ℝ (2 * 512) 2 3 := ones
    (∀ b h, let bands := computeSpectralBands .exact keys (1, 64) (64, 256) (256, 512)
      ∑ d, bands.dcComponent b h d ^ 2 + bands.lowEnergy b h + bands.midEnergy b h +
        bands.highEnergy b h = computeBlockEnergyJax keys b h) ∧
    computeBlockEnergyReference .exact keys = .ok (computeBlockEnergyJax keys) :=
  blockEnergy_conserved ones 64 256 (by decide) (by decide) (by decide)

section Gate
variable {Q nb bs heads dim : ℕ} (q : Tensor ℝ Q heads dim) (keys : Tensor ℝ (nb * bs) heads dim)

theorem normSq_le_energy (h : Fin heads) (k : Fin (nb * bs)) :
    ∑ d, keys k h d ^ 2 ≤ computeBlockEnergyJax keys k.divNat h := by
  have own := single_le_sum (f := fun t => ∑ d, blocked keys k.divNat t h d ^ 2)
    (fun t _ => sum_nonneg (fun d _ => sq_nonneg _)) (mem_univ k.modNat)
  rwa [blocked_apply_div_mod] at own

/-- Cauchy-Schwarz for the tokens of a block that the gate evicts. -/
theorem logit_le_of_evicted (epsilon : ℝ) (i : Fin Q) (h : Fin heads) (k : Fin (nb * bs))
    (evicted : generateThresholdMask (computeBlockEnergyJax keys) epsilon k.divNat h = false) :
    logits q keys i h k ≤ √(∑ d, q i h d ^ 2) * √epsilon / √dim := by
  have small : ∑ d, keys k h d ^ 2 ≤ epsilon := by
    have below : computeBlockEnergyJax keys k.divNat h < epsilon := by
      simpa [generateThresholdMask] using evicted
    exact (normSq_le_energy keys h k).trans below.le
  apply div_le_div_of_nonneg_right _ (Real.sqrt_nonneg _)
  calc ∑ d, q i h d * keys k h d ≤ √(∑ d, q i h d ^ 2) * √(∑ d, keys k h d ^ 2) :=
        Real.sum_mul_le_sqrt_mul_sqrt _ _ _
    _ ≤ √(∑ d, q i h d ^ 2) * √epsilon :=
        mul_le_mul_of_nonneg_left (Real.sqrt_le_sqrt small) (Real.sqrt_nonneg _)

/-- The evicted mass is bounded through the threshold on the energy. -/
theorem energyGate_truncation_bound [NeZero bs] (epsilon : ℝ) (i : Fin Q) (h : Fin heads)
    (retained : ∃ b, generateThresholdMask (computeBlockEnergyJax keys) epsilon b h = true) :
    let z := logits q keys i h
    let kept := tokensOf (fun b => generateThresholdMask (computeBlockEnergyJax keys) epsilon b h)
    computeTvDistance (fullSoftmax z) (truncatedSoftmax kept z) ≤
      keptᶜ.card * Real.exp (√(∑ d, q i h d ^ 2) * √epsilon / √dim -
        kept.sup' ((tokensOf_nonempty_iff _).mpr retained) z) := by
  intro z kept
  have nonempty : kept.Nonempty := (tokensOf_nonempty_iff _).mpr retained
  obtain ⟨j, -, attained⟩ := exists_mem_eq_sup' nonempty z
  rw [tvDistance_truncated kept z nonempty, attained]
  apply mass_fraction_le
  intro k evicted
  rw [compl_tokensOf, mem_tokensOf] at evicted
  exact logit_le_of_evicted q keys epsilon i h k (by simpa using evicted)

end Gate

theorem energyGate_truncation_bound_halves :
    let keys : Tensor ℝ (2 * 1) 1 1 := flattened (fun b _ _ _ => ![1, 0] b)
    let z := logits (ones : Tensor ℝ 1 1 1) keys 0 0
    let kept := tokensOf (fun b => generateThresholdMask (computeBlockEnergyJax keys) 1 b 0)
    ∃ nonempty : kept.Nonempty, computeTvDistance (fullSoftmax z) (truncatedSoftmax kept z) ≤
      keptᶜ.card * Real.exp (√(∑ d, (ones : Tensor ℝ 1 1 1) 0 0 d ^ 2) * √1 / √(1 : ℕ) -
        kept.sup' nonempty z) :=
  ⟨_, energyGate_truncation_bound ones (flattened (fun b _ _ _ => ![1, 0] b)) 1 0 0
    ⟨0, by simp [generateThresholdMask, computeBlockEnergyJax]⟩⟩

end OrthoCache.EnergyGate
