import OrthoCache.SpectralEnergy

/-!
What the default bands measure. The transform leaves its coefficients in natural order, while
the documentation reads the index as the number of sign changes. The energies of the two
readings are compared block by block.
-/

namespace OrthoCache.SequencyBands
open Finset Foundation.WalshFunctions Foundation.RowMajor Arrays SpectralEnergy

variable {nb heads dim : ℕ}

/-- Energy of a block on the orthonormal Walsh functions with `low ≤ sign changes < high`. -/
noncomputable def sequencyEnergy (keys : Tensor ℝ (nb * 512) heads dim) (low high : ℕ)
    (b : Fin nb) (h : Fin heads) : ℝ :=
  ∑ s ∈ range 512 with low ≤ sequency 512 s ∧ sequency 512 s < high,
    ∑ d, projection (column keys b h d) s ^ 2

def BandsMeasureSequency (keys : Tensor ℝ (nb * 512) heads dim) : Prop :=
  let bands := computeSpectralBands .exact keys bandLow bandMid bandHigh
  ∀ b h, bands.lowEnergy b h = sequencyEnergy keys 1 64 b h ∧
    bands.midEnergy b h = sequencyEnergy keys 64 256 b h ∧
    bands.highEnergy b h = sequencyEnergy keys 256 512 b h

/-- Squared sums over `n` consecutive runs of `width` entries. -/
def runEnergy (n width : ℕ) (x : Fin (n * width) → ℝ) : ℝ := ∑ g, (∑ r, blocked x g r) ^ 2

/-- Squared sums over the `width` residue classes modulo `width`. -/
def classEnergy (n width : ℕ) (x : Fin (n * width) → ℝ) : ℝ := ∑ r, (∑ g, blocked x g r) ^ 2

noncomputable def lowestSequency (keys : Tensor ℝ (nb * 512) heads dim) (n : ℕ) (b : Fin nb)
    (h : Fin heads) : ℝ := ∑ s ∈ range 512 with sequency 512 s < n, energyAt keys b h s

section Decomposition
variable (keys : Tensor ℝ (nb * 512) heads dim) (b : Fin nb) (h : Fin heads)

theorem sequencyEnergy_eq (low high : ℕ) (order : low ≤ high) :
    sequencyEnergy keys low high b h =
      lowestSequency keys high b h - lowestSequency keys low b h := by
  have inner : {s ∈ range 512 | sequency 512 s < low} ⊆
      {s ∈ range 512 | sequency 512 s < high} :=
    monotone_filter_right _ (fun s _ below => below.trans_le order)
  have band : {s ∈ range 512 | low ≤ sequency 512 s ∧ sequency 512 s < high} =
      {s ∈ range 512 | sequency 512 s < high} \ {s ∈ range 512 | sequency 512 s < low} := by
    ext s
    simp only [mem_filter, mem_sdiff, mem_range]
    omega
  rw [sequencyEnergy, band, lowestSequency, lowestSequency, ← sum_sdiff inner, add_sub_cancel_right]
  rfl

theorem lowestSequency_eq (a m : ℕ) (size : a + m = 9) : lowestSequency keys (2 ^ m) b h =
    ∑ j ∈ range (2 ^ m), energyAt keys b h (2 ^ a * j) := by
  have sum := sum_sequency_lt a m (energyAt keys b h)
  rw [size] at sum
  exact sum

/-- The bands agree with sign changes exactly when the low indices and the multiples of a power
of two carry the same energy, at both inner boundaries. -/
theorem bands_eq_iff : (let bands := computeSpectralBands .exact keys bandLow bandMid bandHigh
      bands.lowEnergy b h = sequencyEnergy keys 1 64 b h ∧
        bands.midEnergy b h = sequencyEnergy keys 64 256 b h ∧
        bands.highEnergy b h = sequencyEnergy keys 256 512 b h) ↔
    (∑ j ∈ range 64, energyAt keys b h (8 * j) = ∑ s ∈ range 64, energyAt keys b h s) ∧
      ∑ j ∈ range 256, energyAt keys b h (2 * j) = ∑ s ∈ range 256, energyAt keys b h s := by
  have first : lowestSequency keys 1 b h = energyAt keys b h 0 := by
    have sum := lowestSequency_eq keys b h 9 0 rfl
    rwa [pow_zero, sum_range_one, Nat.mul_zero] at sum
  have low : lowestSequency keys 64 b h = ∑ j ∈ range 64, energyAt keys b h (8 * j) :=
    lowestSequency_eq keys b h 3 6 rfl
  have mid : lowestSequency keys 256 b h = ∑ j ∈ range 256, energyAt keys b h (2 * j) :=
    lowestSequency_eq keys b h 1 8 rfl
  have whole : lowestSequency keys 512 b h = ∑ s ∈ range 512, energyAt keys b h s := by
    have sum : lowestSequency keys 512 b h = ∑ s ∈ range 512, energyAt keys b h (2 ^ 0 * s) :=
      lowestSequency_eq keys b h 0 9 rfl
    simpa only [pow_zero, one_mul] using sum
  simp only [computeSpectralBands, bandLow, bandMid, bandHigh]
  rw [bandEnergy_eq keys 1 64 (by decide), bandEnergy_eq keys 64 256 (by decide),
    bandEnergy_eq keys 256 512 le_rfl, sequencyEnergy_eq keys b h 1 64 (by decide),
    sequencyEnergy_eq keys b h 64 256 (by decide), sequencyEnergy_eq keys b h 256 512 (by decide),
    first, low, mid, whole, sum_Ico_eq_sub _ (by decide : 1 ≤ 64),
    sum_Ico_eq_sub _ (by decide : 64 ≤ 256), sum_Ico_eq_sub _ (by decide : 256 ≤ 512), sum_range_one]
  constructor
  · rintro ⟨lowBand, midBand, -⟩
    exact ⟨by linarith, by linarith⟩
  · rintro ⟨lowSum, midSum⟩
    exact ⟨by linarith, by linarith, by linarith⟩

end Decomposition

section Energies
variable {n width : ℕ}

theorem runEnergy_eq (x : Fin (n * width) → ℝ) (f : ℕ → ℝ) (agree : ∀ i, x i = f i) :
    runEnergy n width x = ∑ g ∈ range n, (∑ r ∈ range width, f (width * g + r)) ^ 2 := by
  simp only [runEnergy, blocked, agree, sum_range, Nat.add_comm]
  rfl

theorem classEnergy_eq (x : Fin (n * width) → ℝ) (f : ℕ → ℝ) (agree : ∀ i, x i = f i) :
    classEnergy n width x = ∑ r ∈ range width, (∑ g ∈ range n, f (width * g + r)) ^ 2 := by
  simp only [classEnergy, blocked, agree, sum_range, Nat.add_comm]
  rfl

end Energies

section Condition
variable (keys : Tensor ℝ (nb * 512) heads dim) (b : Fin nb) (h : Fin heads)

noncomputable def extended (d : Fin dim) : ℕ → ℝ := Function.extend Fin.val (column keys b h d) 0

theorem column_eq_extended (d : Fin dim) (t : Fin 512) :
    column keys b h d t = extended keys b h d t :=
  (Fin.val_injective.extend_apply (column keys b h d) 0 t).symm

theorem sum_energyAt_multiples (a m : ℕ) (size : 512 = 2 ^ (a + m)) :
    ∑ j ∈ range (2 ^ m), energyAt keys b h (2 ^ a * j) = (∑ d, ∑ g ∈ range (2 ^ m),
      (∑ r ∈ range (2 ^ a), extended keys b h d (2 ^ a * g + r)) ^ 2) / 2 ^ a := by
  simp only [energyAt]
  rw [sum_comm, sum_div]
  exact sum_congr rfl
    (fun d _ => sum_projection_multiples a m size _ _ (column_eq_extended keys b h d))

theorem sum_energyAt_initial (a m : ℕ) (size : 512 = 2 ^ (a + m)) :
    ∑ s ∈ range (2 ^ m), energyAt keys b h s = (∑ d, ∑ r ∈ range (2 ^ m),
      (∑ g ∈ range (2 ^ a), extended keys b h d (2 ^ m * g + r)) ^ 2) / 2 ^ a := by
  simp only [energyAt]
  rw [sum_comm, sum_div]
  exact sum_congr rfl
    (fun d _ => sum_projection_initial a m size _ _ (column_eq_extended keys b h d))

theorem boundary_iff {runs classes : Fin dim → ℝ} (a m : ℕ) (size : 512 = 2 ^ (a + m))
    (hruns : ∀ d, runs d = ∑ g ∈ range (2 ^ m),
      (∑ r ∈ range (2 ^ a), extended keys b h d (2 ^ a * g + r)) ^ 2)
    (hclasses : ∀ d, classes d = ∑ r ∈ range (2 ^ m),
      (∑ g ∈ range (2 ^ a), extended keys b h d (2 ^ m * g + r)) ^ 2) :
    ∑ j ∈ range (2 ^ m), energyAt keys b h (2 ^ a * j) =
        ∑ s ∈ range (2 ^ m), energyAt keys b h s ↔ ∑ d, runs d = ∑ d, classes d := by
  rw [sum_energyAt_multiples keys b h a m size, sum_energyAt_initial keys b h a m size,
    div_left_inj' (by positivity)]
  simp only [hruns, hclasses]

end Condition

/-- The default bands measure sign changes exactly when, in every block and head, 64 runs of 8
keys carry the squared sums of the 64 residue classes modulo 64, and 256 pairs of neighbours
those of the 256 pairs half a block apart. -/
theorem bandsMeasureSequency_iff (keys : Tensor ℝ (nb * 512) heads dim) :
    BandsMeasureSequency keys ↔ ∀ b h,
      ∑ d, runEnergy 64 8 (column keys b h d) = ∑ d, classEnergy 8 64 (column keys b h d) ∧
      ∑ d, runEnergy 256 2 (column keys b h d) = ∑ d, classEnergy 2 256 (column keys b h d) := by
  apply forall₂_congr
  intro b h
  have agree := column_eq_extended keys b h
  rw [bands_eq_iff]
  apply and_congr
  · exact boundary_iff keys b h 3 6 rfl (fun d => runEnergy_eq _ _ (agree d))
      (fun d => classEnergy_eq _ _ (agree d))
  · exact boundary_iff keys b h 1 8 rfl (fun d => runEnergy_eq _ _ (agree d))
      (fun d => classEnergy_eq _ _ (agree d))

/-- One sign change, yet all the energy is reported as high: the square wave has natural
index 256. -/
theorem squareWave_bands_ne_sequency :
    ¬BandsMeasureSequency (walshKeys 256 (fun (_ : Fin 1) (_ : Fin 1) => 1)) := by
  intro measured
  have sums := ((bands_eq_iff _ 0 0).mp (measured 0 0)).2
  have low : ∑ s ∈ range 256, energyAt (walshKeys 256 (fun (_ : Fin 1) (_ : Fin 1) => 1)) 0 0 s = 0 := by
    rw [range_eq_Ico, sum_energyAt_walshKeys _ _ _ _ 0 256 (by decide) (by decide),
      if_neg (by decide)]
  have even := single_le_sum
    (fun j _ => energyAt_nonneg (walshKeys 256 (fun (_ : Fin 1) (_ : Fin 1) => 1)) 0 0 (2 * j))
    (show 128 ∈ range 256 by decide)
  rw [energyAt_walshKeys _ _ _ _ _ (by decide) (by decide), if_pos rfl, sums, low] at even
  norm_num at even

end OrthoCache.SequencyBands
