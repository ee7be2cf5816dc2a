import OrthoCache.AttentionSpec
import OrthoCache.Fwht

/-!
The spectral analysis of the key cache: the energies of the blocks, the batched transform of all
blocks, the band energies and their decay ratio, the query-aware logit bounds and the eviction
masks. The transform fixes the block size at 512.
-/

namespace OrthoCache.SpectralEnergy
open Finset Foundation.WalshFunctions Foundation.RowMajor Arrays AttentionSpec Fwht

section Model
variable {R : Type} [Field R] [LinearOrder R] {Q nb bs heads dim : ℕ}

def bandDc : Fin 512 := 0

def bandLow : ℕ × ℕ := (1, 64)

def bandMid : ℕ × ℕ := (64, 256)

def bandHigh : ℕ × ℕ := (256, 512)

/-- Squared norms of the keys of a block, taken without the transform. -/
def computeBlockEnergyJax (keys : Tensor R (nb * bs) heads dim) (b : Fin nb) (h : Fin heads) : R :=
  let blocks := blocked keys
  ∑ t, ∑ d, blocks b t h d ^ 2

/-- `_run_fwht_on_blocks`: all columns of all blocks are transformed as one `(512, n)` array. -/
def runFwhtOnBlocks (A : Arith R) (keys : Tensor R (nb * 512) heads dim) :
    Fin nb → Tensor R 512 heads dim :=
  let blocks := blocked keys
  let blocksT := fun t b h d => blocks b t h d
  let flat := fun t => flattened (flattened (blocksT t))
  let spectralFlat := fwht512 A flat
  let spectral := fun s => blocked (blocked (spectralFlat s))
  fun b s h d => spectral s b h d

def bandEnergy (spectral : Fin nb → Tensor R 512 heads dim) (band : ℕ × ℕ) (b : Fin nb)
    (h : Fin heads) : R :=
  ∑ s : Fin 512 with band.1 ≤ s.val ∧ s.val < band.2, ∑ d, spectral b s h d ^ 2

structure SpectralBands (R : Type) (nb heads dim : ℕ) where
  dcComponent : Tensor R nb heads dim
  lowEnergy : Fin nb → Fin heads → R
  midEnergy : Fin nb → Fin heads → R
  highEnergy : Fin nb → Fin heads → R

def computeSpectralBands (A : Arith R) (keys : Tensor R (nb * 512) heads dim)
    (low mid high : ℕ × ℕ) : SpectralBands R nb heads dim :=
  let spectral := runFwhtOnBlocks A keys
  { dcComponent := fun b h d => spectral b bandDc h d
    lowEnergy := bandEnergy spectral low
    midEnergy := bandEnergy spectral mid
    highEnergy := bandEnergy spectral high }

def computeSpectralDecayRatio (A : Arith R) (keys : Tensor R (nb * 512) heads dim)
    (low high : ℕ × ℕ) (b : Fin nb) (h : Fin heads) : R :=
  let bands := computeSpectralBands A keys low (low.2, high.1) high
  bands.highEnergy b h / (bands.lowEnergy b h + 1e-6)

def computeQueryAwareBounds (A : Arith R) (q : Tensor R Q heads dim)
    (keys : Tensor R (nb * 512) heads dim) (i : Fin Q) (b : Fin nb) (h : Fin heads) : R :=
  let spectral := runFwhtOnBlocks A keys
  let dcComponent := fun b h d => spectral b 0 h d
  let acEnergy := bandEnergy spectral (1, 512)
  let blockMean := fun b h d => dcComponent b h d / A.sqrt 512
  let alignment := (∑ d, q i h d * blockMean b h d) / A.sqrt dim
  let qNorm := fun i h => A.sqrt (∑ d, q i h d ^ 2)
  let residualBound := qNorm i h * A.sqrt (acEnergy b h) / A.sqrt dim
  alignment + residualBound

/-- `jnp.max(bounds, axis=0)`, which needs a query row. -/
def maxBounds [NeZero Q] (A : Arith R) (q : Tensor R Q heads dim)
    (keys : Tensor R (nb * 512) heads dim) (b : Fin nb) (h : Fin heads) : R :=
  univ.sup' (axis_univ_nonempty Q) (fun i => computeQueryAwareBounds A q keys i b h)

def computeQueryAwareMask [NeZero Q] (A : Arith R) (q : Tensor R Q heads dim)
    (keys : Tensor R (nb * 512) heads dim) (tau : R) (b : Fin nb) (h : Fin heads) : Bool :=
  decide (maxBounds A q keys b h ≥ tau)

def computeMultibandMask [NeZero Q] (A : Arith R) (q : Tensor R Q heads dim)
    (keys : Tensor R (nb * 512) heads dim) (tau zetaMax : R) (b : Fin nb) (h : Fin heads) : Bool :=
  let logitMask := computeQueryAwareMask A q keys tau
  let noiseMask := fun b h => decide (computeSpectralDecayRatio A keys bandLow bandHigh b h ≤ zetaMax)
  logitMask b h && noiseMask b h

def generateThresholdMask (energies : Fin nb → Fin heads → R) (epsilon : R) (b : Fin nb)
    (h : Fin heads) : Bool :=
  decide (energies b h ≥ epsilon)

end Model

section Spectrum
variable {Q nb heads dim : ℕ}

def column {R : Type} (keys : Tensor R (nb * 512) heads dim) (b : Fin nb) (h : Fin heads)
    (d : Fin dim) (t : Fin 512) : R := blocked keys b t h d

/-- Batching mixes nothing: each column is transformed on its own. -/
theorem runFwhtOnBlocks_exact (keys : Tensor ℝ (nb * 512) heads dim) (b : Fin nb) (s : Fin 512)
    (h : Fin heads) (d : Fin dim) :
    runFwhtOnBlocks .exact keys b s h d = projection (column keys b h d) s := by
  simp only [runFwhtOnBlocks, blocked, fwht512_exact, flattened, index_divNat, index_modNat]
  rfl

/-- Squared length of a block's projection on one Walsh function. -/
noncomputable def energyAt (keys : Tensor ℝ (nb * 512) heads dim) (b : Fin nb) (h : Fin heads)
    (s : ℕ) : ℝ := ∑ d, projection (column keys b h d) s ^ 2

theorem energyAt_nonneg (keys : Tensor ℝ (nb * 512) heads dim) (b : Fin nb) (h : Fin heads)
    (s : ℕ) : 0 ≤ energyAt keys b h s := sum_nonneg (fun _ _ => sq_nonneg _)

theorem bandEnergy_eq (keys : Tensor ℝ (nb * 512) heads dim) (low high : ℕ) (inside : high ≤ 512)
    (b : Fin nb) (h : Fin heads) :
    bandEnergy (runFwhtOnBlocks .exact keys) (low, high) b h =
      ∑ s ∈ Ico low high, energyAt keys b h s := by
  simp only [bandEnergy, runFwhtOnBlocks_exact]
  have image : Ico low high = ({s : Fin 512 | low ≤ s.val ∧ s.val < high} : Finset _).map
      Fin.valEmbedding := by
    ext s
    simp only [mem_Ico, mem_map, mem_filter, mem_univ, true_and, Fin.valEmbedding_apply]
    constructor
    · intro within
      exact ⟨⟨s, by omega⟩, within, rfl⟩
    · rintro ⟨t, within, rfl⟩
      exact within
  rw [image, sum_map]
  rfl

theorem sum_energyAt (keys : Tensor ℝ (nb * 512) heads dim) (b : Fin nb) (h : Fin heads) :
    ∑ s ∈ range 512, energyAt keys b h s = ∑ d, ∑ t, column keys b h d t ^ 2 := by
  simp only [energyAt]
  rw [sum_comm]
  exact sum_congr rfl (fun d _ => sum_projection_sq 9 (column keys b h d))

/-- Mean key of a block, as the source recovers it from the constant coefficient. -/
noncomputable def blockMean (keys : Tensor ℝ (nb * 512) heads dim) (b : Fin nb) (h : Fin heads)
    (d : Fin dim) : ℝ := projection (column keys b h d) 0 / √512

theorem sum_energyAt_deviation (keys : Tensor ℝ (nb * 512) heads dim) (b : Fin nb)
    (h : Fin heads) : ∑ s ∈ Ico 1 512, energyAt keys b h s =
      ∑ t, ∑ d, (column keys b h d t - blockMean keys b h d) ^ 2 := by
  have size : ((2 ^ 9 : ℕ) : ℝ) = 512 := by norm_num
  simp only [energyAt]
  rw [sum_comm, sum_comm (s := (univ : Finset (Fin 512)))]
  apply sum_congr rfl
  intro d _
  have deviation := sum_projection_sq_deviation 9 (column keys b h d)
  rw [size] at deviation
  exact deviation

end Spectrum

section Bounds
variable {Q nb heads dim : ℕ} (q : Tensor ℝ Q heads dim) (keys : Tensor ℝ (nb * 512) heads dim)

theorem computeQueryAwareBounds_exact (i : Fin Q) (b : Fin nb) (h : Fin heads) :
    computeQueryAwareBounds .exact q keys i b h =
      (∑ d, q i h d * blockMean keys b h d) / √dim +
        √(∑ d, q i h d ^ 2) * √(∑ s ∈ Ico 1 512, energyAt keys b h s) / √dim := by
  simp only [computeQueryAwareBounds, bandEnergy_eq keys 1 512 le_rfl, runFwhtOnBlocks_exact]
  rfl

/-- Every logit of a block stays below the block's bound: the alignment with the mean key, plus
Cauchy-Schwarz for the deviation. -/
theorem logit_le_bound (i : Fin Q) (b : Fin nb) (h : Fin heads) (t : Fin 512) :
    logit .exact (q i h) (blocked keys b t h) ≤ computeQueryAwareBounds .exact q keys i b h := by
  have own : ∑ d, (column keys b h d t - blockMean keys b h d) ^ 2 ≤
      ∑ s ∈ Ico 1 512, energyAt keys b h s := by
    rw [sum_energyAt_deviation]
    exact single_le_sum (f := fun t => ∑ d, (column keys b h d t - blockMean keys b h d) ^ 2)
      (fun t _ => sum_nonneg (fun d _ => sq_nonneg _)) (mem_univ t)
  have split : ∑ d, q i h d * blocked keys b t h d = ∑ d, q i h d * blockMean keys b h d +
      ∑ d, q i h d * (column keys b h d t - blockMean keys b h d) := by
    rw [← sum_add_distrib]
    exact sum_congr rfl (fun d _ => by rw [column]; ring)
  have residual : ∑ d, q i h d * (column keys b h d t - blockMean keys b h d) ≤
      √(∑ d, q i h d ^ 2) * √(∑ s ∈ Ico 1 512, energyAt keys b h s) :=
    (Real.sum_mul_le_sqrt_mul_sqrt _ _ _).trans
      (mul_le_mul_of_nonneg_left (Real.sqrt_le_sqrt own) (Real.sqrt_nonneg _))
  rw [computeQueryAwareBounds_exact, logit, split, add_div]
  exact add_le_add_right (div_le_div_of_nonneg_right residual (Real.sqrt_nonneg _)) _

variable [NeZero Q]

theorem bound_le_maxBounds (i : Fin Q) (b : Fin nb) (h : Fin heads) :
    computeQueryAwareBounds .exact q keys i b h ≤ maxBounds .exact q keys b h :=
  le_sup' (fun i => computeQueryAwareBounds .exact q keys i b h) (mem_univ i)

theorem logits_lt_of_evicted (tau : ℝ) (i : Fin Q) (h : Fin heads) (k : Fin (nb * 512))
    (evicted : computeQueryAwareMask .exact q keys tau k.divNat h = false) :
    logits q keys i h k < tau := by
  have below : maxBounds .exact q keys k.divNat h < tau := by
    simpa [computeQueryAwareMask] using evicted
  have bound := logit_le_bound q keys i k.divNat h k.modNat
  rw [blocked_apply_div_mod] at bound
  exact bound.trans_lt ((bound_le_maxBounds q keys i k.divNat h).trans_lt below)

end Bounds

section WalshKeys
variable {nb heads : ℕ}

/-- Keys of dimension one in which every block is a multiple of one Walsh function: constant
blocks for index 0, a single sign change half-way for index 256. -/
def walshKeys (index : ℕ) (amplitude : Fin nb → Fin heads → ℝ) : Tensor ℝ (nb * 512) heads 1 :=
  flattened (fun b t h _ => amplitude b h * walshSign index t)

variable (index : ℕ) (amplitude : Fin nb → Fin heads → ℝ) (b : Fin nb) (h : Fin heads)

theorem logits_walshKeys (i : Fin 1) (t : Fin 512) :
    logits (ones : Tensor ℝ 1 heads 1) (walshKeys index amplitude) i h (finProdFinEquiv (b, t)) =
      amplitude b h * walshSign index t := by
  have entry : walshKeys index amplitude (finProdFinEquiv (b, t)) h 0 =
      amplitude b h * walshSign index t := by
    simp only [walshKeys, flattened, index_divNat, index_modNat]
  simp [logits, logit, Arith.exact, ones, entry]

theorem projection_walshKeys (d : Fin 1) (s : ℕ) (known : index < 512) (inside : s < 512) :
    projection (column (walshKeys index amplitude) b h d) s =
      if s = index then √512 * amplitude b h else 0 := by
  have scaled : column (walshKeys index amplitude) b h d =
      fun t : Fin 512 => √512 * amplitude b h * orthonormalWalsh 512 index t := by
    funext t
    rw [column, walshKeys, blocked_flattened, orthonormalWalsh, Nat.cast_ofNat]
    field_simp
  have unit : projection (fun t : Fin 512 => orthonormalWalsh 512 index t) s =
      if s = index then 1 else 0 := projection_orthonormalWalsh 9 s index inside known
  rw [scaled, projection_mul_left, unit, mul_ite, mul_one, mul_zero]

theorem energyAt_walshKeys (s : ℕ) (known : index < 512) (inside : s < 512) :
    energyAt (walshKeys index amplitude) b h s =
      if s = index then 512 * amplitude b h ^ 2 else 0 := by
  rw [energyAt, univ_unique, sum_singleton, projection_walshKeys index amplitude b h _ s known inside]
  split_ifs
  · rw [mul_pow, Real.sq_sqrt (by norm_num)]
  · exact zero_pow (by decide)

theorem sum_energyAt_walshKeys (low high : ℕ) (known : index < 512) (inside : high ≤ 512) :
    ∑ s ∈ Ico low high, energyAt (walshKeys index amplitude) b h s =
      if index ∈ Ico low high then 512 * amplitude b h ^ 2 else 0 := by
  rw [← sum_ite_eq (Ico low high) index (fun _ => 512 * amplitude b h ^ 2)]
  apply sum_congr rfl
  intro s member
  rw [mem_Ico] at member
  rw [energyAt_walshKeys index amplitude b h s known (by omega)]
  exact if_congr eq_comm rfl rfl

theorem maxBounds_walshKeys (known : index < 512) :
    maxBounds .exact (ones : Tensor ℝ 1 heads 1) (walshKeys index amplitude) b h =
      if index = 0 then amplitude b h else √(512 * amplitude b h ^ 2) := by
  have bound (i : Fin 1) : computeQueryAwareBounds .exact (ones : Tensor ℝ 1 heads 1)
      (walshKeys index amplitude) i b h =
        if index = 0 then amplitude b h else √(512 * amplitude b h ^ 2) := by
    rw [computeQueryAwareBounds_exact, sum_energyAt_walshKeys _ _ _ _ _ _ known le_rfl]
    simp only [univ_unique, sum_singleton, blockMean, ones, one_pow, one_mul, Nat.cast_one,
      Real.sqrt_one, div_one, mem_Ico,
      projection_walshKeys index amplitude b h _ 0 known (by decide)]
    by_cases constant : index = 0
    · simp [constant]
    · have oscillates : 1 ≤ index ∧ index < 512 := by omega
      simp [constant, oscillates, Ne.symm constant]
  simp only [maxBounds, bound, sup'_const]

theorem computeSpectralDecayRatio_walshKeys (known : index < 512) :
    computeSpectralDecayRatio .exact (walshKeys index amplitude) bandLow bandHigh b h =
      (if index ∈ Ico 256 512 then 512 * amplitude b h ^ 2 else 0) /
        ((if index ∈ Ico 1 64 then 512 * amplitude b h ^ 2 else 0) + 1e-6) := by
  simp only [computeSpectralDecayRatio, computeSpectralBands, bandLow, bandHigh]
  rw [bandEnergy_eq _ 1 64 (by decide), bandEnergy_eq _ 256 512 le_rfl,
    sum_energyAt_walshKeys _ _ _ _ 256 512 known le_rfl,
    sum_energyAt_walshKeys _ _ _ _ 1 64 known (by decide)]

theorem computeQueryAwareMask_constant (tau : ℝ) :
    computeQueryAwareMask .exact (ones : Tensor ℝ 1 heads 1) (walshKeys 0 amplitude) tau b h =
      decide (tau ≤ amplitude b h) := by
  rw [computeQueryAwareMask, maxBounds_walshKeys _ _ _ _ (by decide), if_pos rfl]

theorem computeMultibandMask_constant (tau zetaMax : ℝ) (nonneg : 0 ≤ zetaMax) :
    computeMultibandMask .exact (ones : Tensor ℝ 1 heads 1) (walshKeys 0 amplitude) tau zetaMax b h =
      decide (tau ≤ amplitude b h) := by
  simp only [computeMultibandMask, computeQueryAwareMask_constant]
  rw [computeSpectralDecayRatio_walshKeys _ _ _ _ (by decide), if_neg (by decide), zero_div,
    decide_eq_true nonneg, Bool.and_true]

end WalshKeys

end OrthoCache.SpectralEnergy
