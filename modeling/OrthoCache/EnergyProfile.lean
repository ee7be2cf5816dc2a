import OrthoCache.EnergyGate
import OrthoCache.EvictionAccuracy
import OrthoCache.OutputError
import OrthoCache.PipelineReport

/-!
The two benchmarks that look at the energies of the blocks. The profiler evicts the blocks whose
energy is below a percentile and attends to the rest; the analysis pads the keys of a layer, writes
the energies out and summarises them.
-/

namespace OrthoCache.EnergyProfile
open Finset Foundation.SoftmaxMean Foundation.RowMajor Foundation.OrderStatistics Arrays
open AttentionSpec SparseAttention SpectralEnergy Pipeline EnergyGate EvictionAccuracy OutputError
open PipelineReport

section Model
variable {R : Type} [Field R] [LinearOrder R] [FloorRing R] {Q nb n heads dim : ℕ}

def paddedLength (seqLen blockSize : ℕ) : ℕ :=
  let remainder := seqLen % blockSize
  if remainder = 0 then seqLen else seqLen + (blockSize - remainder)

def paddedBlocks (seqLen : ℕ) : ℕ := paddedLength seqLen 512 / 512

def padToBlockBoundary (keys : Tensor R n heads dim) : Tensor R (paddedBlocks n * 512) heads dim :=
  fun k h d => if inside : k.val < n then keys ⟨k, inside⟩ h d else 0

structure LayerStats (R : Type) where
  layer : ℕ
  numBlocks : ℕ
  numHeads : ℕ
  mean : R
  std : R
  min : R
  p25 : R
  median : R
  p75 : R
  max : R

theorem paddedBlocks_mul (seqLen : ℕ) : paddedBlocks seqLen * 512 = paddedLength seqLen 512 := by
  rw [paddedBlocks, paddedLength]
  split_ifs <;> omega

theorem le_padded (seqLen : ℕ) : seqLen ≤ paddedBlocks seqLen * 512 := by
  rw [paddedBlocks_mul, paddedLength]
  split_ifs <;> omega

theorem padded_lt (seqLen : ℕ) : paddedBlocks seqLen * 512 < seqLen + 512 := by
  rw [paddedBlocks_mul, paddedLength]
  split_ifs <;> omega

instance paddedBlocksNeZero [NeZero n] : NeZero (paddedBlocks n) :=
  ⟨fun none => by
    have room := le_padded n
    rw [none, Nat.zero_mul] at room
    exact NeZero.ne n (Nat.le_zero.mp room)⟩

def analyseLayer [NeZero n] [NeZero heads] (A : Arith R) (keys : Tensor R n heads dim)
    (layerIdx : ℕ) : List (ℕ × ℕ × R) × LayerStats R :=
  let energies := computeBlockEnergyJax (padToBlockBoundary keys)
  let flatEnergies := flattened energies
  let entries := List.ofFn flatEnergies
  ((List.finRange (paddedBlocks n)).flatMap (fun b =>
      (List.finRange heads).map (fun h => (b.val, h.val, energies b h))),
    { layer := layerIdx
      numBlocks := paddedBlocks n
      numHeads := heads
      mean := mean flatEnergies
      std := std A flatEnergies
      min := univ.inf' (axis_univ_nonempty _) flatEnergies
      p25 := percentile entries ((25 : ℕ) / (100 : ℕ))
      median := median entries
      p75 := percentile entries ((75 : ℕ) / (100 : ℕ))
      max := univ.sup' (axis_univ_nonempty _) flatEnergies })

end Model

/-! ### Profiled eviction -/

section Eviction
variable {Q nb heads dim : ℕ} (q : Tensor ℝ Q heads dim)
  (keys values : Tensor ℝ (nb * 512) heads dim)

variable [NeZero nb] [NeZero heads] {rate : ℝ} (nonneg : 0 ≤ rate) (le_one : rate ≤ 1)

theorem energies_ne_nil : List.ofFn (flattened (computeBlockEnergyJax keys)) ≠ [] := by
  rw [ne_eq, List.ofFn_eq_nil_iff]
  exact (Nat.mul_pos (NeZero.pos nb) (NeZero.pos heads)).ne'

include nonneg le_one

omit nonneg le_one

end Eviction

section Layer
variable {n heads dim : ℕ} (keys : Tensor ℝ n heads dim)

theorem energy_nonneg {nb bs : ℕ} (keys : Tensor ℝ (nb * bs) heads dim) (b : Fin nb)
    (h : Fin heads) : 0 ≤ computeBlockEnergyJax keys b h :=
  sum_nonneg (fun _ _ => sum_nonneg (fun _ _ => sq_nonneg _))

theorem sum_padded (f : (Fin heads → Fin dim → ℝ) → ℝ) (nothing : f (fun _ _ => 0) = 0) :
    ∑ k, f (padToBlockBoundary keys k) = ∑ k, f (keys k) := by
  have inside (j : Fin n) : padToBlockBoundary keys (Fin.castLE (le_padded n) j) = keys j := by
    funext h d
    exact dif_pos j.isLt
  have front := sum_castLE (le_padded n) (fun k => f (padToBlockBoundary keys k))
  simp only [inside] at front
  rw [front, sum_filter]
  refine sum_congr rfl (fun k _ => ?_)
  split_ifs with less
  · rfl
  · have outside : padToBlockBoundary keys k = fun _ _ => 0 := by
      funext h d
      exact dif_neg less
    rw [outside, nothing]

theorem sum_energies : ∑ b, ∑ h, computeBlockEnergyJax (padToBlockBoundary keys) b h =
    ∑ k, ∑ h, ∑ d, keys k h d ^ 2 := by
  rw [← sum_padded keys (fun row => ∑ h, ∑ d, row h d ^ 2) (by simp), sum_rows]
  refine sum_congr rfl (fun b _ => ?_)
  rw [sum_comm]
  rfl

theorem energy_column {nb : ℕ} (energies : Fin nb → Fin heads → ℝ) :
    ((List.finRange nb).flatMap (fun b => (List.finRange heads).map (fun h =>
      (b.val, h.val, energies b h)))).map (fun row => row.2.2) =
      List.ofFn (flattened energies) := by
  rw [List.ofFn_eq_map, finRange_mul, List.map_flatMap, List.map_flatMap]
  refine List.flatMap_congr (fun b _ => ?_)
  rw [List.map_map, List.map_map]
  refine List.map_congr_left (fun h _ => ?_)
  simp only [Function.comp_apply, flattened, index_divNat, index_modNat]

/-- What the summary says about the layer, and the rows of the file with it. -/
structure Summarises (layerIdx : ℕ) (rows : List (ℕ × ℕ × ℝ)) (stats : LayerStats ℝ) : Prop where
  layer : stats.layer = layerIdx
  heads : stats.numHeads = heads
  covers : n ≤ stats.numBlocks * 512
  least : stats.numBlocks * 512 < n + 512
  length : rows.length = stats.numBlocks * stats.numHeads
  column : (rows.map (fun row => row.2.2)).sum = ∑ k, ∑ h, ∑ d, keys k h d ^ 2
  total : stats.mean * (stats.numBlocks * stats.numHeads : ℕ) = ∑ k, ∑ h, ∑ d, keys k h d ^ 2
  nonneg : 0 ≤ stats.min
  min_le : stats.min ≤ stats.p25
  p25_le : stats.p25 ≤ stats.median
  median_le : stats.median ≤ stats.p75
  p75_le : stats.p75 ≤ stats.max
  mean_between : stats.min ≤ stats.mean ∧ stats.mean ≤ stats.max
  variance : stats.std ^ 2 ≤ (stats.max - stats.mean) * (stats.mean - stats.min)

variable [NeZero n] [NeZero heads]

theorem analyseLayer_summarises (layerIdx : ℕ) :
    Summarises keys layerIdx (analyseLayer .exact keys layerIdx).1
      (analyseLayer .exact keys layerIdx).2 := by
  set flat := flattened (computeBlockEnergyJax (padToBlockBoundary keys)) with hflat
  set entries := List.ofFn flat with hentries
  have nonempty : entries ≠ [] := energies_ne_nil (padToBlockBoundary keys)
  have squares : ∑ p, flat p = ∑ k, ∑ h, ∑ d, keys k h d ^ 2 := by
    rw [← sum_energies, sum_rows]
    simp only [hflat, flattened, index_divNat, index_modNat]
  have column : (analyseLayer .exact keys layerIdx).1.map (fun row => row.2.2) = entries :=
    energy_column _
  have between (p : Fin (paddedBlocks n * heads)) :
      univ.inf' (axis_univ_nonempty _) flat ≤ flat p ∧
        flat p ≤ univ.sup' (axis_univ_nonempty _) flat :=
    ⟨inf'_le _ (mem_univ p), le_sup' _ (mem_univ p)⟩
  have inside {fraction : ℝ} (nonneg : 0 ≤ fraction) (le_one : fraction ≤ 1) :
      univ.inf' (axis_univ_nonempty _) flat ≤ percentile entries fraction ∧
        percentile entries fraction ≤ univ.sup' (axis_univ_nonempty _) flat := by
    obtain ⟨_, lower, _, upper, above, below⟩ := percentile_between nonempty nonneg le_one
    obtain ⟨p, rfl⟩ := (List.mem_ofFn' _ _).mp lower
    obtain ⟨p', rfl⟩ := (List.mem_ofFn' _ _).mp upper
    exact ⟨(between p).1.trans above, below.trans (between p').2⟩
  constructor
  · rfl
  · rfl
  · exact le_padded n
  · exact padded_lt n
  · change (analyseLayer .exact keys layerIdx).1.length = paddedBlocks n * heads
    rw [← List.length_map (fun row : ℕ × ℕ × ℝ => row.2.2), column, List.length_ofFn]
  · rw [column, List.sum_ofFn, squares]
  · change mean flat * _ = _
    rw [← squares, sum_eq_mul_mean, mul_comm]
    rfl
  · refine le_inf' (axis_univ_nonempty _) _ (fun p _ => ?_)
    exact energy_nonneg (padToBlockBoundary keys) p.divNat p.modNat
  · exact (inside (by norm_num) (by norm_num)).1
  · change _ ≤ median entries
    rw [median_eq_percentile nonempty]
    exact percentile_mono nonempty (by norm_num) (by norm_num) (by norm_num) (by norm_num)
  · change median entries ≤ _
    rw [median_eq_percentile nonempty]
    exact percentile_mono nonempty (by norm_num) (by norm_num) (by norm_num) (by norm_num)
  · exact (inside (by norm_num) (by norm_num)).2
  · exact PipelineReport.mean_between flat between
  · exact std_sq_le flat between

end Layer

theorem analyseLayer_summarises_three :
    Summarises (ones : Tensor ℝ 3 2 1) 7 (analyseLayer .exact (ones : Tensor ℝ 3 2 1) 7).1
      (analyseLayer .exact (ones : Tensor ℝ 3 2 1) 7).2 :=
  analyseLayer_summarises ones 7

end OrthoCache.EnergyProfile
