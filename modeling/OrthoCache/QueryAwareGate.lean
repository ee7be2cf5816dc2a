import OrthoCache.Pipeline

/-!
The query-aware gate. Its bounds are bounds, so that an evicted block has no logit at the threshold
or above, and the threshold that the pipeline computes by itself lets more than half of the entries
pass.
-/

namespace OrthoCache.QueryAwareGate
open Finset Foundation.RowMajor Arrays AttentionSpec SpectralEnergy Pipeline

section Sound
variable {Q nb heads dim : ℕ} (q : Tensor ℝ Q heads dim) (keys : Tensor ℝ (nb * 512) heads dim)

/-- Every token stays below the bound of its block, and below the threshold if that is evicted. -/
theorem queryAwareBounds_sound :
    (∀ i b h t, logits q keys i h (finProdFinEquiv (b, t)) ≤
      computeQueryAwareBounds .exact q keys i b h) ∧
    ∀ [NeZero Q] (tau : ℝ) b h, computeQueryAwareMask .exact q keys tau b h = false →
      ∀ i t, logits q keys i h (finProdFinEquiv (b, t)) < tau := by
  constructor
  · intro i b h t
    exact logit_le_bound q keys i b h t
  · intro _ tau b h evicted i t
    apply logits_lt_of_evicted q keys tau i h
    rwa [index_divNat]

end Sound

section AutoTau
variable {Q nb heads dim : ℕ} [NeZero Q] (q : Tensor ℝ Q heads dim)
  (keys : Tensor ℝ (nb * 512) heads dim)

theorem evicted_iff (tau : ℝ) (b : Fin nb) (h : Fin heads) :
    computeQueryAwareMask .exact q keys tau b h = false ↔ maxBounds .exact q keys b h < tau := by
  simp [computeQueryAwareMask]

/-- The threshold one standard deviation below the mean evicts fewer than half of the entries. -/
theorem computeAutoTau_evicts_less_than_half [NeZero nb] [NeZero heads] :
    2 * #{place : Fin nb × Fin heads | computeQueryAwareMask .exact q keys
        (computeAutoTau .exact q keys) place.1 place.2 = false} < nb * heads ∧
      ∃ b h, computeQueryAwareMask .exact q keys (computeAutoTau .exact q keys) b h = true := by
  set mask := computeQueryAwareMask .exact q keys (computeAutoTau .exact q keys) with hmask
  have half : 2 * #{place : Fin nb × Fin heads | mask place.1 place.2 = false} < nb * heads := by
    have entries : #{place : Fin nb × Fin heads | mask place.1 place.2 = false} =
        #{k : Fin (nb * heads) | flattened (maxBounds .exact q keys) k <
          computeAutoTau .exact q keys} := by
      apply card_equiv finProdFinEquiv
      rintro ⟨b, h⟩
      rw [mem_filter, mem_filter, flattened, index_divNat, index_modNat, hmask, evicted_iff]
      simp only [mem_univ, true_and]
    rw [entries]
    exact two_mul_card_below_lt (flattened (maxBounds .exact q keys))
  refine ⟨half, ?_⟩
  by_contra none
  push Not at none
  have all : ({place : Fin nb × Fin heads | mask place.1 place.2 = false} : Finset _) = univ :=
    filter_true_of_mem (fun place _ => by simpa using none place.1 place.2)
  rw [all, card_univ, Fintype.card_prod, Fintype.card_fin, Fintype.card_fin] at half
  omega

end AutoTau

theorem computeAutoTau_evicts_less_than_half_opposed :
    let q : Tensor ℝ 1 1 1 := ones
    let keys : Tensor ℝ (4 * 512) 1 1 := walshKeys 0 (fun b _ => ![1, 1, 1, -1] b)
    computeQueryAwareMask .exact q keys (computeAutoTau .exact q keys) 3 0 = false ∧
      2 * #{place : Fin 4 × Fin 1 | computeQueryAwareMask .exact q keys
          (computeAutoTau .exact q keys) place.1 place.2 = false} < 4 * 1 ∧
      ∃ b h, computeQueryAwareMask .exact q keys (computeAutoTau .exact q keys) b h = true := by
  intro q keys
  refine ⟨?_, computeAutoTau_evicts_less_than_half q keys⟩
  have bounds : flattened (maxBounds .exact q keys) = fun k => ![1, 1, 1, -1] k.divNat := by
    funext k
    exact maxBounds_walshKeys 0 _ k.divNat k.modNat (by decide)
  have average (f : Fin 4 → ℝ) :
      mean (fun k : Fin (4 * 1) => f k.divNat) = (f 0 + f 1 + f 2 + f 3) / 4 := by
    have total : ∑ k : Fin (4 * 1), f k.divNat = f 0 + f 1 + f 2 + f 3 :=
      Fin.sum_univ_four (fun k : Fin 4 => f k)
    rw [mean, total]
    norm_num
  have center : mean (flattened (maxBounds .exact q keys)) = 1 / 2 := by
    rw [bounds, average]
    change ((1 : ℝ) + 1 + 1 + -1) / 4 = 1 / 2
    norm_num
  have tau : computeAutoTau .exact q keys = 1 / 2 - √(3 / 4) := by
    have spread : mean (fun k => (flattened (maxBounds .exact q keys) k - 1 / 2) ^ 2) = 3 / 4 := by
      rw [bounds, average (fun b => (![1, 1, 1, -1] b - 1 / 2) ^ 2)]
      change (((1 : ℝ) - 1 / 2) ^ 2 + (1 - 1 / 2) ^ 2 + (1 - 1 / 2) ^ 2 + (-1 - 1 / 2) ^ 2) / 4 = 3 / 4
      norm_num
    simp only [computeAutoTau, std, center, spread]
    rfl
  have deviation : √(3 / 4 : ℝ) < 3 / 2 := by
    rw [Real.sqrt_lt' (by norm_num)]
    norm_num
  rw [computeQueryAwareMask_constant, tau, decide_eq_false_iff_not, not_le]
  change (-1 : ℝ) < _
  linarith

end OrthoCache.QueryAwareGate
