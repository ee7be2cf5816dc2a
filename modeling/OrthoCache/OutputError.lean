import OrthoCache.Foundation.SoftmaxTruncation
import OrthoCache.ExecutionModes
import OrthoCache.TruncationBound

/-!
What eviction does to the output of the end-to-end call. Against dense mode each of the two modes
that evict is off by at most the share of the softmax mass that the gates evict, times the spread of
the values.
-/

namespace OrthoCache.OutputError
open Finset Foundation.SoftmaxMean Foundation.RowMajor Foundation.WalshFunctions Arrays AttentionSpec
open SparseAttention SpectralEnergy Pipeline TruncationBound ExecutionModes

section Dense
variable {Q n heads dim : ℕ} (q : Tensor ℝ Q heads dim) (keys values : Tensor ℝ n heads dim)

theorem denseAttention_eq (bounded : LogitsBounded (10 ^ 7) q keys) :
    denseAttention .flushing q keys values = attend q keys values (fun _ => univ) := by
  funext i h d
  rcases isEmpty_or_nonempty (Fin n) with empty | ⟨⟨k⟩⟩
  · simp [denseAttention, attend, softmaxMean, expSum]
  · have all := sum_softmax_masked flushing_flushesBelow (fun _ => true) (logits q keys i h)
      (fun k => values k h d) (10 ^ 7) (-1e9) (fun k _ => bounded i h k) (by norm_num)
      (by norm_num) ⟨k, rfl⟩
    simp only [if_true, filter_true] at all
    exact all

end Dense

section Head
variable {Q nb bs heads dim : ℕ} [NeZero bs]

/-- On a head that retains a block, both backends attend to the tokens that this head retains. -/
theorem compilePallasSparseAttention_head (isTpu : Bool) (q : Tensor ℝ Q heads dim)
    (keys values : Tensor ℝ (nb * bs) heads dim) (blockMask : Fin nb → Fin heads → Bool)
    (bounded : LogitsBounded (10 ^ 7) q keys) (i : Fin Q) (h : Fin heads) (d : Fin dim)
    (retained : ∃ b, blockMask b h = true) :
    compilePallasSparseAttention .flushing isTpu q keys values blockMask i h d =
      attend q keys values (fun h => tokensOf (fun b => blockMask b h)) i h d := by
  cases isTpu with
  | true =>
    have grid := pallasGrid_mean q keys values blockMask bounded
    exact congrFun (congrFun (congrFun grid i) h) d
  | false =>
    exact jaxBlockSparseAttention_mean q keys values blockMask bounded i h d
      ((tokensOf_nonempty_iff _).mpr retained)

end Head

section Modes
variable {Q nb heads dim : ℕ} [NeZero Q] (q : Tensor ℝ Q heads dim)
  (keys values : Tensor ℝ (nb * 512) heads dim) (zetaMax : ℝ)

/-- Share of the softmax mass that the two gates may evict, measured at token `j`. -/
noncomputable def lostShare (tau : ℝ) (i : Fin Q) (h : Fin heads) (j : Fin (nb * 512)) : ℝ :=
  #(logitEvicted q keys tau h) * Real.exp (tau - logits q keys i h j) +
    expMass (zetaEvicted q keys tau zetaMax h) (logits q keys i h) /
      expMass univ (logits q keys i h)

theorem evicted_share_le (tau : ℝ) (i : Fin Q) (h : Fin heads) (j : Fin (nb * 512)) :
    expMass (tokensOf (fun b => computeMultibandMask .exact q keys tau zetaMax b h))ᶜ
        (logits q keys i h) / expMass univ (logits q keys i h) ≤
      lostShare q keys zetaMax tau i h j := by
  rw [expMass_multiband_compl, add_div]
  exact add_le_add_left (logitEvicted_mass_le q keys tau i h j) _

theorem attend_error_le (tau : ℝ) (h : Fin heads)
    (retained : ∃ b, computeMultibandMask .exact q keys tau zetaMax b h = true)
    {kept : Fin heads → Finset (Fin (nb * 512))}
    (keeps : tokensOf (fun b => computeMultibandMask .exact q keys tau zetaMax b h) ⊆ kept h)
    (i : Fin Q) (d : Fin dim) {low high : ℝ}
    (between : ∀ k, low ≤ values k h d ∧ values k h d ≤ high) (j : Fin (nb * 512)) :
    |attend q keys values kept i h d - attend q keys values (fun _ => univ) i h d| ≤
      lostShare q keys zetaMax tau i h j * (high - low) := by
  have gated : (tokensOf (fun b => computeMultibandMask .exact q keys tau zetaMax b h) :
      Finset (Fin (nb * 512))).Nonempty := (tokensOf_nonempty_iff _).mpr retained
  have share : expMass (kept h)ᶜ (logits q keys i h) / expMass univ (logits q keys i h) ≤
      lostShare q keys zetaMax tau i h j :=
    (div_le_div_of_nonneg_right (expMass_compl_mono _ _ keeps) (expMass_nonneg _ _)).trans
      (evicted_share_le q keys zetaMax tau i h j)
  have spread : 0 ≤ high - low := sub_nonneg.mpr ((between j).1.trans (between j).2)
  exact (abs_softmaxMean_sub_le (kept h) _ _ (gated.mono keeps) between).trans
    (mul_le_mul_of_nonneg_right share spread)

variable [NeZero nb] (tau : Option ℝ)

/-- On a head that retains a block, both modes that evict are off from dense mode by at most the
share of the mass that the gates evict times the spread of the values. -/
theorem orthocacheForward_error (isTpu : Bool) (bounded : LogitsBounded (10 ^ 7) q keys)
    (h : Fin heads) (retained : ∃ b, gateMask .flushing q keys zetaMax tau b h = true) :
    ∃ compact sparse dense,
      (orthocacheForward .flushing isTpu q keys values zetaMax tau .compact).map Prod.fst =
          .ok compact ∧
        (orthocacheForward .flushing isTpu q keys values zetaMax tau .sparse).map Prod.fst =
          .ok sparse ∧
        (orthocacheForward .flushing isTpu q keys values zetaMax tau .dense).map Prod.fst =
          .ok dense ∧
        ∀ i d low high, (∀ k, low ≤ values k h d ∧ values k h d ≤ high) → ∀ j,
          let lost := lostShare q keys zetaMax (tau.getD (computeAutoTau .exact q keys)) i h j
          |compact i h d - dense i h d| ≤ lost * (high - low) ∧
            |sparse i h d - dense i h d| ≤ lost * (high - low) := by
  have ⟨b, kept⟩ := retained
  have active : ∃ b, anyHead (gateMask .flushing q keys zetaMax tau) b = true :=
    ⟨b, (anyHead_iff _ b).mpr ⟨h, kept⟩⟩
  refine ⟨_, compilePallasSparseAttention .flushing isTpu q keys values
      (gateMask .flushing q keys zetaMax tau), denseAttention .flushing q keys values,
    orthocacheForward_compact isTpu q keys values zetaMax tau bounded active, rfl, rfl,
    fun i d low high between j => ?_⟩
  rw [denseAttention_eq q keys values bounded,
    compilePallasSparseAttention_head isTpu q keys values _ bounded i h d retained]
  constructor
  · refine attend_error_le q keys values zetaMax _ h retained (fun k member => ?_) i d between j
    rw [mem_tokensOf] at member ⊢
    exact (anyHead_iff _ _).mpr ⟨h, member⟩
  · exact attend_error_le q keys values zetaMax _ h retained subset_rfl i d between j

end Modes

/-- Two constant blocks, of which the second head keeps both and the first head one. -/
theorem orthocacheForward_error_level :
    ∃ compact sparse dense,
      (orthocacheForward .flushing true (ones : Tensor ℝ 1 2 1) (walshKeys 0 level) secondBlock 5
          (some 0) .compact).map Prod.fst = .ok compact ∧
        (orthocacheForward .flushing true (ones : Tensor ℝ 1 2 1) (walshKeys 0 level) secondBlock 5
          (some 0) .sparse).map Prod.fst = .ok sparse ∧
        (orthocacheForward .flushing true (ones : Tensor ℝ 1 2 1) (walshKeys 0 level) secondBlock 5
          (some 0) .dense).map Prod.fst = .ok dense ∧
        ∀ i d low high, (∀ k, low ≤ secondBlock k 0 d ∧ secondBlock k 0 d ≤ high) → ∀ j,
          let lost := lostShare (ones : Tensor ℝ 1 2 1) (walshKeys 0 level) 5 0 i 0 j
          |compact i 0 d - dense i 0 d| ≤ lost * (high - low) ∧
            |sparse i 0 d - dense i 0 d| ≤ lost * (high - low) :=
  orthocacheForward_error ones (walshKeys 0 level) secondBlock 5 (some 0) true logitsBounded_level 0
    ⟨0, by simp [gateMask_level]⟩

end OrthoCache.OutputError
