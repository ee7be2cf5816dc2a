import OrthoCache.OutputError

/-!
The order of the blocks in the cache. Reordering whole blocks of keys and values reorders the masks
that the gates compute and changes neither the threshold that the pipeline finds by itself nor
anything that the end-to-end call returns.
-/

namespace OrthoCache.BlockOrder
open Finset Foundation.SoftmaxMean Foundation.RowMajor Arrays AttentionSpec SparseAttention
open Compaction Partitioning SpectralEnergy Pipeline OutputError ExecutionModes

section Rows
variable {m n : ℕ} {α : Type*}

def rowOrder (order : Equiv.Perm (Fin m)) : Equiv.Perm (Fin (m * n)) :=
  finProdFinEquiv.symm.trans ((order.prodCongr (Equiv.refl _)).trans finProdFinEquiv)

theorem rowOrder_apply (order : Equiv.Perm (Fin m)) (k : Fin (m * n)) :
    rowOrder order k = finProdFinEquiv (order k.divNat, k.modNat) := rfl

def reordered (order : Equiv.Perm (Fin m)) (x : Fin (m * n) → α) (k : Fin (m * n)) : α :=
  x (rowOrder order k)

theorem blocked_reordered (order : Equiv.Perm (Fin m)) (x : Fin (m * n) → α) (b : Fin m) :
    blocked (reordered order x) b = blocked x (order b) := by
  funext t
  rw [blocked, reordered, rowOrder_apply, index_divNat, index_modNat, blocked]

end Rows

/-! ### Reductions -/

section Reductions
variable {n m : ℕ} (order : Fin n ≃ Fin n)

theorem mean_comp (x : Fin n → ℝ) : mean (fun i => x (order i)) = mean x := by
  rw [mean, mean, Equiv.sum_comp order x]

theorem std_comp (x : Fin n → ℝ) : std .flushing (fun i => x (order i)) = std .flushing x := by
  unfold std
  rw [mean_comp, mean_comp order (fun i => (x i - mean x) ^ 2)]

theorem countActive_comp (mask : Fin n → Bool) :
    countActive (fun b => mask (order b)) = countActive mask := by
  rw [countActive, countActive, Equiv.sum_comp order (fun b => if mask b then 1 else 0)]

theorem sup'_comp [NeZero n] (x : Fin n → ℝ) :
    univ.sup' (axis_univ_nonempty n) (fun b => x (order b)) = univ.sup' (axis_univ_nonempty n) x := by
  apply le_antisymm
  · exact sup'_le _ _ (fun b _ => le_sup' x (mem_univ (order b)))
  · refine sup'_le _ _ (fun b _ => ?_)
    have reached := le_sup' (fun b => x (order b)) (mem_univ (order.symm b))
    rwa [Equiv.apply_symm_apply] at reached

theorem inf'_comp [NeZero n] (x : Fin n → ℝ) :
    univ.inf' (axis_univ_nonempty n) (fun b => x (order b)) = univ.inf' (axis_univ_nonempty n) x := by
  apply le_antisymm
  · refine le_inf' _ _ (fun b _ => ?_)
    have reached := inf'_le (fun b => x (order b)) (mem_univ (order.symm b))
    rwa [Equiv.apply_symm_apply] at reached
  · exact le_inf' _ _ (fun b _ => inf'_le x (mem_univ (order b)))

theorem softmaxMean_comp {S T : Finset (Fin n)} (moved : ∀ k, k ∈ S ↔ order k ∈ T)
    (z v : Fin n → ℝ) :
    softmaxMean S (fun k => z (order k)) (fun k => v (order k)) = softmaxMean T z v := by
  unfold softmaxMean expSum expMass
  rw [sum_equiv order moved (fun _ _ => rfl) (g := fun k => Real.exp (z k) * v k),
    sum_equiv order moved (fun _ _ => rfl) (g := fun k => Real.exp (z k))]

end Reductions

/-! ### The gates -/

section Gates
variable {Q nb heads dim : ℕ} (order : Equiv.Perm (Fin nb)) (q : Tensor ℝ Q heads dim)
  (keys : Tensor ℝ (nb * 512) heads dim)

theorem column_reordered (b : Fin nb) (h : Fin heads) (d : Fin dim) :
    column (reordered order keys) b h d = column keys (order b) h d := by
  funext t
  rw [column, column, blocked_reordered]

theorem energyAt_reordered (b : Fin nb) (h : Fin heads) (s : ℕ) :
    energyAt (reordered order keys) b h s = energyAt keys (order b) h s := by
  simp only [energyAt, column_reordered]

theorem computeSpectralDecayRatio_reordered (b : Fin nb) (h : Fin heads) :
    computeSpectralDecayRatio .exact (reordered order keys) bandLow bandHigh b h =
      computeSpectralDecayRatio .exact keys bandLow bandHigh (order b) h := by
  simp only [computeSpectralDecayRatio, computeSpectralBands, bandLow, bandHigh]
  rw [bandEnergy_eq _ 1 64 (by decide), bandEnergy_eq _ 256 512 le_rfl,
    bandEnergy_eq _ 1 64 (by decide), bandEnergy_eq _ 256 512 le_rfl]
  simp only [energyAt_reordered]

theorem computeSpectralDecayRatio_flushing :
    computeSpectralDecayRatio .flushing keys bandLow bandHigh =
      computeSpectralDecayRatio .exact keys bandLow bandHigh := rfl

theorem computeQueryAwareBounds_reordered (i : Fin Q) (b : Fin nb) (h : Fin heads) :
    computeQueryAwareBounds .exact q (reordered order keys) i b h =
      computeQueryAwareBounds .exact q keys i (order b) h := by
  rw [computeQueryAwareBounds_exact, computeQueryAwareBounds_exact]
  simp only [blockMean, column_reordered, energyAt_reordered]

variable [NeZero Q]

theorem maxBounds_reordered (b : Fin nb) (h : Fin heads) :
    maxBounds .exact q (reordered order keys) b h = maxBounds .exact q keys (order b) h := by
  simp only [maxBounds, computeQueryAwareBounds_reordered]

theorem computeAutoTau_reordered :
    computeAutoTau .flushing q (reordered order keys) = computeAutoTau .flushing q keys := by
  have bounds : flattened (maxBounds .flushing q (reordered order keys)) =
      fun k => flattened (maxBounds .flushing q keys) (rowOrder order k) := by
    funext k
    rw [flattened, flattened, rowOrder_apply, index_divNat, index_modNat]
    exact maxBounds_reordered order q keys k.divNat k.modNat
  simp only [computeAutoTau, bounds]
  rw [mean_comp, std_comp]

theorem gateMask_reordered (zetaMax : ℝ) (tau : Option ℝ) (b : Fin nb) (h : Fin heads) :
    gateMask .flushing q (reordered order keys) zetaMax tau b h =
      gateMask .flushing q keys zetaMax tau (order b) h := by
  unfold gateMask
  rw [computeAutoTau_reordered]
  change computeMultibandMask .exact q (reordered order keys) _ zetaMax b h =
    computeMultibandMask .exact q keys _ zetaMax (order b) h
  simp only [computeMultibandMask, computeQueryAwareMask, maxBounds_reordered,
    computeSpectralDecayRatio_reordered]

end Gates

/-! ### The paths -/

section Paths
variable {Q nb bs heads dim : ℕ} (order : Equiv.Perm (Fin nb)) (q : Tensor ℝ Q heads dim)
  (keys values : Tensor ℝ (nb * bs) heads dim)

theorem logitsBounded_reordered {bound : ℝ} (bounded : LogitsBounded bound q keys) :
    LogitsBounded bound q (reordered order keys) := fun i h k => bounded i h (rowOrder order k)

theorem attend_reordered (mask : Fin nb → Fin heads → Bool) :
    attend q (reordered order keys) (reordered order values)
        (fun h => tokensOf (fun b => mask (order b) h)) =
      attend q keys values (fun h => tokensOf (fun b => mask b h)) := by
  funext i h d
  refine softmaxMean_comp (rowOrder order) (fun k => ?_) (logits q keys i h) (fun k => values k h d)
  rw [mem_tokensOf, mem_tokensOf, rowOrder_apply, index_divNat]

variable (bounded : LogitsBounded (10 ^ 7) q keys)
include bounded

theorem denseAttention_reordered :
    denseAttention .flushing q (reordered order keys) (reordered order values) =
      denseAttention .flushing q keys values := by
  rw [denseAttention_eq q keys values bounded,
    denseAttention_eq q _ _ (logitsBounded_reordered order q keys bounded)]
  have all := attend_reordered order q keys values (fun _ _ => true)
  rwa [tokensOf_all] at all

variable [NeZero bs] (isTpu : Bool) (mask : Fin nb → Fin heads → Bool)

theorem compilePallasSparseAttention_reordered :
    compilePallasSparseAttention .flushing isTpu q (reordered order keys) (reordered order values)
        (fun b => mask (order b)) =
      compilePallasSparseAttention .flushing isTpu q keys values mask := by
  have bounded' := logitsBounded_reordered order q keys bounded
  funext i h d
  by_cases retained : ∃ b, mask b h = true
  · have ⟨b, kept⟩ := retained
    have retained' : ∃ b, mask (order b) h = true :=
      ⟨order.symm b, by rwa [Equiv.apply_symm_apply]⟩
    rw [compilePallasSparseAttention_head isTpu q keys values mask bounded i h d retained,
      compilePallasSparseAttention_head isTpu q _ _ _ bounded' i h d retained',
      attend_reordered order q keys values mask]
  · have evicted (b : Fin nb) : mask b h = false := by
      rw [Bool.eq_false_iff]
      exact fun kept => retained ⟨b, kept⟩
    cases isTpu with
    | true =>
      -- the kernel of a head that retains nothing averages over no token
      have here := congrFun (congrFun (congrFun (pallasGrid_mean q keys values mask bounded) i) h) d
      have there := congrFun (congrFun (congrFun (pallasGrid_mean q _
        (reordered order values) (fun b => mask (order b)) bounded') i) h) d
      rw [attend_reordered order q keys values mask] at there
      exact there.trans here.symm
    | false =>
      -- the fallback averages over the whole cache
      have here := jaxBlockSparseAttention_uniform q keys values mask i h d evicted
      have there := jaxBlockSparseAttention_uniform q (reordered order keys)
        (reordered order values) (fun b => mask (order b)) i h d (fun b => evicted (order b))
      rw [show ∑ k, reordered order values k h d = ∑ k, values k h d from
        Equiv.sum_comp (rowOrder order) (fun k => values k h d)] at there
      exact there.trans here.symm

theorem compactAndAttend_reordered :
    (compactAndAttend .flushing isTpu q (reordered order keys) (reordered order values)
        (fun b => mask (order b))).1 =
      (compactAndAttend .flushing isTpu q keys values mask).1 := by
  rw [compactAndAttend_attend q keys values mask isTpu bounded,
    compactAndAttend_attend q _ _ _ isTpu (logitsBounded_reordered order q keys bounded)]
  exact attend_reordered order q keys values (fun b _ => anyHead mask b)

end Paths

/-! ### The end-to-end call -/

section Forward
variable {Q nb heads dim : ℕ} [NeZero Q] [NeZero nb]

/-- The end-to-end call returns the same output and the same metadata for a cache whose blocks of
keys and values are reordered. -/
theorem orthocacheForward_reordered (order : Equiv.Perm (Fin nb)) (isTpu : Bool)
    (q : Tensor ℝ Q heads dim) (keys values : Tensor ℝ (nb * 512) heads dim) (zetaMax : ℝ)
    (tau : Option ℝ) (mode : Mode) (bounded : LogitsBounded (10 ^ 7) q keys) :
    orthocacheForward .flushing isTpu q (reordered order keys) (reordered order values) zetaMax tau
        mode =
      orthocacheForward .flushing isTpu q keys values zetaMax tau mode := by
  have mask : gateMask .flushing q (reordered order keys) zetaMax tau =
      fun b => gateMask .flushing q keys zetaMax tau (order b) := by
    funext b h
    exact gateMask_reordered order q keys zetaMax tau b h
  have ratio (b : Fin nb) : computeSpectralDecayRatio .flushing (reordered order keys) bandLow
      bandHigh b = computeSpectralDecayRatio .flushing keys bandLow bandHigh (order b) := by
    funext h
    rw [computeSpectralDecayRatio_flushing, computeSpectralDecayRatio_flushing,
      computeSpectralDecayRatio_reordered]
  let zeta := fun b => mean (computeSpectralDecayRatio .flushing keys bandLow bandHigh b)
  have zetaMean : mean (fun b => zeta (order b)) = mean zeta := mean_comp order zeta
  have zetaStd : std .flushing (fun b => zeta (order b)) = std .flushing zeta := std_comp order zeta
  have zetaMin : univ.inf' (axis_univ_nonempty nb) (fun b => zeta (order b)) = _ :=
    inf'_comp order zeta
  have zetaMaxObserved : univ.sup' (axis_univ_nonempty nb) (fun b => zeta (order b)) = _ :=
    sup'_comp order zeta
  have active : countActive (anyHead (fun b => gateMask .flushing q keys zetaMax tau (order b))) =
      countActive (anyHead (gateMask .flushing q keys zetaMax tau)) :=
    countActive_comp order (anyHead (gateMask .flushing q keys zetaMax tau))
  cases mode with
  | dense => simp only [orthocacheForward, denseAttention_reordered order q keys values bounded]
  | compact =>
    simp only [orthocacheForward, mask, ratio, active, computeAutoTau_reordered, zetaMean, zetaStd,
      zetaMin, zetaMaxObserved, orthocacheAttentionImpl, zeta,
      compactAndAttend_reordered order q keys values bounded isTpu]
  | sparse =>
    simp only [orthocacheForward, mask, ratio, active, computeAutoTau_reordered, zetaMean, zetaStd,
      zetaMin, zetaMaxObserved, zeta,
      compilePallasSparseAttention_reordered order q keys values bounded isTpu]
  | unknown name => rfl

theorem orthocacheForward_reordered_swap :
    orthocacheForward .flushing false (ones : Tensor ℝ 1 2 1)
        (reordered (Equiv.swap 0 1) (walshKeys 0 level)) (reordered (Equiv.swap 0 1) secondBlock) 5
        none .sparse =
      orthocacheForward .flushing false (ones : Tensor ℝ 1 2 1) (walshKeys 0 level) secondBlock 5
        none .sparse :=
  orthocacheForward_reordered (Equiv.swap 0 1) false ones (walshKeys 0 level) secondBlock 5 none
    .sparse logitsBounded_level

end Forward

end OrthoCache.BlockOrder
