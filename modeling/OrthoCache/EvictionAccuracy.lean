import OrthoCache.Foundation.OrderStatistics
import OrthoCache.OutputRange
import OrthoCache.TruncationBound

/-!
The accuracy benchmark, which checks the truncation bound on measured attention. It evicts the blocks
below a percentile of their bounds, compares dense and sparse weights row by row and counts the rows
that exceed the bound. In exact arithmetic it never counts one. The logarithm of its divergence is an
argument of the model.
-/

namespace OrthoCache.EvictionAccuracy
open Finset Foundation.SoftmaxMean Foundation.OnlineSoftmax Foundation.StablePartition
open Foundation.RowMajor Foundation.OrderStatistics Arrays AttentionSpec SparseAttention
open SpectralEnergy Reference Pipeline TruncationBound OutputRange

section Model
variable {R : Type} [Field R] [LinearOrder R] {Q n nb heads dim : ℕ}

structure EvictionReport (R : Type) where
  targetEviction : R
  actualEviction : R
  numEvictedBlocks : ℕ
  thresholdEps : R
  tvMean : R
  klMean : R
  reconErrorRel : R
  boundViolations : ℕ
  boundMax : R

/-- The weights that `_dense_attention` returns besides its output. -/
def denseWeights (A : Arith R) (q : Tensor R Q heads dim) (keys : Tensor R n heads dim) (i : Fin Q)
    (h : Fin heads) (k : Fin n) : R := softmax A.exp (fun k => logit A (q i h) (keys k h)) k

/-- The weights of sparse attention, reconstructed from the mask repeated over each block. -/
def sparseWeights (A : Arith R) (q : Tensor R Q heads dim) (keys : Tensor R (nb * 512) heads dim)
    (blockMask : Fin nb → Fin heads → Bool) (i : Fin Q) (h : Fin heads) (k : Fin (nb * 512)) : R :=
  let logitsMasked := fun k : Fin (nb * 512) =>
    if blockMask k.divNat h then logit A (q i h) (keys k h) else -1e9
  softmax A.exp logitsMasked k

/-- One row of the bound check: the violations so far and the largest bound. Rows without an evicted
or without a retained token are skipped. -/
def checkBound (A : Arith R) (z : Fin n → R) (maskSeq : Fin n → Bool) (tau measured : R)
    (found : ℕ × R) : ℕ × R :=
  let retained : Finset (Fin n) := {k | maskSeq k = true}
  let evicted : Finset (Fin n) := {k | maskSeq k = false}
  if rows : retained.Nonempty ∧ evicted.Nonempty then
    let zMax := retained.sup' rows.1 z
    let bound := evicted.card * A.exp (tau - zMax)
    (if measured > bound + 1e-6 then found.1 + 1 else found.1, found.2 ⊔ bound)
  else found

def norm (A : Arith R) (x : Tensor R Q heads dim) : R := A.sqrt (∑ i, ∑ h, ∑ d, x i h d ^ 2)

/-- The reductions need a query row, a block and a head. -/
def evaluateEviction [FloorRing R] [NeZero Q] (A : Arith R) (log : R → R)
    (keys values : Tensor R (nb * 512) heads dim) (query : Tensor R Q heads dim)
    (targetEviction : R) : Except Raised (EvictionReport R) :=
  let maxBounds := maxBounds A query keys
  if targetEviction < 0 ∨ 1 < targetEviction then
    .error (.valueError "Percentiles must be in the range [0, 100]")
  else
    let tau := percentile (List.ofFn (flattened maxBounds)) targetEviction
    let blockMask := fun b h => decide (maxBounds b h ≥ tau)
    let denseOut := denseAttention A query keys values
    let sparseOut := jaxBlockSparseAttention A query keys values blockMask
    let dense := denseWeights A query keys
    let sparse := sparseWeights A query keys blockMask
    let tv := fun i h => computeTvDistance (dense i h) (sparse i h)
    let kl := fun i h => ∑ k, (dense i h k ⊔ 1e-10) *
      log ((dense i h k ⊔ 1e-10) / (sparse i h k ⊔ 1e-10))
    let bounds := (List.finRange Q).foldl (fun found i => (List.finRange heads).foldl
      (fun found h => checkBound A (fun k => logit A (query i h) (keys k h))
        (fun k => blockMask k.divNat h) tau (tv i h) found) found) (0, 0)
    .ok
      { targetEviction := targetEviction
        actualEviction := 1 - (countActive (flattened blockMask) : R) / (nb * heads : ℕ)
        numEvictedBlocks := countActive (flattened (fun b h => !blockMask b h))
        thresholdEps := tau
        tvMean := (∑ i, ∑ h, tv i h) / (Q * heads : ℕ)
        klMean := (∑ i, ∑ h, kl i h) / (Q * heads : ℕ)
        reconErrorRel := norm A (fun i h d => denseOut i h d - sparseOut i h d) / norm A denseOut
        boundViolations := bounds.1
        boundMax := bounds.2 }

end Model

/-! ### Weights -/

section Weights
variable {κ : Type*} [Fintype κ]

theorem sum_softmax_eq_one [Nonempty κ] {exp : ℝ → ℝ} (weighs : Weighs exp) (x : κ → ℝ) :
    ∑ k, softmax exp x k = 1 := by
  obtain ⟨lower, upper⟩ := sum_softmax_between (v := fun _ => (1 : ℝ)) weighs x
    (fun _ => ⟨le_rfl, le_rfl⟩)
  simp only [mul_one] at lower upper
  exact le_antisymm upper lower

theorem softmax_nonneg {exp : ℝ → ℝ} (weighs : Weighs exp) (x : κ → ℝ) (k : κ) :
    0 ≤ softmax exp x k :=
  div_nonneg (weighs.nonneg _) (sum_nonneg (fun _ _ => weighs.nonneg _))

theorem softmax_masked_apply [DecidableEq κ] {exp : ℝ → ℝ} {depth : ℝ}
    (flushes : FlushesBelow exp depth) (mask : κ → Bool) (z : κ → ℝ) (bound sentinel : ℝ)
    (bounded : ∀ k, |z k| ≤ bound) (deep : 2 * bound ≤ depth) (low : sentinel + bound < -depth)
    (kept : ∃ k, mask k = true) (k : κ) :
    softmax exp (fun k => if mask k then z k else sentinel) k =
      if mask k = true then Real.exp (z k) / expMass {k | mask k = true} z else 0 := by
  have share := sum_softmax_masked flushes mask z (fun j => if j = k then 1 else 0) bound sentinel
    (fun k _ => bounded k) deep low kept
  simp only [mul_ite, mul_one, mul_zero, sum_ite_eq', mem_univ, if_true] at share
  rw [share, softmaxMean, expSum]
  simp only [mul_ite, mul_one, mul_zero, sum_ite_eq', mem_filter, mem_univ, true_and]
  split_ifs
  · rfl
  · exact zero_div _

end Weights

section Distance
variable {n : ℕ} {alpha beta : Fin n → ℝ}

theorem tvDistance_between (nonneg : ∀ k, 0 ≤ alpha k) (nonneg' : ∀ k, 0 ≤ beta k)
    (total : ∑ k, alpha k = 1) (total' : ∑ k, beta k = 1) :
    0 ≤ computeTvDistance alpha beta ∧ computeTvDistance alpha beta ≤ 1 := by
  have lower : 0 ≤ ∑ k, |alpha k - beta k| := sum_nonneg (fun _ _ => abs_nonneg _)
  have upper : ∑ k, |alpha k - beta k| ≤ ∑ k, (alpha k + beta k) := by
    refine sum_le_sum (fun k _ => abs_le.mpr ⟨?_, ?_⟩)
    · linarith [nonneg k]
    · linarith [nonneg' k]
  rw [sum_add_distrib, total, total'] at upper
  rw [computeTvDistance]
  constructor
  · linarith
  · linarith

theorem mean_between {Q heads : ℕ} [NeZero Q] [NeZero heads] {x : Fin Q → Fin heads → ℝ}
    (between : ∀ i h, 0 ≤ x i h ∧ x i h ≤ 1) :
    0 ≤ (∑ i, ∑ h, x i h) / (Q * heads : ℕ) ∧ (∑ i, ∑ h, x i h) / (Q * heads : ℕ) ≤ 1 := by
  have rows : (0 : ℝ) < (Q * heads : ℕ) :=
    Nat.cast_pos.mpr (Nat.mul_pos (NeZero.pos Q) (NeZero.pos heads))
  constructor
  · exact div_nonneg (sum_nonneg (fun i _ => sum_nonneg (fun h _ => (between i h).1))) rows.le
  · rw [div_le_one rows]
    calc ∑ i, ∑ h, x i h ≤ ∑ _i : Fin Q, ∑ _h : Fin heads, (1 : ℝ) :=
          sum_le_sum (fun i _ => sum_le_sum (fun h _ => (between i h).2))
      _ = (Q * heads : ℕ) := by simp

end Distance

section Counts
variable {n : ℕ}

theorem countActive_below (x : Fin n → ℝ) (tau : ℝ) :
    countActive (fun k => decide (x k < tau)) =
      (List.ofFn x).countP (fun entry => decide (entry < tau)) := by
  rw [countActive_eq, List.ofFn_eq_map, List.countP_map, List.countP_eq_length_filter]
  rfl

theorem countActive_not (mask : Fin n → Bool) :
    countActive mask + countActive (fun k => !mask k) = n := by
  rw [countActive, countActive, ← sum_add_distrib]
  have one (k : Fin n) :
      (if mask k = true then 1 else 0) + (if (!mask k) = true then 1 else 0) = 1 := by
    cases mask k <;> rfl
  rw [sum_congr rfl (fun k _ => one k), sum_const, card_univ, Fintype.card_fin, smul_eq_mul, mul_one]

end Counts

section Rows
variable {Q nb heads dim : ℕ} (q : Tensor ℝ Q heads dim) (keys : Tensor ℝ (nb * 512) heads dim)
  (bounded : LogitsBounded (10 ^ 7) q keys) (i : Fin Q) (h : Fin heads)
include bounded

theorem denseWeights_eq :
    denseWeights .flushing q keys i h = fullSoftmax (logits q keys i h) := by
  funext k
  have all := softmax_masked_apply flushing_flushesBelow (fun _ => true) (logits q keys i h)
    (10 ^ 7) (-1e9) (bounded i h) (by norm_num) (by norm_num) ⟨k, rfl⟩ k
  simp only [if_true, filter_true] at all
  exact all

theorem sparseWeights_eq (blockMask : Fin nb → Fin heads → Bool)
    (retained : ∃ b, blockMask b h = true) :
    sparseWeights .flushing q keys blockMask i h =
      truncatedSoftmax (tokensOf (fun b => blockMask b h)) (logits q keys i h) := by
  funext k
  obtain ⟨token, member⟩ : (tokensOf (fun b => blockMask b h) : Finset (Fin (nb * 512))).Nonempty :=
    (tokensOf_nonempty_iff _).mpr retained
  have masked := softmax_masked_apply flushing_flushesBelow (fun k => blockMask k.divNat h)
    (logits q keys i h) (10 ^ 7) (-1e9) (bounded i h) (by norm_num) (by norm_num)
    ⟨token, (mem_tokensOf _ token).mp member⟩ k
  simp only [truncatedSoftmax, mem_tokensOf]
  exact masked

end Rows

/-! ### The check -/

section Check
variable {Q nb heads dim : ℕ} [NeZero Q] (q : Tensor ℝ Q heads dim)
  (keys : Tensor ℝ (nb * 512) heads dim) (bounded : LogitsBounded (10 ^ 7) q keys)
include bounded

theorem le_maxBounds (b : Fin nb) (h : Fin heads) : -10 ^ 7 ≤ maxBounds .exact q keys b h := by
  have lower := (abs_le.mp (bounded 0 h (finProdFinEquiv (b, (0 : Fin 512))))).1
  exact lower.trans ((logit_le_bound q keys 0 b h 0).trans (bound_le_maxBounds q keys 0 b h))

theorem checkBound_fst (tau : ℝ) (above : -10 ^ 7 ≤ tau) (i : Fin Q) (h : Fin heads)
    (found : ℕ × ℝ) :
    (checkBound .flushing (logits q keys i h)
      (fun k => computeQueryAwareMask .exact q keys tau k.divNat h) tau
      (computeTvDistance (denseWeights .flushing q keys i h)
        (sparseWeights .flushing q keys (computeQueryAwareMask .exact q keys tau) i h)) found).1 =
      found.1 := by
  simp only [checkBound]
  split_ifs with rows exceeds
  · exfalso
    have nonempty : (tokensOf (fun b => computeQueryAwareMask .exact q keys tau b h) :
        Finset (Fin (nb * 512))).Nonempty := rows.1
    have retained := (tokensOf_nonempty_iff _).mp nonempty
    obtain ⟨j, _, attained⟩ := exists_mem_eq_sup' rows.1 (logits q keys i h)
    rw [attained, denseWeights_eq q keys bounded, sparseWeights_eq q keys bounded i h _ retained,
      tvDistance_truncated _ _ nonempty, compl_tokensOf] at exceeds
    have top := (abs_le.mp (bounded i h j)).2
    have weight : Arith.flushing.exp (tau - logits q keys i h j) =
        Real.exp (tau - logits q keys i h j) :=
      flushing_flushesBelow.exact _ (by linarith)
    have evicted : ({k | computeQueryAwareMask .exact q keys tau k.divNat h = false} :
        Finset (Fin (nb * 512))) = logitEvicted q keys tau h := by
      ext k
      simp [logitEvicted, mem_tokensOf]
    have small := logitEvicted_mass_le q keys tau i h j
    rw [weight, evicted] at exceeds
    have tolerance : (0 : ℝ) < 1e-6 := by norm_num
    exact absurd (exceeds.trans_le small) (not_lt.mpr (le_add_of_nonneg_right tolerance.le))
  · rfl
  · rfl

end Check

theorem foldl_kept {α σ τ : Type*} (part : σ → τ) (entries : List α) (step : σ → α → σ)
    (kept : ∀ state a, part (step state a) = part state) (state : σ) :
    part (entries.foldl step state) = part state := by
  induction entries generalizing state with
  | nil => rfl
  | cons a entries ih => rw [List.foldl_cons, ih, kept]

section Evaluate
variable {Q nb heads dim : ℕ} [NeZero Q] [NeZero nb] [NeZero heads]

/-- In exact arithmetic the benchmark reports no violation of the bound, evicts no more blocks than
its target asks for and measures distances between zero and one. -/
theorem evaluateEviction_sound (log : ℝ → ℝ) (keys values : Tensor ℝ (nb * 512) heads dim)
    (query : Tensor ℝ Q heads dim) (targetEviction : ℝ) (nonneg : 0 ≤ targetEviction)
    (le_one : targetEviction ≤ 1) (bounded : LogitsBounded (10 ^ 7) query keys) :
    ∃ report, evaluateEviction .flushing log keys values query targetEviction = .ok report ∧
      report.boundViolations = 0 ∧
      report.numEvictedBlocks ≤ ⌈targetEviction * ((nb * heads : ℕ) - 1 : ℝ)⌉₊ ∧
      report.actualEviction = report.numEvictedBlocks / (nb * heads : ℕ) ∧
      0 ≤ report.tvMean ∧ report.tvMean ≤ 1 := by
  have valid : ¬(targetEviction < 0 ∨ 1 < targetEviction) := by
    rintro (negative | large)
    · exact absurd nonneg (not_le.mpr negative)
    · exact absurd le_one (not_le.mpr large)
  have positive : 0 < nb * heads := Nat.mul_pos (NeZero.pos nb) (NeZero.pos heads)
  set bounds := flattened (maxBounds .flushing query keys) with hbounds
  have entries : List.ofFn bounds ≠ [] := by
    rw [ne_eq, List.ofFn_eq_nil_iff]
    exact positive.ne'
  obtain ⟨a, member, _, _, lower, _⟩ := percentile_between entries nonneg le_one
  have above : -10 ^ 7 ≤ percentile (List.ofFn bounds) targetEviction := by
    obtain ⟨place, rfl⟩ := (List.mem_ofFn' _ _).mp member
    exact (le_maxBounds query keys bounded place.divNat place.modNat).trans lower
  set tau := percentile (List.ofFn bounds) targetEviction with htau
  let mask : Fin nb → Fin heads → Bool := fun b h => decide (maxBounds .flushing query keys b h ≥ tau)
  have below : flattened (fun b h => !mask b h) = fun k => decide (bounds k < tau) := by
    funext k
    rw [Bool.eq_iff_iff]
    simp [flattened, mask, hbounds]
  have split := countActive_not (flattened mask)
  refine ⟨_, if_neg valid, ?_, ?_, ?_, ?_⟩
  · exact foldl_kept Prod.fst _ _ (fun found i => foldl_kept Prod.fst _ _
      (fun found h => checkBound_fst query keys bounded _ above i h found) found) (0, 0)
  · change countActive (flattened (fun b h => !mask b h)) ≤ _
    have counted := countP_percentile_le entries nonneg le_one
    rw [List.length_ofFn] at counted
    rw [below, countActive_below]
    exact counted
  · change 1 - (countActive (flattened mask) : ℝ) / (nb * heads : ℕ) =
      (countActive (flattened (fun b h => !mask b h)) : ℝ) / (nb * heads : ℕ)
    have size : ((nb * heads : ℕ) : ℝ) ≠ 0 := Nat.cast_ne_zero.mpr positive.ne'
    have total : (countActive (flattened mask) : ℝ) +
        countActive (flattened (fun b h => !mask b h)) = (nb * heads : ℕ) := by
      exact_mod_cast split
    rw [eq_div_iff size, sub_mul, one_mul, div_mul_cancel₀ _ size, ← total]
    ring
  · have : NeZero (nb * 512) := ⟨Nat.mul_ne_zero (NeZero.ne nb) (by decide)⟩
    exact mean_between (fun i h => tvDistance_between (softmax_nonneg weighs_flushing _)
      (softmax_nonneg weighs_flushing _) (sum_softmax_eq_one weighs_flushing _)
      (sum_softmax_eq_one weighs_flushing _))

theorem constantKeys_bounded {blocks : ℕ} {bound : ℝ} (amplitude : Fin blocks → Fin 1 → ℝ)
    (small : ∀ b h, |amplitude b h| ≤ bound) :
    LogitsBounded bound (ones : Tensor ℝ 1 1 1) (walshKeys 0 amplitude) := by
  intro i h k
  rw [← index_div_mod k, logits_walshKeys, Foundation.WalshFunctions.walshSign_zero_left, mul_one]
  exact small k.divNat h

/-- A benchmark run at half of two constant blocks, of which the second opposes the query. -/
theorem evaluateEviction_sound_opposed :
    let keys : Tensor ℝ (2 * 512) 1 1 := walshKeys 0 (fun b _ => ![1, -1] b)
    ∃ report, evaluateEviction .flushing Real.log keys ones (ones : Tensor ℝ 1 1 1) (1 / 2) =
        .ok report ∧
      report.boundViolations = 0 ∧
      report.numEvictedBlocks ≤ ⌈(1 / 2) * ((2 * 1 : ℕ) - 1 : ℝ)⌉₊ ∧
      report.actualEviction = report.numEvictedBlocks / (2 * 1 : ℕ) ∧
      0 ≤ report.tvMean ∧ report.tvMean ≤ 1 :=
  evaluateEviction_sound Real.log _ ones ones (1 / 2) (by norm_num) (by norm_num)
    (constantKeys_bounded _ (fun b _ => by fin_cases b <;> norm_num))

end Evaluate

end OrthoCache.EvictionAccuracy
