import OrthoCache.Buckets
import OrthoCache.Compaction

/-!
Bucketed attention: the compacted cache is cut at the bucket size and every block up to there
is marked active. The blocks between the active count and the bucket are zero blocks; their
logits are zero, so each of their tokens adds one to the normaliser.
-/

namespace OrthoCache.BucketedAttention
open Finset Foundation.SoftmaxMean Foundation.StablePartition Foundation.RowMajor
open Arrays AttentionSpec SparseAttention Compaction Buckets

section Model
variable {R : Type} [Field R] [LinearOrder R] {Q nb bs heads dim : ℕ} [NeZero bs]

def bucketedAttention (A : Arith R) (isTpu : Bool) (q : Tensor R Q heads dim)
    (keys values : Tensor R (nb * bs) heads dim) (blockMask : Fin nb → Fin heads → Bool) :
    Except Raised (Tensor R Q heads dim × BucketMetadata R) :=
  let compacted := streamCompact keys values blockMask
  let nActive := compacted.numActive
  if nActive = 0 then
    .ok (zeros, { numActive := 0, bucket := 0, numBlocks := some nb, evictionRate := 1 })
  else
    let bucket := nextBucket nActive
    -- `[:bucket]` stops at the last block, and the reshape then misses `bucket` blocks
    if fits : bucket ≤ nb then
      let ck := fun j : Fin bucket => compacted.compactKeys (Fin.castLE fits j)
      let cv := fun j : Fin bucket => compacted.compactValues (Fin.castLE fits j)
      let bucketMask := fun (_ : Fin bucket) (_ : Fin heads) => true
      let output := compilePallasSparseAttention A isTpu q (flattened ck) (flattened cv) bucketMask
      .ok (output,
        { numActive := nActive
          bucket := bucket
          numBlocks := some nb
          evictionRate := 1 - nActive / nb })
    else .error .shapeMismatch

end Model

section Padding
variable {Q nb bs heads dim bucket : ℕ} (q : Tensor ℝ Q heads dim)
  (keys values : Tensor ℝ (nb * bs) heads dim) (blockMask : Fin nb → Fin heads → Bool)

def cut (fits : bucket ≤ nb) (x : Fin nb → Tensor ℝ bs heads dim) :
    Tensor ℝ (bucket * bs) heads dim := flattened (fun j => x (Fin.castLE fits j))

theorem cut_apply (fits : bucket ≤ nb) (x : Fin nb → Tensor ℝ bs heads dim) (j : Fin bucket)
    (t : Fin bs) :
    cut fits x (finProdFinEquiv (j, t)) = flattened x (finProdFinEquiv (Fin.castLE fits j, t)) := by
  simp only [cut, flattened, index_divNat, index_modNat]

theorem sum_cut (fits : bucket ≤ nb) (f : Fin (nb * bs) → ℝ) (g : Fin (bucket * bs) → ℝ)
    (same : ∀ j t, g (finProdFinEquiv (j, t)) = f (finProdFinEquiv (Fin.castLE fits j, t))) :
    ∑ k, g k = ∑ k ∈ frontTokens bucket, f k := by
  simp only [sum_rows, same, frontTokens, sum_tokensOf, decide_eq_true_eq]
  exact sum_castLE fits (fun j => ∑ t, f (finProdFinEquiv (j, t)))

theorem expMass_cut (fits : bucket ≤ nb) (order : countActive (anyHead blockMask) ≤ bucket)
    (i : Fin Q) (h : Fin heads) :
    expMass univ (logits q (cut fits (streamCompact keys values blockMask).compactKeys) i h) =
      expMass (tokensOf (anyHead blockMask)) (logits q keys i h) +
        ((bucket - countActive (anyHead blockMask)) * bs : ℕ) := by
  set compactKeys := (streamCompact keys values blockMask).compactKeys with hcompact
  have whole := sum_cut fits (fun k => Real.exp (logits q (flattened compactKeys) i h k))
    (fun k => Real.exp (logits q (cut fits compactKeys) i h k))
    (fun j t => by rw [logits, logits, cut_apply])
  rw [expMass, whole, sum_frontTokens_padding _ _ bucket 1 order fits, mul_one, expMass]
  · congr 1
    apply sum_frontTokens (streamCompact_partition keys values blockMask)
    intro j t front
    rw [logits_compactKeys, if_pos front]
  · intro j t behind
    rw [logits_compactKeys, if_neg (by omega), Real.exp_zero]

theorem expSum_cut (fits : bucket ≤ nb) (order : countActive (anyHead blockMask) ≤ bucket)
    (i : Fin Q) (h : Fin heads) (d : Fin dim) :
    expSum univ (logits q (cut fits (streamCompact keys values blockMask).compactKeys) i h)
        (fun k => cut fits (streamCompact keys values blockMask).compactValues k h d) =
      expSum (tokensOf (anyHead blockMask)) (logits q keys i h) (fun k => values k h d) := by
  set compactKeys := (streamCompact keys values blockMask).compactKeys with hkeys
  set compactValues := (streamCompact keys values blockMask).compactValues with hvalues
  have whole := sum_cut fits
    (fun k => Real.exp (logits q (flattened compactKeys) i h k) * flattened compactValues k h d)
    (fun k => Real.exp (logits q (cut fits compactKeys) i h k) * cut fits compactValues k h d)
    (fun j t => by rw [logits, logits, cut_apply, cut_apply])
  rw [expSum, whole, sum_frontTokens_padding _ _ bucket 0 order fits, mul_zero, add_zero, expSum]
  · apply sum_frontTokens (streamCompact_partition keys values blockMask)
    intro j t front
    rw [logits_compactKeys, if_pos front, compactValues_flat, if_pos front]
    rfl
  · intro j t behind
    rw [compactValues_flat, if_neg (by omega), Pi.zero_apply, Pi.zero_apply, mul_zero]

theorem logitsBounded_cut (fits : bucket ≤ nb) (bounded : LogitsBounded (10 ^ 7) q keys) :
    LogitsBounded (10 ^ 7) q (cut fits (streamCompact keys values blockMask).compactKeys) := by
  intro i h k
  rw [← index_div_mod k, logits, cut_apply]
  exact logitsBounded_compactKeys q keys values blockMask _ (by norm_num) bounded i h _

end Padding

section Bucketing
variable {Q nb bs heads dim : ℕ} [NeZero bs] (q : Tensor ℝ Q heads dim)
  (keys values : Tensor ℝ (nb * bs) heads dim) (blockMask : Fin nb → Fin heads → Bool)

theorem bucketedAttention_ok (A : Arith ℝ) (isTpu : Bool)
    (active : countActive (anyHead blockMask) ≠ 0)
    (fits : nextBucket (countActive (anyHead blockMask)) ≤ nb) :
    (bucketedAttention A isTpu q keys values blockMask).map Prod.fst =
      .ok (compilePallasSparseAttention A isTpu q
        (cut fits (streamCompact keys values blockMask).compactKeys)
        (cut fits (streamCompact keys values blockMask).compactValues) (fun _ _ => true)) := by
  have nonzero : (streamCompact keys values blockMask).numActive ≠ 0 := active
  have inside : nextBucket (streamCompact keys values blockMask).numActive ≤ nb := fits
  simp only [bucketedAttention]
  rw [if_neg nonzero, dif_pos inside]
  rfl

/-- On both backends the padding up to the bucket dilutes the average. -/
theorem bucketedAttention_mean (isTpu : Bool) (bounded : LogitsBounded (10 ^ 7) q keys)
    (active : ∃ b, anyHead blockMask b = true)
    (fits : nextBucket (countActive (anyHead blockMask)) ≤ nb) :
    (bucketedAttention .flushing isTpu q keys values blockMask).map Prod.fst = .ok (fun i h d =>
      expSum (tokensOf (anyHead blockMask)) (logits q keys i h) (fun k => values k h d) /
        (expMass (tokensOf (anyHead blockMask)) (logits q keys i h) +
          ((nextBucket (countActive (anyHead blockMask)) - countActive (anyHead blockMask)) * bs :
            ℕ))) := by
  have positive := (countActive_pos_iff (anyHead blockMask)).mpr active
  have order := le_nextBucket (countActive (anyHead blockMask))
  rw [bucketedAttention_ok q keys values blockMask _ isTpu positive.ne' fits,
    compilePallasSparseAttention_mean isTpu q _ _ _
      (logitsBounded_cut q keys values blockMask fits bounded) (fun _ => ⟨⟨0, by omega⟩, rfl⟩)]
  congr 1
  funext i h d
  rw [attend, tokensOf_all, softmaxMean, expSum_cut q keys values blockMask fits order,
    expMass_cut q keys values blockMask fits order]

/-- Bucketing leaves compacted attention unchanged exactly when it adds no block, or when every
weighted sum over the active values vanishes. -/
theorem bucketedAttention_eq_compactAndAttend_iff (isTpu : Bool)
    (bounded : LogitsBounded (10 ^ 7) q keys) (active : ∃ b, anyHead blockMask b = true)
    (fits : nextBucket (countActive (anyHead blockMask)) ≤ nb) :
    (bucketedAttention .flushing isTpu q keys values blockMask).map Prod.fst =
        .ok (compactAndAttend .flushing isTpu q keys values blockMask).1 ↔
      nextBucket (countActive (anyHead blockMask)) = countActive (anyHead blockMask) ∨
        ∀ i h d, expSum (tokensOf (anyHead blockMask)) (logits q keys i h)
          (fun k => values k h d) = 0 := by
  have nonempty : (tokensOf (anyHead blockMask) : Finset (Fin (nb * bs))).Nonempty :=
    (tokensOf_nonempty_iff _).mpr active
  rw [bucketedAttention_mean q keys values blockMask isTpu bounded active fits,
    compactAndAttend_mean q keys values blockMask isTpu bounded active, Except.ok.injEq]
  have order := le_nextBucket (countActive (anyHead blockMask))
  generalize nextBucket (countActive (anyHead blockMask)) = bucket at order ⊢
  set padding := (bucket - countActive (anyHead blockMask)) * bs with hpadding
  have none : padding = 0 ↔ bucket = countActive (anyHead blockMask) := by
    rw [hpadding, Nat.mul_eq_zero, or_iff_left (NeZero.ne bs)]
    omega
  have entry (i : Fin Q) (h : Fin heads) (d : Fin dim) (numerator : ℝ) :
      numerator / (expMass (tokensOf (anyHead blockMask)) (logits q keys i h) + padding) =
          numerator / expMass (tokensOf (anyHead blockMask)) (logits q keys i h) ↔
        padding = 0 ∨ numerator = 0 := by
    have mass := expMass_pos _ (logits q keys i h) nonempty
    rw [div_eq_div_iff (by positivity) mass.ne', mul_add, eq_comm, add_eq_left, mul_eq_zero,
      Nat.cast_eq_zero, or_comm]
  simp only [funext_iff, attend, softmaxMean]
  constructor
  · intro same
    by_cases exactFit : bucket = countActive (anyHead blockMask)
    · exact .inl exactFit
    · refine .inr (fun i h d => ?_)
      exact ((entry i h d _).mp (same i h d)).resolve_left (fun zero => exactFit (none.mp zero))
  · rintro (exactFit | vanish) i h d
    · exact (entry i h d _).mpr (.inl (none.mpr exactFit))
    · exact (entry i h d _).mpr (.inr (vanish i h d))

end Bucketing

theorem bucketedAttention_eq_compactAndAttend_first :
    let blockMask := fun (b : Fin 2) (_ : Fin 1) => decide (b.val = 0)
    (bucketedAttention .flushing true (zeros : Tensor ℝ 1 1 1) (ones : Tensor ℝ (2 * 2) 1 1) ones
        blockMask).map Prod.fst =
      .ok (compactAndAttend .flushing true (zeros : Tensor ℝ 1 1 1)
        (ones : Tensor ℝ (2 * 2) 1 1) ones blockMask).1 :=
  (bucketedAttention_eq_compactAndAttend_iff zeros ones ones (fun b _ => decide (b.val = 0)) true
    (logitsBounded_zeros _) ⟨0, by decide⟩ (by decide)).mpr (.inl (by decide))

def threeOfFour (b : Fin 4) (_h : Fin 1) : Bool := decide (b.val < 3)

/-- Keys zero and values one in blocks of one token: compaction returns one, bucketing
three quarters. -/
theorem bucketedAttention_ne_compactAndAttend_three :
    (∃ b, anyHead threeOfFour b = true) ∧ nextBucket (countActive (anyHead threeOfFour)) ≤ 4 ∧
      LogitsBounded (10 ^ 7) (zeros : Tensor ℝ 1 1 1) (zeros : Tensor ℝ (4 * 1) 1 1) ∧
      ∀ isTpu, (bucketedAttention .flushing isTpu (zeros : Tensor ℝ 1 1 1)
          (zeros : Tensor ℝ (4 * 1) 1 1) ones threeOfFour).map Prod.fst ≠
        .ok (compactAndAttend .flushing isTpu (zeros : Tensor ℝ 1 1 1)
          (zeros : Tensor ℝ (4 * 1) 1 1) ones threeOfFour).1 := by
  have active : ∃ b, anyHead threeOfFour b = true := ⟨0, by decide⟩
  have three : countActive (anyHead threeOfFour) = 3 := by decide
  have fits : nextBucket (countActive (anyHead threeOfFour)) ≤ 4 := by decide
  refine ⟨active, fits, logitsBounded_zeros _, fun isTpu same => ?_⟩
  rw [bucketedAttention_mean _ _ _ _ isTpu (logitsBounded_zeros _) active fits,
    compactAndAttend_mean _ _ _ _ isTpu (logitsBounded_zeros _) active, Except.ok.injEq] at same
  have entry := congrFun (congrFun (congrFun same 0) 0) 0
  simp only [attend, softmaxMean, expSum, expMass, logits_zeros, ones, Real.exp_zero, mul_one,
    sum_const, card_tokensOf, three, show nextBucket 3 = 4 by decide] at entry
  norm_num at entry

end OrthoCache.BucketedAttention
