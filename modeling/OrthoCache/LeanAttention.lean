import OrthoCache.Buckets
import OrthoCache.AttentionSpec

/-! Bucketed attention without a copy of the cache: the blocks named by the front of the sort
order are gathered and one dense softmax runs over all of them. -/

namespace OrthoCache.LeanAttention
open Finset Foundation.SoftmaxMean Foundation.StablePartition Foundation.RowMajor
open Arrays AttentionSpec Buckets

section Model
variable {R : Type} [Field R] [LinearOrder R] {Q nb bs heads dim : ℕ}

def leanBucketedAttention (A : Arith R) (q : Tensor R Q heads dim)
    (keys values : Tensor R (nb * bs) heads dim) (blockMask : Fin nb → Fin heads → Bool) :
    Except Raised (Tensor R Q heads dim × BucketMetadata R) :=
  let blockActive := anyHead blockMask
  let nActive := countActive blockActive
  let sortOrder := argsort (negatedKey blockActive)
  if nActive = 0 then
    .ok (zeros, { numActive := 0, bucket := 0, numBlocks := none, evictionRate := 1 })
  else
    let bucket := nextBucket nActive
    if fits : bucket ≤ nb then
      let activeIdx := fun j : Fin bucket => sortOrder (Fin.castLE fits j)
      let kFlat := flattened (fun j => blocked keys (activeIdx j))
      let vFlat := flattened (fun j => blocked values (activeIdx j))
      let logits := fun i k h => logit A (q i h) (kFlat k h)
      let weights := fun i k h => softmax A.exp (fun k => logits i k h) k
      .ok (fun i h d => ∑ k, weights i k h * vFlat k h d,
        { numActive := nActive
          bucket := bucket
          numBlocks := some nb
          evictionRate := 1 - nActive / nb })
    else .error .shapeMismatch

end Model

section Gathered
variable {Q nb bs heads dim bucket : ℕ}

def gathered (x : Tensor ℝ (nb * bs) heads dim) (table : Fin bucket → Fin nb) :
    Tensor ℝ (bucket * bs) heads dim := flattened (fun j => blocked x (table j))

/-- The table of a bucket: the front of the sort order. -/
def bucketTable (blockMask : Fin nb → Fin heads → Bool) (fits : bucket ≤ nb) (j : Fin bucket) :
    Fin nb := argsort (negatedKey (anyHead blockMask)) (Fin.castLE fits j)

theorem anyHead_bucketTable (blockMask : Fin nb → Fin heads → Bool) (fits : bucket ≤ nb)
    (j : Fin bucket) : anyHead blockMask (bucketTable blockMask fits j) = true ↔
      j.val < countActive (anyHead blockMask) := by
  rw [countActive_eq]
  exact (argsort_negatedKey (anyHead blockMask)).mask_apply_iff (Fin.castLE fits j)

/-- The path is softmax attention over the gathered blocks, all of them. -/
theorem leanBucketedAttention_ok (q : Tensor ℝ Q heads dim)
    (keys values : Tensor ℝ (nb * bs) heads dim) (blockMask : Fin nb → Fin heads → Bool)
    (active : countActive (anyHead blockMask) ≠ 0)
    (fits : nextBucket (countActive (anyHead blockMask)) ≤ nb) :
    (leanBucketedAttention .exact q keys values blockMask).map Prod.fst =
      .ok (attend q (gathered keys (bucketTable blockMask fits))
        (gathered values (bucketTable blockMask fits)) (fun _ => univ)) := by
  simp only [leanBucketedAttention]
  rw [if_neg active, dif_pos fits]
  refine congrArg Except.ok ?_
  funext i h d
  exact sum_softmax_exact (logits q (gathered keys (bucketTable blockMask fits)) i h)
    (fun k => gathered values (bucketTable blockMask fits) k h d)

end Gathered

end OrthoCache.LeanAttention
