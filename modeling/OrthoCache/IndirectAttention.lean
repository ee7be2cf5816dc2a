import OrthoCache.LeanAttention
import OrthoCache.SparseAttention

/-! The indirect kernel: an online softmax that reads its blocks in place, through a table of
block indices. -/

namespace OrthoCache.IndirectAttention
open Finset Foundation.OnlineSoftmax Foundation.StablePartition Foundation.RowMajor
open Arrays AttentionSpec SparseAttention Buckets LeanAttention

section Model
variable {R : Type} [Field R] [LinearOrder R] {Q nb bs heads dim bucket : ℕ} [NeZero bs]

def indirectPallasKernel (A : Arith R) (q : Fin Q → Fin dim → R)
    (k v : Fin (nb * bs) → Fin dim → R) (idx : Fin bucket → Fin nb) : Fin Q → Fin dim → R :=
  let final := (List.finRange bucket).foldl
    (fun acc j i =>
      let origB := idx j
      let start := origB.val * bs
      let kBlock := dynamicSlice k start bs (Nat.le_mul_of_pos_left bs origB.pos)
      let vBlock := dynamicSlice v start bs (Nat.le_mul_of_pos_left bs origB.pos)
      (acc i).absorb A.exp (fun t => logit A (q i) (kBlock t)) vBlock)
    (fun _ => .init (-1e9))
  fun i d => normalizeClamped (final i) d

def compileIndirectAttention (A : Arith R) (q : Tensor R Q heads dim)
    (keys values : Tensor R (nb * bs) heads dim) (activeIndices : Fin bucket → Fin heads → Fin nb) :
    Tensor R Q heads dim := pallasGrid (indirectPallasKernel A) q keys values activeIndices

def indirectAttention (A : Arith R) (q : Tensor R Q heads dim)
    (keys values : Tensor R (nb * bs) heads dim) (blockMask : Fin nb → Fin heads → Bool) :
    Except Raised (Tensor R Q heads dim × BucketMetadata R) :=
  let blockActive := anyHead blockMask
  let nActive := countActive blockActive
  let sortOrder := argsort (negatedKey blockActive)
  if nActive = 0 then
    .ok (zeros, { numActive := 0, bucket := 0, numBlocks := none, evictionRate := 1 })
  else
    let bucket := nextBucket nActive
    if fits : bucket ≤ nb then
      let activeIdx := fun j : Fin bucket => sortOrder (Fin.castLE fits j)
      let idxTable := fun j (_ : Fin heads) => activeIdx j
      .ok (compileIndirectAttention A q keys values idxTable,
        { numActive := nActive
          bucket := bucket
          numBlocks := some nb
          evictionRate := 1 - nActive / nb })
    else .error .shapeMismatch

end Model

section Reads
variable {R : Type} [Field R] [LinearOrder R] {Q nb bs heads dim bucket : ℕ} [NeZero bs]

theorem indirectPallasKernel_row (A : Arith R) (q : Fin Q → Fin dim → R)
    (k v : Fin (nb * bs) → Fin dim → R) (idx : Fin bucket → Fin nb) (i : Fin Q) :
    indirectPallasKernel A q k v idx i = normalizeClamped
      (Acc.run A.exp (fun j t => logit A (q i) (blocked k (idx j) t)) (fun j => blocked v (idx j))
        (.init (-1e9)) (List.finRange bucket)) := by
  have row := foldl_row (fun j i (acc : Acc R (Fin dim)) => acc.absorb A.exp
    (fun t => logit A (q i) (blocked k (idx j) t)) (blocked v (idx j)))
    (fun _ => .init (-1e9)) (List.finRange bucket) i
  funext d
  simp only [indirectPallasKernel, dynamicSlice_block, row]
  rfl

theorem indirectAttention_ok (A : Arith R) (q : Tensor R Q heads dim)
    (keys values : Tensor R (nb * bs) heads dim) (blockMask : Fin nb → Fin heads → Bool)
    (active : countActive (anyHead blockMask) ≠ 0)
    (fits : nextBucket (countActive (anyHead blockMask)) ≤ nb) :
    (indirectAttention A q keys values blockMask).map Prod.fst =
      .ok (compileIndirectAttention A q keys values
        (fun j _ => bucketTable blockMask fits j)) := by
  simp only [indirectAttention]
  rw [if_neg active, dif_pos fits]
  rfl

/-- Two caches that agree on every named block give the same output. -/
theorem compileIndirectAttention_congr (A : Arith R) (q : Tensor R Q heads dim)
    (keys values keys' values' : Tensor R (nb * bs) heads dim) (table : Fin bucket → Fin nb)
    (sameKeys : ∀ j, blocked keys (table j) = blocked keys' (table j))
    (sameValues : ∀ j, blocked values (table j) = blocked values' (table j)) :
    compileIndirectAttention A q keys values (fun j _ => table j) =
      compileIndirectAttention A q keys' values' (fun j _ => table j) := by
  have column (x : Tensor R (nb * bs) heads dim) (h : Fin heads) (b : Fin nb) :
      blocked (fun k => x k h) b = fun t => blocked x b t h := rfl
  funext i h d
  simp only [compileIndirectAttention, pallasGrid, indirectPallasKernel_row, column, sameKeys,
    sameValues]

end Reads

end OrthoCache.IndirectAttention
