import OrthoCache.Compaction

/-!
Attention over the compacted cache with a loop whose bound is the active count. The table and
the layout are those of the compaction, but nothing behind the active blocks is zeroed: the
loop does not get there.
-/

namespace OrthoCache.DynamicAttention
open Foundation.SoftmaxMean Foundation.OnlineSoftmax Foundation.StablePartition
open Foundation.RowMajor Arrays AttentionSpec SparseAttention Compaction

section Model
variable {R : Type} [Field R] [LinearOrder R] {Q n nb heads dim : ℕ} (bs : ℕ) [NeZero bs]

/-- One head. A cache shorter than a block, which the slice rejects, is excluded by `fits`. -/
def dynamicCompactAttention (A : Arith R) (fits : bs ≤ n) (q : Fin Q → Fin dim → R)
    (compactKeys compactValues : Fin n → Fin dim → R) (numActive : ℕ) : Fin Q → Fin dim → R :=
  let scale := 1 / A.sqrt dim
  let singleQueryAttention := fun qVec : Fin dim → R =>
    let body := fun i (state : Acc R (Fin dim)) =>
      let kBlock := dynamicSlice compactKeys (i * bs) bs fits
      let vBlock := dynamicSlice compactValues (i * bs) bs fits
      let logits := fun t => (∑ d, kBlock t d * qVec d) * scale
      state.absorb A.exp logits vBlock
    normalizeClamped (whileBelow numActive body 0 (.init (-1e9)))
  fun row => singleQueryAttention (q row)

def dynamicMultiheadAttention (A : Arith R) (fits : bs ≤ nb * bs) (q : Tensor R Q heads dim)
    (keys values : Tensor R (nb * bs) heads dim) (blockMask : Fin nb → Fin heads → Bool) :
    Tensor R Q heads dim :=
  let blockActive := anyHead blockMask
  let numActive := countActive blockActive
  let sortOrder := argsort (negatedKey blockActive)
  let compactK := fun i => blocked keys (sortOrder i)
  let compactV := fun i => blocked values (sortOrder i)
  let compactKFlat := flattened compactK
  let compactVFlat := flattened compactV
  -- transpose to (head, token, dim) and back
  let outHeads := fun h => dynamicCompactAttention bs A fits (fun i => q i h)
    (fun k => compactKFlat k h) (fun k => compactVFlat k h) numActive
  fun i h d => outHeads h i d

end Model

theorem logit_eq_scaled {R : Type} [Field R] {dim : ℕ} (A : Arith R) (q k : Fin dim → R) :
    (∑ d, k d * q d) * (1 / A.sqrt dim) = logit A q k := by
  rw [mul_one_div, logit]
  simp only [mul_comm]

section Rows
variable {R : Type} [Field R] [LinearOrder R] {Q nb heads dim bs : ℕ} [NeZero bs] (A : Arith R)

theorem dynamicCompactAttention_row (fits : bs ≤ nb * bs) (q : Fin Q → Fin dim → R)
    (k v : Fin (nb * bs) → Fin dim → R) (mask : Fin nb → Bool) (order : Equiv.Perm (Fin nb))
    (partition : IsStablePartition mask order) (i : Fin Q) :
    dynamicCompactAttention bs A fits q (flattened (fun b => blocked k (order b)))
        (flattened (fun b => blocked v (order b))) (countActive mask) i =
      normalizeClamped (Acc.run A.exp (blocked (fun t => logit A (q i) (k t))) (blocked v)
        (.init (-1e9)) (selected mask)) := by
  have positive : nb ≠ 0 := by
    rintro rfl
    rw [Nat.zero_mul] at fits
    exact NeZero.ne bs (Nat.le_zero.mp fits)
  have : NeZero nb := ⟨positive⟩
  have visited : (List.range (countActive mask)).map (getClamped order) = selected mask := by
    rw [countActive_eq]
    exact partition.map_range_eq _ (fun j inside => getClamped_of_lt order j inside)
  have step (acc : Acc R (Fin dim)) (j : ℕ) (member : j ∈ List.range (countActive mask)) :
      acc.absorb A.exp
          (fun t => logit A (q i)
            (dynamicSlice (flattened (fun b => blocked k (order b))) (j * bs) bs fits t))
          (dynamicSlice (flattened (fun b => blocked v (order b))) (j * bs) bs fits) =
        acc.absorb A.exp (blocked (fun t => logit A (q i) (k t)) (getClamped order j))
          (blocked v (getClamped order j)) := by
    have inside : j < nb := (List.mem_range.mp member).trans_le (countActive_le mask)
    have front {α : Type} (x : Fin (nb * bs) → α) :
        dynamicSlice (flattened (fun b => blocked x (order b))) (j * bs) bs fits =
          blocked x (getClamped order j) := by
      rw [dynamicSlice_block _ ⟨j, inside⟩, blocked_flattened, getClamped_of_lt _ j inside]
    rw [front, front]
    rfl
  simp only [dynamicCompactAttention, logit_eq_scaled, whileBelow_zero, foriLoop]
  rw [← visited, Acc.run, List.foldl_map, List.foldl_ext _ _ _ step]

/-- The loop over the compacted cache computes what the kernel computes in place. -/
theorem dynamicMultiheadAttention_eq_kernel (fits : bs ≤ nb * bs) (q : Tensor R Q heads dim)
    (keys values : Tensor R (nb * bs) heads dim) (blockMask : Fin nb → Fin heads → Bool) :
    dynamicMultiheadAttention bs A fits q keys values blockMask =
      pallasGrid (pallasSparseAttentionKernel A) q keys values
        (fun b _ => anyHead blockMask b) := by
  funext i h d
  have row := dynamicCompactAttention_row A fits (fun i => q i h) (fun k => keys k h)
    (fun k => values k h) (anyHead blockMask) _ (argsort_negatedKey _) i
  have kernel := pallasSparseAttentionKernel_row A (fun i => q i h) (fun k => keys k h)
    (fun k => values k h) (anyHead blockMask) i
  exact congrFun (row.trans kernel.symm) d

end Rows

section Agreement
variable {Q nb bs heads dim : ℕ} [NeZero bs] (q : Tensor ℝ Q heads dim)
  (keys values : Tensor ℝ (nb * bs) heads dim) (blockMask : Fin nb → Fin heads → Bool)

/-- Every path attends to the union of what the heads retain, and is zero where nothing is. -/
theorem compactAndAttend_eq_dynamicMultiheadAttention (bounded : LogitsBounded (10 ^ 7) q keys) :
    let union := attend q keys values (fun _ => tokensOf (fun b => decide (∃ h, blockMask b h)))
    (∀ isTpu, (compactAndAttend .flushing isTpu q keys values blockMask).1 = union) ∧
      (∀ fits, dynamicMultiheadAttention bs .flushing fits q keys values blockMask = union) ∧
      ((∀ b h, blockMask b h = false) → union = zeros) := by
  refine ⟨?_, ?_, ?_⟩
  · intro isTpu
    exact compactAndAttend_attend q keys values blockMask isTpu bounded
  · intro fits
    rw [dynamicMultiheadAttention_eq_kernel]
    exact pallasGrid_mean q keys values (fun b _ => anyHead blockMask b) bounded
  · intro evicted
    exact attend_evicted q keys values _ (by simp [evicted])

theorem compactAndAttend_eq_dynamicMultiheadAttention_second :
    dynamicMultiheadAttention 1 .flushing (by decide : 1 ≤ 2 * 1) (zeros : Tensor ℝ 1 2 1)
        (ones : Tensor ℝ (2 * 1) 2 1) ones (fun b _ => b.val = 1) =
      (compactAndAttend .flushing true (zeros : Tensor ℝ 1 2 1) (ones : Tensor ℝ (2 * 1) 2 1) ones
        (fun b _ => b.val = 1)).1 := by
  have agree := compactAndAttend_eq_dynamicMultiheadAttention (zeros : Tensor ℝ 1 2 1)
    (ones : Tensor ℝ (2 * 1) 2 1) ones (fun b _ => b.val = 1) (logitsBounded_zeros ones)
  exact (agree.2.1 _).trans (agree.1 true).symm

end Agreement

end OrthoCache.DynamicAttention
