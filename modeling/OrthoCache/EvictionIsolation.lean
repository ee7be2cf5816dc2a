import OrthoCache.IndirectAttention

/-!
Whether evicted blocks can influence the index-table paths. The table is cut at the bucket, so
for counts strictly between two buckets its tail names evicted blocks and their contents are
read.
-/

namespace OrthoCache.EvictionIsolation
open Finset Foundation.SoftmaxMean Foundation.RowMajor Arrays AttentionSpec Buckets
open LeanAttention IndirectAttention

variable {Q nb bs heads dim : ℕ}

/-- The two tensors hold the same contents in every block that some head retains. -/
def AgreeOnActive (blockMask : Fin nb → Fin heads → Bool)
    (x y : Tensor ℝ (nb * bs) heads dim) : Prop :=
  ∀ b, anyHead blockMask b = true → blocked x b = blocked y b

/-- No contents of evicted blocks change the output of either path. -/
def EvictedIrrelevant (bs : ℕ) [NeZero bs] (q : Tensor ℝ Q heads dim)
    (blockMask : Fin nb → Fin heads → Bool) : Prop :=
  ∀ keys values keys' values' : Tensor ℝ (nb * bs) heads dim,
    AgreeOnActive blockMask keys keys' → AgreeOnActive blockMask values values' →
      (leanBucketedAttention .exact q keys values blockMask).map Prod.fst =
          (leanBucketedAttention .exact q keys' values' blockMask).map Prod.fst ∧
        (indirectAttention .exact q keys values blockMask).map Prod.fst =
          (indirectAttention .exact q keys' values' blockMask).map Prod.fst

def evictedOnes (blockMask : Fin nb → Fin heads → Bool) : Tensor ℝ (nb * bs) heads dim :=
  flattened (fun b _ _ _ => if anyHead blockMask b then 0 else 1)

theorem agreeOnActive_evictedOnes (blockMask : Fin nb → Fin heads → Bool) :
    AgreeOnActive blockMask (evictedOnes blockMask : Tensor ℝ (nb * bs) heads dim) zeros := by
  intro b active
  rw [evictedOnes, blocked_flattened, active]
  rfl

section Paths
variable (q : Tensor ℝ Q heads dim) (blockMask : Fin nb → Fin heads → Bool)

/-- Where the table names active blocks only, both paths read nothing else. -/
theorem evictedIrrelevant_of_active [NeZero bs] (active : countActive (anyHead blockMask) ≠ 0)
    (fits : nextBucket (countActive (anyHead blockMask)) ≤ nb)
    (named : ∀ j, anyHead blockMask (bucketTable blockMask fits j) = true) :
    EvictedIrrelevant bs q blockMask := by
  intro keys values keys' values' sameKeys sameValues
  have gatheredKeys : gathered keys (bucketTable blockMask fits) =
      gathered keys' (bucketTable blockMask fits) := by
    simp only [gathered, sameKeys _ (named _)]
  have gatheredValues : gathered values (bucketTable blockMask fits) =
      gathered values' (bucketTable blockMask fits) := by
    simp only [gathered, sameValues _ (named _)]
  constructor
  · simp only [leanBucketedAttention_ok q _ _ blockMask active fits, gatheredKeys, gatheredValues]
  · rw [indirectAttention_ok _ q keys values blockMask active fits,
      indirectAttention_ok _ q keys' values' blockMask active fits,
      compileIndirectAttention_congr _ q keys values keys' values' _
        (fun j => sameKeys _ (named j)) (fun j => sameValues _ (named j))]

theorem leanBucketedAttention_leak (fits : nextBucket (countActive (anyHead blockMask)) ≤ nb)
    (i : Fin Q) (h : Fin heads) (d : Fin dim) (j : Fin (nextBucket (countActive (anyHead blockMask))))
    (t : Fin bs) (evicted : anyHead blockMask (bucketTable blockMask fits j) = false) :
    0 < attend q (gathered (zeros : Tensor ℝ (nb * bs) heads dim) (bucketTable blockMask fits))
      (gathered (evictedOnes blockMask) (bucketTable blockMask fits)) (fun _ => univ) i h d := by
  have entry (k : Fin (nextBucket (countActive (anyHead blockMask)) * bs)) :
      gathered (evictedOnes blockMask : Tensor ℝ (nb * bs) heads dim)
        (bucketTable blockMask fits) k h d =
          if anyHead blockMask (bucketTable blockMask fits k.divNat) then 0 else 1 := by
    simp [gathered, flattened, evictedOnes, blocked_flattened]
  apply softmaxMean_pos
  · intro k _
    rw [entry]
    split_ifs <;> norm_num
  · refine ⟨finProdFinEquiv (j, t), mem_univ _, ?_⟩
    rw [entry, index_divNat, evicted, if_neg Bool.false_ne_true]
    exact one_pos

/-- A bucket above the active count makes the paths depend on evicted contents. -/
theorem not_evictedIrrelevant [NeZero bs] (active : ∃ b, anyHead blockMask b = true)
    (fits : nextBucket (countActive (anyHead blockMask)) ≤ nb)
    (padded : countActive (anyHead blockMask) < nextBucket (countActive (anyHead blockMask)))
    (i : Fin Q) (d : Fin dim) : ¬EvictedIrrelevant bs q blockMask := by
  intro isolated
  have positive := ((countActive_pos_iff (anyHead blockMask)).mpr active).ne'
  obtain ⟨b, kept⟩ := active
  obtain ⟨h, -⟩ := (anyHead_iff blockMask b).mp kept
  have evicted : anyHead blockMask
      (bucketTable blockMask fits ⟨countActive (anyHead blockMask), padded⟩) = false := by
    rw [Bool.eq_false_iff, Ne, anyHead_bucketTable]
    exact lt_irrefl _
  have leak := leanBucketedAttention_leak q blockMask fits i h d _ (0 : Fin bs) evicted
  have same := (isolated zeros (evictedOnes blockMask) zeros zeros (fun _ _ => rfl)
    (agreeOnActive_evictedOnes blockMask)).1
  rw [leanBucketedAttention_ok q _ _ blockMask positive fits,
    leanBucketedAttention_ok q _ _ blockMask positive fits, Except.ok.injEq] at same
  rw [same] at leak
  exact leak.ne' (softmaxMean_eq_zero _ _ _ (fun _ _ => rfl))

/-- The index-table paths ignore evicted blocks exactly when the active count is itself a bucket,
apart from empty outputs. -/
theorem evictedIrrelevant_iff [NeZero bs] (active : ∃ b, anyHead blockMask b = true)
    (fits : nextBucket (countActive (anyHead blockMask)) ≤ nb) :
    EvictedIrrelevant bs q blockMask ↔
      nextBucket (countActive (anyHead blockMask)) = countActive (anyHead blockMask) ∨
        Q = 0 ∨ dim = 0 := by
  have positive := ((countActive_pos_iff (anyHead blockMask)).mpr active).ne'
  have order := le_nextBucket (countActive (anyHead blockMask))
  constructor
  · intro isolated
    by_contra failing
    push Not at failing
    obtain ⟨padded, rows, width⟩ := failing
    exact not_evictedIrrelevant q blockMask active fits (by omega) ⟨0, Nat.pos_of_ne_zero rows⟩
      ⟨0, Nat.pos_of_ne_zero width⟩ isolated
  · rintro (exactFit | empty)
    · apply evictedIrrelevant_of_active q blockMask positive fits
      intro j
      have inside := j.isLt
      rw [anyHead_bucketTable]
      omega
    · have unique (x y : Tensor ℝ Q heads dim) : x = y := by
        funext i h d
        rcases empty with rows | width
        · exact (i.cast rows).elim0
        · exact (d.cast width).elim0
      intro keys values keys' values' _ _
      rw [leanBucketedAttention_ok q _ _ blockMask positive fits,
        leanBucketedAttention_ok q _ _ blockMask positive fits,
        indirectAttention_ok _ q _ _ blockMask positive fits,
        indirectAttention_ok _ q _ _ blockMask positive fits]
      exact ⟨congrArg _ (unique _ _), congrArg _ (unique _ _)⟩

end Paths

theorem evictedIrrelevant_first : EvictedIrrelevant 2 (zeros : Tensor ℝ 1 1 1)
    (fun (b : Fin 2) _ => decide (b.val = 0)) :=
  (evictedIrrelevant_iff zeros _ ⟨0, by decide⟩ (by decide)).mpr (.inl (by decide))

/-- Three of four blocks are retained; the table has four entries and the last one names the
evicted block. -/
theorem three_of_four_leaks :
    let blockMask := fun (b : Fin 4) (_ : Fin 1) => decide (b.val < 3)
    (∃ b, anyHead blockMask b = true) ∧ nextBucket (countActive (anyHead blockMask)) ≤ 4 ∧
      ¬EvictedIrrelevant 1 (zeros : Tensor ℝ 1 1 1) blockMask := by
  intro blockMask
  have active : ∃ b, anyHead blockMask b = true := ⟨0, by decide⟩
  have fits : nextBucket (countActive (anyHead blockMask)) ≤ 4 := by decide
  exact ⟨active, fits, not_evictedIrrelevant zeros blockMask active fits (by decide) 0 0⟩

end OrthoCache.EvictionIsolation
