import OrthoCache.BucketedAttention
import OrthoCache.IndirectAttention

/-!
The three paths that round the active count up to a bucket and cut the blocks there. A slice past
the last block is short without complaint, and the reshape or broadcast behind it then fails, so a
call returns only when the bucket is within the cache.
-/

namespace OrthoCache.BucketDispatch
open Finset Arrays Buckets BucketedAttention LeanAttention IndirectAttention

section Model
variable {R : Type} [Field R] [LinearOrder R] {Q nb bs heads dim : ℕ} [NeZero bs]

inductive Dispatch
  | bucketed (isTpu : Bool)
  | lean
  | indirect

def Dispatch.run (A : Arith R) (q : Tensor R Q heads dim)
    (keys values : Tensor R (nb * bs) heads dim) (blockMask : Fin nb → Fin heads → Bool) :
    Dispatch → Except Raised (Tensor R Q heads dim × BucketMetadata R)
  | bucketed isTpu => bucketedAttention A isTpu q keys values blockMask
  | lean => leanBucketedAttention A q keys values blockMask
  | indirect => indirectAttention A q keys values blockMask

/-- The call returns, and its bucket lies between the active count and the number of blocks, so
that a slice up to it has exactly that many entries. -/
def DispatchFits (numActive nb : ℕ)
    (returned : Except Raised (Tensor R Q heads dim × BucketMetadata R)) : Prop :=
  ∃ output metadata, returned = .ok (output, metadata) ∧
    numActive ≤ metadata.bucket ∧ metadata.bucket ≤ nb ∧
    ((List.finRange nb).take metadata.bucket).length = metadata.bucket

end Model

section Outcome
variable {R : Type} [Field R] [LinearOrder R] {Q nb bs heads dim : ℕ} [NeZero bs] (A : Arith R)
  (q : Tensor R Q heads dim) (keys values : Tensor R (nb * bs) heads dim)
  (blockMask : Fin nb → Fin heads → Bool)

theorem run_ok (dispatch : Dispatch) (active : countActive (anyHead blockMask) ≠ 0)
    (fits : nextBucket (countActive (anyHead blockMask)) ≤ nb) :
    ∃ output metadata, dispatch.run A q keys values blockMask = .ok (output, metadata) ∧
      metadata.bucket = nextBucket (countActive (anyHead blockMask)) := by
  cases dispatch with
  | bucketed isTpu =>
    have nonzero : (Compaction.streamCompact keys values blockMask).numActive ≠ 0 := active
    have inside : nextBucket (Compaction.streamCompact keys values blockMask).numActive ≤ nb := fits
    simp only [Dispatch.run, bucketedAttention]
    rw [if_neg nonzero, dif_pos inside]
    exact ⟨_, _, rfl, rfl⟩
  | lean =>
    simp only [Dispatch.run, leanBucketedAttention]
    rw [if_neg active, dif_pos fits]
    exact ⟨_, _, rfl, rfl⟩
  | indirect =>
    simp only [Dispatch.run, indirectAttention]
    rw [if_neg active, dif_pos fits]
    exact ⟨_, _, rfl, rfl⟩

theorem run_error (dispatch : Dispatch) (active : countActive (anyHead blockMask) ≠ 0)
    (outside : nb < nextBucket (countActive (anyHead blockMask))) :
    dispatch.run A q keys values blockMask = .error .shapeMismatch := by
  have past : ¬nextBucket (countActive (anyHead blockMask)) ≤ nb := not_le.mpr outside
  cases dispatch with
  | bucketed isTpu =>
    have nonzero : (Compaction.streamCompact keys values blockMask).numActive ≠ 0 := active
    have past' : ¬nextBucket (Compaction.streamCompact keys values blockMask).numActive ≤ nb := past
    simp only [Dispatch.run, bucketedAttention]
    rw [if_neg nonzero, dif_neg past']
  | lean =>
    simp only [Dispatch.run, leanBucketedAttention]
    rw [if_neg active, dif_neg past]
  | indirect =>
    simp only [Dispatch.run, indirectAttention]
    rw [if_neg active, dif_neg past]

theorem countActive_anyHead :
    countActive (anyHead blockMask) = #{b | ∃ h, blockMask b h = true} := by
  rw [countActive, ← card_filter]
  simp only [anyHead_iff]

/-- A path fits exactly when a power of two up to 512 lies between the number of active blocks and
the number of blocks, or more than 512 blocks are active. -/
theorem dispatchFits_iff (dispatch : Dispatch) (active : ∃ b h, blockMask b h = true) :
    let numActive := #{b | ∃ h, blockMask b h = true}
    DispatchFits numActive nb (dispatch.run A q keys values blockMask) ↔
      (∃ k ≤ 9, numActive ≤ 2 ^ k ∧ 2 ^ k ≤ nb) ∨ 512 < numActive := by
  simp only [← countActive_anyHead]
  rw [← nextBucket_le_iff _ _ (countActive_le _)]
  have nonzero : countActive (anyHead blockMask) ≠ 0 := by
    obtain ⟨b, kept⟩ := active
    exact ((countActive_pos_iff _).mpr ⟨b, (anyHead_iff _ _).mpr kept⟩).ne'
  constructor
  · rintro ⟨output, metadata, returned, -⟩
    by_contra outside
    rw [run_error A q keys values blockMask dispatch nonzero (not_le.mp outside)] at returned
    cases returned
  · intro fits
    obtain ⟨output, metadata, returned, bucket⟩ :=
      run_ok A q keys values blockMask dispatch nonzero fits
    refine ⟨output, metadata, returned, ?_, ?_, ?_⟩
    · rw [bucket]
      exact le_nextBucket _
    · rw [bucket]
      exact fits
    · rw [List.length_take, List.length_finRange, bucket, min_eq_left fits]

end Outcome

theorem dispatchFits_threeOfFour :
    DispatchFits 3 4 (Dispatch.lean.run ⟨id, id⟩ (ones : Tensor ℚ 1 1 1)
      (ones : Tensor ℚ (4 * 512) 1 1) ones threeOfFour) :=
  (dispatchFits_iff ⟨id, id⟩ ones (ones : Tensor ℚ (4 * 512) 1 1) ones threeOfFour .lean
    ⟨0, 0, rfl⟩).mpr (.inl ⟨2, by decide, by decide, by decide⟩)

/-- Three of three blocks: the bucket of four is longer than the cache, on every path. -/
theorem dispatchFits_threeOfThree :
    (∃ (b : Fin 3) (h : Fin 1), (fun (_ : Fin 3) (_ : Fin 1) => true) b h = true) ∧
      ∀ dispatch : Dispatch, ¬DispatchFits 3 3 (dispatch.run ⟨id, id⟩ (ones : Tensor ℚ 1 1 1)
        (ones : Tensor ℚ (3 * 512) 1 1) ones (fun _ _ => true)) := by
  refine ⟨⟨0, 0, rfl⟩, ?_⟩
  rintro dispatch ⟨output, metadata, returned, -⟩
  rw [run_error _ _ _ _ _ dispatch (by decide) (by decide)] at returned
  cases returned

end OrthoCache.BucketDispatch
