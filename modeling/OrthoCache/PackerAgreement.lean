import OrthoCache.Alltoallv
import OrthoCache.Compaction
import OrthoCache.DistributedAttention

/-!
The three packers of active blocks: a loop over all slots with a select, a loop over the active
slots alone, and a gather followed by a mask. Each is fed the sort order and the count of its own
module, and all fill one buffer.
-/

namespace OrthoCache.PackerAgreement
open Foundation.StablePartition Foundation.RowMajor Arrays Alltoallv

variable {R : Type} [Field R] {nb heads dim : ℕ}
  (shard values : Tensor R (nb * 512) heads dim) (mask : Fin nb → Bool)

theorem distributed_packActiveBlocks [NeZero nb] (t : Fin (nb * 512)) :
    DistributedAttention.packActiveBlocks shard (DistributedAttention.streamCompact mask).1
        (DistributedAttention.streamCompact mask).2 t =
      (activeTokens shard mask).getD t.val 0 :=
  eq_activeTokens shard _ mask (argsort_offsetKey mask)
    (DistributedAttention.blocked_packActiveBlocks shard _ _ (countActive_le mask)) t

theorem compactKeys_activeTokens [NeZero heads] (t : Fin (nb * 512)) :
    flattened (Compaction.streamCompact shard values
        (fun b (_ : Fin heads) => mask b)).compactKeys t =
      (activeTokens shard mask).getD t.val 0 := by
  have broadcast : anyHead (fun b (_ : Fin heads) => mask b) = mask := by
    funext b
    rw [Bool.eq_iff_iff, anyHead_iff]
    exact exists_const (Fin heads)
  have partition := Compaction.streamCompact_partition shard values
    (fun b (_ : Fin heads) => mask b)
  rw [broadcast] at partition
  refine eq_activeTokens shard _ mask partition (fun j => ?_) t
  funext s
  rw [blocked, Compaction.compactKeys_flat, broadcast, ite_apply]
  rfl

/-- The three packers return one buffer: the active blocks in their order, then zeros. -/
theorem packers_agree [NeZero nb] :
    (∀ t, Alltoallv.packActiveBlocks shard (Alltoallv.streamCompact mask).1
        (Alltoallv.streamCompact mask).2 t = (activeTokens shard mask).getD t.val 0) ∧
      DistributedAttention.packActiveBlocks shard (DistributedAttention.streamCompact mask).1
          (DistributedAttention.streamCompact mask).2 =
        Alltoallv.packActiveBlocks shard (Alltoallv.streamCompact mask).1
          (Alltoallv.streamCompact mask).2 ∧
      flattened (Compaction.streamCompact shard values (fun b _ => mask b)).compactKeys =
        Alltoallv.packActiveBlocks shard (Alltoallv.streamCompact mask).1
          (Alltoallv.streamCompact mask).2 := by
  refine ⟨packActiveBlocks_streamCompact shard mask, ?_, ?_⟩
  · funext t
    rw [distributed_packActiveBlocks, packActiveBlocks_streamCompact]
  · funext t h
    -- a head is needed to read the broadcast mask back; without heads there is no entry
    have : NeZero heads := ⟨(Fin.pos h).ne'⟩
    rw [compactKeys_activeTokens, packActiveBlocks_streamCompact]

theorem packers_agree_threeBlocks :
    let shard : Tensor ℚ (3 * 512) 2 1 := ones
    let mask : Fin 3 → Bool := ![false, true, true]
    DistributedAttention.packActiveBlocks shard (DistributedAttention.streamCompact mask).1
        (DistributedAttention.streamCompact mask).2 =
      Alltoallv.packActiveBlocks shard (Alltoallv.streamCompact mask).1
        (Alltoallv.streamCompact mask).2 :=
  (packers_agree ones ones ![false, true, true]).2.1

end OrthoCache.PackerAgreement
