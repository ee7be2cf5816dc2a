import OrthoCache.Compaction

/-!
The way back from the compacted cache: every position is scattered to the block it came from,
and the blocks that had been moved behind the active ones are zeroed. With the indices of the
compaction this undoes it, up to the zeros that the compaction itself leaves.
-/

namespace OrthoCache.Decompaction
open Foundation.StablePartition Foundation.RowMajor Arrays Compaction

section Model
variable {R : Type} [Zero R] {nb bs heads dim : ℕ}

/-- As many blocks come out as go in: the position mask has one entry for every original block
and is scattered along the same indices as the blocks. -/
def streamDecompact (compactOutput : Fin nb → Tensor R bs heads dim)
    (activeIndices : Fin nb → Fin nb) (numActive : ℕ) : Fin nb → Tensor R bs heads dim :=
  let positionMask := fun i : Fin nb => decide (i.val < numActive)
  let output := scatterSet (fun _ => zeros) activeIndices compactOutput
  let isActive := scatterSet (fun _ => false) activeIndices positionMask
  fun b => if isActive b then output b else zeros

theorem streamDecompact_apply (compactOutput : Fin nb → Tensor R bs heads dim)
    (order : Equiv.Perm (Fin nb)) (numActive : ℕ) (i : Fin nb) :
    streamDecompact compactOutput order numActive (order i) =
      if i.val < numActive then compactOutput i else zeros := by
  simp only [streamDecompact, scatterSet_apply _ _ _ order.injective, decide_eq_true_eq]

end Model

section Inverse
variable {R : Type} [Field R] {nb bs heads dim : ℕ} (keys values : Tensor R (nb * bs) heads dim)
  (blockMask : Fin nb → Fin heads → Bool)

theorem streamDecompact_front (x : Tensor R (nb * bs) heads dim) (order : Equiv.Perm (Fin nb))
    (partition : IsStablePartition (anyHead blockMask) order) (b : Fin nb) :
    streamDecompact
        (fun i => if i.val < countActive (anyHead blockMask) then blocked x (order i) else zeros)
        order (countActive (anyHead blockMask)) b =
      if anyHead blockMask b then blocked x b else zeros := by
  obtain ⟨i, rfl⟩ := order.surjective b
  have front := partition.mask_apply_iff i
  rw [← countActive_eq] at front
  rw [streamDecompact_apply, if_congr front rfl rfl]
  split_ifs <;> rfl

theorem streamCompact_front (y : Fin nb → Tensor R bs heads dim) (order : Equiv.Perm (Fin nb))
    (count : ℕ) (i : Fin nb) :
    (if i.val < count then blocked (flattened (streamDecompact y order count)) (order i)
      else zeros) = if i.val < count then y i else zeros := by
  rw [blocked_flattened, streamDecompact_apply]
  split_ifs <;> rfl

/-- Decompaction undoes compaction on the blocks that some head retains, and compaction undoes
decompaction on the positions in front of the active count; everything else is zeroed. -/
theorem streamCompact_streamDecompact_inverse :
    let compacted : Compacted R nb bs heads dim := streamCompact keys values blockMask
    let decompact := fun y : Fin nb → Tensor R bs heads dim =>
      streamDecompact y compacted.activeIndices compacted.numActive
    (∀ b, decompact compacted.compactKeys b =
        if ∃ h, blockMask b h = true then blocked keys b else zeros) ∧
      (∀ b, decompact compacted.compactValues b =
        if ∃ h, blockMask b h = true then blocked values b else zeros) ∧
      (∀ y other i, (streamCompact (flattened (decompact y)) other blockMask).compactKeys i =
        if i.val < compacted.numActive then y i else zeros) ∧
      (∀ y other i, (streamCompact other (flattened (decompact y)) blockMask).compactValues i =
        if i.val < compacted.numActive then y i else zeros) := by
  have partition := streamCompact_partition keys values blockMask
  simp only [← anyHead_iff]
  refine ⟨?_, ?_, ?_, ?_⟩
  · exact streamDecompact_front blockMask keys _ partition
  · exact streamDecompact_front blockMask values _ partition
  · intro y other i
    exact streamCompact_front y _ _ i
  · intro y other i
    exact streamCompact_front y _ _ i

end Inverse

end OrthoCache.Decompaction
