import OrthoCache.KvExchange

/-!
Packing and unpacking without the collective between them: from the send buffers laid out one
after the other in device order, unpacking recovers every active token of every device, and the
offsets say where.
-/

namespace OrthoCache.PackUnpack
open Finset Foundation.StablePartition Foundation.RowMajor Arrays Alltoallv KvExchange

section Offsets
variable {P : ℕ} (sizes : Fin P → ℕ)

/-- Ranges that start at the sums of the sizes before them partition the total. -/
theorem existsUnique_range_iff (t : ℕ) : t < ∑ p, sizes p ↔
    ∃! p : Fin P, ∑ j ∈ Iio p, sizes j ≤ t ∧ t < ∑ j ∈ Iio p, sizes j + sizes p := by
  have start (p : Fin P) : ∑ j ∈ Iio p, sizes j =
      ∑ j : Fin p.val, sizes (Fin.castLE p.isLt.le j) := by
    rw [sum_castLE]
    congr 1
    ext j
    rw [mem_Iio, mem_filter, Fin.lt_def]
    simp only [mem_univ, true_and]
  constructor
  · intro inside
    have place := finSigmaFinEquiv_apply (finSigmaFinEquiv.symm ⟨t, inside⟩)
    rw [Equiv.apply_symm_apply] at place
    set found := finSigmaFinEquiv.symm ⟨t, inside⟩ with hfound
    have within : found.2.val < sizes found.1 := found.2.isLt
    change t = _ at place
    refine ⟨found.1, ?_, ?_⟩
    · simp only [start]
      omega
    · rintro p ⟨lower, upper⟩
      simp only [start] at lower upper
      have same : finSigmaFinEquiv ⟨p, ⟨t - ∑ j : Fin p.val, sizes (Fin.castLE p.isLt.le j),
          by omega⟩⟩ = (⟨t, inside⟩ : Fin (∑ p, sizes p)) := by
        apply Fin.ext
        rw [finSigmaFinEquiv_apply]
        exact Nat.add_sub_cancel' lower
      rw [hfound, ← same, Equiv.symm_apply_apply]
  · rintro ⟨p, ⟨lower, upper⟩, -⟩
    refine upper.trans_le ?_
    rw [sum_Iio_add_eq_sum_Iic]
    exact sum_le_sum_of_subset (subset_univ _)

end Offsets

section Layout
variable {R : Type} [Zero R] {P maxBlocks heads dim : ℕ}
  (shard : Fin P → Tensor R (maxBlocks * 512) heads dim)
  (blockMask : Fin P → Fin maxBlocks → Bool)

def allCounts (blockMask : Fin P → Fin maxBlocks → Bool) (p : Fin P) : ℕ :=
  (streamCompact (blockMask p)).2

def receiveBuffer : Tensor R (P * (maxBlocks * 512)) heads dim :=
  flattened (fun p =>
    packActiveBlocks (shard p) (streamCompact (blockMask p)).1 (streamCompact (blockMask p)).2)

theorem getD_exchangeTokens (p : Fin P) (s : ℕ) (inside : s < countActive (blockMask p) * 512) :
    (exchangeTokens shard blockMask (List.finRange P)).getD
        ((exchangeTokens shard blockMask ((List.finRange P).take p.val)).length + s) 0 =
      (activeTokens (shard p) (blockMask p)).getD s 0 := by
  have here : p.val < (List.finRange P).length := by simp
  have split : exchangeTokens shard blockMask (List.finRange P) =
      exchangeTokens shard blockMask ((List.finRange P).take p.val) ++
        (activeTokens (shard p) (blockMask p) ++
          exchangeTokens shard blockMask ((List.finRange P).drop (p.val + 1))) := by
    conv_lhs => rw [← List.take_append_drop p.val (List.finRange P),
      List.drop_eq_getElem_cons here]
    simp [exchangeTokens]
  rw [split, List.getD_append_right _ _ _ _ (Nat.le_add_right _ _), Nat.add_sub_cancel_left,
    List.getD_append _ _ _ _ (by rwa [length_activeTokens])]

variable [NeZero P] [NeZero maxBlocks]

/-- Unpacking the receive buffer lists the active tokens of all devices, then zeros. -/
theorem unpack_receiveBuffer (t : Fin (P * (maxBlocks * 512))) :
    (unpackReceivedBlocks (receiveBuffer shard blockMask) (fun p => countActive (blockMask p))
        maxBlocks 512).1 t =
      (exchangeTokens shard blockMask (List.finRange P)).getD t.val 0 := by
  rw [unpackReceivedBlocks_apply 512 _ _ (fun p => countActive_le (blockMask p)),
    exchangeTokens_eq_map_selected]
  congr 2
  funext k
  rw [getClamped_of_lt _ _ k.isLt]
  exact packActiveBlocks_streamCompact (shard k.divNat) (blockMask k.divNat) k.modNat

/-- No token is lost: the buffer holds every device's active tokens in device order and then
zeros, the offsets are where they start, and the ranges partition the total. -/
theorem unpackReceivedBlocks_packActiveBlocks :
    (exchangeTokens shard blockMask (List.finRange P)).length = (∑ p, allCounts blockMask p) * 512 ∧
      let unpacked := unpackReceivedBlocks (receiveBuffer shard blockMask) (allCounts blockMask)
        maxBlocks 512
      (∀ t, unpacked.1 t = (exchangeTokens shard blockMask (List.finRange P)).getD t.val 0) ∧
      (∀ p t s, s < allCounts blockMask p * 512 → t.val = unpacked.2 p + s →
        unpacked.1 t = (activeTokens (shard p) (blockMask p)).getD s 0) ∧
      (∀ p, unpacked.2 p = ∑ j ∈ Iio p, allCounts blockMask j * 512) ∧
      (∀ t, t < (∑ p, allCounts blockMask p) * 512 ↔
        ∃! p, unpacked.2 p ≤ t ∧ t < unpacked.2 p + allCounts blockMask p * 512) ∧
      (computeOffsets (allCounts blockMask)).2 = ∑ p, allCounts blockMask p := by
  refine ⟨?_, ?_⟩
  · rw [sum_mul]
    exact length_exchangeTokens_all shard blockMask
  intro unpacked
  have offsets (p : Fin P) : unpacked.2 p = ∑ j ∈ Iio p, allCounts blockMask j * 512 := by
    rw [← sum_mul]
    exact congrArg (· * 512) (computeOffsets_offsets (allCounts blockMask) p)
  refine ⟨?_, ?_, offsets, ?_, computeOffsets_total (allCounts blockMask)⟩
  · exact unpack_receiveBuffer shard blockMask
  · intro p t s inside position
    have start : unpacked.2 p =
        (exchangeTokens shard blockMask ((List.finRange P).take p.val)).length := by
      rw [offsets, length_exchangeTokens_take]
      rfl
    rw [← getD_exchangeTokens shard blockMask p s inside, ← start, ← position]
    exact unpack_receiveBuffer shard blockMask t
  · intro t
    simp only [offsets, sum_mul]
    exact existsUnique_range_iff (fun p => allCounts blockMask p * 512) t

end Layout

theorem unpack_first_evicted :
    let shard := fun _ : Fin 2 => (ones : Tensor ℤ (1 * 512) 1 1)
    let blockMask := fun (p : Fin 2) (_ : Fin 1) => decide (p.val = 1)
    let unpacked := unpackReceivedBlocks (receiveBuffer shard blockMask) (allCounts blockMask) 1 512
    (∀ t, unpacked.1 t = (exchangeTokens shard blockMask (List.finRange 2)).getD t.val 0) ∧
      (∀ p t s, s < allCounts blockMask p * 512 → t.val = unpacked.2 p + s →
        unpacked.1 t = (activeTokens (shard p) (blockMask p)).getD s 0) ∧
      unpacked.2 = ![0, 0] ∧ (computeOffsets (allCounts blockMask)).2 = 1 := by
  intro shard blockMask unpacked
  obtain ⟨-, tokens, own, starts, -, total⟩ :=
    unpackReceivedBlocks_packActiveBlocks shard blockMask
  refine ⟨tokens, own, funext fun p => ?_, total.trans (by decide)⟩
  rw [starts]
  revert p
  decide

end OrthoCache.PackUnpack
