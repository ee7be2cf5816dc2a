import OrthoCache.SparseAttention

/-!
Stream compaction of the cache: blocks that some head retains move to the front in their
original order, everything behind them is zeroed, and attention runs on the result. Head by
head this attends to the union of what the heads retain.
-/

namespace OrthoCache.Compaction
open Finset Foundation.SoftmaxMean Foundation.StablePartition Foundation.RowMajor
open Arrays AttentionSpec SparseAttention

section Model
variable {R : Type} [Field R] [LinearOrder R] {Q nb bs heads dim : ℕ}

structure Compacted (R : Type) (nb bs heads dim : ℕ) where
  compactKeys : Fin nb → Tensor R bs heads dim
  compactValues : Fin nb → Tensor R bs heads dim
  activeIndices : Equiv.Perm (Fin nb)
  numActive : ℕ

def streamCompact (keys values : Tensor R (nb * bs) heads dim)
    (blockMask : Fin nb → Fin heads → Bool) : Compacted R nb bs heads dim :=
  let keysBlocked := blocked keys
  let valuesBlocked := blocked values
  let blockActive := anyHead blockMask
  let numActive := countActive blockActive
  let activeIndices := argsort (negatedKey blockActive)
  { compactKeys := fun i => if i.val < numActive then keysBlocked (activeIndices i) else zeros
    compactValues := fun i => if i.val < numActive then valuesBlocked (activeIndices i) else zeros
    activeIndices := activeIndices
    numActive := numActive }

structure CompactionMetadata (R : Type) where
  numActive : ℕ
  numBlocks : ℕ
  evictionRate : R

def compactAndAttend [NeZero bs] (A : Arith R) (isTpu : Bool) (q : Tensor R Q heads dim)
    (keys values : Tensor R (nb * bs) heads dim) (blockMask : Fin nb → Fin heads → Bool) :
    Tensor R Q heads dim × CompactionMetadata R :=
  let compacted := streamCompact keys values blockMask
  let compactKeysFlat := flattened compacted.compactKeys
  let compactValuesFlat := flattened compacted.compactValues
  let compactMaskHeads := fun (i : Fin nb) _ => decide (i.val < compacted.numActive)
  let output := compilePallasSparseAttention A isTpu q compactKeysFlat compactValuesFlat
    compactMaskHeads
  (output,
    { numActive := compacted.numActive
      numBlocks := nb
      evictionRate := 1 - compacted.numActive / nb })

end Model

section Front
variable {nb bs : ℕ} {mask : Fin nb → Bool} {order : Equiv.Perm (Fin nb)}

def frontTokens (count : ℕ) : Finset (Fin (nb * bs)) :=
  tokensOf (fun i => decide (i.val < count))

theorem card_frontTokens (count : ℕ) (room : count ≤ nb) :
    (frontTokens count : Finset (Fin (nb * bs))).card = count * bs := by
  rw [frontTokens, card_tokensOf, countActive_front count room]

theorem sum_frontTokens_padding (f : Fin (nb * bs) → ℝ) (count bucket : ℕ) (c : ℝ)
    (order : count ≤ bucket) (room : bucket ≤ nb)
    (padded : ∀ i t, count ≤ i.val → f (finProdFinEquiv (i, t)) = c) :
    ∑ k ∈ frontTokens bucket, f k =
      ∑ k ∈ frontTokens count, f k + ((bucket - count) * bs : ℕ) * c := by
  have inner : (frontTokens count : Finset (Fin (nb * bs))) ⊆ frontTokens bucket := by
    intro k member
    rw [frontTokens, mem_tokensOf, decide_eq_true_eq] at member ⊢
    omega
  have outside : ∀ k ∈ frontTokens bucket \ frontTokens count, f k = c := by
    intro k member
    rw [mem_sdiff, frontTokens, frontTokens, mem_tokensOf, mem_tokensOf, decide_eq_true_eq,
      decide_eq_true_eq] at member
    rw [← index_div_mod k]
    exact padded _ _ (by omega)
  rw [← sum_sdiff inner, sum_congr rfl outside, sum_const, card_sdiff_of_subset inner,
    card_frontTokens bucket room, card_frontTokens count (order.trans room), ← Nat.sub_mul,
    nsmul_eq_mul, add_comm]

theorem sum_frontTokens {M : Type*} [AddCommMonoid M] (partition : IsStablePartition mask order)
    (f g : Fin (nb * bs) → M)
    (moved : ∀ i t, i.val < countActive mask →
      f (finProdFinEquiv (i, t)) = g (finProdFinEquiv (order i, t))) :
    ∑ k ∈ frontTokens (countActive mask), f k = ∑ k ∈ tokensOf mask, g k := by
  rw [frontTokens, sum_tokensOf, sum_tokensOf,
    ← partition.sum_front (fun i => ∑ t, g (finProdFinEquiv (i, t)))]
  simp only [decide_eq_true_eq, countActive_eq] at moved ⊢
  apply sum_congr rfl
  intro i front
  exact sum_congr rfl (fun t _ => moved i t (mem_filter.mp front).2)

theorem softmaxMean_frontTokens (partition : IsStablePartition mask order)
    (z v z' v' : Fin (nb * bs) → ℝ)
    (moved : ∀ i t, i.val < countActive mask →
      z (finProdFinEquiv (i, t)) = z' (finProdFinEquiv (order i, t)) ∧
        v (finProdFinEquiv (i, t)) = v' (finProdFinEquiv (order i, t))) :
    softmaxMean (frontTokens (countActive mask)) z v = softmaxMean (tokensOf mask) z' v' := by
  rw [softmaxMean, softmaxMean, expSum, expMass]
  congr 1
  · exact sum_frontTokens partition _ _
      (fun i t front => by rw [(moved i t front).1, (moved i t front).2])
  · exact sum_frontTokens partition _ _ (fun i t front => by rw [(moved i t front).1])

end Front

section Layout
variable {R : Type} [Field R] {nb bs heads dim : ℕ} (keys values : Tensor R (nb * bs) heads dim)
  (blockMask : Fin nb → Fin heads → Bool)

theorem streamCompact_partition :
    IsStablePartition (anyHead blockMask) (streamCompact keys values blockMask).activeIndices :=
  argsort_negatedKey _

theorem compactKeys_flat (i : Fin nb) (t : Fin bs) :
    flattened (streamCompact keys values blockMask).compactKeys (finProdFinEquiv (i, t)) =
      if i.val < countActive (anyHead blockMask) then
        blocked keys ((streamCompact keys values blockMask).activeIndices i) t
      else 0 := by
  rw [flattened, index_divNat, index_modNat]
  simp only [streamCompact]
  split_ifs <;> rfl

theorem compactValues_flat (i : Fin nb) (t : Fin bs) :
    flattened (streamCompact keys values blockMask).compactValues (finProdFinEquiv (i, t)) =
      if i.val < countActive (anyHead blockMask) then
        blocked values ((streamCompact keys values blockMask).activeIndices i) t
      else 0 := by
  rw [flattened, index_divNat, index_modNat]
  simp only [streamCompact]
  split_ifs <;> rfl

end Layout

section Attention
variable {Q nb bs heads dim : ℕ} (q : Tensor ℝ Q heads dim)
  (keys values : Tensor ℝ (nb * bs) heads dim) (blockMask : Fin nb → Fin heads → Bool)

theorem logits_compactKeys (i : Fin Q) (h : Fin heads) (j : Fin nb) (t : Fin bs) :
    logits q (flattened (streamCompact keys values blockMask).compactKeys) i h
        (finProdFinEquiv (j, t)) =
      if j.val < countActive (anyHead blockMask) then
        logits q keys i h
          (finProdFinEquiv ((streamCompact keys values blockMask).activeIndices j, t))
      else 0 := by
  rw [logits, compactKeys_flat]
  split_ifs
  · rfl
  · exact logit_zero _ _

theorem logitsBounded_compactKeys (bound : ℝ) (nonneg : 0 ≤ bound)
    (bounded : LogitsBounded bound q keys) :
    LogitsBounded bound q (flattened (streamCompact keys values blockMask).compactKeys) := by
  intro i h k
  rw [← index_div_mod k, logits_compactKeys]
  split_ifs
  · exact bounded i h _
  · rwa [abs_zero]

theorem attend_front :
    attend q (flattened (streamCompact keys values blockMask).compactKeys)
        (flattened (streamCompact keys values blockMask).compactValues)
        (fun _ => frontTokens (countActive (anyHead blockMask))) =
      attend q keys values (fun _ => tokensOf (anyHead blockMask)) := by
  funext i h d
  apply softmaxMean_frontTokens (streamCompact_partition keys values blockMask)
  intro j t front
  rw [logits_compactKeys, if_pos front, compactValues_flat, if_pos front]
  exact ⟨rfl, rfl⟩

/-- On both backends compacted attention is attention to the union of what the heads retain. -/
theorem compactAndAttend_mean [NeZero bs] (isTpu : Bool) (bounded : LogitsBounded (10 ^ 7) q keys)
    (active : ∃ b, anyHead blockMask b = true) :
    (compactAndAttend .flushing isTpu q keys values blockMask).1 =
      attend q keys values (fun _ => tokensOf (anyHead blockMask)) := by
  rw [← attend_front]
  have positive := (countActive_pos_iff (anyHead blockMask)).mpr active
  have room := countActive_le (anyHead blockMask)
  exact compilePallasSparseAttention_mean isTpu q _ _ _
    (logitsBounded_compactKeys q keys values blockMask _ (by norm_num) bounded)
    (fun _ => ⟨⟨0, by omega⟩, decide_eq_true positive⟩)

theorem compactAndAttend_evicted [NeZero bs] (isTpu : Bool) (bounded : LogitsBounded (10 ^ 7) q keys)
    (evicted : ¬∃ b, anyHead blockMask b = true) :
    (compactAndAttend .flushing isTpu q keys values blockMask).1 = zeros := by
  have none : countActive (anyHead blockMask) = 0 := by
    rw [← countActive_pos_iff] at evicted
    omega
  funext i h d
  cases isTpu with
  | true =>
    have kernel := congrFun (congrFun (congrFun (pallasGrid_mean q _
      (flattened (streamCompact keys values blockMask).compactValues)
      (fun (j : Fin nb) (_ : Fin heads) => decide (j.val < countActive (anyHead blockMask)))
      (logitsBounded_compactKeys q keys values blockMask _ (by norm_num) bounded)) i) h) d
    refine kernel.trans ?_
    rw [attend, tokensOf_eq_empty _ (by simp [none]), softmaxMean_empty]
    rfl
  | false =>
    have uniform := jaxBlockSparseAttention_uniform q
      (flattened (streamCompact keys values blockMask).compactKeys)
      (flattened (streamCompact keys values blockMask).compactValues)
      (fun (j : Fin nb) (_ : Fin heads) => decide (j.val < countActive (anyHead blockMask))) i h d
      (by simp [none])
    refine uniform.trans ?_
    have padding (k : Fin (nb * bs)) :
        flattened (streamCompact keys values blockMask).compactValues k h d = 0 := by
      rw [← index_div_mod k, compactValues_flat, none, if_neg (Nat.not_lt_zero _)]
      rfl
    simp only [padding, Finset.sum_const_zero, zero_div]
    rfl

/-- With or without an active block, compacted attention attends to what some head retains. -/
theorem compactAndAttend_attend [NeZero bs] (isTpu : Bool)
    (bounded : LogitsBounded (10 ^ 7) q keys) :
    (compactAndAttend .flushing isTpu q keys values blockMask).1 =
      attend q keys values (fun _ => tokensOf (anyHead blockMask)) := by
  by_cases active : ∃ b, anyHead blockMask b = true
  · exact compactAndAttend_mean q keys values blockMask isTpu bounded active
  · rw [attend_evicted q keys values _ active]
    exact compactAndAttend_evicted q keys values blockMask isTpu bounded active

end Attention

end OrthoCache.Compaction
