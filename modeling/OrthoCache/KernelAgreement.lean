import OrthoCache.SparseAttentionV2
import OrthoCache.XlaBridge

/-!
When the variants of the block-sparse kernel agree with the v1 Pallas kernel. The fallback
differs on heads that retain nothing; the guarded v2 kernel differs wherever evicting changes
the result, because it evicts nothing. The fallback itself is the predicated attention of the
compiler emulation, whose mask stands on tokens.
-/

namespace OrthoCache.KernelAgreement
open Finset Foundation.SoftmaxMean Foundation.RowMajor Arrays AttentionSpec SparseAttention
open SparseAttentionV2

section Predicated
variable {R : Type} [Field R] [LinearOrder R] {Q nb bs heads dim : ℕ}

/-- The fallback and the predicated attention return the same output on every mask. -/
theorem jaxBlockSparseAttention_eq_predicatedAttention (A : Arith R) (q : Tensor R Q heads dim)
    (keys values : Tensor R (nb * 512) heads dim) (blockMask : Fin nb → Fin heads → Bool) :
    jaxBlockSparseAttention A q keys values blockMask =
      XlaBridge.predicatedAttention A q keys values (.blocksAndHeads blockMask) := by
  funext i h d
  -- masking a block before the transpose is masking its tokens by the repeated mask
  have masked : flattened (fun b t =>
      if blockMask b h then logit A (q i h) (blocked keys b t h) else -1e9) =
      fun t : Fin (nb * 512) => if (XlaBridge.BlockMask.blocksAndHeads blockMask).tokenMask t h then
        logit A (q i h) (keys t h) else -1e9 :=
    flattened_mask (fun b => blockMask b h) (fun t => logit A (q i h) (keys t h)) (-1e9)
  simp only [jaxBlockSparseAttention, XlaBridge.predicatedAttention]
  rw [masked]

end Predicated

variable {Q nb bs heads dim : ℕ} [NeZero bs]

section Fallback

private theorem fallback_row (q : Tensor ℝ Q heads dim) (keys values : Tensor ℝ (nb * bs) heads dim)
    (blockMask : Fin nb → Fin heads → Bool) (bounded : LogitsBounded (10 ^ 7) q keys)
    (i : Fin Q) (h : Fin heads) (d : Fin dim)
    (met : (∃ b, blockMask b h = true) ∨ ∀ d, ∑ k, values k h d = 0) :
    jaxBlockSparseAttention .flushing q keys values blockMask i h d =
      attend q keys values (fun h => tokensOf (fun b => blockMask b h)) i h d := by
  by_cases retained : ∃ b, blockMask b h = true
  · exact jaxBlockSparseAttention_mean q keys values blockMask bounded i h d
      ((tokensOf_nonempty_iff _).mpr retained)
  · have evicted : ∀ b, blockMask b h = false := by simpa using retained
    rw [jaxBlockSparseAttention_uniform q keys values blockMask i h d evicted, attend,
      tokensOf_eq_empty _ retained, softmaxMean_empty, met.resolve_left retained d, zero_div]

/-- The fallback computes what the kernel computes exactly when every head that has a query
row retains a block or has values that sum to zero over the cache. -/
theorem fallback_eq_kernel_iff (q : Tensor ℝ Q heads dim)
    (keys values : Tensor ℝ (nb * bs) heads dim) (blockMask : Fin nb → Fin heads → Bool)
    (bounded : LogitsBounded (10 ^ 7) q keys) :
    jaxBlockSparseAttention .flushing q keys values blockMask =
        pallasGrid (pallasSparseAttentionKernel .flushing) q keys values blockMask ↔
      ∀ h, Q = 0 ∨ (∃ b, blockMask b h = true) ∨ ∀ d, ∑ k, values k h d = 0 := by
  rw [pallasGrid_mean q keys values blockMask bounded]
  constructor
  · intro same h
    by_cases rows : Q = 0
    · exact .inl rows
    by_cases retained : ∃ b, blockMask b h = true
    · exact .inr (.inl retained)
    refine .inr (.inr (fun d => ?_))
    have evicted : ∀ b, blockMask b h = false := by simpa using retained
    have entry := congrFun (congrFun (congrFun same ⟨0, Nat.pos_of_ne_zero rows⟩) h) d
    rw [jaxBlockSparseAttention_uniform _ _ _ _ _ h d evicted, attend,
      tokensOf_eq_empty _ retained, softmaxMean_empty, div_eq_zero_iff] at entry
    rcases entry with sum | size
    · exact sum
    · have empty : IsEmpty (Fin (nb * bs)) := by
        rw [show nb * bs = 0 by exact_mod_cast size]
        exact Fin.isEmpty
      exact Fintype.sum_empty _
  · intro condition
    funext i h d
    apply fallback_row q keys values blockMask bounded i h d
    exact (condition h).resolve_left (fun empty => (i.cast empty).elim0)

/-- The first head retains one block of two; the second retains none, and its values cancel. -/
theorem fallback_eq_kernel_cancelling :
    let values : Tensor ℝ (2 * 2) 2 1 := fun k _ _ => if k.val % 2 = 0 then 1 else -1
    let blockMask := fun (b h : Fin 2) => decide (b = 0 ∧ h = 0)
    jaxBlockSparseAttention .flushing (zeros : Tensor ℝ 1 2 1) (ones : Tensor ℝ (2 * 2) 2 1) values
        blockMask =
      pallasGrid (pallasSparseAttentionKernel .flushing) zeros (ones : Tensor ℝ (2 * 2) 2 1) values
        blockMask := by
  intro values blockMask
  refine (fallback_eq_kernel_iff zeros ones values blockMask (logitsBounded_zeros _)).mpr fun h => ?_
  by_cases first : h = 0
  · exact .inr (.inl ⟨0, decide_eq_true ⟨rfl, first⟩⟩)
  · refine .inr (.inr fun d => ?_)
    simp [values, Fin.sum_univ_four]

/-- One cached token of value one, evicted: the fallback returns one, the kernel zero. -/
theorem fallback_ne_kernel_evicted :
    LogitsBounded (10 ^ 7) (zeros : Tensor ℝ 1 1 1) (zeros : Tensor ℝ (1 * 1) 1 1) ∧
      jaxBlockSparseAttention .flushing (zeros : Tensor ℝ 1 1 1) (zeros : Tensor ℝ (1 * 1) 1 1)
          ones (fun _ _ => false) ≠
        pallasGrid (pallasSparseAttentionKernel .flushing) zeros (zeros : Tensor ℝ (1 * 1) 1 1)
          ones (fun _ _ => false) := by
  refine ⟨logitsBounded_zeros _, fun same => ?_⟩
  rw [pallasGrid_mean _ _ _ _ (logitsBounded_zeros _)] at same
  have entry := congrFun (congrFun (congrFun same 0) 0) 0
  rw [jaxBlockSparseAttention_uniform _ _ _ _ 0 0 0 (fun _ => rfl), attend,
    tokensOf_eq_empty _ (by simp), softmaxMean_empty] at entry
  simp [ones] at entry

end Fallback

section Guarded

/-- On a head that retains a block the evicted tokens, if any, average to what the retained ones
average to; on a head that retains none the weighted values of all tokens cancel. -/
def EvictionNeutral (q : Tensor ℝ Q heads dim) (keys values : Tensor ℝ (nb * bs) heads dim)
    (blockMask : Fin nb → Fin heads → Bool) : Prop :=
  ∀ i h d, if ∃ b, blockMask b h = true then
    (∀ b, blockMask b h = true) ∨
      attend q keys values (fun h => tokensOf (fun b => !blockMask b h)) i h d =
        attend q keys values (fun h => tokensOf (fun b => blockMask b h)) i h d
    else expSum univ (logits q keys i h) (fun k => values k h d) = 0

/-- Every head that retains a block retains, for every query row, a logit the running maximum
can see. -/
def RetainedLogitSeen (q : Tensor ℝ Q heads dim) (keys : Tensor ℝ (nb * bs) heads dim)
    (blockMask : Fin nb → Fin heads → Bool) : Prop :=
  ∀ i h, (∃ b, blockMask b h = true) →
    ∃ k ∈ tokensOf (fun b => blockMask b h), -1e9 ≤ logits q keys i h k

theorem pallasGrid_clampedMean (q : Tensor ℝ Q heads dim)
    (keys values : Tensor ℝ (nb * bs) heads dim) (blockMask : Fin nb → Fin heads → Bool)
    (i : Fin Q) (h : Fin heads) (d : Fin dim) :
    pallasGrid (pallasSparseAttentionKernel .exact) q keys values blockMask i h d =
      clampedMean (-1e9) 1e-9 (tokensOf (fun b => blockMask b h)) (logits q keys i h)
        (fun k => values k h d) :=
  pallasSparseAttentionKernel_exact _ _ _ _ i d

theorem clampedMean_univ_eq_iff (mask : Fin nb → Bool) (z v : Fin (nb * bs) → ℝ)
    (seen : (∃ b, mask b = true) →
      ∃ k ∈ (tokensOf mask : Finset (Fin (nb * bs))), -1e9 ≤ z k) :
    clampedMean (-1e9) 1e-9 univ z v = clampedMean (-1e9) 1e-9 (tokensOf mask) z v ↔
      if ∃ b, mask b = true then
        (∀ b, mask b = true) ∨
          softmaxMean (tokensOf (fun b => !mask b)) z v = softmaxMean (tokensOf mask) z v
      else expSum univ z v = 0 := by
  by_cases retained : ∃ b, mask b = true
  · obtain ⟨k, member, level⟩ := seen retained
    rw [if_pos retained, clampedMean_eq _ _ _ _ _ (by norm_num) ⟨k, mem_univ k, level⟩,
      clampedMean_eq _ _ _ _ _ (by norm_num) ⟨k, member, level⟩]
    by_cases all : ∀ b, mask b = true
    · have every : mask = fun _ => true := funext all
      rw [every, tokensOf_all]
      simp
    · have outside : (tokensOf mask : Finset (Fin (nb * bs)))ᶜ.Nonempty := by
        rw [compl_tokensOf, tokensOf_nonempty_iff]
        simpa using all
      rw [softmaxMean_univ_eq_iff _ _ _ ⟨k, member⟩ outside, compl_tokensOf, or_iff_right all]
  · have positive := clampedMass_pos (-1e9) 1e-9 univ z (by norm_num)
    rw [if_neg retained, tokensOf_eq_empty mask retained, clampedMean_empty, clampedMean,
      div_eq_zero_iff, or_iff_left positive.ne']

/-- Both v2 kernels return what v1 returns exactly when eviction changes nothing. -/
theorem v2_eq_v1_iff (q : Tensor ℝ Q heads dim) (keys values : Tensor ℝ (nb * bs) heads dim)
    (blockMask : Fin nb → Fin heads → Bool) (seen : RetainedLogitSeen q keys blockMask) :
    (∀ usePlWhen, compilePallasSparseAttentionV2 .exact true usePlWhen q keys values blockMask =
        pallasGrid (pallasSparseAttentionKernel .exact) q keys values blockMask) ↔
      EvictionNeutral q keys values blockMask := by
  rw [Bool.forall_bool, compilePallasSparseAttentionV2_where,
    compilePallasSparseAttentionV2_guarded]
  simp only [true_and, funext_iff, pallasGrid_clampedMean, tokensOf_all]
  apply forall₃_congr
  intro i h d
  exact clampedMean_univ_eq_iff _ _ _ (seen i h)

def secondValue : Tensor ℝ (2 * 1) 1 1 := fun k _ _ => if k = 1 then 1 else 0

def firstBlockMask (b : Fin 2) (_h : Fin 1) : Bool := decide (b.val = 0)

theorem tokensOf_firstBlockMask (h : Fin 1) :
    (tokensOf (fun b => firstBlockMask b h) : Finset (Fin (2 * 1))) = {0} := by
  decide +revert

theorem retainedLogitSeen_firstBlockMask :
    RetainedLogitSeen (zeros : Tensor ℝ 1 1 1) (zeros : Tensor ℝ (2 * 1) 1 1) firstBlockMask := by
  intro i h _
  refine ⟨0, by simp [tokensOf_firstBlockMask], ?_⟩
  rw [logits_zeros]
  norm_num

theorem v2_eq_v1_equal_blocks :
    compilePallasSparseAttentionV2 .exact true true (zeros : Tensor ℝ 1 1 1)
        (zeros : Tensor ℝ (2 * 1) 1 1) ones firstBlockMask =
      pallasGrid (pallasSparseAttentionKernel .exact) zeros (zeros : Tensor ℝ (2 * 1) 1 1) ones
        firstBlockMask := by
  refine (v2_eq_v1_iff _ _ _ _ retainedLogitSeen_firstBlockMask).mpr (fun i h d => ?_) true
  have evicted : (tokensOf (fun b => !firstBlockMask b h) : Finset (Fin (2 * 1))) = {1} := by
    decide +revert
  rw [if_pos ⟨0, rfl⟩]
  refine .inr ?_
  simp [attend, tokensOf_firstBlockMask, evicted, softmaxMean, expSum, expMass, logits_zeros, ones]

/-- The first block is retained with logit zero, the second evicted: v1 returns zero, the
guarded kernel one half. -/
theorem guarded_ne_v1_evicted :
    RetainedLogitSeen (zeros : Tensor ℝ 1 1 1) (zeros : Tensor ℝ (2 * 1) 1 1) firstBlockMask ∧
    ¬∀ usePlWhen,
      compilePallasSparseAttentionV2 .exact true usePlWhen (zeros : Tensor ℝ 1 1 1) zeros
          secondValue firstBlockMask =
        pallasGrid (pallasSparseAttentionKernel .exact) zeros zeros secondValue
          firstBlockMask := by
  refine ⟨retainedLogitSeen_firstBlockMask, fun same => ?_⟩
  have entry := congrFun (congrFun (congrFun (same true) 0) 0) 0
  have positive := clampedMass_pos (-1e9) 1e-9 (univ : Finset (Fin (2 * 1)))
    (logits (zeros : Tensor ℝ 1 1 1) zeros 0 0) (by norm_num)
  rw [compilePallasSparseAttentionV2_guarded, pallasGrid_clampedMean, pallasGrid_clampedMean,
    tokensOf_all, tokensOf_firstBlockMask, clampedMean, clampedMean, div_eq_iff positive.ne'] at entry
  simp [expSum, secondValue] at entry

end Guarded

end OrthoCache.KernelAgreement
