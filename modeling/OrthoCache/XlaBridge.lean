import OrthoCache.Arrays

/-!
The emulation of the compiler pass in array operations. A mask selects blocks, for all heads at
once or head by head. Compacted attention gathers the selected blocks to the front and masks the
positions behind them; predicated attention masks the tokens where they stand.
-/

namespace OrthoCache.XlaBridge
open Finset Foundation.SoftmaxMean Foundation.StablePartition Foundation.RowMajor Arrays

section Model
variable {nb heads : ℕ}

/-- A mask of shape `(num_blocks,)` or `(num_blocks, num_heads)`. -/
inductive BlockMask (nb heads : ℕ)
  | blocks (mask : Fin nb → Bool)
  | blocksAndHeads (mask : Fin nb → Fin heads → Bool)

def BlockMask.mask1d : BlockMask nb heads → Fin nb → Bool
  | blocks mask => mask
  | blocksAndHeads mask => anyHead mask

def streamCompact (blockMask : BlockMask nb heads) : Equiv.Perm (Fin nb) × ℕ :=
  (argsort (offsetKey blockMask.mask1d), countActive blockMask.mask1d)

end Model

section Attention
variable {R : Type} [Field R] [LinearOrder R] {Q nb bs heads dim : ℕ}

/-- Attention on the gathered blocks. All blocks are gathered; the scores behind the active ones are
masked by position. -/
def compactedAttention (A : Arith R) (q : Tensor R Q heads dim) (k v : Tensor R (nb * bs) heads dim)
    (blockMask : BlockMask nb heads) : Tensor R Q heads dim :=
  let (activeIndices, numActive) := streamCompact blockMask
  let kBlocks := blocked k
  let vBlocks := blocked v
  let kCompacted := fun j => kBlocks (activeIndices j)
  let vCompacted := fun j => vBlocks (activeIndices j)
  let kFlat := flattened kCompacted
  let vFlat := flattened vCompacted
  let validLen := numActive * bs
  let logits := fun i pos h => logit A (q i h) (kFlat pos h)
  let logitsMasked := fun i (pos : Fin (nb * bs)) h =>
    if pos.val < validLen then logits i pos h else -1e9
  let attnWeights := fun i pos h => softmax A.exp (fun pos => logitsMasked i pos h) pos
  fun i h d => ∑ pos, attnWeights i pos h * vFlat pos h d

/-- `jnp.repeat` of the mask over the tokens of a block; a mask without heads is broadcast. -/
def BlockMask.tokenMask : BlockMask nb heads → Fin (nb * bs) → Fin heads → Bool
  | blocks mask => fun t _ => mask t.divNat
  | blocksAndHeads mask => fun t h => mask t.divNat h

def predicatedAttention (A : Arith R) (q : Tensor R Q heads dim)
    (k v : Tensor R (nb * bs) heads dim) (blockMask : BlockMask nb heads) : Tensor R Q heads dim :=
  let logits := fun i t h => logit A (q i h) (k t h)
  let logitsMasked := fun i t h => if blockMask.tokenMask t h then logits i t h else -1e9
  let weights := fun i t h => softmax A.exp (fun t => logitsMasked i t h) t
  fun i h d => ∑ t, weights i t h * v t h d

end Attention

theorem streamCompact_partition {nb heads : ℕ} (blockMask : BlockMask nb heads) :
    IsStablePartition blockMask.mask1d (streamCompact blockMask).1 :=
  argsort_offsetKey blockMask.mask1d

/-! ### Emulated compaction -/

section Emulation
variable {Q nb bs heads dim : ℕ}

def BlockMask.HeadUniform : BlockMask nb heads → Prop
  | blocks _ => True
  | blocksAndHeads mask => ∀ b h h', mask b h = mask b h'

theorem BlockMask.tokenMask_eq {blockMask : BlockMask nb heads} (uniform : blockMask.HeadUniform)
    (t : Fin (nb * bs)) (h : Fin heads) : blockMask.tokenMask t h = blockMask.mask1d t.divNat := by
  cases blockMask with
  | blocks mask => rfl
  | blocksAndHeads mask =>
    rw [Bool.eq_iff_iff]
    constructor
    · intro kept
      exact (anyHead_iff mask _).mpr ⟨h, kept⟩
    · intro some
      obtain ⟨h', kept⟩ := (anyHead_iff mask _).mp some
      exact (uniform _ h h').trans kept

def gathered (order : Equiv.Perm (Fin nb)) : Equiv.Perm (Fin (nb * bs)) :=
  finProdFinEquiv.symm.trans ((Equiv.prodCongr order (Equiv.refl _)).trans finProdFinEquiv)

theorem gathered_divNat (order : Equiv.Perm (Fin nb)) (pos : Fin (nb * bs)) :
    (gathered order pos).divNat = order pos.divNat := index_divNat _ _

theorem flattened_gathered {α : Type} (order : Equiv.Perm (Fin nb)) (x : Fin (nb * bs) → α)
    (pos : Fin (nb * bs)) : flattened (fun j => blocked x (order j)) pos = x (gathered order pos) :=
  rfl

theorem valid_iff (blockMask : BlockMask nb heads) (pos : Fin (nb * bs)) :
    pos.val < (streamCompact blockMask).2 * bs ↔
      blockMask.mask1d ((streamCompact blockMask).1 pos.divNat) = true := by
  have front := (streamCompact_partition blockMask).mask_apply_iff pos.divNat
  rw [front, ← countActive_eq]
  exact (Nat.div_lt_iff_lt_mul (Nat.pos_of_mul_pos_left (Nat.zero_lt_of_lt pos.isLt))).symm

/-- On a mask that is the same for all heads the compacted scores and values are those of the
predicated attention, moved by the gather. -/
theorem compactedAttention_eq_predicatedAttention (q : Tensor ℝ Q heads dim)
    (k v : Tensor ℝ (nb * bs) heads dim) (blockMask : BlockMask nb heads)
    (uniform : blockMask.HeadUniform) :
    compactedAttention .exact q k v blockMask = predicatedAttention .exact q k v blockMask := by
  funext i h d
  let order : Equiv.Perm (Fin nb) := (streamCompact blockMask).1
  let scores : Fin (nb * bs) → ℝ := fun t =>
    if blockMask.tokenMask t h then logit .exact (q i h) (k t h) else -1e9
  let values : Fin (nb * bs) → ℝ := fun t => v t h d
  have moved (pos : Fin (nb * bs)) :
      (if pos.val < (streamCompact blockMask).2 * bs then
        logit .exact (q i h) (flattened (fun j => blocked k (order j)) pos h) else -1e9) =
      scores (gathered order pos) := by
    simp only [scores, BlockMask.tokenMask_eq uniform, gathered_divNat, valid_iff,
      flattened_gathered]
    rfl
  have compacted : compactedAttention .exact q k v blockMask i h d =
      softmaxMean univ (fun pos => scores (gathered order pos))
        (fun pos => values (gathered order pos)) := by
    rw [← sum_softmax_exact]
    simp only [← moved]
    rfl
  have predicated : predicatedAttention .exact q k v blockMask i h d =
      softmaxMean univ scores values := by
    rw [← sum_softmax_exact]
    rfl
  rw [compacted, predicated, softmaxMean_equiv (gathered order)]

theorem compactedAttention_second :
    let cache : Tensor ℝ (2 * 512) 2 1 := flattened (fun b _ _ _ => if b = 0 then -1 else 1)
    let second : BlockMask 2 2 := .blocksAndHeads (fun b _ => b = 1)
    compactedAttention .exact (ones : Tensor ℝ 1 2 1) cache cache second =
      predicatedAttention .exact ones cache cache second :=
  compactedAttention_eq_predicatedAttention _ _ _ _ (fun _ _ _ => rfl)

end Emulation

end OrthoCache.XlaBridge
