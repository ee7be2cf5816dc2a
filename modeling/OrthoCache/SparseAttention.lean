import OrthoCache.AttentionSpec

/-!
The v1 block-sparse attention: the JAX fallback, which masks logits with the sentinel `-1e9`
and takes one softmax, and the Pallas kernel, which runs an online softmax per head and gates
the accumulators. Both have the closed forms their names suggest; they part ways on a head
that retains no block.
-/

namespace OrthoCache.SparseAttention
open Finset Foundation.SoftmaxMean Foundation.OnlineSoftmax Foundation.StablePartition
open Foundation.RowMajor Arrays AttentionSpec

section Model
variable {R : Type} [Field R] [LinearOrder R] {Q nb bs heads dim : ℕ}

def jaxBlockSparseAttention (A : Arith R) (q : Tensor R Q heads dim)
    (keys values : Tensor R (nb * bs) heads dim) (blockMask : Fin nb → Fin heads → Bool) :
    Tensor R Q heads dim :=
  let keysBlocked := blocked keys
  let logits := fun b i t h => logit A (q i h) (keysBlocked b t h)
  let logitsMasked := fun b i t h => if blockMask b h then logits b i t h else -1e9
  -- transpose to (query, block, token, head), then flatten block and token
  let logitsFlat := fun i h => flattened (fun b t => logitsMasked b i t h)
  let attnWeights := fun i k h => softmax A.exp (logitsFlat i h) k
  fun i h d => ∑ k, attnWeights i k h * values k h d

/-- Body of the kernel for one block: the operands of an evicted block are zeroed and its
accumulators are not written back. -/
def pallasBlockUpdate [NeZero bs] (A : Arith R) (q : Fin Q → Fin dim → R)
    (k v : Fin (nb * bs) → Fin dim → R) (mask : Fin nb → Bool) (b : Fin nb) (i : Fin Q)
    (acc : Acc R (Fin dim)) : Acc R (Fin dim) :=
  let kActive := fun t d => if mask b then blocked k b t d else 0
  let vActive := fun t d => if mask b then blocked v b t d else 0
  let next := acc.absorb A.exp (fun t => logit A (q i) (kActive t)) vActive
  if mask b then next else acc

/-- Final write-back of every online-softmax kernel: the normaliser is clamped at `1e-9`. -/
def normalizeClamped (acc : Acc R (Fin dim)) (d : Fin dim) : R := acc.out d / (acc.sum ⊔ 1e-9)

def pallasSparseAttentionKernel [NeZero bs] (A : Arith R) (q : Fin Q → Fin dim → R)
    (k v : Fin (nb * bs) → Fin dim → R) (mask : Fin nb → Bool) : Fin Q → Fin dim → R :=
  let final := (List.finRange nb).foldl
    (fun acc b i => pallasBlockUpdate A q k v mask b i (acc i)) (fun _ => .init (-1e9))
  fun i d => normalizeClamped (final i) d

/-- `pl.pallas_call` over a grid of heads: each program sees its own head's slices. -/
def pallasGrid {n m : ℕ} {α : Type} (kernel : (Fin Q → Fin dim → R) → (Fin n → Fin dim → R) →
    (Fin n → Fin dim → R) → (Fin m → α) → Fin Q → Fin dim → R) (q : Tensor R Q heads dim)
    (keys values : Tensor R n heads dim) (table : Fin m → Fin heads → α) : Tensor R Q heads dim :=
  fun i h d => kernel (fun i => q i h) (fun k => keys k h) (fun k => values k h)
    (fun b => table b h) i d

def compilePallasSparseAttention [NeZero bs] (A : Arith R) (isTpu : Bool)
    (q : Tensor R Q heads dim) (keys values : Tensor R (nb * bs) heads dim)
    (blockMask : Fin nb → Fin heads → Bool) : Tensor R Q heads dim :=
  if !isTpu then jaxBlockSparseAttention A q keys values blockMask
  else pallasGrid (pallasSparseAttentionKernel A) q keys values blockMask

end Model

section Kernel
variable {R : Type} [Field R] [LinearOrder R] {Q nb bs dim : ℕ} [NeZero bs]

/-- One query row of the kernel: an online-softmax run over the retained blocks only. -/
theorem pallasSparseAttentionKernel_row (A : Arith R) (q : Fin Q → Fin dim → R)
    (k v : Fin (nb * bs) → Fin dim → R) (mask : Fin nb → Bool) (i : Fin Q) :
    pallasSparseAttentionKernel A q k v mask i = normalizeClamped
      (Acc.run A.exp (blocked (fun t => logit A (q i) (k t))) (blocked v) (.init (-1e9))
        (selected mask)) := by
  have gate (b : Fin nb) (acc : Acc R (Fin dim)) : pallasBlockUpdate A q k v mask b i acc =
      if mask b then acc.absorb A.exp (blocked (fun t => logit A (q i) (k t)) b) (blocked v b)
      else acc := by
    unfold pallasBlockUpdate
    cases mask b <;> rfl
  have row := foldl_row (fun b i acc => pallasBlockUpdate A q k v mask b i acc)
    (fun _ => (.init (-1e9) : Acc R (Fin dim))) (List.finRange nb) i
  funext d
  simp only [pallasSparseAttentionKernel, row, gate]
  rw [selected, Acc.run_filter]

end Kernel

section Exact
variable {Q nb bs dim : ℕ} [NeZero bs]

theorem pallasSparseAttentionKernel_exact (q : Fin Q → Fin dim → ℝ)
    (k v : Fin (nb * bs) → Fin dim → ℝ) (mask : Fin nb → Bool) (i : Fin Q) (d : Fin dim) :
    pallasSparseAttentionKernel .exact q k v mask i d =
      clampedMean (-1e9) 1e-9 (tokensOf mask) (fun t => logit .exact (q i) (k t))
        (fun t => v t d) := by
  rw [pallasSparseAttentionKernel_row]
  exact run_selected_clampedMean _ v (-1e9) 1e-9 mask d

theorem pallasSparseAttentionKernel_flushing (q : Fin Q → Fin dim → ℝ)
    (k v : Fin (nb * bs) → Fin dim → ℝ) (mask : Fin nb → Bool) (i : Fin Q)
    (bounded : ∀ t, |logit .exact (q i) (k t)| ≤ 10 ^ 7) :
    pallasSparseAttentionKernel .flushing q k v mask i =
      pallasSparseAttentionKernel .exact q k v mask i := by
  have exact : ∀ x : ℝ, -(2 * 10 ^ 7) ≤ x → Arith.flushing.exp x = Real.exp x :=
    fun x above => flushing_flushesBelow.exact x (by linarith)
  have range : InRange (10 ^ 7) (.init (-1e9) : Acc ℝ (Fin dim)) :=
    ⟨by norm_num, .inr ⟨rfl, fun _ => rfl⟩⟩
  rw [pallasSparseAttentionKernel_row, pallasSparseAttentionKernel_row]
  congr 1
  exact run_eq_exact exact _ _ _ _ (fun b _ t => bounded _) range

/-- On bounded logits the kernel averages over the retained tokens, and is zero without any. -/
theorem pallasSparseAttentionKernel_mean (q : Fin Q → Fin dim → ℝ)
    (k v : Fin (nb * bs) → Fin dim → ℝ) (mask : Fin nb → Bool) (i : Fin Q) (d : Fin dim)
    (bounded : ∀ t, |logit .exact (q i) (k t)| ≤ 10 ^ 7) :
    pallasSparseAttentionKernel .flushing q k v mask i d =
      softmaxMean (tokensOf mask) (fun t => logit .exact (q i) (k t)) (fun t => v t d) := by
  rw [pallasSparseAttentionKernel_flushing q k v mask i bounded,
    pallasSparseAttentionKernel_exact]
  rcases (tokensOf mask : Finset (Fin (nb * bs))).eq_empty_or_nonempty with empty | ⟨t, member⟩
  · rw [empty, clampedMean_empty, softmaxMean_empty]
  · have lower := (abs_le.mp (bounded t)).1
    exact clampedMean_eq _ _ _ _ _ (by norm_num) ⟨t, member, by linarith⟩

end Exact

section Fallback
variable {Q nb bs heads dim : ℕ}

theorem flattened_mask {α : Type} (mask : Fin nb → Bool) (x : Fin (nb * bs) → α) (s : α) :
    flattened (fun b t => if mask b then blocked x b t else s) =
      fun k => if mask k.divNat then x k else s := by
  funext k
  rw [flattened, blocked_apply_div_mod]

/-- A head that retains a block: the sentinel weights vanish. -/
theorem jaxBlockSparseAttention_mean (q : Tensor ℝ Q heads dim)
    (keys values : Tensor ℝ (nb * bs) heads dim) (blockMask : Fin nb → Fin heads → Bool)
    (bounded : LogitsBounded (10 ^ 7) q keys) (i : Fin Q) (h : Fin heads) (d : Fin dim)
    (retained : (tokensOf (fun b => blockMask b h) : Finset (Fin (nb * bs))).Nonempty) :
    jaxBlockSparseAttention .flushing q keys values blockMask i h d =
      attend q keys values (fun h => tokensOf (fun b => blockMask b h)) i h d := by
  obtain ⟨k, member⟩ := retained
  have kept := (mem_tokensOf _ _).mp member
  have masked := sum_softmax_masked flushing_flushesBelow (fun k => blockMask k.divNat h)
    (logits q keys i h) (fun k => values k h d) (10 ^ 7) (-1e9) (fun k _ => bounded i h k)
    (by norm_num) (by norm_num) ⟨k, kept⟩
  rw [← flattened_mask (fun b => blockMask b h)] at masked
  exact masked

/-- A head that retains nothing: every logit is the sentinel, and the values are averaged
uniformly over the whole cache. -/
theorem jaxBlockSparseAttention_uniform (q : Tensor ℝ Q heads dim)
    (keys values : Tensor ℝ (nb * bs) heads dim) (blockMask : Fin nb → Fin heads → Bool)
    (i : Fin Q) (h : Fin heads) (d : Fin dim) (evicted : ∀ b, blockMask b h = false) :
    jaxBlockSparseAttention .flushing q keys values blockMask i h d =
      (∑ k, values k h d) / (nb * bs : ℕ) := by
  have uniform := sum_softmax_const Arith.flushing.exp flushing_exp_zero (-1e9)
    (fun k => values k h d)
  rw [Fintype.card_fin] at uniform
  rw [← uniform, jaxBlockSparseAttention]
  simp only [evicted, Bool.false_eq_true, ↓reduceIte]
  rfl

end Fallback

section Dispatch
variable {Q nb bs heads dim : ℕ} [NeZero bs]

theorem pallasGrid_mean (q : Tensor ℝ Q heads dim) (keys values : Tensor ℝ (nb * bs) heads dim)
    (blockMask : Fin nb → Fin heads → Bool) (bounded : LogitsBounded (10 ^ 7) q keys) :
    pallasGrid (pallasSparseAttentionKernel .flushing) q keys values blockMask =
      attend q keys values (fun h => tokensOf (fun b => blockMask b h)) := by
  funext i h d
  exact pallasSparseAttentionKernel_mean _ _ _ _ i d (bounded i h)

theorem compilePallasSparseAttention_mean (isTpu : Bool) (q : Tensor ℝ Q heads dim)
    (keys values : Tensor ℝ (nb * bs) heads dim) (blockMask : Fin nb → Fin heads → Bool)
    (bounded : LogitsBounded (10 ^ 7) q keys) (retained : ∀ h, ∃ b, blockMask b h = true) :
    compilePallasSparseAttention .flushing isTpu q keys values blockMask =
      attend q keys values (fun h => tokensOf (fun b => blockMask b h)) := by
  cases isTpu with
  | true => exact pallasGrid_mean q keys values blockMask bounded
  | false =>
    funext i h d
    exact jaxBlockSparseAttention_mean q keys values blockMask bounded i h d
      ((tokensOf_nonempty_iff _).mpr (retained h))

end Dispatch

end OrthoCache.SparseAttention
