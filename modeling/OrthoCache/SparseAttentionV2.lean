import OrthoCache.SparseAttention

/-! The v2 kernels: one gates the write-back with `jnp.where`, the other with `pl.when` around
a closure that rebinds the accumulators. -/

namespace OrthoCache.SparseAttentionV2
open Finset Foundation.SoftmaxMean Foundation.OnlineSoftmax Foundation.StablePartition
open Foundation.RowMajor Arrays AttentionSpec SparseAttention

section Model
variable {R : Type} [Field R] [LinearOrder R] {Q nb bs heads dim : ℕ} [NeZero bs]

def nextAccumulators (A : Arith R) (q : Fin Q → Fin dim → R) (k v : Fin (nb * bs) → Fin dim → R)
    (b : Fin nb) (i : Fin Q) (acc : Acc R (Fin dim)) : Acc R (Fin dim) :=
  acc.absorb A.exp (fun t => logit A (q i) (blocked k b t)) (blocked v b)

def sparseAttentionKernelV2 (A : Arith R) (q : Fin Q → Fin dim → R)
    (k v : Fin (nb * bs) → Fin dim → R) (mask : Fin nb → Bool) : Fin Q → Fin dim → R :=
  let final := (List.finRange nb).foldl
    (fun acc b i => if mask b then nextAccumulators A q k v b i (acc i) else acc i)
    (fun _ => .init (-1e9))
  fun i d => normalizeClamped (final i) d

/-- `pl.when(cond)(body)`: the body is traced once whatever `cond` is at run time, so the
Python-level rebinding in it always happens. Only traced operations would be predicated, and
the kernel's closure has none. -/
def plWhen {σ : Type} (_cond : Bool) (rebind : σ → σ) (state : σ) : σ := rebind state

def sparseAttentionKernelV2Guarded (A : Arith R) (q : Fin Q → Fin dim → R)
    (k v : Fin (nb * bs) → Fin dim → R) (mask : Fin nb → Bool) : Fin Q → Fin dim → R :=
  let final := (List.finRange nb).foldl
    (fun acc b => plWhen (mask b) (fun acc i => nextAccumulators A q k v b i (acc i)) acc)
    (fun _ => .init (-1e9))
  fun i d => normalizeClamped (final i) d

def compilePallasSparseAttentionV2 (A : Arith R) (isTpu usePlWhen : Bool)
    (q : Tensor R Q heads dim) (keys values : Tensor R (nb * bs) heads dim)
    (blockMask : Fin nb → Fin heads → Bool) : Tensor R Q heads dim :=
  if !isTpu then jaxBlockSparseAttention A q keys values blockMask
  else if usePlWhen then
    pallasGrid (sparseAttentionKernelV2Guarded A) q keys values blockMask
  else pallasGrid (sparseAttentionKernelV2 A) q keys values blockMask

end Model

section Kernels
variable {R : Type} [Field R] [LinearOrder R] {Q nb bs heads dim : ℕ} [NeZero bs]

theorem sparseAttentionKernelV2_eq (A : Arith R) :
    (sparseAttentionKernelV2 A : (Fin Q → Fin dim → R) → (Fin (nb * bs) → Fin dim → R) → _) =
      pallasSparseAttentionKernel A := by
  funext q k v mask
  have update (b : Fin nb) (i : Fin Q) (acc : Acc R (Fin dim)) :
      (if mask b then nextAccumulators A q k v b i acc else acc) =
        pallasBlockUpdate A q k v mask b i acc := by
    unfold pallasBlockUpdate nextAccumulators
    cases mask b <;> rfl
  simp only [sparseAttentionKernelV2, pallasSparseAttentionKernel, update]

/-- The guarded kernel does not read its mask: it runs as v1 with every block retained. -/
theorem sparseAttentionKernelV2Guarded_eq (A : Arith R) (q : Fin Q → Fin dim → R)
    (k v : Fin (nb * bs) → Fin dim → R) (mask : Fin nb → Bool) :
    sparseAttentionKernelV2Guarded A q k v mask =
      pallasSparseAttentionKernel A q k v (fun _ => true) := rfl

variable (A : Arith R) (q : Tensor R Q heads dim) (keys values : Tensor R (nb * bs) heads dim)
  (blockMask : Fin nb → Fin heads → Bool)

theorem compilePallasSparseAttentionV2_where :
    compilePallasSparseAttentionV2 A true false q keys values blockMask =
      pallasGrid (pallasSparseAttentionKernel A) q keys values blockMask := by
  rw [← sparseAttentionKernelV2_eq]
  rfl

theorem compilePallasSparseAttentionV2_guarded :
    compilePallasSparseAttentionV2 A true true q keys values blockMask =
      pallasGrid (pallasSparseAttentionKernel A) q keys values (fun _ _ => true) := by
  unfold compilePallasSparseAttentionV2 pallasGrid
  simp only [sparseAttentionKernelV2Guarded_eq]
  rfl

end Kernels

end OrthoCache.SparseAttentionV2
