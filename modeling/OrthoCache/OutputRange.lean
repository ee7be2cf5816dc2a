import OrthoCache.Foundation.SoftmaxRange
import OrthoCache.AdaptiveAttention
import OrthoCache.Pipeline

/-!
The range of what the attention paths return. Whatever the logits, the mask and the mode are, an
output of the end-to-end call lies between the smallest and the largest value of its head and
coordinate, or zero; and every state of the adaptive loops keeps a normaliser of at most the number
of tokens it has seen.
-/

namespace OrthoCache.OutputRange
open Finset Foundation.SoftmaxMean Foundation.OnlineSoftmax Foundation.StablePartition
open Foundation.RowMajor Arrays AttentionSpec SparseAttention Compaction Partitioning Pipeline

theorem weighs_flushing : Weighs Arith.flushing.exp :=
  weighs_of_flushesBelow flushing_flushesBelow (by norm_num)

section Paths
variable {R : Type} [Field R] [LinearOrder R] [IsStrictOrderedRing R] {Q nb bs heads dim : ℕ}
  {A : Arith R} (weighs : Weighs A.exp)
include weighs

theorem denseAttention_between {n : ℕ} (q : Tensor R Q heads dim) (keys values : Tensor R n heads dim)
    (i : Fin Q) (h : Fin heads) (d : Fin dim) {low high : R} (nonempty : n ≠ 0)
    (between : ∀ k, low ≤ values k h d ∧ values k h d ≤ high) :
    low ≤ denseAttention A q keys values i h d ∧ denseAttention A q keys values i h d ≤ high := by
  have : NeZero n := ⟨nonempty⟩
  exact sum_softmax_between weighs _ between

variable [NeZero bs] (q : Tensor R Q heads dim) (keys values : Tensor R (nb * bs) heads dim)
  (blockMask : Fin nb → Fin heads → Bool)

theorem jaxBlockSparseAttention_between [NeZero nb] (i : Fin Q) (h : Fin heads) (d : Fin dim)
    {low high : R} (between : ∀ k, low ≤ values k h d ∧ values k h d ≤ high) :
    low ≤ jaxBlockSparseAttention A q keys values blockMask i h d ∧
      jaxBlockSparseAttention A q keys values blockMask i h d ≤ high := by
  have : NeZero (nb * bs) := ⟨Nat.mul_ne_zero (NeZero.ne nb) (NeZero.ne bs)⟩
  exact sum_softmax_between weighs _ between

theorem pallasSparseAttentionKernel_between (q : Fin Q → Fin dim → R)
    (k v : Fin (nb * bs) → Fin dim → R) (mask : Fin nb → Bool) (i : Fin Q) (d : Fin dim)
    {low high : R} (negative : low ≤ 0) (nonneg : 0 ≤ high)
    (between : ∀ t, low ≤ v t d ∧ v t d ≤ high) :
    low ≤ pallasSparseAttentionKernel A q k v mask i d ∧
      pallasSparseAttentionKernel A q k v mask i d ≤ high := by
  rw [pallasSparseAttentionKernel_row]
  have run := run_stable weighs (blocked (fun t => logit A (q i) (k t))) (blocked v) (selected mask)
    (stable_init low high (-1e9) d) (fun b _ t => between (finProdFinEquiv (b, t)))
  exact run.clamped_between (by norm_num) negative nonneg

theorem compilePallasSparseAttention_between [NeZero nb] (isTpu : Bool) (i : Fin Q) (h : Fin heads)
    (d : Fin dim) {low high : R} (negative : low ≤ 0) (nonneg : 0 ≤ high)
    (between : ∀ k, low ≤ values k h d ∧ values k h d ≤ high) :
    low ≤ compilePallasSparseAttention A isTpu q keys values blockMask i h d ∧
      compilePallasSparseAttention A isTpu q keys values blockMask i h d ≤ high := by
  cases isTpu with
  | true =>
    exact pallasSparseAttentionKernel_between weighs _ _ _ _ i d negative nonneg between
  | false =>
    exact jaxBlockSparseAttention_between weighs q keys values blockMask i h d between

theorem compactAndAttend_between [NeZero nb] (isTpu : Bool) (i : Fin Q) (h : Fin heads)
    (d : Fin dim) {low high : R} (negative : low ≤ 0) (nonneg : 0 ≤ high)
    (between : ∀ k, low ≤ values k h d ∧ values k h d ≤ high) :
    low ≤ (compactAndAttend A isTpu q keys values blockMask).1 i h d ∧
      (compactAndAttend A isTpu q keys values blockMask).1 i h d ≤ high := by
  refine compilePallasSparseAttention_between weighs q _ _ _ isTpu i h d negative nonneg
    (fun k => ?_)
  rw [← index_div_mod k, compactValues_flat]
  split_ifs
  · exact between _
  · exact ⟨negative, nonneg⟩

/-- Whatever the mode, an output of the end-to-end call is no larger than the values it averages. -/
theorem orthocacheForward_between [NeZero Q] [NeZero nb] (isTpu : Bool) (q : Tensor R Q heads dim)
    (keys values : Tensor R (nb * 512) heads dim) (zetaMax : R) (tau : Option R) (mode : Mode)
    (output : Tensor R Q heads dim) (metadata : Metadata R)
    (returned : orthocacheForward A isTpu q keys values zetaMax tau mode = .ok (output, metadata))
    (i : Fin Q) (h : Fin heads) (d : Fin dim) (low high : R) (negative : low ≤ 0) (nonneg : 0 ≤ high)
    (between : ∀ k, low ≤ values k h d ∧ values k h d ≤ high) :
    low ≤ output i h d ∧ output i h d ≤ high := by
  cases mode with
  | dense =>
    obtain ⟨rfl, _⟩ := Prod.mk.inj (Except.ok.inj returned)
    exact denseAttention_between weighs q keys values i h d
      (Nat.mul_ne_zero (NeZero.ne nb) (by decide)) between
  | compact =>
    obtain ⟨rfl, _⟩ := Prod.mk.inj (Except.ok.inj returned)
    exact compactAndAttend_between weighs q keys values _ isTpu i h d negative nonneg between
  | sparse =>
    obtain ⟨rfl, _⟩ := Prod.mk.inj (Except.ok.inj returned)
    exact compilePallasSparseAttention_between weighs q keys values _ isTpu i h d negative nonneg
      between
  | unknown name => cases returned

end Paths

/-! ### The adaptive loops -/

section Loops
open AdaptiveAttention
variable {R : Type} [Field R] [LinearOrder R] [IsStrictOrderedRing R] {Q n nb heads dim bs : ℕ}
  [NeZero bs] [NeZero nb] {A : Arith R} (fits : bs ≤ n) (q : Tensor R Q heads dim)
  (kCache vCache : Tensor R n heads dim) (activeIndices : Fin nb → Fin nb) (turns : ℕ)
  (i : Fin Q) (h : Fin heads) (d : Fin dim) {low high : R}

def Reached (A : Arith R) : Prop :=
  ∃ j < turns, ∃ t, -1e30 < logit A (q i h)
    (dynamicSlice kCache ((getClamped activeIndices j).val * bs) bs fits t h)

theorem headRun_stable (weighs : Weighs A.exp)
    (between : ∀ k, low ≤ vCache k h d ∧ vCache k h d ≤ high) :
    Stable low high (-1e30) (turns * bs) d (headRun A fits q kCache vCache activeIndices turns i h) := by
  have run := run_stable weighs
    (fun (b : Fin nb) t => logit A (q i h) (dynamicSlice kCache (b.val * bs) bs fits t h))
    (fun b t => dynamicSlice vCache (b.val * bs) bs fits t h)
    ((List.range turns).map (getClamped activeIndices)) (stable_init low high (-1e30) d)
    (fun b _ t => between _)
  rw [List.length_map, List.length_range, Fintype.card_fin, Nat.zero_add] at run
  exact run

/-- After any number of turns, whatever the table holds, both adaptive loops are in the same state.
Its normaliser counts each token at most once, and from the first logit above the initial maximum on
it is at least one and divides to a value between those of the cache. -/
theorem adaptiveLoops_stable (weighs : Weighs A.exp)
    (between : ∀ k, low ≤ vCache k h d ∧ vCache k h d ≤ high) :
    let acc := multiheadCarry bs A fits q kCache vCache activeIndices turns i h
    vmapHeadsCarry bs A fits q kCache vCache activeIndices turns i h = acc ∧
      Stable low high (-1e30) (turns * bs) d acc ∧
      (Reached fits q kCache activeIndices turns i h A →
        1 ≤ acc.sum ∧ low ≤ acc.out d / acc.sum ∧ acc.out d / acc.sum ≤ high) := by
  intro acc
  have carried : acc = headRun A fits q kCache vCache activeIndices turns i h :=
    multiheadCarry_eq A fits q kCache vCache activeIndices turns i h
  have stable := headRun_stable fits q kCache vCache activeIndices turns i h d weighs between
  rw [← carried] at stable
  refine ⟨(vmapHeadsCarry_eq A fits q kCache vCache activeIndices turns i h).trans carried.symm,
    stable, ?_⟩
  rintro ⟨j, before, t, above⟩
  have visited : getClamped activeIndices j ∈ (List.range turns).map (getClamped activeIndices) :=
    List.mem_map_of_mem (List.mem_range.mpr before)
  have top : -1e30 < acc.max := by
    rw [carried]
    exact above.trans_le (logit_le_run_max A.exp
      (fun (b : Fin nb) t => logit A (q i h) (dynamicSlice kCache (b.val * bs) bs fits t h))
      (fun b t => dynamicSlice vCache (b.val * bs) bs fits t h) _ _ _ visited t)
  have full := stable.one_le top
  exact ⟨full, stable.between (zero_lt_one.trans_le full)⟩

end Loops

/-! ### Samples -/

theorem orthocacheForward_between_ones :
    0 ≤ compilePallasSparseAttention .flushing true (ones : Tensor ℝ 1 1 1)
        (ones : Tensor ℝ (2 * 512) 1 1) ones
        (gateMask .flushing (ones : Tensor ℝ 1 1 1) (ones : Tensor ℝ (2 * 512) 1 1) 5 none) 0 0 0 ∧
      compilePallasSparseAttention .flushing true (ones : Tensor ℝ 1 1 1)
        (ones : Tensor ℝ (2 * 512) 1 1) ones
        (gateMask .flushing (ones : Tensor ℝ 1 1 1) (ones : Tensor ℝ (2 * 512) 1 1) 5 none) 0 0 0 ≤
          1 :=
  orthocacheForward_between weighs_flushing true ones ones ones 5 none .sparse _ _ rfl 0 0 0 0 1 le_rfl
    zero_le_one (fun _ => ⟨zero_le_one, le_rfl⟩)

theorem adaptiveLoops_stable_ones :
    let acc := AdaptiveAttention.multiheadCarry 1 .flushing (by decide : 1 ≤ 2)
      (ones : Tensor ℝ 1 1 1) (ones : Tensor ℝ 2 1 1) ones (fun _ : Fin 2 => 1) 2 0 0
    1 ≤ acc.sum ∧ 1 ≤ acc.out 0 / acc.sum ∧ acc.out 0 / acc.sum ≤ 1 := by
  have stable := adaptiveLoops_stable (by decide : 1 ≤ 2) (ones : Tensor ℝ 1 1 1)
    (ones : Tensor ℝ 2 1 1) (ones : Tensor ℝ 2 1 1) (fun _ : Fin 2 => 1) 2 0 0 0 weighs_flushing
    (fun _ => ⟨le_rfl, le_rfl⟩)
  refine stable.2.2 ⟨0, by decide, 0, ?_⟩
  simp only [logit, ones, dynamicSlice, mul_one, univ_unique, sum_const, card_singleton, one_smul,
    Nat.cast_one]
  have root : Arith.flushing.sqrt 1 = 1 := Real.sqrt_one
  rw [root]
  norm_num

end OrthoCache.OutputRange
