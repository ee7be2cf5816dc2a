import OrthoCache.AttentionSpec

/-!
Adaptive indirect attention: an online softmax over the active blocks of a one-dimensional
mask, read in place through the sort order. Short caches run one loop per head, long caches one
loop for all heads. The final cast to bfloat16 is left out.
-/

namespace OrthoCache.AdaptiveAttention
open Finset Foundation.SoftmaxMean Foundation.OnlineSoftmax Foundation.StablePartition
open Foundation.RowMajor Arrays AttentionSpec

section Model
variable {R : Type} [Field R] [LinearOrder R] {Q n nb heads dim : ℕ} (bs : ℕ) [NeZero bs]

def streamCompact (blockMask : Fin nb → Bool) : Equiv.Perm (Fin nb) × ℕ :=
  (argsort (offsetKey blockMask), countActive blockMask)

def singleHeadLoop [NeZero nb] (A : Arith R) (fits : bs ≤ n) (q : Fin Q → Fin dim → R)
    (kCache vCache : Fin n → Fin dim → R) (activeIndices : Fin nb → Fin nb) (numActive : ℕ) :
    Fin Q → Fin dim → R :=
  let body := fun i (carry : Fin Q → Acc R (Fin dim)) row =>
    let idx := getClamped activeIndices i
    let kBlk := dynamicSlice kCache (idx.val * bs) bs fits
    let vBlk := dynamicSlice vCache (idx.val * bs) bs fits
    (carry row).absorb A.exp (fun t => logit A (q row) (kBlk t)) vBlk
  let final := foriLoop numActive body (fun _ => .init (-1e30))
  fun row d => (final row).out d / (final row).sum

def vmapHeads [NeZero nb] (A : Arith R) (fits : bs ≤ n) (q : Tensor R Q heads dim)
    (kCache vCache : Tensor R n heads dim) (activeIndices : Fin nb → Fin nb) (numActive : ℕ) :
    Tensor R Q heads dim :=
  fun i h => singleHeadLoop bs A fits (fun i => q i h) (fun k => kCache k h)
    (fun k => vCache k h) activeIndices numActive i

def multiheadLoop [NeZero nb] (A : Arith R) (fits : bs ≤ n) (q : Tensor R Q heads dim)
    (kCache vCache : Tensor R n heads dim) (activeIndices : Fin nb → Fin nb) (numActive : ℕ) :
    Tensor R Q heads dim :=
  let body := fun i (carry : Fin Q → Fin heads → Acc R (Fin dim)) row h =>
    let idx := getClamped activeIndices i
    let kBlk := dynamicSlice kCache (idx.val * bs) bs fits
    let vBlk := dynamicSlice vCache (idx.val * bs) bs fits
    (carry row h).absorb A.exp (fun t => logit A (q row h) (kBlk t h)) (fun t => vBlk t h)
  let final := foriLoop numActive body (fun _ _ => .init (-1e30))
  fun row h d => (final row h).out d / (final row h).sum

def seqThreshold : ℕ := 16384

inductive Path where
  | zero
  | vmapHeads
  | multiheadLoop
  deriving DecidableEq, Repr

structure Stats (R : Type) where
  numActive : ℕ
  numBlocks : Option ℕ
  evictionRate : R
  path : Path

theorem neZero_of_active (blockMask : Fin nb → Bool) (some : (streamCompact blockMask).2 ≠ 0) :
    NeZero nb := by
  constructor
  rintro rfl
  exact some (Nat.le_zero.mp (countActive_le blockMask))

/-- An empty mask has no active block, so the table is only read where it has entries. -/
def orthocacheAttention (A : Arith R) (q : Tensor R Q heads dim)
    (kCache vCache : Tensor R n heads dim) (blockMask : Fin nb → Bool) :
    Except Raised (Tensor R Q heads dim × Stats R) :=
  let activeIndices := (streamCompact blockMask).1
  let numActive := (streamCompact blockMask).2
  if idle : numActive = 0 then
    .ok (zeros, { numActive := 0, numBlocks := none, evictionRate := 1, path := .zero })
  -- a cache shorter than one block has no blocks to divide the count by
  else if fits : bs ≤ n then
    haveI := neZero_of_active blockMask idle
    let stats := fun path =>
      { numActive := numActive
        numBlocks := some (n / bs)
        evictionRate := 1 - (numActive : R) / (n / bs : ℕ)
        path := path }
    if n ≤ seqThreshold then
      .ok (vmapHeads bs A fits q kCache vCache activeIndices numActive, stats .vmapHeads)
    else .ok (multiheadLoop bs A fits q kCache vCache activeIndices numActive,
      stats .multiheadLoop)
  else .error .zeroDivision

section Batch
variable {B : ℕ}

/-- `jax.vmap` over the batch; the table has a batch axis too. -/
def batchVmapHeads [NeZero nb] (A : Arith R) (fits : bs ≤ n) (q : Fin B → Tensor R Q heads dim)
    (kCache vCache : Fin B → Tensor R n heads dim) (activeIndices : Fin B → Fin nb → Fin nb)
    (numActive : ℕ) : Fin B → Tensor R Q heads dim :=
  fun b => vmapHeads bs A fits (q b) (kCache b) (vCache b) (activeIndices b) numActive

def batchMultiheadLoop [NeZero nb] (A : Arith R) (fits : bs ≤ n)
    (q : Fin B → Tensor R Q heads dim) (kCache vCache : Fin B → Tensor R n heads dim)
    (activeIndices : Fin B → Fin nb → Fin nb) (numActive : ℕ) : Fin B → Tensor R Q heads dim :=
  fun b => multiheadLoop bs A fits (q b) (kCache b) (vCache b) (activeIndices b) numActive

inductive BatchPath where
  | zero
  | batchVmapHeads
  | batchMultiheadLoop
  deriving DecidableEq, Repr

structure BatchStats (R : Type) where
  numActive : ℕ
  numBlocks : Option ℕ
  evictionRate : R
  batchSize : Option ℕ
  path : BatchPath

def orthocacheAttentionBatched (A : Arith R) (q : Fin B → Tensor R Q heads dim)
    (kCache vCache : Fin B → Tensor R n heads dim) (blockMask : Fin nb → Bool) :
    Except Raised ((Fin B → Tensor R Q heads dim) × BatchStats R) :=
  let activeIndices := (streamCompact blockMask).1
  let numActive := (streamCompact blockMask).2
  if idle : numActive = 0 then
    .ok (fun _ => zeros,
      { numActive := 0
        numBlocks := none
        evictionRate := 1
        batchSize := none
        path := .zero })
  else if fits : bs ≤ n then
    haveI := neZero_of_active blockMask idle
    let indicesBatched := fun (_ : Fin B) => activeIndices
    let stats := fun path =>
      { numActive := numActive
        numBlocks := some (n / bs)
        evictionRate := 1 - (numActive : R) / (n / bs : ℕ)
        batchSize := some B
        path := path }
    if n ≤ seqThreshold then
      .ok (batchVmapHeads bs A fits q kCache vCache (fun b => indicesBatched b) numActive,
        stats .batchVmapHeads)
    else .ok (batchMultiheadLoop bs A fits q kCache vCache (fun b => indicesBatched b) numActive,
      stats .batchMultiheadLoop)
  else .error .zeroDivision

end Batch

end Model

section Carries
variable {R : Type} [Field R] [LinearOrder R] {Q n nb heads dim : ℕ} (bs : ℕ) [NeZero bs]
  [NeZero nb] (A : Arith R) (fits : bs ≤ n)

/-- The carry `(m_f, l_f, o_f)` with which `_single_head_loop` reaches its division. -/
def singleHeadCarry (q : Fin Q → Fin dim → R) (kCache vCache : Fin n → Fin dim → R)
    (activeIndices : Fin nb → Fin nb) (numActive : ℕ) : Fin Q → Acc R (Fin dim) :=
  let body := fun i (carry : Fin Q → Acc R (Fin dim)) row =>
    let idx := getClamped activeIndices i
    let kBlk := dynamicSlice kCache (idx.val * bs) bs fits
    let vBlk := dynamicSlice vCache (idx.val * bs) bs fits
    (carry row).absorb A.exp (fun t => logit A (q row) (kBlk t)) vBlk
  foriLoop numActive body (fun _ => .init (-1e30))

def vmapHeadsCarry (q : Tensor R Q heads dim) (kCache vCache : Tensor R n heads dim)
    (activeIndices : Fin nb → Fin nb) (numActive : ℕ) : Fin Q → Fin heads → Acc R (Fin dim) :=
  fun i h => singleHeadCarry bs A fits (fun i => q i h) (fun k => kCache k h)
    (fun k => vCache k h) activeIndices numActive i

def multiheadCarry (q : Tensor R Q heads dim) (kCache vCache : Tensor R n heads dim)
    (activeIndices : Fin nb → Fin nb) (numActive : ℕ) : Fin Q → Fin heads → Acc R (Fin dim) :=
  let body := fun i (carry : Fin Q → Fin heads → Acc R (Fin dim)) row h =>
    let idx := getClamped activeIndices i
    let kBlk := dynamicSlice kCache (idx.val * bs) bs fits
    let vBlk := dynamicSlice vCache (idx.val * bs) bs fits
    (carry row h).absorb A.exp (fun t => logit A (q row h) (kBlk t h)) (fun t => vBlk t h)
  foriLoop numActive body (fun _ _ => .init (-1e30))

def normalised (carry : Fin Q → Fin heads → Acc R (Fin dim)) : Tensor R Q heads dim :=
  fun i h d => (carry i h).out d / (carry i h).sum

variable (q : Tensor R Q heads dim) (kCache vCache : Tensor R n heads dim)
  (activeIndices : Fin nb → Fin nb) (numActive : ℕ)

theorem vmapHeads_eq_normalised : vmapHeads bs A fits q kCache vCache activeIndices numActive =
    normalised (vmapHeadsCarry bs A fits q kCache vCache activeIndices numActive) := rfl

theorem multiheadLoop_eq_normalised :
    multiheadLoop bs A fits q kCache vCache activeIndices numActive =
      normalised (multiheadCarry bs A fits q kCache vCache activeIndices numActive) := rfl

end Carries

section Loops
variable {R : Type} [Field R] [LinearOrder R] {Q n nb heads dim bs : ℕ} [NeZero bs] [NeZero nb]
  (A : Arith R) (fits : bs ≤ n) (q : Tensor R Q heads dim) (kCache vCache : Tensor R n heads dim)
  (activeIndices : Fin nb → Fin nb) (numActive : ℕ)

/-- One query row and head of either loop: an online run over the blocks looked up in the table. -/
def headRun (i : Fin Q) (h : Fin heads) : Acc R (Fin dim) :=
  Acc.run A.exp (fun b t => logit A (q i h) (dynamicSlice kCache (b.val * bs) bs fits t h))
    (fun b t => dynamicSlice vCache (b.val * bs) bs fits t h) (.init (-1e30))
    ((List.range numActive).map (getClamped activeIndices))

theorem vmapHeadsCarry_eq (i : Fin Q) (h : Fin heads) :
    vmapHeadsCarry bs A fits q kCache vCache activeIndices numActive i h =
      headRun A fits q kCache vCache activeIndices numActive i h := by
  have row := foldl_row (fun step i (acc : Acc R (Fin dim)) => acc.absorb A.exp
      (fun t => logit A (q i h)
        (dynamicSlice (fun k => kCache k h) ((getClamped activeIndices step).val * bs) bs fits t))
      (dynamicSlice (fun k => vCache k h) ((getClamped activeIndices step).val * bs) bs fits))
    (fun _ => .init (-1e30)) (List.range numActive) i
  simp only [vmapHeadsCarry, singleHeadCarry, foriLoop, row, headRun, Acc.run, List.foldl_map]
  rfl

theorem multiheadCarry_eq (i : Fin Q) (h : Fin heads) :
    multiheadCarry bs A fits q kCache vCache activeIndices numActive i h =
      headRun A fits q kCache vCache activeIndices numActive i h := by
  -- first the query row is followed, then the head inside it
  have row := foldl_row (fun step i (acc : Fin heads → Acc R (Fin dim)) h => (acc h).absorb A.exp
      (fun t => logit A (q i h)
        (dynamicSlice kCache ((getClamped activeIndices step).val * bs) bs fits t h))
      (fun t => dynamicSlice vCache ((getClamped activeIndices step).val * bs) bs fits t h))
    (fun _ _ => .init (-1e30)) (List.range numActive) i
  have head := foldl_row (fun step h (acc : Acc R (Fin dim)) => acc.absorb A.exp
      (fun t => logit A (q i h)
        (dynamicSlice kCache ((getClamped activeIndices step).val * bs) bs fits t h))
      (fun t => dynamicSlice vCache ((getClamped activeIndices step).val * bs) bs fits t h))
    (fun _ => .init (-1e30)) (List.range numActive) h
  simp only [multiheadCarry, foriLoop, row, head, headRun, Acc.run, List.foldl_map]

theorem multiheadLoop_row (i : Fin Q) (h : Fin heads) (d : Fin dim) :
    multiheadLoop bs A fits q kCache vCache activeIndices numActive i h d =
      (headRun A fits q kCache vCache activeIndices numActive i h).out d /
        (headRun A fits q kCache vCache activeIndices numActive i h).sum := by
  rw [multiheadLoop_eq_normalised, normalised, multiheadCarry_eq]

theorem multiheadLoop_eq : multiheadLoop bs A fits q kCache vCache activeIndices numActive =
    vmapHeads bs A fits q kCache vCache activeIndices numActive := by
  rw [multiheadLoop_eq_normalised, vmapHeads_eq_normalised]
  congr 1
  funext i h
  rw [multiheadCarry_eq, vmapHeadsCarry_eq]

end Loops

section Exact
variable {Q n nb heads dim bs : ℕ} [NeZero bs] [NeZero nb] (q : Tensor ℝ Q heads dim)
  (kCache vCache : Tensor ℝ n heads dim) (blockMask : Fin nb → Bool)

/-- Softmax average over the blocks that a mask retains, each read at its own offset. -/
noncomputable def attendBlocks (fits : bs ≤ n) : Tensor ℝ Q heads dim := fun i h d =>
  let z := fun b t => logits q (dynamicSlice kCache (b * bs) bs fits) i h t
  (∑ b with blockMask b = true,
      ∑ t, Real.exp (z b t) * dynamicSlice vCache (b.val * bs) bs fits t h d) /
    ∑ b with blockMask b = true, ∑ t, Real.exp (z b t)

theorem multiheadLoop_exact (fits : bs ≤ n) :
    multiheadLoop bs .exact fits q kCache vCache (argsort (offsetKey blockMask))
      (countActive blockMask) = attendBlocks q kCache vCache blockMask fits := by
  funext i h d
  rw [multiheadLoop_row, headRun, countActive_eq, map_getClamped_argsort]
  exact (run_div _ _ _ _ d).trans (congrArg₂ (· / ·) (sum_map_selected _ _) (sum_map_selected _ _))

/-- Whichever loop is dispatched, the active blocks are averaged. -/
theorem orthocacheAttention_exact (fits : bs ≤ n) (active : ∃ b, blockMask b = true) :
    (orthocacheAttention bs .exact q kCache vCache blockMask).map Prod.fst =
      .ok (attendBlocks q kCache vCache blockMask fits) := by
  have nonzero : (streamCompact blockMask).2 ≠ 0 := ((countActive_pos_iff blockMask).mpr active).ne'
  simp only [orthocacheAttention]
  rw [dif_neg nonzero, dif_pos fits, ← multiheadLoop_eq, ← multiheadLoop_exact]
  split_ifs <;> rfl

end Exact

section Batched
variable {R : Type} [Field R] [LinearOrder R] {B Q n nb heads dim bs : ℕ} [NeZero bs]
  (A : Arith R) (q : Fin B → Tensor R Q heads dim) (kCache vCache : Fin B → Tensor R n heads dim)
  (blockMask : Fin nb → Bool)

theorem orthocacheAttentionBatched_apply (b : Fin B) :
    (orthocacheAttentionBatched bs A q kCache vCache blockMask).map (fun result => result.1 b) =
      (orthocacheAttention bs A (q b) (kCache b) (vCache b) blockMask).map Prod.fst := by
  unfold orthocacheAttentionBatched orthocacheAttention
  by_cases idle : (streamCompact blockMask).2 = 0
  · simp only [dif_pos idle]
    rfl
  · simp only [dif_neg idle]
    by_cases fits : bs ≤ n
    · simp only [dif_pos fits]
      split_ifs <;> rfl
    · simp only [dif_neg fits]
      rfl

end Batched

theorem attendBlocks_eq_attend {Q nb heads dim bs : ℕ} (q : Tensor ℝ Q heads dim)
    (kCache vCache : Tensor ℝ (nb * bs) heads dim) (blockMask : Fin nb → Bool)
    (fits : bs ≤ nb * bs) : attendBlocks q kCache vCache blockMask fits =
      attend q kCache vCache (fun _ => tokensOf blockMask) := by
  funext i h d
  simp only [attendBlocks, attend, softmaxMean, expSum, expMass, sum_tokensOf,
    dynamicSlice_block]
  rfl

section Transparency
variable {Q nb heads dim bs : ℕ} [NeZero bs] (q : Tensor ℝ Q heads dim)
  (kCache vCache : Tensor ℝ (nb * bs) heads dim) (blockMask : Fin nb → Bool)

theorem orthocacheAttention_evicted (evicted : ¬∃ b, blockMask b = true) :
    (orthocacheAttention bs .exact q kCache vCache blockMask).map Prod.fst = .ok zeros := by
  have idle : (streamCompact blockMask).2 = 0 := by
    rw [← countActive_pos_iff] at evicted
    exact Nat.eq_zero_of_not_pos evicted
  simp only [orthocacheAttention]
  rw [dif_pos idle]
  rfl

/-- The dispatcher is transparent: one call attends to the active tokens, or returns zeros where
there are none, both loops agree on every table, and a batch is its elements. -/
theorem orthocacheAttention_transparent :
    (orthocacheAttention bs .exact q kCache vCache blockMask).map Prod.fst =
        .ok (if ∃ b, blockMask b = true then
          attend q kCache vCache (fun _ => tokensOf blockMask) else zeros) ∧
      (∀ (fits : bs ≤ nb * bs) [NeZero nb] (activeIndices : Fin nb → Fin nb) (numActive : ℕ),
        vmapHeads bs .exact fits q kCache vCache activeIndices numActive =
          multiheadLoop bs .exact fits q kCache vCache activeIndices numActive) ∧
      ∀ (B : ℕ) (q : Fin B → Tensor ℝ Q heads dim)
        (kCache vCache : Fin B → Tensor ℝ (nb * bs) heads dim) (b : Fin B),
        (orthocacheAttentionBatched bs .exact q kCache vCache blockMask).map
            (fun result => result.1 b) =
          (orthocacheAttention bs .exact (q b) (kCache b) (vCache b) blockMask).map Prod.fst := by
  refine ⟨?_, ?_, ?_⟩
  · by_cases active : ∃ b, blockMask b = true
    · have : NeZero nb := neZero_of_active blockMask ((countActive_pos_iff blockMask).mpr active).ne'
      rw [if_pos active, orthocacheAttention_exact q kCache vCache blockMask block_fits active,
        attendBlocks_eq_attend]
    · rw [if_neg active, orthocacheAttention_evicted q kCache vCache blockMask active]
  · intro fits _ activeIndices numActive
    exact (multiheadLoop_eq .exact fits q kCache vCache activeIndices numActive).symm
  · intro B q kCache vCache b
    exact orthocacheAttentionBatched_apply .exact q kCache vCache blockMask b

end Transparency

theorem orthocacheAttention_transparent_second :
    (orthocacheAttention 1 .exact (ones : Tensor ℝ 1 1 1) (zeros : Tensor ℝ (2 * 1) 1 1) ones
        (fun b : Fin 2 => b.val = 1)).map Prod.fst =
      .ok (attend ones (zeros : Tensor ℝ (2 * 1) 1 1) ones
        (fun _ => tokensOf (fun b : Fin 2 => b.val = 1))) := by
  have result := (orthocacheAttention_transparent (ones : Tensor ℝ 1 1 1)
    (zeros : Tensor ℝ (2 * 1) 1 1) ones (fun b : Fin 2 => b.val = 1)).1
  rw [if_pos ⟨1, by decide⟩] at result
  exact result

end OrthoCache.AdaptiveAttention
