import OrthoCache.BucketedAttention
import OrthoCache.DistributedAttention
import OrthoCache.DynamicAttention
import OrthoCache.IndirectAttention
import OrthoCache.OutputError
import OrthoCache.SparseAttentionV2
import OrthoCache.XlaBridge

/-!
All attention paths side by side, with an exponential that underflows far below the logits. The
paths that join the masks of the heads compute one function, and so do the paths that keep them
apart. The paths that look up whole buckets attend to some evicted blocks too, always the same.
-/

namespace OrthoCache.PathAgreement
open Finset Foundation.SoftmaxMean Foundation.OnlineSoftmax Foundation.StablePartition
open Foundation.RowMajor Arrays AttentionSpec SparseAttention SparseAttentionV2
open Buckets Compaction LeanAttention IndirectAttention BucketedAttention
open AdaptiveAttention hiding streamCompact
open XlaBridge hiding streamCompact streamCompact_partition gathered
open DistributedAttention hiding streamCompact
open DynamicAttention (dynamicMultiheadAttention dynamicMultiheadAttention_eq_kernel)
open OutputError (compilePallasSparseAttention_head)

theorem exp_flushing (x : ℝ) (above : -(2 * 10 ^ 7) ≤ x) :
    Arith.flushing.exp x = Real.exp x :=
  flushing_flushesBelow.exact x (by linarith)

/-! ### Loops over a table -/

section Loops
variable {Q n nb heads dim bs : ℕ} [NeZero bs] (q : Tensor ℝ Q heads dim)
  (kCache vCache : Tensor ℝ n heads dim) (bounded : LogitsBounded (10 ^ 7) q kCache)
include bounded

theorem headRun_flushing [NeZero nb] (fits : bs ≤ n) (activeIndices : Fin nb → Fin nb)
    (numActive : ℕ) (i : Fin Q) (h : Fin heads) :
    headRun .flushing fits q kCache vCache activeIndices numActive i h =
      headRun .exact fits q kCache vCache activeIndices numActive i h := by
  have range : InRange (10 ^ 7) (.init (-1e30) : Acc ℝ (Fin dim)) :=
    ⟨by norm_num, .inr ⟨rfl, fun _ => rfl⟩⟩
  exact run_eq_exact exp_flushing _ _ _ _ (fun b _ t => bounded i h _) range

theorem multiheadLoop_flushing [NeZero nb] (fits : bs ≤ n) (activeIndices : Fin nb → Fin nb)
    (numActive : ℕ) : multiheadLoop bs .flushing fits q kCache vCache activeIndices numActive =
      multiheadLoop bs .exact fits q kCache vCache activeIndices numActive := by
  funext i h d
  rw [multiheadLoop_row, multiheadLoop_row, headRun_flushing q kCache vCache bounded]

theorem orthocacheAttention_flushing (blockMask : Fin nb → Bool) :
    orthocacheAttention bs .flushing q kCache vCache blockMask =
      orthocacheAttention bs .exact q kCache vCache blockMask := by
  unfold orthocacheAttention
  simp only [← multiheadLoop_eq, multiheadLoop_flushing q kCache vCache bounded]

end Loops

section Devices
variable {P Q nb heads dim : ℕ} [NeZero nb] (q : Tensor ℝ Q heads dim)
  (kShard vShard : Fin P → Tensor ℝ (nb * 512) heads dim) (blockMask : Fin P → Fin nb → Bool)

theorem logitsBounded_packed (bounded : ∀ p, LogitsBounded (10 ^ 7) q (kShard p)) :
    LogitsBounded (10 ^ 7) q (allGatherTiled fun p =>
      packActiveBlocks (kShard p) (DistributedAttention.streamCompact (blockMask p)).1
        (DistributedAttention.streamCompact (blockMask p)).2) := by
  intro i h k
  set p := k.divNat
  have room : (DistributedAttention.streamCompact (blockMask p)).2 ≤ nb :=
    countActive_le (blockMask p)
  have packed := blocked_packActiveBlocks (kShard p)
    (DistributedAttention.streamCompact (blockMask p)).1 _ room k.modNat.divNat
  rw [logits, allGatherTiled, flattened, ← blocked_apply_div_mod (packActiveBlocks _ _ _), packed]
  split_ifs
  · exact bounded p i h _
  · have zero := logit_zero Arith.exact (q i h)
    exact (congrArg abs zero).trans_le (by norm_num)

theorem distributedOrthocacheAttention_flushing [NeZero P]
    (bounded : ∀ p, LogitsBounded (10 ^ 7) q (kShard p)) (p : Fin P) :
    distributedOrthocacheAttention .flushing (fun _ => q) kShard vShard blockMask p =
      distributedOrthocacheAttention .exact (fun _ => q) kShard vShard blockMask p :=
  multiheadLoop_flushing q _ _ (logitsBounded_packed q kShard blockMask bounded) gathered_fits _ _

end Devices

/-! ### Masked scores -/

section Masked
variable {Q nb bs heads dim : ℕ} (q : Tensor ℝ Q heads dim)
  (k v : Tensor ℝ (nb * bs) heads dim) (bounded : LogitsBounded (10 ^ 7) q k)
  (blockMask : BlockMask nb heads)
include bounded

theorem compactedAttention_flushing [NeZero bs] (active : ∃ b, blockMask.mask1d b = true) :
    compactedAttention .flushing q k v blockMask =
      attend q k v (fun _ => tokensOf blockMask.mask1d) := by
  let order : Equiv.Perm (Fin nb) := (XlaBridge.streamCompact blockMask).1
  let numActive := (XlaBridge.streamCompact blockMask).2
  have front : ({pos | decide (pos.val < numActive * bs) = true} : Finset (Fin (nb * bs))) =
      frontTokens (countActive blockMask.mask1d) := by
    ext pos
    rw [mem_filter_univ, frontTokens, mem_tokensOf, decide_eq_true_eq, decide_eq_true_eq]
    exact (Nat.div_lt_iff_lt_mul (NeZero.pos bs)).symm
  have first : ∃ pos : Fin (nb * bs), decide (pos.val < numActive * bs) = true := by
    have positive : 0 < numActive := (countActive_pos_iff blockMask.mask1d).mpr active
    have room : numActive ≤ nb := countActive_le blockMask.mask1d
    have token := Nat.mul_pos positive (NeZero.pos bs)
    exact ⟨⟨0, token.trans_le (Nat.mul_le_mul_right bs room)⟩, decide_eq_true token⟩
  funext i h d
  have masked := sum_softmax_masked flushing_flushesBelow
    (fun pos : Fin (nb * bs) => decide (pos.val < numActive * bs))
    (fun pos => logits q k i h (XlaBridge.gathered order pos))
    (fun pos => v (XlaBridge.gathered order pos) h d) (10 ^ 7) (-1e9)
    (fun pos _ => bounded i h _) (by norm_num) (by norm_num) first
  simp only [decide_eq_true_eq] at masked
  refine masked.trans ?_
  simp only [decide_eq_true_eq] at front
  rw [front]
  refine softmaxMean_frontTokens (XlaBridge.streamCompact_partition blockMask) _ _ _ _
    (fun j t _ => ?_)
  have place : XlaBridge.gathered order (finProdFinEquiv (j, t)) = finProdFinEquiv (order j, t) := by
    simp [XlaBridge.gathered]
  exact ⟨congrArg (logits q k i h) place, congrArg (fun k => v k h d) place⟩

theorem predicatedAttention_flushing (i : Fin Q) (h : Fin heads) (d : Fin dim)
    (retained : ∃ t : Fin (nb * bs), blockMask.tokenMask t h = true) :
    predicatedAttention .flushing q k v blockMask i h d =
      attend q k v (fun h => {t | blockMask.tokenMask t h = true}) i h d :=
  sum_softmax_masked flushing_flushesBelow (fun t => blockMask.tokenMask t h) (logits q k i h)
    (fun t => v t h d) (10 ^ 7) (-1e9) (fun t _ => bounded i h t) (by norm_num) (by norm_num) retained

end Masked

/-! ### Tables of whole buckets -/

section Tables
variable {Q nb bs heads dim bucket : ℕ} (q : Tensor ℝ Q heads dim)
  (keys values : Tensor ℝ (nb * bs) heads dim) (table : Fin bucket → Fin nb)

def named (b : Fin nb) : Bool := decide (∃ j, table j = b)

theorem sum_gathered (injective : Function.Injective table) (f : Fin (nb * bs) → ℝ) :
    ∑ k : Fin (bucket * bs), f (finProdFinEquiv (table k.divNat, k.modNat)) =
      ∑ k ∈ tokensOf (named table), f k := by
  have image : ({b | named table b = true} : Finset (Fin nb)) = univ.image table := by
    ext b
    simp [named]
  rw [sum_rows, sum_tokensOf, image, sum_image injective.injOn]
  simp only [index_divNat, index_modNat]

/-- Attending to everything gathered is attending to the named blocks in place. -/
theorem attend_gathered (injective : Function.Injective table) :
    attend q (gathered keys table) (gathered values table) (fun _ => univ) =
      attend q keys values (fun _ => tokensOf (named table)) := by
  funext i h d
  rw [attend, attend, softmaxMean, softmaxMean, expSum, expSum, expMass, expMass,
    ← sum_gathered table injective, ← sum_gathered table injective]
  rfl

theorem logitsBounded_gathered (bounded : LogitsBounded (10 ^ 7) q keys) :
    LogitsBounded (10 ^ 7) q (gathered keys table) :=
  fun i h _ => bounded i h _

theorem compileIndirectAttention_eq [NeZero bs] (A : Arith ℝ) :
    compileIndirectAttention A q keys values (fun j _ => table j) =
      pallasGrid (pallasSparseAttentionKernel A) q (gathered keys table) (gathered values table)
        (fun _ _ => true) := by
  have all : selected (fun _ : Fin bucket => true) = List.finRange bucket := by simp [selected]
  have column (x : Tensor ℝ (nb * bs) heads dim) (h : Fin heads) (j : Fin bucket) :
      blocked (fun k => gathered x table k h) j = blocked (fun k => x k h) (table j) := by
    funext t
    have block := congrFun (congrFun (blocked_flattened (fun j => blocked x (table j))) j) t
    exact congrFun block h
  funext i h d
  unfold compileIndirectAttention pallasGrid
  rw [indirectPallasKernel_row, pallasSparseAttentionKernel_row, all]
  congr 2
  · funext j t
    exact congrArg (logit A (q i h)) (congrFun (column keys h j) t).symm
  · funext j
    exact (column values h j).symm

variable (blockMask : Fin nb → Fin heads → Bool)
  (fits : nextBucket (countActive (anyHead blockMask)) ≤ nb)

theorem bucketTable_injective : Function.Injective (bucketTable blockMask fits) :=
  (argsort (negatedKey (anyHead blockMask))).injective.comp (Fin.castLE_injective fits)

theorem named_bucketTable
    (exactFit : nextBucket (countActive (anyHead blockMask)) = countActive (anyHead blockMask)) :
    named (bucketTable blockMask fits) = anyHead blockMask := by
  funext b
  rw [Bool.eq_iff_iff, named, decide_eq_true_eq]
  constructor
  · rintro ⟨j, rfl⟩
    rw [anyHead_bucketTable]
    exact j.isLt.trans_eq exactFit
  · intro active
    obtain ⟨p, rfl⟩ := (argsort (negatedKey (anyHead blockMask))).surjective b
    have front := ((argsort_negatedKey (anyHead blockMask)).mask_apply_iff p).mp active
    rw [← countActive_eq, ← exactFit] at front
    exact ⟨⟨p.val, front⟩, rfl⟩

variable (bounded : LogitsBounded (10 ^ 7) q keys) (active : ∃ b, anyHead blockMask b = true)
include bounded active

theorem indexTables_flushing [NeZero bs] :
    (leanBucketedAttention .flushing q keys values blockMask).map Prod.fst =
        .ok (attend q keys values (fun _ => tokensOf (named (bucketTable blockMask fits)))) ∧
      (indirectAttention .flushing q keys values blockMask).map Prod.fst =
        .ok (attend q keys values (fun _ => tokensOf (named (bucketTable blockMask fits)))) := by
  have positive := (countActive_pos_iff (anyHead blockMask)).mpr active
  have gatheredBounded := logitsBounded_gathered q keys (bucketTable blockMask fits) bounded
  rw [← attend_gathered q keys values _ (bucketTable_injective blockMask fits)]
  constructor
  · have room := positive.trans_le (le_nextBucket (countActive (anyHead blockMask)))
    simp only [leanBucketedAttention]
    rw [if_neg positive.ne', dif_pos fits]
    refine congrArg Except.ok ?_
    funext i h d
    have all := sum_softmax_masked flushing_flushesBelow (fun _ => true)
      (logits q (gathered keys (bucketTable blockMask fits)) i h)
      (fun k => gathered values (bucketTable blockMask fits) k h d) (10 ^ 7) (-1e9)
      (fun k _ => gatheredBounded i h k) (by norm_num) (by norm_num)
      ⟨finProdFinEquiv (⟨0, room⟩, 0), rfl⟩
    simp only [if_true, filter_true] at all
    exact all
  · rw [indirectAttention_ok _ q keys values blockMask positive.ne' fits,
      compileIndirectAttention_eq, pallasGrid_mean _ _ _ _ gatheredBounded, tokensOf_all]

end Tables

/-! ### All paths -/

section Agreement
variable {Q nb bs heads dim : ℕ} (q : Tensor ℝ Q heads dim)
  (keys values : Tensor ℝ (nb * bs) heads dim) (blockMask : Fin nb → Fin heads → Bool)

noncomputable def unionAttention : Tensor ℝ Q heads dim :=
  attend q keys values (fun _ => tokensOf (anyHead blockMask))

noncomputable def headAttention : Tensor ℝ Q heads dim :=
  attend q keys values (fun h => tokensOf (fun b => blockMask b h))

theorem headAttention_eq_unionAttention (uniform : ∀ b h h', blockMask b h = blockMask b h') :
    headAttention q keys values blockMask = unionAttention q keys values blockMask := by
  have same (b : Fin nb) (h : Fin heads) : blockMask b h = anyHead blockMask b := by
    rw [Bool.eq_iff_iff, anyHead_iff]
    exact ⟨fun kept => ⟨h, kept⟩, fun ⟨h', kept⟩ => (uniform b h h').trans kept⟩
  funext i h d
  simp only [headAttention, unionAttention, attend, same]

variable [NeZero bs]

theorem compilePallasSparseAttentionV2_eq (A : Arith ℝ) (isTpu : Bool) :
    compilePallasSparseAttentionV2 A isTpu false q keys values blockMask =
      compilePallasSparseAttention A isTpu q keys values blockMask := by
  cases isTpu with
  | true => exact compilePallasSparseAttentionV2_where A q keys values blockMask
  | false => rfl

variable (isTpu : Bool) (bounded : LogitsBounded (10 ^ 7) q keys)
include bounded

theorem orthocacheAttention_union (active : ∃ b, anyHead blockMask b = true) :
    (orthocacheAttention bs .flushing q keys values (anyHead blockMask)).map Prod.fst =
      .ok (unionAttention q keys values blockMask) := by
  have : NeZero nb := neZero_of_active _ ((countActive_pos_iff (anyHead blockMask)).mpr active).ne'
  rw [orthocacheAttention_flushing q keys values bounded,
    orthocacheAttention_exact q keys values _ block_fits active, attendBlocks_eq_attend]
  rfl

theorem bucketedAttention_exactFit (active : ∃ b, anyHead blockMask b = true)
    (fits : nextBucket (countActive (anyHead blockMask)) ≤ nb)
    (exactFit : nextBucket (countActive (anyHead blockMask)) = countActive (anyHead blockMask)) :
    (bucketedAttention .flushing isTpu q keys values blockMask).map Prod.fst =
      .ok (unionAttention q keys values blockMask) := by
  rw [bucketedAttention_mean q keys values blockMask isTpu bounded active fits, exactFit, Nat.sub_self,
    Nat.zero_mul, Nat.cast_zero]
  simp only [add_zero]
  rfl

theorem predicatedAttention_head (i : Fin Q) (h : Fin heads) (d : Fin dim)
    (retained : ∃ b, blockMask b h = true) :
    predicatedAttention .flushing q keys values (.blocksAndHeads blockMask) i h d =
      headAttention q keys values blockMask i h d := by
  obtain ⟨b, kept⟩ := retained
  refine predicatedAttention_flushing q keys values bounded (.blocksAndHeads blockMask) i h d
    ⟨finProdFinEquiv (b, 0), ?_⟩
  simp only [BlockMask.tokenMask, index_divNat, kept]

/-- With a block left, the paths that join the heads' masks agree, and so do the paths that mask head
by head, on every head with a block left. The two functions are one on a mask that is the same for
all heads. The index tables agree with each other, and with the rest where the bucket is full. -/
theorem paths_agree (active : ∃ b, anyHead blockMask b = true) :
    ((compactAndAttend .flushing isTpu q keys values blockMask).1 =
        unionAttention q keys values blockMask ∧
      (∀ fits, dynamicMultiheadAttention bs .flushing fits q keys values blockMask =
        unionAttention q keys values blockMask) ∧
      (orthocacheAttention bs .flushing q keys values (anyHead blockMask)).map Prod.fst =
        .ok (unionAttention q keys values blockMask) ∧
      compactedAttention .flushing q keys values (.blocksAndHeads blockMask) =
        unionAttention q keys values blockMask) ∧
    (∀ i h d, (∃ b, blockMask b h = true) →
      compilePallasSparseAttention .flushing isTpu q keys values blockMask i h d =
          headAttention q keys values blockMask i h d ∧
        compilePallasSparseAttentionV2 .flushing isTpu false q keys values blockMask i h d =
          headAttention q keys values blockMask i h d ∧
        predicatedAttention .flushing q keys values (.blocksAndHeads blockMask) i h d =
          headAttention q keys values blockMask i h d) ∧
    ((∀ b h h', blockMask b h = blockMask b h') →
      headAttention q keys values blockMask = unionAttention q keys values blockMask) ∧
    (nextBucket (countActive (anyHead blockMask)) ≤ nb → ∃ output,
      (leanBucketedAttention .flushing q keys values blockMask).map Prod.fst = .ok output ∧
        (indirectAttention .flushing q keys values blockMask).map Prod.fst = .ok output ∧
        (nextBucket (countActive (anyHead blockMask)) = countActive (anyHead blockMask) →
          output = unionAttention q keys values blockMask ∧
            (bucketedAttention .flushing isTpu q keys values blockMask).map Prod.fst =
              .ok output)) := by
  refine ⟨⟨?_, ?_, ?_, ?_⟩, ?_, ?_, ?_⟩
  · exact compactAndAttend_attend q keys values blockMask isTpu bounded
  · intro fits
    rw [dynamicMultiheadAttention_eq_kernel]
    exact pallasGrid_mean q keys values (fun b _ => anyHead blockMask b) bounded
  · exact orthocacheAttention_union q keys values blockMask bounded active
  · exact compactedAttention_flushing q keys values bounded (.blocksAndHeads blockMask) active
  · intro i h d retained
    rw [compilePallasSparseAttentionV2_eq]
    have head := compilePallasSparseAttention_head isTpu q keys values blockMask bounded i h d retained
    exact ⟨head, head, predicatedAttention_head q keys values blockMask bounded i h d retained⟩
  · exact headAttention_eq_unionAttention q keys values blockMask
  · intro fits
    obtain ⟨lean, indirect⟩ := indexTables_flushing q keys values blockMask fits bounded active
    refine ⟨_, lean, indirect, fun exactFit => ?_⟩
    rw [named_bucketTable blockMask fits exactFit]
    exact ⟨rfl, bucketedAttention_exactFit q keys values blockMask isTpu bounded active fits exactFit⟩

end Agreement

/-- Two heads and two blocks; the second block is retained by the first head alone. -/
theorem paths_agree_second :
    (indirectAttention .flushing (zeros : Tensor ℝ 1 2 1) (ones : Tensor ℝ (2 * 1) 2 1) ones
        (fun b h => b.val = 1 && h.val = 0)).map Prod.fst =
      .ok (compactAndAttend .flushing false (zeros : Tensor ℝ 1 2 1) (ones : Tensor ℝ (2 * 1) 2 1)
        ones (fun b h => b.val = 1 && h.val = 0)).1 := by
  have agree := paths_agree (zeros : Tensor ℝ 1 2 1) (ones : Tensor ℝ (2 * 1) 2 1) ones
    (fun b h => b.val = 1 && h.val = 0) false (logitsBounded_zeros ones) ⟨1, by decide⟩
  obtain ⟨output, -, indirect, exactFit⟩ := agree.2.2.2 (by decide)
  rw [indirect, agree.1.1, (exactFit (by decide)).1]

end OrthoCache.PathAgreement
