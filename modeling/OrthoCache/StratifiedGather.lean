import OrthoCache.DistributedAttention

/-!
The stratified gather of the sharded benchmark: the largest active count of all devices picks
one of four capacities, every device sends that many compacted blocks, and one masked softmax
runs over what arrived. The capacities come from quarters of the block count, with repetitions
dropped and the list padded to four. Query length, head count and head dimension are fixed by
the benchmark and arbitrary here; the final cast to bfloat16 is left out.
-/

namespace OrthoCache.StratifiedGather
open Finset Foundation.SoftmaxMean Foundation.StablePartition Foundation.RowMajor
open Arrays AttentionSpec
open DistributedAttention hiding streamCompact

section Buckets

/-- Order-preserving removal of repetitions, with a set of the values seen. -/
def deduplicated (values : List ℕ) : List ℕ :=
  values.foldl (fun buckets b => if b ∈ buckets then buckets else buckets ++ [b]) []

/-- The last entry is repeated up to four entries. -/
def padded (buckets : List ℕ) : List ℕ :=
  buckets ++ List.replicate (4 - buckets.length) (buckets.getLastD 0)

/-- The capacities `b1`, ..., `b4` of `build_stratified`. -/
def stratifiedBuckets (nbPerDev : ℕ) : List ℕ :=
  let b1 := max 1 (nbPerDev / 4)
  let b2 := max 1 (nbPerDev / 2)
  let b3 := max 1 (nbPerDev * 3 / 4)
  let b4 := nbPerDev
  padded (deduplicated [b1, b2, b3, b4])

def bucket (nbPerDev : ℕ) (i : Fin 4) : ℕ := (stratifiedBuckets nbPerDev).getD i.val 0

example : stratifiedBuckets 3 = [1, 2, 3, 3] := by decide

theorem padded_deduplicated (b1 b2 b3 b4 : ℕ) (first : b1 ≤ b2) (second : b2 ≤ b3)
    (third : b3 ≤ b4) : ∃ c1 c2 c3, padded (deduplicated [b1, b2, b3, b4]) = [c1, c2, c3, b4] ∧
      c1 ≤ c2 ∧ c2 ≤ c3 ∧ c3 ≤ b4 := by
  have apart {a b : ℕ} (less : a < b) : ¬b = a := less.ne'
  rcases first.eq_or_lt with rfl | first' <;> rcases second.eq_or_lt with rfl | second' <;>
    rcases third.eq_or_lt with rfl | third'
  · simp [padded, deduplicated]
  · simp [padded, deduplicated, apart third', third]
  · simp [padded, deduplicated, apart second', second]
  · have across := second'.trans third'
    simp [padded, deduplicated, apart second', apart third', apart across, second, third]
  · simp [padded, deduplicated, apart first', first]
  · have across := first'.trans third'
    simp [padded, deduplicated, apart first', apart third', apart across, first, third]
  · have across := first'.trans second'
    simp [padded, deduplicated, apart first', apart second', apart across, first, second]
  · have across := first'.trans second'
    have across' := second'.trans third'
    simp [padded, deduplicated, apart first', apart second', apart third', apart across,
      apart across', apart (first'.trans across'), first, second, third]

theorem stratifiedBuckets_eq (nb : ℕ) [NeZero nb] : ∃ c1 c2 c3,
    stratifiedBuckets nb = [c1, c2, c3, nb] ∧ c1 ≤ c2 ∧ c2 ≤ c3 ∧ c3 ≤ nb := by
  have positive := NeZero.pos nb
  apply padded_deduplicated
  · omega
  · omega
  · omega

theorem bucket_le (nb : ℕ) [NeZero nb] (i : Fin 4) : bucket nb i ≤ nb := by
  obtain ⟨c1, c2, c3, list, first, second, third⟩ := stratifiedBuckets_eq nb
  have room : ∀ c ∈ [c1, c2, c3, nb], c ≤ nb := by
    simp only [List.mem_cons, List.not_mem_nil, or_false]
    omega
  have inside : i.val < [c1, c2, c3, nb].length := i.isLt
  rw [bucket, list, List.getD_eq_getElem _ _ inside]
  exact room _ (List.getElem_mem inside)

/-- `jnp.where` three times: the first capacity that is large enough. -/
def bucketIndex (nbPerDev gmax : ℕ) : Fin 4 :=
  if gmax ≤ bucket nbPerDev 0 then 0
  else if gmax ≤ bucket nbPerDev 1 then 1
  else if gmax ≤ bucket nbPerDev 2 then 2
  else 3

theorem bucket_bucketIndex_isLeast (nb gmax : ℕ) [NeZero nb] (bound : gmax ≤ nb) :
    IsLeast {b | b ∈ stratifiedBuckets nb ∧ gmax ≤ b} (bucket nb (bucketIndex nb gmax)) := by
  obtain ⟨c1, c2, c3, list, first, second, third⟩ := stratifiedBuckets_eq nb
  have entries : bucket nb 0 = c1 ∧ bucket nb 1 = c2 ∧ bucket nb 2 = c3 ∧ bucket nb 3 = nb := by
    simp [bucket, list]
  unfold bucketIndex
  rw [list, entries.1, entries.2.1, entries.2.2.1]
  split_ifs with small medium large
  all_goals
    refine ⟨⟨by simp [entries], by omega⟩, ?_⟩
    rintro b ⟨member, fits⟩
    simp only [List.mem_cons, List.not_mem_nil, or_false] at member
    omega

end Buckets

section Model
variable {R : Type} [Field R] [LinearOrder R] {P Q n nb heads dim : ℕ}

def streamCompact (mask : Fin nb → Bool) : Equiv.Perm (Fin nb) × ℕ :=
  AdaptiveAttention.streamCompact mask

def pmax [NeZero P] (x : Fin P → ℕ) : Fin P → ℕ := fun _ => univ.sup' (axis_univ_nonempty P) x

/-- Attention to the tokens that pass the mask; the others get the sentinel logit. -/
def maskedSoftmax (A : Arith R) (q : Tensor R Q heads dim) (k v : Tensor R n heads dim)
    (tmask : Fin n → Bool) : Tensor R Q heads dim :=
  let lo := fun i h t => if tmask t then logit A (q i h) (k t h) else -1e9
  fun i h d => ∑ t, softmax A.exp (lo i h) t * v t h d

def repeatBlocks {α : Type} (x : Fin n → α) : Fin (n * 512) → α := fun t => x t.divNat

def predicatedSingle (A : Arith R) (q : Tensor R Q heads dim) (k v : Tensor R (nb * 512) heads dim)
    (blockMask : Fin nb → Bool) : Tensor R Q heads dim :=
  maskedSoftmax A q k v (repeatBlocks blockMask)

/-- One branch of the switch, on one device: the operands of all devices are cut to the capacity
before they are gathered. -/
def branch [NeZero P] (A : Arith R) (targetK : ℕ) (fits : targetK ≤ nb) (q : Tensor R Q heads dim)
    (kAct vAct : Fin P → Fin nb → Tensor R 512 heads dim) (allCounts : Fin P → ℕ) :
    Tensor R Q heads dim :=
  let kSl := fun p (j : Fin targetK) => kAct p (j.castLE fits)
  let vSl := fun p (j : Fin targetK) => vAct p (j.castLE fits)
  let kG := allGatherTiled kSl
  let vG := allGatherTiled vSl
  let valid := fun bi : Fin (P * targetK) =>
    let did := bi.val / targetK
    let lpos := bi.val % targetK
    let sdid := min did (P - 1)
    decide (did < P) && decide (lpos < getClamped allCounts sdid)
  maskedSoftmax A q (flattened kG) (flattened vG) (repeatBlocks valid)

/-- What device `p` returns; `build_stratified` was called with the shard's own block count. -/
def stratifiedKernel [NeZero P] [NeZero nb] (A : Arith R) (q : Tensor R Q heads dim)
    (kShard vShard : Fin P → Tensor R (nb * 512) heads dim)
    (activeIndices : Fin P → Fin nb → Fin nb) (numActive : Fin P → ℕ) (p : Fin P) :
    Tensor R Q heads dim :=
  let ka := fun p i => blocked (kShard p) (activeIndices p i)
  let va := fun p i => blocked (vShard p) (activeIndices p i)
  let gmax := pmax numActive p
  let ac := allGatherTiled (fun p (_ : Fin 1) => numActive p)
  let bidx := bucketIndex nb gmax
  branch A (bucket nb bidx) (bucket_le nb bidx) q ka va (fun p => ac (p.cast (Nat.mul_one P).symm))

def concatenated {α : Type} (x : Fin P → Fin (nb * 512) → α) : Fin (P * nb * 512) → α :=
  fun t => allGatherTiled x (t.cast (Nat.mul_assoc P nb 512))

end Model

section Masking
variable {P Q n nb heads dim : ℕ}

theorem maskedSoftmax_mean (q : Tensor ℝ Q heads dim) (k v : Tensor ℝ n heads dim)
    (tmask : Fin n → Bool) (i : Fin Q) (h : Fin heads) (d : Fin dim)
    (bounded : ∀ t, tmask t = true → |logits q k i h t| ≤ 10 ^ 7) (kept : ∃ t, tmask t = true) :
    maskedSoftmax .flushing q k v tmask i h d =
      softmaxMean {t | tmask t = true} (logits q k i h) (fun t => v t h d) :=
  sum_softmax_masked flushing_flushesBelow tmask (logits q k i h) (fun t => v t h d) (10 ^ 7)
    (-1e9) bounded (by norm_num) (by norm_num) kept

theorem concatenated_apply {α : Type} (x : Fin P → Fin (nb * 512) → α) (p : Fin P) (b : Fin nb)
    (t : Fin 512) : concatenated x (finProdFinEquiv (finProdFinEquiv (p, b), t)) =
      blocked (x p) b t := by
  have position : (finProdFinEquiv (finProdFinEquiv (p, b), t)).cast (Nat.mul_assoc P nb 512) =
      finProdFinEquiv (p, finProdFinEquiv (b, t)) := by
    apply Fin.ext
    simp only [Fin.val_cast, finProdFinEquiv_apply_val]
    ring
  rw [concatenated, position, allGatherTiled, flattened, index_divNat, index_modNat]
  rfl

theorem predicatedSingle_concatenated (q : Tensor ℝ Q heads dim)
    (kShard vShard : Fin P → Tensor ℝ (nb * 512) heads dim) (blockMask : Fin P → Fin nb → Bool)
    (active : ∃ p b, blockMask p b = true)
    (bounded : LogitsBounded (10 ^ 7) q (concatenated kShard)) :
    predicatedSingle .flushing q (concatenated kShard) (concatenated vShard)
        (allGatherTiled blockMask) = attendShards q kShard vShard blockMask := by
  obtain ⟨p, b, kept⟩ := active
  have some : ∃ c, allGatherTiled blockMask c = true :=
    ⟨finProdFinEquiv (p, b), by rw [allGatherTiled, flattened, index_divNat, index_modNat, kept]⟩
  obtain ⟨t, member⟩ : (tokensOf (allGatherTiled blockMask) : Finset (Fin (P * nb * 512))).Nonempty :=
    (tokensOf_nonempty_iff _).mpr some
  funext i h d
  rw [predicatedSingle, maskedSoftmax_mean q _ _ _ i h d (fun t _ => bounded i h t)
    ⟨t, (mem_tokensOf _ t).mp member⟩]
  change softmaxMean (tokensOf (flattened blockMask)) _ _ = _
  simp only [softmaxMean, expSum, expMass, sum_tokensOf, sum_flattened_filter, logits,
    concatenated_apply]
  rfl

end Masking

section Branch
variable {P Q nb heads dim : ℕ} [NeZero P] (q : Tensor ℝ Q heads dim)
  (kShard vShard : Fin P → Tensor ℝ (nb * 512) heads dim) (blockMask : Fin P → Fin nb → Bool)

theorem branch_valid (targetK : ℕ) (allCounts : Fin P → ℕ) (c : Fin (P * targetK)) :
    (decide (c.val / targetK < P) &&
        decide (c.val % targetK < getClamped allCounts (min (c.val / targetK) (P - 1)))) =
      flattened (fun p (j : Fin targetK) => decide (j.val < allCounts p)) c := by
  have inside : c.val / targetK < P := c.divNat.isLt
  have device : min (c.val / targetK) (P - 1) = c.val / targetK := by omega
  rw [device, getClamped_of_lt _ _ inside, decide_eq_true inside, Bool.true_and]
  rfl

theorem sum_front_cut (targetK : ℕ) (fits : targetK ≤ nb) (mask : Fin nb → Bool)
    (enough : countActive mask ≤ targetK) (f : Fin nb → ℝ) :
    ∑ j : Fin targetK with decide (j.val < countActive mask) = true,
        f (argsort (offsetKey mask) (j.castLE fits)) = ∑ b with mask b = true, f b := by
  rw [← (argsort_offsetKey mask).sum_front f, sum_filter]
  have cut := sum_castLE fits (fun i : Fin nb =>
    if i.val < countActive mask then f (argsort (offsetKey mask) i) else 0)
  simp only [decide_eq_true_eq]
  refine cut.trans ?_
  rw [← sum_filter, filter_filter, ← countActive_eq]
  apply sum_congr
  · ext i
    simp only [mem_filter, mem_univ, true_and]
    omega
  · exact fun _ _ => rfl

/-- A branch of sufficient capacity averages over the active blocks of all shards. -/
theorem branch_attendShards (targetK : ℕ) (fits : targetK ≤ nb)
    (enough : ∀ p, countActive (blockMask p) ≤ targetK) (active : ∃ p b, blockMask p b = true)
    (bounded : LogitsBounded (10 ^ 7) q (concatenated kShard)) :
    branch .flushing targetK fits q
        (fun p i => blocked (kShard p) (argsort (offsetKey (blockMask p)) i))
        (fun p i => blocked (vShard p) (argsort (offsetKey (blockMask p)) i))
        (fun p => countActive (blockMask p)) = attendShards q kShard vShard blockMask := by
  set gate := fun p (j : Fin targetK) => decide (j.val < countActive (blockMask p)) with hgate
  have token {α : Type} (x : Fin P → Fin targetK → Fin 512 → α) (p : Fin P) (j : Fin targetK)
      (t : Fin 512) : flattened (allGatherTiled x) (finProdFinEquiv (finProdFinEquiv (p, j), t)) =
        x p j t := by
    rw [allGatherTiled, flattened, index_divNat, index_modNat, flattened, index_divNat,
      index_modNat]
  have valid : (∃ t : Fin (P * targetK * 512), repeatBlocks (flattened gate) t = true) := by
    obtain ⟨p, b, kept⟩ := active
    have positive := (countActive_pos_iff (blockMask p)).mpr ⟨b, kept⟩
    refine ⟨finProdFinEquiv (finProdFinEquiv (p, ⟨0, by have := enough p; omega⟩), 0), ?_⟩
    rw [repeatBlocks, index_divNat, flattened, index_divNat, index_modNat]
    exact decide_eq_true positive
  funext i h d
  simp only [branch, branch_valid]
  rw [← hgate, maskedSoftmax_mean q _ _ _ i h d ?_ valid]
  · change softmaxMean (tokensOf (flattened gate)) _ _ = _
    simp only [softmaxMean, expSum, expMass, sum_tokensOf, sum_flattened_filter, logits, token]
    unfold attendShards
    refine congrArg₂ (· / ·) (sum_congr rfl fun p _ => ?_) (sum_congr rfl fun p _ => ?_)
    · exact sum_front_cut targetK fits (blockMask p) (enough p) (fun b => ∑ t,
        Real.exp (logits q (blocked (kShard p) b) i h t) * blocked (vShard p) b t h d)
    · exact sum_front_cut targetK fits (blockMask p) (enough p) (fun b => ∑ t,
        Real.exp (logits q (blocked (kShard p) b) i h t))
  · intro t _
    obtain ⟨⟨c, s⟩, rfl⟩ := finProdFinEquiv.surjective t
    obtain ⟨⟨p, j⟩, rfl⟩ := finProdFinEquiv.surjective c
    have moved := bounded i h (finProdFinEquiv (finProdFinEquiv
      (p, argsort (offsetKey (blockMask p)) (j.castLE fits)), s))
    rw [logits, concatenated_apply] at moved
    rw [logits, token]
    exact moved

end Branch

section Agreement
variable {P Q nb heads dim : ℕ} [NeZero P] [NeZero nb] (q : Tensor ℝ Q heads dim)
  (kShard vShard : Fin P → Tensor ℝ (nb * 512) heads dim) (blockMask : Fin P → Fin nb → Bool)

/-- All devices choose one capacity, the smallest that holds the active blocks of every device,
and return what the masked reference returns on the concatenated cache. -/
theorem stratifiedKernel_eq_predicatedSingle (active : ∃ p b, blockMask p b = true)
    (bounded : LogitsBounded (10 ^ 7) q (concatenated kShard)) :
    let activeIndices := fun p => (streamCompact (blockMask p)).1
    let numActive := fun p => (streamCompact (blockMask p)).2
    (∀ p p', bucketIndex nb (pmax numActive p) = bucketIndex nb (pmax numActive p')) ∧
      (∀ p, IsLeast {b | b ∈ stratifiedBuckets nb ∧ univ.sup numActive ≤ b}
        (bucket nb (bucketIndex nb (pmax numActive p)))) ∧
      ∀ p, stratifiedKernel .flushing q kShard vShard (fun p => activeIndices p) numActive p =
        predicatedSingle .flushing q (concatenated kShard) (concatenated vShard)
          (allGatherTiled blockMask) := by
  intro activeIndices numActive
  have largest (p : Fin P) : pmax numActive p = univ.sup numActive :=
    sup'_eq_sup (axis_univ_nonempty P) numActive
  have least (p : Fin P) : IsLeast {b | b ∈ stratifiedBuckets nb ∧ univ.sup numActive ≤ b}
      (bucket nb (bucketIndex nb (pmax numActive p))) := by
    rw [largest]
    apply bucket_bucketIndex_isLeast
    exact Finset.sup_le (fun p _ => countActive_le (blockMask p))
  refine ⟨fun _ _ => rfl, least, ?_⟩
  intro p
  have enough (p' : Fin P) : countActive (blockMask p') ≤
      bucket nb (bucketIndex nb (pmax numActive p)) :=
    (Finset.le_sup (mem_univ p')).trans (least p).1.2
  have counts : (fun p => allGatherTiled (fun p (_ : Fin 1) => numActive p)
      (p.cast (Nat.mul_one P).symm)) = numActive := by
    funext p
    have position : (p.cast (Nat.mul_one P).symm).divNat = p := Fin.ext (Nat.div_one p.val)
    rw [allGatherTiled, flattened, position]
  rw [predicatedSingle_concatenated q kShard vShard blockMask active bounded, stratifiedKernel]
  simp only [counts]
  exact branch_attendShards q kShard vShard blockMask _ _ enough active bounded

end Agreement

theorem stratifiedKernel_eq_predicatedSingle_second :
    stratifiedKernel .flushing (zeros : Tensor ℝ 1 1 1)
        (fun _ : Fin 2 => (zeros : Tensor ℝ (1 * 512) 1 1)) (fun _ => ones)
        (fun p => (streamCompact (fun _ : Fin 1 => decide (p.val = 1))).1)
        (fun p => (streamCompact (fun _ : Fin 1 => decide (p.val = 1))).2) 0 =
      predicatedSingle .flushing (zeros : Tensor ℝ 1 1 1)
        (concatenated (fun _ : Fin 2 => (zeros : Tensor ℝ (1 * 512) 1 1)))
        (concatenated (fun _ : Fin 2 => ones))
        (allGatherTiled (fun (p : Fin 2) (_ : Fin 1) => decide (p.val = 1))) :=
  (stratifiedKernel_eq_predicatedSingle zeros (fun _ : Fin 2 => zeros) (fun _ => ones)
    (fun p (_ : Fin 1) => decide (p.val = 1)) ⟨1, 0, rfl⟩ (logitsBounded_zeros _)).2.2 0

end OrthoCache.StratifiedGather
