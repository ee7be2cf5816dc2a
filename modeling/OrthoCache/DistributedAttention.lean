import OrthoCache.AdaptiveAttention

/-!
Distributed attention over sequence shards. Every device packs its active blocks into a padded
buffer, buffers and counts are gathered, and each device attends to the valid blocks of the
gathered buffer through one global table. A definition takes the arguments of all devices and
returns the results of all devices.
-/

namespace OrthoCache.DistributedAttention
open Finset Foundation.SoftmaxMean Foundation.StablePartition Foundation.RowMajor
open Arrays AttentionSpec
open AdaptiveAttention hiding streamCompact

section Model
variable {R : Type} [Field R] [LinearOrder R] {P Q n nb heads dim : ℕ}

def streamCompact (blockMask : Fin nb → Bool) : Equiv.Perm (Fin nb) × ℕ :=
  AdaptiveAttention.streamCompact blockMask

/-- `lax.all_gather(axis=0, tiled=True)`: the operands one after the other in device order. -/
def allGatherTiled {α : Type} (x : Fin P → Fin n → α) : Fin (P * n) → α := flattened x

/-- Copies the active blocks, in table order, to the front of a zero buffer. -/
def packActiveBlocks [NeZero nb] (kvShard : Tensor R (nb * 512) heads dim)
    (activeIndices : Fin nb → Fin nb) (numActive : ℕ) : Tensor R (nb * 512) heads dim :=
  let body := fun i buf =>
    let idx := getClamped activeIndices i
    let block := dynamicSlice kvShard (idx.val * 512) 512 block_fits
    dynamicUpdateSlice buf block (i * 512)
  foriLoop numActive body zeros

/-- The loop of `_multihead_loop`, with the block size fixed. -/
def onlineSoftmaxIndirectAttention [NeZero nb] (A : Arith R) (fits : 512 ≤ n)
    (q : Tensor R Q heads dim) (kAll vAll : Tensor R n heads dim) (blockIndices : Fin nb → Fin nb)
    (totalActive : ℕ) : Tensor R Q heads dim :=
  multiheadLoop 512 A fits q kAll vAll blockIndices totalActive

theorem gathered_fits [NeZero P] [NeZero nb] : 512 ≤ P * (nb * 512) :=
  block_fits.trans block_fits

def distributedOrthocacheAttention [NeZero P] [NeZero nb] (A : Arith R)
    (qShard : Fin P → Tensor R Q heads dim) (kShard vShard : Fin P → Tensor R (nb * 512) heads dim)
    (blockMask : Fin P → Fin nb → Bool) : Fin P → Tensor R Q heads dim :=
  let activeIndices := fun p => (streamCompact (blockMask p)).1
  let numActive := fun p => (streamCompact (blockMask p)).2
  let kPacked := fun p => packActiveBlocks (kShard p) (activeIndices p) (numActive p)
  let vPacked := fun p => packActiveBlocks (vShard p) (activeIndices p) (numActive p)
  let totalActive := ∑ p, numActive p
  let kAll := allGatherTiled kPacked
  let vAll := allGatherTiled vPacked
  let validMask := fun c : Fin (P * nb) => decide (c.modNat.val < numActive c.divNat)
  let sortedIndices := argsort (offsetKey validMask)
  fun p => onlineSoftmaxIndirectAttention A gathered_fits (qShard p) kAll vAll sortedIndices
    totalActive

end Model

section Packing
variable {R : Type} [Field R] {nb heads dim : ℕ} [NeZero nb]

theorem blocked_packActiveBlocks (kvShard : Tensor R (nb * 512) heads dim)
    (activeIndices : Fin nb → Fin nb) (numActive : ℕ) (room : numActive ≤ nb) (j : Fin nb) :
    blocked (packActiveBlocks kvShard activeIndices numActive) j =
      if j.val < numActive then blocked kvShard (activeIndices j) else 0 := by
  have packed := foriLoop_invariant (σ := Tensor R (nb * 512) heads dim)
    (fun i buf => ∀ j : Fin nb, blocked buf j =
      if j.val < i then blocked kvShard (activeIndices j) else 0) numActive
    (fun i buf => dynamicUpdateSlice buf (dynamicSlice kvShard
      ((getClamped activeIndices i).val * 512) 512 block_fits) (i * 512)) zeros
    (fun j => rfl) ?_
  · exact packed j
  · intro i buf less before j
    have inside : i < nb := by omega
    rw [blocked_dynamicUpdateSlice buf _ ⟨i, inside⟩ j, dynamicSlice_block,
      getClamped_of_lt _ i inside, before j]
    by_cases current : j = ⟨i, inside⟩
    · rw [if_pos current, if_pos (by rw [current]; exact Nat.lt_succ_self i), current]
    · have other : j.val ≠ i := fun same => current (Fin.ext same)
      rw [if_neg current]
      exact if_congr (by omega) rfl rfl

end Packing

section Gathering
variable {α : Type} {P nb bs : ℕ}

theorem dynamicSlice_allGatherTiled (x : Fin P → Fin (nb * bs) → α) (c : Fin (P * nb))
    (fits : bs ≤ P * (nb * bs)) :
    dynamicSlice (allGatherTiled x) (c.val * bs) bs fits = blocked (x c.divNat) c.modNat := by
  funext t
  have inside := t.isLt
  have positive : 0 < bs := Nat.pos_of_ne_zero (fun zero => by omega)
  have room : (c.val + 1) * bs ≤ P * (nb * bs) := by
    rw [← Nat.mul_assoc]
    exact Nat.mul_le_mul_right bs c.isLt
  rw [Nat.succ_mul] at room
  have start : min (c.val * bs) (P * (nb * bs) - bs) = c.val * bs := by omega
  have quotient : (c.val * bs + t.val) / bs = c.val := by
    rw [Nat.mul_comm, Nat.mul_add_div positive, Nat.div_eq_of_lt inside, Nat.add_zero]
  have remainder : (c.val * bs + t.val) % bs = t.val := by
    rw [Nat.mul_comm, Nat.mul_add_mod, Nat.mod_eq_of_lt inside]
  simp only [dynamicSlice, allGatherTiled, flattened, blocked, start]
  refine congrArg₂ x (Fin.ext ?_) (Fin.ext ?_)
  · change (c.val * bs + t.val) / (nb * bs) = c.val / nb
    rw [Nat.mul_comm nb, ← Nat.div_div_eq_div_mul, quotient]
  · change (c.val * bs + t.val) % (nb * bs) = t.val + bs * (c.val % nb)
    rw [Nat.mul_comm nb, Nat.mod_mul, quotient, remainder]

end Gathering

section Exactness
variable {P Q nb heads dim : ℕ} (q : Tensor ℝ Q heads dim)
  (kShard vShard : Fin P → Tensor ℝ (nb * 512) heads dim) (blockMask : Fin P → Fin nb → Bool)

def concatTokens : Finset (Fin (P * (nb * 512))) :=
  {k | blockMask k.divNat k.modNat.divNat = true}

theorem sum_concatTokens (f : Fin (P * (nb * 512)) → ℝ) : ∑ k ∈ concatTokens blockMask, f k =
    ∑ p, ∑ j with blockMask p j = true, ∑ t, f (finProdFinEquiv (p, finProdFinEquiv (j, t))) := by
  rw [concatTokens, sum_filter, sum_rows]
  apply sum_congr rfl
  intro p _
  simp only [index_divNat, index_modNat]
  rw [← sum_filter]
  exact sum_rows_filter (blockMask p) (fun k => f (finProdFinEquiv (p, k)))

/-- Softmax average over the active blocks of all shards. -/
noncomputable def attendShards : Tensor ℝ Q heads dim := fun i h d =>
  (∑ p, ∑ j with blockMask p j = true, ∑ t, Real.exp (logits q (blocked (kShard p) j) i h t) *
      blocked (vShard p) j t h d) /
    ∑ p, ∑ j with blockMask p j = true, ∑ t, Real.exp (logits q (blocked (kShard p) j) i h t)

theorem attendShards_eq_attend : attendShards q kShard vShard blockMask =
    attend q (allGatherTiled kShard) (allGatherTiled vShard)
      (fun _ => concatTokens blockMask) := by
  have token {α : Type} (x : Fin P → Fin (nb * 512) → α) (p : Fin P) (k : Fin (nb * 512)) :
      allGatherTiled x (finProdFinEquiv (p, k)) = x p k := by
    rw [allGatherTiled, flattened, index_divNat, index_modNat]
  funext i h d
  simp only [attend, softmaxMean, expSum, expMass, sum_concatTokens, logits, token]
  rfl

theorem attendBlocks_gathered (fits : 512 ≤ P * (nb * 512)) :
    attendBlocks q (allGatherTiled kShard) (allGatherTiled vShard) (flattened blockMask) fits =
      attendShards q kShard vShard blockMask := by
  funext i h d
  simp only [attendBlocks, sum_flattened_filter, dynamicSlice_allGatherTiled, index_divNat, index_modNat,
    attendShards]

variable [NeZero nb]

theorem attendShards_packed : attendShards q
      (fun p => packActiveBlocks (kShard p) (streamCompact (blockMask p)).1
        (streamCompact (blockMask p)).2)
      (fun p => packActiveBlocks (vShard p) (streamCompact (blockMask p)).1
        (streamCompact (blockMask p)).2)
      (fun p j => decide (j.val < (streamCompact (blockMask p)).2)) =
    attendShards q kShard vShard blockMask := by
  have room (p : Fin P) : (streamCompact (blockMask p)).2 ≤ nb := countActive_le (blockMask p)
  have front (p : Fin P) (f g : Fin nb → ℝ)
      (moved : ∀ j : Fin nb, j.val < (streamCompact (blockMask p)).2 →
        f j = g ((streamCompact (blockMask p)).1 j)) :
      ∑ j : Fin nb with decide (j.val < (streamCompact (blockMask p)).2) = true, f j =
        ∑ j with blockMask p j = true, g j := by
    rw [← (argsort_offsetKey (blockMask p)).sum_front g]
    simp only [decide_eq_true_eq, ← countActive_eq]
    exact sum_congr rfl (fun j member => moved j (mem_filter.mp member).2)
  funext i h d
  unfold attendShards
  refine congrArg₂ (· / ·) (sum_congr rfl fun p _ => ?_) (sum_congr rfl fun p _ => ?_)
  · apply front p
    intro j inside
    simp only [blocked_packActiveBlocks _ _ _ (room p), if_pos inside]
  · apply front p
    intro j inside
    simp only [blocked_packActiveBlocks _ _ _ (room p), if_pos inside]

variable [NeZero P]

/-- Every device attends to the active blocks of all shards. -/
theorem distributedOrthocacheAttention_exact (p : Fin P) :
    distributedOrthocacheAttention .exact (fun _ => q) kShard vShard blockMask p =
      attendShards q kShard vShard blockMask := by
  have total : ∑ p, (streamCompact (blockMask p)).2 = countActive (flattened
      (fun p (j : Fin nb) => decide (j.val < (streamCompact (blockMask p)).2))) := by
    rw [countActive_flattened]
    apply sum_congr rfl
    intro p _
    rw [countActive_front]
    exact countActive_le (blockMask p)
  have loop := multiheadLoop_exact q
    (allGatherTiled (fun p => packActiveBlocks (kShard p) (streamCompact (blockMask p)).1
      (streamCompact (blockMask p)).2))
    (allGatherTiled (fun p => packActiveBlocks (vShard p) (streamCompact (blockMask p)).1
      (streamCompact (blockMask p)).2))
    (flattened (fun p (j : Fin nb) => decide (j.val < (streamCompact (blockMask p)).2)))
    gathered_fits
  rw [← total, attendBlocks_gathered, attendShards_packed] at loop
  exact loop

/-- Every device returns the attention over the active tokens of the concatenated cache, which is
what one device computes on the concatenated cache and mask. -/
theorem distributed_eq_single (active : ∃ p b, blockMask p b = true) :
    (∀ p, distributedOrthocacheAttention .exact (fun _ => q) kShard vShard blockMask p =
        attend q (allGatherTiled kShard) (allGatherTiled vShard)
          (fun _ => concatTokens blockMask)) ∧
      (orthocacheAttention 512 .exact q (allGatherTiled kShard) (allGatherTiled vShard)
          (allGatherTiled blockMask)).map Prod.fst =
        .ok (attend q (allGatherTiled kShard) (allGatherTiled vShard)
          (fun _ => concatTokens blockMask)) := by
  obtain ⟨p, b, kept⟩ := active
  have some : ∃ c, allGatherTiled blockMask c = true :=
    ⟨finProdFinEquiv (p, b), by rw [allGatherTiled, flattened, index_divNat, index_modNat, kept]⟩
  rw [← attendShards_eq_attend]
  constructor
  · exact distributedOrthocacheAttention_exact q kShard vShard blockMask
  · rw [orthocacheAttention_exact q _ _ _ gathered_fits some]
    exact congrArg Except.ok (attendBlocks_gathered q kShard vShard blockMask gathered_fits)

end Exactness

theorem distributed_eq_single_uneven :
    let q : Tensor ℝ 1 1 1 := ones
    let kShard : Fin 2 → Tensor ℝ (1 * 512) 1 1 := fun _ => zeros
    let vShard : Fin 2 → Tensor ℝ (1 * 512) 1 1 := fun _ => ones
    let blockMask : Fin 2 → Fin 1 → Bool := fun p _ => decide (p = 1)
    (∀ p, distributedOrthocacheAttention .exact (fun _ => q) kShard vShard blockMask p =
        attend q (allGatherTiled kShard) (allGatherTiled vShard)
          (fun _ => concatTokens blockMask)) ∧
      (orthocacheAttention 512 .exact q (allGatherTiled kShard) (allGatherTiled vShard)
          (allGatherTiled blockMask)).map Prod.fst =
        .ok (attend q (allGatherTiled kShard) (allGatherTiled vShard)
          (fun _ => concatTokens blockMask)) :=
  distributed_eq_single ones (fun _ => zeros) (fun _ => ones) (fun p _ => decide (p = 1))
    ⟨1, 0, rfl⟩

end OrthoCache.DistributedAttention
