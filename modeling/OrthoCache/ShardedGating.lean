import OrthoCache.DeviceProtocols
import OrthoCache.PathAgreement
import OrthoCache.Pipeline

/-!
Gating on the devices. The spectral analysis reads one block at a time, so every device can gate the
blocks of its own shard; distributed attention over the surviving blocks then returns what the
end-to-end call returns on the whole cache, the stratified kernel returns it from smaller buffers,
and the counts add up to its report.
-/

namespace OrthoCache.ShardedGating
open Finset Foundation.WalshFunctions Foundation.StablePartition Foundation.RowMajor
open Arrays AttentionSpec SpectralEnergy Pipeline ExecutionModes PathAgreement
open DistributedAttention (distributedOrthocacheAttention attendShards
  distributedOrthocacheAttention_exact)
open StratifiedGather (concatenated concatenated_apply stratifiedKernel branch_attendShards)
open DeviceProtocols (stratifiedKernel_branch capacity_isLeast)

section Cache
variable {R : Type} {P nb heads dim : ℕ}

def wholeCache (shards : Fin P → Tensor R (nb * 512) heads dim) :
    Tensor R (P * nb * 512) heads dim :=
  flattened (fun c : Fin (P * nb) => blocked (shards c.divNat) c.modNat)

theorem blocked_wholeCache (shards : Fin P → Tensor R (nb * 512) heads dim) (c : Fin (P * nb)) :
    blocked (wholeCache shards) c = blocked (shards c.divNat) c.modNat := by
  rw [wholeCache, blocked_flattened]

theorem column_wholeCache (shards : Fin P → Tensor R (nb * 512) heads dim) (c : Fin (P * nb))
    (h : Fin heads) (d : Fin dim) :
    column (wholeCache shards) c h d = column (shards c.divNat) c.modNat h d := by
  funext t
  rw [column, column, blocked_wholeCache]

end Cache

section Gates
variable {P Q nb heads dim : ℕ} (q : Tensor ℝ Q heads dim)
  (kShard : Fin P → Tensor ℝ (nb * 512) heads dim) (c : Fin (P * nb)) (h : Fin heads)

theorem energyAt_wholeCache (s : ℕ) :
    energyAt (wholeCache kShard) c h s = energyAt (kShard c.divNat) c.modNat h s := by
  simp only [energyAt, column_wholeCache]

theorem computeQueryAwareBounds_wholeCache (i : Fin Q) :
    computeQueryAwareBounds .exact q (wholeCache kShard) i c h =
      computeQueryAwareBounds .exact q (kShard c.divNat) i c.modNat h := by
  rw [computeQueryAwareBounds_exact, computeQueryAwareBounds_exact]
  simp only [blockMean, column_wholeCache, energyAt_wholeCache]

theorem computeSpectralDecayRatio_wholeCache :
    computeSpectralDecayRatio .exact (wholeCache kShard) bandLow bandHigh c h =
      computeSpectralDecayRatio .exact (kShard c.divNat) bandLow bandHigh c.modNat h := by
  unfold computeSpectralDecayRatio computeSpectralBands bandLow bandHigh
  simp only [bandEnergy_eq _ 1 64 (by decide), bandEnergy_eq _ 256 512 le_rfl, energyAt_wholeCache]

theorem computeMultibandMask_wholeCache [NeZero Q] (tau zetaMax : ℝ) :
    computeMultibandMask .exact q (wholeCache kShard) tau zetaMax c h =
      computeMultibandMask .exact q (kShard c.divNat) tau zetaMax c.modNat h := by
  have bounds : maxBounds .exact q (wholeCache kShard) c h =
      maxBounds .exact q (kShard c.divNat) c.modNat h := by
    unfold maxBounds
    simp only [computeQueryAwareBounds_wholeCache]
  simp only [computeMultibandMask, computeQueryAwareMask, bounds,
    computeSpectralDecayRatio_wholeCache]

end Gates

section Attention
variable {P Q nb heads dim : ℕ} (q : Tensor ℝ Q heads dim)
  (kShard vShard : Fin P → Tensor ℝ (nb * 512) heads dim)

theorem logits_wholeCache (i : Fin Q) (h : Fin heads) (c : Fin (P * nb)) (t : Fin 512) :
    logits q (wholeCache kShard) i h (finProdFinEquiv (c, t)) =
      logits q (blocked (kShard c.divNat) c.modNat) i h t :=
  congrArg (fun block => logits q block i h t) (blocked_wholeCache kShard c)

theorem logitsBounded_wholeCache (bounded : ∀ p, LogitsBounded (10 ^ 7) q (kShard p)) :
    LogitsBounded (10 ^ 7) q (wholeCache kShard) := by
  intro i h k
  rw [← index_div_mod k, logits_wholeCache]
  exact bounded _ i h _

theorem attend_wholeCache (blockMask : Fin P → Fin nb → Bool) :
    attend q (wholeCache kShard) (wholeCache vShard) (fun _ => tokensOf (flattened blockMask)) =
      attendShards q kShard vShard blockMask := by
  have value (p : Fin P) (j : Fin nb) (t : Fin 512) (h : Fin heads) (d : Fin dim) :
      wholeCache vShard (finProdFinEquiv (finProdFinEquiv (p, j), t)) h d =
        blocked (vShard p) j t h d := by
    have block := blocked_wholeCache vShard (finProdFinEquiv (p, j))
    rw [index_divNat, index_modNat] at block
    exact congrFun (congrFun (congrFun block t) h) d
  funext i h d
  simp only [attend, Foundation.SoftmaxMean.softmaxMean, Foundation.SoftmaxMean.expSum,
    Foundation.SoftmaxMean.expMass, sum_tokensOf, sum_flattened_filter, logits_wholeCache, value,
    index_divNat, index_modNat, attendShards]

theorem concatenated_eq_wholeCache {R : Type} (shards : Fin P → Tensor R (nb * 512) heads dim) :
    concatenated shards = wholeCache shards := by
  funext t
  obtain ⟨⟨c, s⟩, rfl⟩ := finProdFinEquiv.surjective t
  obtain ⟨⟨p, b⟩, rfl⟩ := finProdFinEquiv.surjective c
  rw [concatenated_apply, wholeCache, flattened, index_divNat, index_modNat, index_divNat,
    index_modNat]

theorem stratifiedKernel_attendShards [NeZero P] [NeZero nb] (mask : Fin P → Fin nb → Bool)
    (bounded : ∀ p, LogitsBounded (10 ^ 7) q (kShard p)) (active : ∃ p b, mask p b = true)
    (p : Fin P) :
    stratifiedKernel .flushing q kShard vShard
        (fun p => (StratifiedGather.streamCompact (mask p)).1)
        (fun p => (StratifiedGather.streamCompact (mask p)).2) p =
      attendShards q kShard vShard mask := by
  have counted (p : Fin P) : (StratifiedGather.streamCompact (mask p)).2 ≤ nb :=
    countActive_le (mask p)
  have whole : LogitsBounded (10 ^ 7) q (concatenated kShard) := by
    rw [concatenated_eq_wholeCache]
    exact logitsBounded_wholeCache q kShard bounded
  rw [stratifiedKernel_branch]
  exact branch_attendShards q kShard vShard mask _ _ (capacity_isLeast _ counted).1.2 active whole

end Attention

section Forward
variable {P Q nb heads dim : ℕ} [NeZero Q] (isTpu : Bool)

/-- Output and report of the compact mode. -/
theorem orthocacheForward_report [NeZero nb] (q : Tensor ℝ Q heads dim)
    (keys values : Tensor ℝ (nb * 512) heads dim) (zetaMax : ℝ) (tau : Option ℝ) :
    ∃ metadata report,
      orthocacheForward .flushing isTpu q keys values zetaMax tau .compact =
        .ok ((Compaction.compactAndAttend .flushing isTpu q keys values
          (gateMask .flushing q keys zetaMax tau)).1, metadata) ∧
      metadata.spectral = some report ∧
      report.blocksRetained = countActive (anyHead (gateMask .flushing q keys zetaMax tau)) ∧
      report.blocksEvicted = nb - report.blocksRetained ∧
      metadata.evictionRate = 1 - (report.blocksRetained : ℝ) / nb :=
  ⟨_, _, rfl, rfl, rfl, rfl, rfl⟩

variable (q : Tensor ℝ Q heads dim) (kShard vShard : Fin P → Tensor ℝ (nb * 512) heads dim)
  (tau zetaMax : ℝ)

noncomputable def shardMask (p : Fin P) : Fin nb → Bool :=
  anyHead (computeMultibandMask .flushing q (kShard p) tau zetaMax)

theorem anyHead_gateMask : anyHead (gateMask .flushing q (wholeCache kShard) zetaMax (some tau)) =
    flattened (shardMask q kShard tau zetaMax) := by
  funext c
  have same (h : Fin heads) := computeMultibandMask_wholeCache q kShard c h tau zetaMax
  rw [Bool.eq_iff_iff, anyHead_iff, flattened, shardMask, anyHead_iff]
  exact exists_congr (fun h => iff_of_eq (congrArg (· = true) (same h)))

variable [NeZero P] [NeZero nb]

theorem distributed_eq_compactAndAttend (bounded : ∀ p, LogitsBounded (10 ^ 7) q (kShard p))
    (active : ∃ p b, shardMask q kShard tau zetaMax p b = true) (p : Fin P) :
    (Compaction.compactAndAttend .flushing isTpu q (wholeCache kShard) (wholeCache vShard)
        (gateMask .flushing q (wholeCache kShard) zetaMax (some tau))).1 =
      distributedOrthocacheAttention .flushing (fun _ => q) kShard vShard
        (shardMask q kShard tau zetaMax) p := by
  have gated :
      ∃ c, anyHead (gateMask .flushing q (wholeCache kShard) zetaMax (some tau)) c = true := by
    obtain ⟨p, b, kept⟩ := active
    rw [anyHead_gateMask]
    exact ⟨finProdFinEquiv (p, b), by rw [flattened, index_divNat, index_modNat, kept]⟩
  rw [Compaction.compactAndAttend_mean _ _ _ _ _ (logitsBounded_wholeCache q kShard bounded) gated,
    anyHead_gateMask, attend_wholeCache, distributedOrthocacheAttention_flushing _ _ _ _ bounded,
    distributedOrthocacheAttention_exact]

/-- With a threshold that is given and a block left, gating every shard on its device and attending
to the survivors of all devices is the compact mode of the end-to-end call on the whole cache, on
every device, and so is the stratified kernel on the same gates. The blocks that the call reports as
retained and evicted are those that the devices count. -/
theorem distributed_eq_orthocacheForward (bounded : ∀ p, LogitsBounded (10 ^ 7) q (kShard p))
    (active : ∃ p b, shardMask q kShard tau zetaMax p b = true) :
    ∃ metadata report,
      (∀ p, orthocacheForward .flushing isTpu q (wholeCache kShard) (wholeCache vShard) zetaMax
          (some tau) .compact =
        .ok (distributedOrthocacheAttention .flushing (fun _ => q) kShard vShard
          (shardMask q kShard tau zetaMax) p, metadata)) ∧
      (∀ p, stratifiedKernel .flushing q kShard vShard
          (fun p => (StratifiedGather.streamCompact (shardMask q kShard tau zetaMax p)).1)
          (fun p => (StratifiedGather.streamCompact (shardMask q kShard tau zetaMax p)).2) p =
        distributedOrthocacheAttention .flushing (fun _ => q) kShard vShard
          (shardMask q kShard tau zetaMax) p) ∧
      metadata.spectral = some report ∧
      report.blocksRetained =
        ∑ p, (DistributedAttention.streamCompact (shardMask q kShard tau zetaMax p)).2 ∧
      report.blocksRetained + report.blocksEvicted = P * nb ∧
      metadata.evictionRate * (P * nb : ℕ) = report.blocksEvicted := by
  obtain ⟨metadata, report, returned, spectral, retained, evicted, rate⟩ :=
    orthocacheForward_report isTpu q (wholeCache kShard) (wholeCache vShard) zetaMax (some tau)
  have room : report.blocksRetained ≤ P * nb := retained ▸ countActive_le _
  refine ⟨metadata, report, fun p => ?_, fun p => ?_, spectral, ?_, ?_, ?_⟩
  · rw [returned,
      distributed_eq_compactAndAttend isTpu q kShard vShard tau zetaMax bounded active p]
  · rw [stratifiedKernel_attendShards q kShard vShard _ bounded active,
      distributedOrthocacheAttention_flushing _ _ _ _ bounded, distributedOrthocacheAttention_exact]
  · rw [retained, anyHead_gateMask, countActive_flattened]
    rfl
  · rw [evicted, Nat.add_sub_cancel' room]
  · have blocks : ((P * nb : ℕ) : ℝ) ≠ 0 := Nat.cast_ne_zero.mpr (NeZero.ne (P * nb))
    rw [rate, evicted, Nat.cast_sub room, sub_mul, one_mul, div_mul_cancel₀ _ blocks]

end Forward

theorem distributed_eq_orthocacheForward_level :
    let shard : Fin 2 → Tensor ℝ (2 * 512) 2 1 := fun _ => walshKeys 0 level
    ∃ metadata report,
      (∀ p, orthocacheForward .flushing true (ones : Tensor ℝ 1 2 1) (wholeCache shard)
          (wholeCache fun _ : Fin 2 => secondBlock) 5 (some 0) .compact =
        .ok (distributedOrthocacheAttention .flushing (fun _ => ones) shard (fun _ => secondBlock)
          (shardMask (ones : Tensor ℝ 1 2 1) shard 0 5) p, metadata)) ∧
      metadata.spectral = some report ∧ report.blocksRetained + report.blocksEvicted = 2 * 2 := by
  intro shard
  have kept : shardMask (ones : Tensor ℝ 1 2 1) shard 0 5 0 0 = true := anyHead_level 0
  obtain ⟨metadata, report, call, -, spectral, -, total, -⟩ := distributed_eq_orthocacheForward true
    (ones : Tensor ℝ 1 2 1) shard (fun _ => secondBlock) 0 5 (fun _ => logitsBounded_level)
    ⟨0, 0, kept⟩
  exact ⟨metadata, report, call, spectral, total⟩

end OrthoCache.ShardedGating
