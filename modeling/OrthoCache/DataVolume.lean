import OrthoCache.BandwidthStatistics
import OrthoCache.Foundation.FloatRounding
import OrthoCache.ShardedGating

/-!
The bytes on the interconnect are counted three times: by the distributed attention module, by the
benchmark of the exchange and, for keys and values together, by the exchange itself. The counts
agree, and on the devices' own gates they are the eviction that the end-to-end call reports.
-/

namespace OrthoCache.DataVolume
open Finset Foundation.FloatRounding Foundation.StablePartition Foundation.WalshFunctions
open Arrays Alltoallv KvExchange BandwidthStatistics SpectralEnergy Pipeline ExecutionModes
open PathAgreement ShardedGating

section Accounting

structure IciVolume (K : Type) where
  denseBytes : ℕ
  sparseBytes : ℕ
  savingsBytes : ℤ
  savingsPct : K

structure IciAccounting (K : Type) where
  denseBytesTotal : ℕ
  sparseBytesTotal : ℕ
  savingsBytes : ℤ
  savingsPct : K
  activePerDevice : List ℕ
  blocksPerDevice : ℕ

variable {K : Type} [Field K] [LinearOrder K] [FloorRing K] (format : FloatFormat K)

def iciDataVolume (numBlocksPerDevice numDevices : ℕ) (activeCounts : List ℕ)
    (numHeads headDim dtypeBytes : ℕ) : IciVolume K :=
  let bytesPerBlock := 512 * numHeads * headDim * dtypeBytes
  let denseTotal := numBlocksPerDevice * numDevices * bytesPerBlock
  let sparseTotal := activeCounts.sum * bytesPerBlock
  { denseBytes := denseTotal
    sparseBytes := sparseTotal
    savingsBytes := denseTotal - sparseTotal
    savingsPct :=
      if 0 < denseTotal then
        format.round (format.round (1 - format.round (sparseTotal / denseTotal)) * 100)
      else 0 }

/-- The benchmark's `NH` and `HD` are parameters, `P` the number of devices. -/
def iciAccounting {P nb : ℕ} (numHeads headDim seqLen : ℕ)
    (masksPerDevice : Fin P → Fin nb → Bool) : IciAccounting K :=
  let localSl := seqLen / P
  let localBlocks := localSl / 512
  let bytesPerBlock := 512 * numHeads * headDim * 2
  let denseBytesPerDevice := localBlocks * bytesPerBlock
  let totalDense := denseBytesPerDevice * P
  let (activePerDevice, sparseBytes) := (List.finRange P).foldl
    (fun (active, sparse) d =>
      let count := countActive (masksPerDevice d)
      (active ++ [count], sparse + count * bytesPerBlock)) ([], 0)
  { denseBytesTotal := totalDense
    sparseBytesTotal := sparseBytes
    savingsBytes := totalDense - sparseBytes
    savingsPct :=
      if 0 < totalDense then
        format.round (format.round (1 - format.round (sparseBytes / totalDense)) * 100)
      else 0
    activePerDevice := activePerDevice
    blocksPerDevice := localBlocks }

end Accounting

section Agreement
variable {K : Type} [Field K] [LinearOrder K] [FloorRing K] (format : FloatFormat K)

theorem foldl_active (counts : List ℕ) (bytes sparse : ℕ) (active : List ℕ) :
    counts.foldl (fun (active, sparse) count => (active ++ [count], sparse + count * bytes))
      (active, sparse) = (active ++ counts, sparse + counts.sum * bytes) := by
  induction counts generalizing active sparse with
  | nil => simp
  | cons count counts rest =>
    rw [List.foldl_cons, rest, List.append_assoc, List.singleton_append, List.sum_cons, add_mul,
      add_assoc]

variable {P nb : ℕ} (numHeads headDim : ℕ) (masksPerDevice : Fin P → Fin nb → Bool)

def activeCounts : List ℕ := List.ofFn (fun p => countActive (masksPerDevice p))

theorem sum_activeCounts : (activeCounts masksPerDevice).sum = ∑ p, countActive (masksPerDevice p) :=
  List.sum_ofFn

theorem sum_activeCounts_le : (activeCounts masksPerDevice).sum ≤ P * nb := by
  have sum := sum_le_card_nsmul univ (fun p => countActive (masksPerDevice p)) nb
    (fun p _ => countActive_le _)
  rwa [card_univ, Fintype.card_fin, smul_eq_mul, ← sum_activeCounts] at sum

theorem iciAccounting_eq [NeZero P] :
    let volume := iciDataVolume format nb P (activeCounts masksPerDevice) numHeads headDim 2
    iciAccounting format numHeads headDim (P * (nb * 512)) masksPerDevice =
      { denseBytesTotal := volume.denseBytes
        sparseBytesTotal := volume.sparseBytes
        savingsBytes := volume.savingsBytes
        savingsPct := volume.savingsPct
        activePerDevice := activeCounts masksPerDevice
        blocksPerDevice := nb } := by
  have blocks : P * (nb * 512) / P / 512 = nb := by
    rw [Nat.mul_div_cancel_left _ (NeZero.pos P), Nat.mul_div_cancel _ (by decide)]
  have loop := foldl_active (activeCounts masksPerDevice) (512 * numHeads * headDim * 2) 0 []
  rw [activeCounts, List.ofFn_eq_map, List.foldl_map, List.nil_append, zero_add,
    ← List.ofFn_eq_map] at loop
  have dense : nb * (512 * numHeads * headDim * 2) * P =
      nb * P * (512 * numHeads * headDim * 2) := by
    ring
  simp only [iciAccounting, iciDataVolume, blocks, loop, dense, activeCounts]

end Agreement

section Percent
variable {K : Type} [Field K] [LinearOrder K] [FloorRing K] {P nb : ℕ} (heads dim : ℕ)

theorem savingsPct_exact [NeZero P] [NeZero nb] [NeZero heads] [NeZero dim] (counts : List ℕ) :
    (iciDataVolume .exact nb P counts heads dim 2).savingsPct =
      ((1 - (counts.sum : K) / (P * nb : ℕ)) * 100 : K) := by
  have bytes : 512 * heads * dim * 2 ≠ 0 := by
    simp [NeZero.ne heads, NeZero.ne dim]
  have positive : 0 < nb * P * (512 * heads * dim * 2) :=
    Nat.mul_pos (Nat.mul_pos (NeZero.pos nb) (NeZero.pos P)) (Nat.pos_of_ne_zero bytes)
  have scale : ((512 * heads * dim * 2 : ℕ) : K) ≠ 0 := Nat.cast_ne_zero.mpr bytes
  simp only [iciDataVolume, if_pos positive, FloatFormat.exact, id]
  rw [Nat.cast_mul, Nat.cast_mul (nb * P), mul_div_mul_right _ _ scale, mul_comm nb]

variable [IsStrictOrderedRing K] (format : FloatFormat K)

theorem savingsPct_between (counts : List ℕ) (room : counts.sum ≤ P * nb) :
    0 ≤ (iciDataVolume format nb P counts heads dim 2).savingsPct ∧
      (iciDataVolume format nb P counts heads dim 2).savingsPct ≤ 100 := by
  simp only [iciDataVolume]
  split_ifs with positive
  · have bytes : (0 : K) < (nb * P * (512 * heads * dim * 2) : ℕ) := Nat.cast_pos.mpr positive
    have sent : ((counts.sum * (512 * heads * dim * 2) : ℕ) : K) ≤
        (nb * P * (512 * heads * dim * 2) : ℕ) :=
      Nat.cast_le.mpr (Nat.mul_le_mul_right _ (room.trans_eq (mul_comm _ _)))
    have share : format.round ((counts.sum * (512 * heads * dim * 2) : ℕ) /
        (nb * P * (512 * heads * dim * 2) : ℕ)) ≤ 1 :=
      format.round_le_one ((div_le_one bytes).mpr sent)
    have share_nonneg : 0 ≤ format.round ((counts.sum * (512 * heads * dim * 2) : ℕ) /
        (nb * P * (512 * heads * dim * 2) : ℕ) : K) :=
      format.round_nonneg (div_nonneg (Nat.cast_nonneg _) bytes.le)
    have saved := format.round_nonneg (sub_nonneg.mpr share)
    have saved_le := format.round_le_one (sub_le_self 1 share_nonneg)
    have hundred : (0 : K) ≤ 100 := by norm_num
    refine ⟨format.round_nonneg (mul_nonneg saved hundred), ?_⟩
    exact_mod_cast format.round_le_natCast (show 100 ≤ 2 ^ 53 by norm_num)
      (mul_le_of_le_one_left hundred saved_le)
  · exact ⟨le_rfl, by norm_num⟩

end Percent

section Exchange
variable {K : Type} [Field K] [LinearOrder K] [FloorRing K] (format : FloatFormat K)
  {P nb : ℕ} (heads dim : ℕ)

/-- The statistics count keys and values: twice the volume, as long as that is an `int32`. -/
theorem bandwidthStats_volume [NeZero P] [NeZero nb] (counts : Fin P → ℕ)
    (bounded : ∀ p, counts p ≤ nb) (localNumActive : ℕ) :
    let volume := iciDataVolume format nb P (List.ofFn counts) heads dim 2
    let stats := bandwidthStats P nb heads dim localNumActive (computeOffsets counts).2
    if 2 * volume.denseBytes < 2 ^ 31 then
      ∃ returned, stats = .ok returned ∧ returned.bytesDense = 2 * volume.denseBytes ∧
        returned.bytesSaved = 2 * volume.savingsBytes
    else stats = .error .integerOverflow := by
  intro volume stats
  have room : ∑ p, counts p ≤ P * nb := by
    have sum := sum_le_card_nsmul univ counts nb (fun p _ => bounded p)
    rwa [card_univ, Fintype.card_fin, smul_eq_mul] at sum
  have dense : bytesDense P nb heads dim = 2 * volume.denseBytes := by
    simp only [volume, iciDataVolume, bytesDense]
    ring
  rw [← dense]
  split_ifs with fits
  · have returned := bandwidthStats_eq localNumActive (∑ p, counts p) (NeZero.pos P) (NeZero.pos nb)
      fits
    simp only [bytesSaved_eq _ room fits] at returned
    simp only [stats, computeOffsets_total]
    refine ⟨_, returned, rfl, ?_⟩
    simp only [volume, iciDataVolume, bytesDense, List.sum_ofFn]
    push_cast
    ring
  · exact bandwidthStats_error _ _ (not_lt.mp fits)

variable {R : Type} [Zero R] (kShard vShard : Fin P → Tensor R (nb * 512) heads dim)
  (blockMask : Fin P → Fin nb → Bool)

/-- What the exchange of the active blocks returns as its byte counts: twice the volume of one of the
caches. It raises when the collective rejects the buffers, and when the dense count is no `int32`. -/
def ExchangeAccounts [NeZero P] (volume : IciVolume K) (p : Fin P) : Prop :=
  let stats := returnedStats kShard vShard blockMask p
  if nb * 512 = P then
    if 2 * volume.denseBytes < 2 ^ 31 then
      ∃ returned, stats = .ok returned ∧ returned.bytesDense = 2 * volume.denseBytes ∧
        returned.bytesSaved = 2 * volume.savingsBytes
    else stats = .error .integerOverflow
  else stats = .error .shapeMismatch

theorem exchangeAccounts [NeZero P] [NeZero nb] (p : Fin P) :
    ExchangeAccounts heads dim kShard vShard blockMask
      (iciDataVolume format nb P (activeCounts blockMask) heads dim 2) p := by
  unfold ExchangeAccounts
  by_cases square : nb * 512 = P
  · rw [if_pos square, returnedStats_square kShard vShard blockMask square]
    exact bandwidthStats_volume format heads dim (fun p => countActive (blockMask p))
      (fun p => countActive_le (blockMask p)) (countActive (blockMask p))
  · rw [if_neg square]
    exact returnedStats_error kShard vShard blockMask square p

end Exchange

section Eviction
variable {P Q nb heads dim : ℕ} [NeZero Q] (q : Tensor ℝ Q heads dim)
  (kShard : Fin P → Tensor ℝ (nb * 512) heads dim) (tau zetaMax : ℝ)

noncomputable def deviceCounts (p : Fin P) : ℕ :=
  (DistributedAttention.streamCompact (shardMask q kShard tau zetaMax p)).2

/-- The volume of the devices' active blocks, as the distributed path accounts for it. -/
noncomputable def deviceVolume (format : FloatFormat ℝ) : IciVolume ℝ :=
  iciDataVolume format nb P (List.ofFn (deviceCounts q kShard tau zetaMax)) heads dim 2

structure VolumeReported (volume : IciVolume ℝ) (block : ℕ) (metadata : Metadata ℝ)
    (report : SpectralReport ℝ) : Prop where
  sparse : volume.sparseBytes = report.blocksRetained * block
  savings : volume.savingsBytes = report.blocksEvicted * block
  percent : volume.savingsPct = metadata.evictionRate * 100

/-- What the benchmark and the exchange make of the same blocks. -/
structure VolumeShared [NeZero P] (vShard : Fin P → Tensor ℝ (nb * 512) heads dim)
    (format : FloatFormat ℝ) : Prop where
  percent : 0 ≤ (deviceVolume q kShard tau zetaMax format).savingsPct ∧
    (deviceVolume q kShard tau zetaMax format).savingsPct ≤ 100
  benchmark : iciAccounting format heads dim (P * (nb * 512)) (shardMask q kShard tau zetaMax) =
    { denseBytesTotal := (deviceVolume q kShard tau zetaMax format).denseBytes
      sparseBytesTotal := (deviceVolume q kShard tau zetaMax format).sparseBytes
      savingsBytes := (deviceVolume q kShard tau zetaMax format).savingsBytes
      savingsPct := (deviceVolume q kShard tau zetaMax format).savingsPct
      activePerDevice := List.ofFn (deviceCounts q kShard tau zetaMax)
      blocksPerDevice := nb }
  exchange : ∀ p, ExchangeAccounts heads dim kShard vShard (shardMask q kShard tau zetaMax)
    (deviceVolume q kShard tau zetaMax format) p

theorem sum_deviceCounts : (List.ofFn (deviceCounts q kShard tau zetaMax)).sum =
    ∑ p, countActive (shardMask q kShard tau zetaMax p) :=
  List.sum_ofFn

variable [NeZero P] [NeZero nb]

theorem volumeShared (vShard : Fin P → Tensor ℝ (nb * 512) heads dim) (format : FloatFormat ℝ) :
    VolumeShared q kShard tau zetaMax vShard format where
  percent := savingsPct_between heads dim format _
    (sum_activeCounts_le (shardMask q kShard tau zetaMax))
  benchmark := iciAccounting_eq format heads dim (shardMask q kShard tau zetaMax)
  exchange p := exchangeAccounts format heads dim kShard vShard (shardMask q kShard tau zetaMax) p

variable [NeZero heads] [NeZero dim]

/-- Every device gates the blocks of its shard. The volume computed from their counts is the
eviction that the end-to-end call reports for the whole cache: the evicted blocks at the bytes of a
block and, without rounding, its eviction rate in percent. With any rounding it stays a percentage,
the benchmark counts the same volume, and the exchange returns twice of it where it does not raise. -/
theorem dataVolume_accounts (isTpu : Bool) (vShard : Fin P → Tensor ℝ (nb * 512) heads dim) :
    ∃ output metadata report,
      orthocacheForward .flushing isTpu q (wholeCache kShard) (wholeCache vShard) zetaMax (some tau)
        .compact = .ok (output, metadata) ∧ metadata.spectral = some report ∧
      VolumeReported (deviceVolume q kShard tau zetaMax .exact) (512 * heads * dim * 2) metadata
        report ∧
      ∀ format, VolumeShared q kShard tau zetaMax vShard format := by
  obtain ⟨metadata, report, returned, spectral, retained, evicted, rate⟩ :=
    orthocacheForward_report isTpu q (wholeCache kShard) (wholeCache vShard) zetaMax (some tau)
  have total : (List.ofFn (deviceCounts q kShard tau zetaMax)).sum = report.blocksRetained := by
    rw [retained, anyHead_gateMask, countActive_flattened, sum_deviceCounts]
  have room : report.blocksRetained ≤ P * nb := retained ▸ countActive_le _
  refine ⟨_, metadata, report, returned, spectral, ⟨?_, ?_, ?_⟩,
    volumeShared q kShard tau zetaMax vShard⟩
  · simp only [deviceVolume, iciDataVolume, total]
  · simp only [deviceVolume, iciDataVolume, total, evicted]
    rw [Nat.cast_sub room]
    push_cast
    ring
  · rw [deviceVolume, savingsPct_exact, total, rate]

end Eviction

theorem dataVolume_accounts_blocks :
    let shard : Fin 512 → Tensor ℝ (1 * 512) 2 1 := fun p => if p.val % 2 = 0 then ones else zeros
    let volume := deviceVolume (ones : Tensor ℝ 1 2 1) shard 0 5
    ∃ output metadata,
      orthocacheForward .flushing true (ones : Tensor ℝ 1 2 1) (wholeCache shard) (wholeCache shard) 5
          (some 0) .compact = .ok (output, metadata) ∧
        (volume .exact).savingsPct = metadata.evictionRate * 100 ∧
        (volume .binary64).savingsPct ≤ 100 ∧
        ∃ stats, returnedStats shard shard (shardMask (ones : Tensor ℝ 1 2 1) shard 0 5) 0 =
            .ok stats ∧
          stats.bytesSaved = 2 * (volume .binary64).savingsBytes := by
  intro shard volume
  obtain ⟨output, metadata, _, returned, -, reported, shared⟩ := dataVolume_accounts
    (ones : Tensor ℝ 1 2 1) shard 0 5 true shard
  have exchanged := (shared .binary64).exchange 0
  rw [ExchangeAccounts, if_pos rfl, if_pos] at exchanged
  · obtain ⟨stats, sent, -, saved⟩ := exchanged
    exact ⟨output, metadata, returned, reported.percent, (shared .binary64).percent.2, stats, sent,
      saved⟩
  · simp only [deviceVolume, iciDataVolume]
    decide

end OrthoCache.DataVolume
