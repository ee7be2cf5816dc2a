import OrthoCache.KvExchange

/-!
The bandwidth statistics of the exchange. The dense byte count is a Python integer, the active
byte count an `int32`; they can be subtracted only when the dense count is an `int32` as well, and
then nothing wraps.
-/

namespace OrthoCache.BandwidthStatistics
open Finset Foundation.StablePartition Arrays Alltoallv KvExchange

/-- The statistics are returned and account for every active block in integers. -/
def StatsExact {P : ℕ} (counts : Fin P → ℕ) (heads dim : ℕ)
    (returned : Except Raised StatsDict) : Prop :=
  ∃ stats, returned = .ok stats ∧ stats.totalActive = ∑ p, counts p ∧
    stats.bytesSaved = stats.bytesDense - stats.totalActive * 512 * heads * dim * 4 ∧
    0 ≤ stats.bytesSaved ∧ stats.bytesSaved ≤ stats.bytesDense

theorem wrapInt32_of_fits (x : ℤ) (lower : 0 ≤ x) (upper : x < 2 ^ 31) : wrapInt32 x = x :=
  Int.bmod_eq_of_le_mul_two (by omega) (by omega)

section Bytes
variable {numDevices maxBlocks heads dim : ℕ}

theorem bytesDense_fits_iff :
    bytesDense numDevices maxBlocks heads dim < 2 ^ 31 ↔
      numDevices * maxBlocks * heads * dim < 2 ^ 20 := by
  have bytes : bytesDense numDevices maxBlocks heads dim =
      numDevices * maxBlocks * heads * dim * 2048 := by
    rw [bytesDense]
    ring
  rw [bytes]
  omega

theorem bytesActive_le (heads dim total : ℕ) (room : total ≤ numDevices * maxBlocks) :
    total * (512 * heads * dim) * 2 * 2 ≤ bytesDense numDevices maxBlocks heads dim := by
  unfold bytesDense
  gcongr

theorem bytesSaved_eq (total : ℕ) (room : total ≤ numDevices * maxBlocks)
    (fits : bytesDense numDevices maxBlocks heads dim < 2 ^ 31) :
    wrapInt32 (bytesDense numDevices maxBlocks heads dim -
        wrapInt32 (wrapInt32 (wrapInt32 (total * (512 * heads * dim : ℕ)) * 2) * 2)) =
      bytesDense numDevices maxBlocks heads dim - (total * (512 * heads * dim) * 2 * 2 : ℕ) := by
  have active := bytesActive_le heads dim total room
  set elements := 512 * heads * dim
  set dense := bytesDense numDevices maxBlocks heads dim
  have product : (total : ℤ) * (elements : ℕ) = (total * elements : ℕ) := by push_cast; rfl
  rw [product, wrapInt32_of_fits (total * elements : ℕ) (by omega) (by omega),
    wrapInt32_of_fits ((total * elements : ℕ) * 2) (by omega) (by omega),
    wrapInt32_of_fits ((total * elements : ℕ) * 2 * 2) (by omega) (by omega),
    wrapInt32_of_fits (dense - (total * elements : ℕ) * 2 * 2) (by omega) (by omega)]
  push_cast
  ring

end Bytes

section Statistics
variable {P maxBlocks heads dim : ℕ} [NeZero P] [NeZero maxBlocks] (counts : Fin P → ℕ)

theorem statsExact_of_fits (bounded : ∀ p, counts p ≤ maxBlocks) (localNumActive : ℕ)
    (fits : bytesDense P maxBlocks heads dim < 2 ^ 31) :
    StatsExact counts heads dim
      (bandwidthStats P maxBlocks heads dim localNumActive (computeOffsets counts).2) := by
  have room : ∑ p, counts p ≤ P * maxBlocks := by
    have sum := sum_le_card_nsmul univ counts maxBlocks (fun p _ => bounded p)
    rwa [card_univ, Fintype.card_fin, smul_eq_mul] at sum
  have active := bytesActive_le heads dim _ room
  have returned := bandwidthStats_eq localNumActive (∑ p, counts p) (NeZero.pos P)
    (NeZero.pos maxBlocks) fits
  simp only [bytesSaved_eq _ room fits] at returned
  rw [computeOffsets_total]
  refine ⟨_, returned, rfl, ?_, ?_, ?_⟩
  · push_cast
    ring
  · dsimp only
    omega
  · dsimp only
    omega

end Statistics

section Exchange
variable {R : Type} [Zero R] {P maxBlocks heads dim : ℕ} [NeZero P]
  (kShard vShard : Fin P → Tensor R (maxBlocks * 512) heads dim)
  (blockMask : Fin P → Fin maxBlocks → Bool)

def returnedStats (i : Fin P) : Except Raised StatsDict :=
  (alltoallvKvExchange kShard vShard blockMask i).map Exchanged.statsDict

theorem returnedStats_error (different : maxBlocks * 512 ≠ P) (i : Fin P) :
    returnedStats kShard vShard blockMask i = .error .shapeMismatch := by
  rw [returnedStats, alltoallvKvExchange_error kShard vShard blockMask different]
  rfl

theorem returnedStats_square (square : maxBlocks * 512 = P) (i : Fin P) :
    returnedStats kShard vShard blockMask i =
      bandwidthStats P maxBlocks heads dim (countActive (blockMask i))
        (computeOffsets (fun p => countActive (blockMask p))).2 := by
  rw [returnedStats, alltoallvKvExchange_square kShard vShard blockMask square]
  cases bandwidthStats P maxBlocks heads dim (countActive (blockMask i))
    (computeOffsets (fun p => countActive (blockMask p))).2 with
  | error e => rfl
  | ok stats => rfl

/-- A device returns statistics, and exact ones, exactly when there are as many devices as rows in a
send buffer and the dense byte count is an `int32`. -/
theorem statsExact_iff (i : Fin P) :
    StatsExact (fun p => countActive (blockMask p)) heads dim
        (returnedStats kShard vShard blockMask i) ↔
      maxBlocks * 512 = P ∧ P * maxBlocks * heads * dim < 2 ^ 20 := by
  rw [← bytesDense_fits_iff]
  by_cases square : maxBlocks * 512 = P
  · have : NeZero maxBlocks :=
      ⟨fun none => NeZero.ne P (by rw [← square, none, Nat.zero_mul])⟩
    rw [returnedStats_square kShard vShard blockMask square]
    constructor
    · rintro ⟨stats, returned, -⟩
      refine ⟨square, ?_⟩
      by_contra overflow
      rw [bandwidthStats_error _ _ (not_lt.mp overflow)] at returned
      cases returned
    · rintro ⟨-, fits⟩
      exact statsExact_of_fits _ (fun p => countActive_le (blockMask p)) _ fits
  · rw [returnedStats_error kShard vShard blockMask square]
    exact iff_of_false (fun ⟨_, returned, _⟩ => nomatch returned) (fun fits => square fits.1)

end Exchange

section Blocks

/-- 512 devices of one block, of which every second one is active. -/
theorem statsExact_alternate :
    let shards := fun _ : Fin 512 => (ones : Tensor ℤ (1 * 512) 2 16)
    let blockMask := fun (p : Fin 512) (_ : Fin 1) => decide (p.val % 2 = 0)
    StatsExact (fun p => countActive (blockMask p)) 2 16 (returnedStats shards shards blockMask 0) :=
  (statsExact_iff (fun _ : Fin 512 => (ones : Tensor ℤ (1 * 512) 2 16)) (fun _ => ones)
    (fun p _ => decide (p.val % 2 = 0)) 0).mpr ⟨rfl, by decide⟩

/-- With 32 heads of 64 entries the exchange gets as far as the statistics, and there the dense byte
count, 2 GiB, does not fit. -/
theorem statsExact_production :
    let shards := fun _ : Fin 512 => (ones : Tensor ℤ (1 * 512) 32 64)
    let blockMask := fun (_ : Fin 512) (_ : Fin 1) => true
    returnedStats shards shards blockMask 0 = .error .integerOverflow ∧
      ¬StatsExact (fun p => countActive (blockMask p)) 32 64
        (returnedStats shards shards blockMask 0) := by
  intro shards blockMask
  have overflow : 2 ^ 31 ≤ bytesDense 512 1 32 64 := by decide
  have raised : returnedStats shards shards blockMask 0 = .error .integerOverflow := by
    rw [returnedStats_square _ _ _ rfl, bandwidthStats_error _ _ overflow]
  refine ⟨raised, ?_⟩
  rw [raised]
  rintro ⟨stats, returned, -⟩
  cases returned

end Blocks

end OrthoCache.BandwidthStatistics
