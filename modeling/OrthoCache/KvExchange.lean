import OrthoCache.Alltoallv

/-!
What the key-value exchange is for, and exactly when it does it. The collective hands device `i`
row `i` of every send buffer, while unpacking expects all send buffers one after the other, so
the exchange needs as many devices as a buffer has rows and rows that happen to coincide.
-/

namespace OrthoCache.KvExchange
open Finset Foundation.StablePartition Foundation.RowMajor Arrays Alltoallv

section Specification
variable {R : Type} {P maxBlocks heads dim : ℕ}

def exchangeTokens (shard : Fin P → Tensor R (maxBlocks * 512) heads dim)
    (blockMask : Fin P → Fin maxBlocks → Bool) (devices : List (Fin P)) :
    List (Fin heads → Fin dim → R) :=
  devices.flatMap (fun p => activeTokens (shard p) (blockMask p))

variable [Zero R]

/-- No block is lost or duplicated: the buffers hold the active tokens of all devices and then
zeros, and the offsets are where each device's tokens start. -/
structure ExchangeCorrect (kShard vShard : Fin P → Tensor R (maxBlocks * 512) heads dim)
    (blockMask : Fin P → Fin maxBlocks → Bool) (result : Exchanged R P maxBlocks heads dim) :
    Prop where
  keys : ∀ t, result.kActive t = (exchangeTokens kShard blockMask (List.finRange P)).getD t.val 0
  values : ∀ t, result.vActive t = (exchangeTokens vShard blockMask (List.finRange P)).getD t.val 0
  starts : ∀ j, result.offsets j * 512 =
    (exchangeTokens kShard blockMask ((List.finRange P).take j.val)).length
  total : result.statsDict.totalActive * 512 =
    (exchangeTokens kShard blockMask (List.finRange P)).length

/-- Row `i` of the padded tokens, taken from the device whose number is a token's position in the
gathered layout (from the last device past the end), is that token, for every active token. -/
def RowsCoincide [NeZero P] (shard : Fin P → Tensor R (maxBlocks * 512) heads dim)
    (blockMask : Fin P → Fin maxBlocks → Bool) (i : Fin P) : Prop :=
  ∀ (j : Fin P) (s : ℕ), s < countActive (blockMask j) * 512 →
    getClamped (fun p => (activeTokens (shard p) (blockMask p)).getD i.val 0) (j.val * P + s) =
      (activeTokens (shard j) (blockMask j)).getD s 0

def bytesDense (P maxBlocks heads dim : ℕ) : ℕ := P * maxBlocks * (512 * heads * dim) * 2 * 2

end Specification

section Statistics
variable {numDevices maxBlocks heads dim : ℕ} (localNumActive totalActive : ℕ)

theorem toInt32_of_lt {x : ℕ} (fits : x < 2 ^ 31) : toInt32 x = .ok x := if_pos fits

theorem bandwidthStats_eq (devices : 0 < numDevices) (capacity : 0 < maxBlocks)
    (fits : bytesDense numDevices maxBlocks heads dim < 2 ^ 31) :
    bandwidthStats numDevices maxBlocks heads dim localNumActive totalActive =
      let bytesActive :=
        wrapInt32 (wrapInt32 (wrapInt32 (totalActive * (512 * heads * dim : ℕ)) * 2) * 2)
      .ok
        { localNumActive := localNumActive
          totalActive := totalActive
          denseBlocks := numDevices * maxBlocks
          bytesSaved := wrapInt32 (bytesDense numDevices maxBlocks heads dim - bytesActive)
          bytesDense := bytesDense numDevices maxBlocks heads dim } := by
  have smaller : 512 * heads * dim ≤ bytesDense numDevices maxBlocks heads dim := by
    rw [bytesDense, Nat.mul_assoc _ 2 2]
    exact (Nat.le_mul_of_pos_left _ (Nat.mul_pos devices capacity)).trans
      (Nat.le_mul_of_pos_right _ (by decide))
  have elements := toInt32_of_lt (smaller.trans_lt fits)
  have dense := toInt32_of_lt fits
  rw [bytesDense] at dense
  simp only [bandwidthStats, elements, dense]
  rfl

theorem bandwidthStats_ok (devices : 0 < numDevices) (capacity : 0 < maxBlocks)
    (fits : bytesDense numDevices maxBlocks heads dim < 2 ^ 31) :
    ∃ stats, bandwidthStats numDevices maxBlocks heads dim localNumActive totalActive = .ok stats ∧
      stats.totalActive = totalActive :=
  ⟨_, bandwidthStats_eq localNumActive totalActive devices capacity fits, rfl⟩

theorem bandwidthStats_error (overflow : 2 ^ 31 ≤ bytesDense numDevices maxBlocks heads dim) :
    bandwidthStats numDevices maxBlocks heads dim localNumActive totalActive =
      .error .integerOverflow := by
  have dense : toInt32 (bytesDense numDevices maxBlocks heads dim) = .error .integerOverflow :=
    if_neg overflow.not_gt
  rw [bytesDense] at dense
  simp only [bandwidthStats, dense]
  by_cases fits : 512 * heads * dim < 2 ^ 31
  · rw [toInt32_of_lt fits]
    rfl
  · rw [toInt32, if_neg fits]
    rfl

end Statistics

section Layout
variable {R : Type} {P maxBlocks heads dim : ℕ}
  (shard : Fin P → Tensor R (maxBlocks * 512) heads dim)
  (blockMask : Fin P → Fin maxBlocks → Bool)

theorem length_exchangeTokens (devices : List (Fin P)) :
    (exchangeTokens shard blockMask devices).length =
      (devices.map (fun p => countActive (blockMask p) * 512)).sum := by
  rw [exchangeTokens, List.length_flatMap]
  simp only [length_activeTokens]

theorem length_exchangeTokens_take (i : Fin P) :
    (exchangeTokens shard blockMask ((List.finRange P).take i.val)).length =
      ∑ j ∈ Iio i, countActive (blockMask j) * 512 := by
  rw [length_exchangeTokens, List.map_take, ← List.ofFn_eq_map, List.sum_take_ofFn]
  congr 1
  ext j
  rw [mem_filter, mem_Iio, Fin.lt_def]
  simp only [mem_univ, true_and]

theorem length_exchangeTokens_all :
    (exchangeTokens shard blockMask (List.finRange P)).length =
      ∑ j, countActive (blockMask j) * 512 := by
  rw [length_exchangeTokens, ← List.ofFn_eq_map, List.sum_ofFn]

variable [Zero R]

/-- In the gathered layout the valid rows, read in order, are the active tokens in order. -/
theorem exchangeTokens_eq_map_selected : exchangeTokens shard blockMask (List.finRange P) =
    (selected (flattened (validRows 512 (fun p => countActive (blockMask p))))).map
      (fun k : Fin (P * (maxBlocks * 512)) =>
        (activeTokens (shard k.divNat) (blockMask k.divNat)).getD k.modNat.val 0) := by
  rw [selected_flattened, List.map_flatMap, exchangeTokens]
  congr 1
  funext p
  have room : (activeTokens (shard p) (blockMask p)).length ≤ maxBlocks * 512 := by
    rw [length_activeTokens]
    exact Nat.mul_le_mul_right 512 (countActive_le (blockMask p))
  have front := map_getD_selected_lt (activeTokens (shard p) (blockMask p)) 0 room
  simp only [List.map_map, Function.comp_def, index_divNat, index_modNat]
  rw [length_activeTokens] at front
  exact front.symm

variable [NeZero P]

def deliveredRows (square : maxBlocks * 512 = P) (i : Fin P) : Tensor R P heads dim := fun j =>
  packActiveBlocks (shard j) (streamCompact (blockMask j)).1 (streamCompact (blockMask j)).2
    (i.cast square.symm)

/-- Unpacking the delivered rows gives the active tokens exactly when the rows coincide. -/
theorem unpack_deliveredRows_iff (square : maxBlocks * 512 = P) (i : Fin P) :
    (∀ t, (unpackReceivedBlocks (deliveredRows shard blockMask square i)
          (fun p => countActive (blockMask p)) maxBlocks 512).1 t =
        (exchangeTokens shard blockMask (List.finRange P)).getD t.val 0) ↔
      RowsCoincide shard blockMask i := by
  have rows : deliveredRows shard blockMask square i =
      fun p => (activeTokens (shard p) (blockMask p)).getD i.val 0 := by
    funext p
    exact packActiveBlocks_streamCompact (shard p) (blockMask p) (i.cast square.symm)
  have stride (j s : ℕ) : s + maxBlocks * 512 * j = j * P + s := by
    rw [square, Nat.mul_comm, Nat.add_comm]
  simp only [rows, exchangeTokens_eq_map_selected,
    unpackReceivedBlocks_apply 512 _ _ (fun p => countActive_le (blockMask p))]
  rw [forall_getD_map_selected_iff]
  constructor
  · intro agree j s inside
    have room := Nat.mul_le_mul_right 512 (countActive_le (blockMask j))
    have entry := agree (finProdFinEquiv (j, ⟨s, inside.trans_le room⟩))
    rw [flattened, index_divNat, index_modNat, validRows, decide_eq_true_eq] at entry
    rw [← stride]
    exact entry inside
  · intro agree k valid
    rw [flattened, validRows, decide_eq_true_eq] at valid
    have entry := agree k.divNat k.modNat.val valid
    have position : k.val = k.modNat.val + maxBlocks * 512 * k.divNat.val :=
      congrArg Fin.val (index_div_mod k).symm
    rw [position, stride]
    exact entry

end Layout

section Exchange
variable {R : Type} [Zero R] {P maxBlocks heads dim : ℕ} [NeZero P]
  (kShard vShard : Fin P → Tensor R (maxBlocks * 512) heads dim)
  (blockMask : Fin P → Fin maxBlocks → Bool)

def exchanged (square : maxBlocks * 512 = P) (i : Fin P) (statsDict : StatsDict) :
    Exchanged R P maxBlocks heads dim :=
  let allCounts := fun p => countActive (blockMask p)
  { kActive := (unpackReceivedBlocks (deliveredRows kShard blockMask square i) allCounts
      maxBlocks 512).1
    vActive := (unpackReceivedBlocks (deliveredRows vShard blockMask square i) allCounts
      maxBlocks 512).1
    allCounts := allCounts
    offsets := (computeOffsets allCounts).1
    statsDict := statsDict }

theorem alltoallvKvExchange_error (different : maxBlocks * 512 ≠ P) (i : Fin P) :
    alltoallvKvExchange kShard vShard blockMask i = .error .shapeMismatch := by
  simp only [alltoallvKvExchange, alltoallvExchange, allToAll, dif_neg different]
  rfl

theorem alltoallvKvExchange_square (square : maxBlocks * 512 = P) (i : Fin P) :
    alltoallvKvExchange kShard vShard blockMask i =
      (bandwidthStats P maxBlocks heads dim (countActive (blockMask i))
        (computeOffsets (fun p => countActive (blockMask p))).2).map
          (exchanged kShard vShard blockMask square i) := by
  simp only [alltoallvKvExchange, alltoallvExchange, allToAll, dif_pos square]
  rfl

theorem alltoallvKvExchange_ok (square : maxBlocks * 512 = P)
    (fits : bytesDense P maxBlocks heads dim < 2 ^ 31) (i : Fin P) :
    ∃ stats, stats.totalActive = ∑ p, countActive (blockMask p) ∧
      alltoallvKvExchange kShard vShard blockMask i =
        .ok (exchanged kShard vShard blockMask square i stats) := by
  have devices := NeZero.pos P
  obtain ⟨stats, returned, total⟩ := bandwidthStats_ok (countActive (blockMask i))
    (computeOffsets (fun p => countActive (blockMask p))).2 devices (by omega) fits
  refine ⟨stats, total.trans (computeOffsets_total _), ?_⟩
  rw [alltoallvKvExchange_square kShard vShard blockMask square, returned]
  rfl

theorem exchangeCorrect_exchanged_iff (square : maxBlocks * 512 = P) (i : Fin P)
    (stats : StatsDict) (total : stats.totalActive = ∑ p, countActive (blockMask p)) :
    ExchangeCorrect kShard vShard blockMask (exchanged kShard vShard blockMask square i stats) ↔
      RowsCoincide kShard blockMask i ∧ RowsCoincide vShard blockMask i := by
  rw [← unpack_deliveredRows_iff kShard blockMask square,
    ← unpack_deliveredRows_iff vShard blockMask square]
  constructor
  · intro correct
    exact ⟨correct.keys, correct.values⟩
  · rintro ⟨keys, values⟩
    refine ⟨keys, values, ?_, ?_⟩
    · intro j
      rw [length_exchangeTokens_take, ← sum_mul]
      exact congrArg (· * 512) (computeOffsets_offsets _ j)
    · rw [length_exchangeTokens_all, ← sum_mul]
      exact congrArg (· * 512) total

/-- The exchange is correct on every device exactly when there are as many devices as rows in a
send buffer, the dense byte count is an `int32`, and the rows happen to coincide. -/
theorem exchangeCorrect_iff :
    (∀ i, ∃ result, alltoallvKvExchange kShard vShard blockMask i = .ok result ∧
        ExchangeCorrect kShard vShard blockMask result) ↔
      maxBlocks * 512 = P ∧ bytesDense P maxBlocks heads dim < 2 ^ 31 ∧
        ∀ i, RowsCoincide kShard blockMask i ∧ RowsCoincide vShard blockMask i := by
  constructor
  · intro correct
    have square : maxBlocks * 512 = P := by
      by_contra different
      obtain ⟨result, returned, -⟩ := correct 0
      rw [alltoallvKvExchange_error kShard vShard blockMask different] at returned
      cases returned
    have fits : bytesDense P maxBlocks heads dim < 2 ^ 31 := by
      by_contra overflow
      obtain ⟨result, returned, -⟩ := correct 0
      rw [alltoallvKvExchange_square kShard vShard blockMask square,
        bandwidthStats_error _ _ (not_lt.mp overflow)] at returned
      cases returned
    refine ⟨square, fits, fun i => ?_⟩
    obtain ⟨result, returned, holds⟩ := correct i
    obtain ⟨stats, total, delivered⟩ :=
      alltoallvKvExchange_ok kShard vShard blockMask square fits i
    rw [Except.ok.inj (returned.symm.trans delivered)] at holds
    exact (exchangeCorrect_exchanged_iff kShard vShard blockMask square i stats total).mp holds
  · rintro ⟨square, fits, coincide⟩ i
    obtain ⟨stats, total, delivered⟩ :=
      alltoallvKvExchange_ok kShard vShard blockMask square fits i
    exact ⟨_, delivered, (exchangeCorrect_exchanged_iff kShard vShard blockMask square i stats
      total).mpr (coincide i)⟩

end Exchange

/-- 512 devices with one block of ones each, all active: any row is the row that is missing. -/
theorem exchange_ones_correct : ∃ result,
    alltoallvKvExchange (fun _ : Fin 512 => (ones : Tensor ℤ (1 * 512) 1 1)) (fun _ => ones)
        (fun _ _ => true) 0 = .ok result ∧
      ExchangeCorrect (fun _ : Fin 512 => (ones : Tensor ℤ (1 * 512) 1 1)) (fun _ => ones)
        (fun _ _ => true) result := by
  have fits : bytesDense 512 1 1 1 < 2 ^ 31 := by decide
  have length : (activeTokens (ones : Tensor ℤ (1 * 512) 1 1) (fun _ => true)).length = 512 := by
    rw [length_activeTokens]
    decide
  have one (s : ℕ) (inside : s < 512) :
      (activeTokens (ones : Tensor ℤ (1 * 512) 1 1) (fun _ => true)).getD s 0 = fun _ _ => 1 := by
    have present : s < (activeTokens (ones : Tensor ℤ (1 * 512) 1 1) (fun _ => true)).length :=
      inside.trans_eq length.symm
    rw [List.getD_eq_getElem _ _ present]
    obtain ⟨b, -, member⟩ := List.mem_flatMap.mp (List.getElem_mem present)
    obtain ⟨t, token⟩ := (List.mem_ofFn' _ _).mp member
    exact token.symm
  have coincide (i : Fin 512) :
      RowsCoincide (fun _ => (ones : Tensor ℤ (1 * 512) 1 1)) (fun _ _ => true) i := by
    intro j s inside
    have room : s < 512 := by simpa [countActive] using inside
    rw [one s room]
    exact one i.val i.isLt
  exact (exchangeCorrect_iff (fun _ : Fin 512 => (ones : Tensor ℤ (1 * 512) 1 1)) (fun _ => ones)
    (fun _ _ => true)).mpr ⟨rfl, fits, fun i => ⟨coincide i, coincide i⟩⟩ 0

/-- One device and one active block: the collective does not accept the send buffer. -/
theorem exchange_single_device_incorrect :
    ¬∀ i, ∃ result, alltoallvKvExchange (fun _ : Fin 1 => (ones : Tensor ℤ (1 * 512) 1 1))
        (fun _ => ones) (fun _ _ => true) i = .ok result ∧
      ExchangeCorrect (fun _ : Fin 1 => (ones : Tensor ℤ (1 * 512) 1 1)) (fun _ => ones)
        (fun _ _ => true) result := by
  intro correct
  obtain ⟨result, returned, -⟩ := correct 0
  rw [alltoallvKvExchange_error _ _ _ (by decide)] at returned
  cases returned

end OrthoCache.KvExchange
