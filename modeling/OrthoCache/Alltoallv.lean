import OrthoCache.Arrays

/-!
The three-step key-value exchange between sequence shards: every device packs its active blocks
into a padded buffer, the counts and the buffers are exchanged, and the padding is trimmed. A
definition takes the arguments of all devices; a collective returns the results of all devices.
-/

namespace OrthoCache.Alltoallv
open Finset Foundation.StablePartition Foundation.RowMajor Arrays

section Model
variable {R : Type} [Zero R] {P rows maxBlocks heads dim : ℕ}

def streamCompact (blockMask : Fin maxBlocks → Bool) : Equiv.Perm (Fin maxBlocks) × ℕ :=
  (argsort (negatedKey blockMask), countActive blockMask)

/-- `lax.all_gather`: every device receives the operands stacked in device order. -/
def allGather {α : Type} (x : Fin P → α) : Fin P → Fin P → α := fun _ j => x j

def countSync (localNumActive : Fin P → ℕ) : Fin P → Fin P → ℕ :=
  let gathered := allGather (fun p (_ : Fin 1) => localNumActive p)
  fun i j => squeeze (gathered i j)

def cumsum (x : Fin P → ℕ) (i : Fin P) : ℕ := ∑ j ∈ Iic i, x j

def computeOffsets [NeZero P] (allCounts : Fin P → ℕ) : (Fin P → ℕ) × ℕ :=
  let inclusive := cumsum allCounts
  let offsets := fun i : Fin P => if i.val = 0 then 0 else inclusive ⟨i.val - 1, by omega⟩
  let totalActive := inclusive ⟨P - 1, Nat.sub_one_lt (NeZero.ne P)⟩
  (offsets, totalActive)

def packActiveBlocks (kvShard : Tensor R (maxBlocks * 512) heads dim)
    (activeIndices : Fin maxBlocks → Fin maxBlocks) (numActive : ℕ) :
    Tensor R (maxBlocks * 512) heads dim :=
  let copyBlock := fun (buf : Tensor R (maxBlocks * 512) heads dim) (i : Fin maxBlocks) =>
    let srcStart := (activeIndices i).val * 512
    let block := dynamicSlice kvShard srcStart 512 (Nat.le_mul_of_pos_left 512 i.pos)
    let dstStart := i.val * 512
    dynamicUpdateSlice buf (if i.val < numActive then block else zeros) dstStart
  (List.finRange maxBlocks).foldl copyBlock zeros

/-- `lax.all_to_all` with `split_axis = concat_axis = 0` and its default `tiled=False`: the
leading axis holds one row for every device, and device `i` receives row `i` of every operand in
device order. -/
def allToAll {α : Type} (x : Fin P → Fin rows → α) : Except Raised (Fin P → Fin P → α) :=
  if square : rows = P then .ok (fun i j => x j (i.cast square.symm)) else .error .shapeMismatch

def alltoallvExchange (kPacked vPacked : Fin P → Tensor R rows heads dim) :
    Except Raised ((Fin P → Tensor R P heads dim) × (Fin P → Tensor R P heads dim)) := do
  let kReceived ← allToAll kPacked
  let vReceived ← allToAll vPacked
  return (kReceived, vReceived)

/-- The received buffer has any number of rows: its shape is not checked against the device count
and the capacity, and reads past its end return its last row. -/
def unpackReceivedBlocks [NeZero P] [NeZero rows] (kvReceived : Tensor R rows heads dim)
    (allCounts : Fin P → ℕ) (maxBlocks blockSize : ℕ) :
    Tensor R (P * (maxBlocks * blockSize)) heads dim × (Fin P → ℕ) :=
  let shardTokens := maxBlocks * blockSize
  let activeTokenCounts := fun p => allCounts p * blockSize
  let validMask := fun t : Fin (P * (maxBlocks * blockSize)) =>
    let shardId := t.divNat
    let withinShard := t.val - shardId.val * shardTokens
    decide (withinShard < activeTokenCounts shardId)
  let gatherIndices := argsort (paddingKey validMask)
  let totalActiveTokens := ∑ p, activeTokenCounts p
  let activeKv := fun t : Fin (P * (maxBlocks * blockSize)) =>
    if totalActiveTokens ≤ t.val then 0 else getClamped kvReceived (gatherIndices t).val
  let offsetsBlocks := (computeOffsets allCounts).1
  (activeKv, fun p => offsetsBlocks p * blockSize)

/-- A Python integer that meets an `int32` array. -/
def toInt32 (x : ℕ) : Except Raised ℤ := if x < 2 ^ 31 then .ok x else .error .integerOverflow

def wrapInt32 (x : ℤ) : ℤ := x.bmod (2 ^ 32)

structure StatsDict where
  localNumActive : ℕ
  totalActive : ℕ
  denseBlocks : ℕ
  bytesSaved : ℤ
  bytesDense : ℕ

def bandwidthStats (numDevices maxBlocks heads dim localNumActive totalActive : ℕ) :
    Except Raised StatsDict := do
  let denseBlocks := numDevices * maxBlocks
  let elementsPerBlock := 512 * heads * dim
  let bytesPerElement := 2
  let bytesDense := denseBlocks * elementsPerBlock * bytesPerElement * 2
  let elements ← toInt32 elementsPerBlock
  let bytesActive :=
    wrapInt32 (wrapInt32 (wrapInt32 (totalActive * elements) * bytesPerElement) * 2)
  let dense ← toInt32 bytesDense
  let bytesSaved := wrapInt32 (dense - bytesActive)
  return { localNumActive, totalActive, denseBlocks, bytesSaved, bytesDense }

structure Exchanged (R : Type) (P maxBlocks heads dim : ℕ) where
  kActive : Tensor R (P * (maxBlocks * 512)) heads dim
  vActive : Tensor R (P * (maxBlocks * 512)) heads dim
  allCounts : Fin P → ℕ
  offsets : Fin P → ℕ
  statsDict : StatsDict

/-- What device `i` returns when the devices hold these shards and masks. -/
def alltoallvKvExchange [NeZero P] (kShard vShard : Fin P → Tensor R (maxBlocks * 512) heads dim)
    (blockMask : Fin P → Fin maxBlocks → Bool) (i : Fin P) :
    Except Raised (Exchanged R P maxBlocks heads dim) := do
  let activeIndices := fun p => (streamCompact (blockMask p)).1
  let numActive := fun p => (streamCompact (blockMask p)).2
  let allCounts := countSync numActive i
  let (offsets, totalActive) := computeOffsets allCounts
  let kPacked := fun p => packActiveBlocks (kShard p) (activeIndices p) (numActive p)
  let vPacked := fun p => packActiveBlocks (vShard p) (activeIndices p) (numActive p)
  let (kReceived, vReceived) ← alltoallvExchange kPacked vPacked
  let kActive := (unpackReceivedBlocks (kReceived i) allCounts maxBlocks 512).1
  let vActive := (unpackReceivedBlocks (vReceived i) allCounts maxBlocks 512).1
  let statsDict ← bandwidthStats P maxBlocks heads dim (numActive i) totalActive
  return { kActive, vActive, allCounts, offsets, statsDict }

end Model

section Offsets
variable {P : ℕ} [NeZero P] (allCounts : Fin P → ℕ)

theorem computeOffsets_offsets (i : Fin P) :
    (computeOffsets allCounts).1 i = ∑ j ∈ Iio i, allCounts j := by
  simp only [computeOffsets, cumsum]
  split_ifs with first
  · symm
    apply sum_eq_zero
    intro j before
    have less := Fin.lt_def.mp (mem_Iio.mp before)
    omega
  · congr 1
    ext j
    rw [mem_Iic, mem_Iio, Fin.le_def, Fin.lt_def]
    change j.val ≤ i.val - 1 ↔ j.val < i.val
    omega

theorem computeOffsets_total : (computeOffsets allCounts).2 = ∑ j, allCounts j := by
  simp only [computeOffsets, cumsum]
  congr 1
  ext j
  have inside := j.isLt
  rw [mem_Iic, Fin.le_def]
  change j.val ≤ P - 1 ↔ j ∈ univ
  simp only [mem_univ, iff_true]
  omega

example : (computeOffsets ![2, 0, 3]).1 2 = 2 ∧ (computeOffsets ![2, 0, 3]).2 = 5 := by decide

end Offsets

section Packing
variable {R : Type} {maxBlocks heads dim : ℕ}

def activeTokens (shard : Tensor R (maxBlocks * 512) heads dim) (mask : Fin maxBlocks → Bool) :
    List (Fin heads → Fin dim → R) :=
  (selected mask).flatMap (fun b => List.ofFn (blocked shard b))

theorem length_activeTokens (shard : Tensor R (maxBlocks * 512) heads dim)
    (mask : Fin maxBlocks → Bool) :
    (activeTokens shard mask).length = countActive mask * 512 := by
  rw [activeTokens, List.length_flatMap]
  simp only [List.length_ofFn, List.map_const', List.sum_replicate, smul_eq_mul]
  rw [countActive_eq, selectedCount]

variable [Zero R]

theorem blocked_packActiveBlocks (kvShard : Tensor R (maxBlocks * 512) heads dim)
    (activeIndices : Fin maxBlocks → Fin maxBlocks) (numActive : ℕ) (j : Fin maxBlocks) :
    blocked (packActiveBlocks kvShard activeIndices numActive) j =
      if j.val < numActive then blocked kvShard (activeIndices j) else 0 := by
  simp only [packActiveBlocks, dynamicSlice_block]
  rw [blocked_foldl_update zeros
    (fun i => if i.val < numActive then blocked kvShard (activeIndices i) else zeros)]
  rw [if_pos (List.mem_finRange j)]
  rfl

/-- A buffer with the blocks of a stable partition in front and zeros behind them lists the active
tokens. -/
theorem eq_activeTokens (shard buffer : Tensor R (maxBlocks * 512) heads dim)
    (mask : Fin maxBlocks → Bool) {order : Equiv.Perm (Fin maxBlocks)}
    (partition : IsStablePartition mask order)
    (packed : ∀ j, blocked buffer j =
      if j.val < countActive mask then blocked shard (order j) else 0)
    (t : Fin (maxBlocks * 512)) : buffer t = (activeTokens shard mask).getD t.val 0 := by
  have position : t.val = t.modNat.val + 512 * t.divNat.val :=
    congrArg Fin.val (index_div_mod t).symm
  rw [← blocked_apply_div_mod buffer t, packed, position, List.getD_eq_getElem?_getD, activeTokens,
    getElem?_flatMap_ofFn, ← List.getElem?_map, ← List.getD_eq_getElem?_getD,
    partition.getD_map_selected _ _ t.divNat, ← countActive_eq, ite_apply]
  rfl

/-- The send buffer is the active tokens followed by zeros. -/
theorem packActiveBlocks_streamCompact (shard : Tensor R (maxBlocks * 512) heads dim)
    (mask : Fin maxBlocks → Bool) (t : Fin (maxBlocks * 512)) :
    packActiveBlocks shard (streamCompact mask).1 (streamCompact mask).2 t =
      (activeTokens shard mask).getD t.val 0 :=
  eq_activeTokens shard _ mask (argsort_negatedKey mask)
    (fun j => blocked_packActiveBlocks shard _ _ j) t

end Packing

section Unpacking
variable {R : Type} [Zero R] {P rows maxBlocks heads dim : ℕ} (blockSize : ℕ)

/-- The rows of a gathered buffer that are not padding. -/
def validRows (allCounts : Fin P → ℕ) (p : Fin P) (s : Fin (maxBlocks * blockSize)) : Bool :=
  decide (s.val < allCounts p * blockSize)

theorem countActive_validRows (allCounts : Fin P → ℕ) (bounded : ∀ p, allCounts p ≤ maxBlocks) :
    countActive (flattened (validRows blockSize allCounts :
      Fin P → Fin (maxBlocks * blockSize) → Bool)) = ∑ p, allCounts p * blockSize := by
  rw [countActive_flattened]
  apply sum_congr rfl
  intro p _
  exact countActive_front _ (Nat.mul_le_mul_right blockSize (bounded p))

variable [NeZero P] [NeZero rows]

theorem unpackReceivedBlocks_apply (kvReceived : Tensor R rows heads dim) (allCounts : Fin P → ℕ)
    (bounded : ∀ p, allCounts p ≤ maxBlocks) (t : Fin (P * (maxBlocks * blockSize))) :
    (unpackReceivedBlocks kvReceived allCounts maxBlocks blockSize).1 t =
      ((selected (flattened (validRows blockSize allCounts))).map
        (fun k : Fin (P * (maxBlocks * blockSize)) => getClamped kvReceived k.val)).getD t.val 0 := by
  have valid : (fun k : Fin (P * (maxBlocks * blockSize)) =>
      decide (k.val - k.divNat.val * (maxBlocks * blockSize) < allCounts k.divNat * blockSize)) =
      flattened (validRows blockSize allCounts) := by
    funext k
    have within : k.val - k.divNat.val * (maxBlocks * blockSize) = k.modNat.val := by
      have position : k.val = k.modNat.val + maxBlocks * blockSize * k.divNat.val :=
        congrArg Fin.val (index_div_mod k).symm
      rw [position, Nat.mul_comm k.divNat.val, Nat.add_sub_cancel]
    rw [flattened, validRows, within]
  simp only [unpackReceivedBlocks]
  rw [valid, (argsort_paddingKey _).getD_map_selected, ← countActive_eq,
    countActive_validRows blockSize allCounts bounded]
  by_cases padding : ∑ p, allCounts p * blockSize ≤ t.val
  · rw [if_pos padding, if_neg (not_lt.mpr padding)]
  · rw [if_neg padding, if_pos (not_le.mp padding)]

end Unpacking

end OrthoCache.Alltoallv
