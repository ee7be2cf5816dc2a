import OrthoCache.Arrays
import OrthoCache.Foundation.FloatRounding

/-!
The analytical bandwidth model: bytes on the interconnect for one decode step and the table over
several sparsities, in an arithmetic that rounds after every operation. Only the laws of rounding
are used, so that the table is consistent in every such arithmetic.
-/

namespace OrthoCache.IciBandwidthModel
open Foundation.FloatRounding Arrays

section Model

structure IciBytes where
  denseBytes : ℤ
  sparseBytes : ℤ
  savingsBytes : ℤ
  savingsPct : ℚ
  savingsGbPer1000Steps : ℚ

structure BandwidthRow where
  sparsity : ℚ
  denseMb : ℚ
  sparseMb : ℚ
  savingsMb : ℚ
  savingsPct : ℚ

def bytesPerGb : ℚ := 10 ^ 9

def bytesPerMb : ℚ := 10 ^ 6

variable (format : FloatFormat ℚ)

/-- The default levels, as the format holds them. -/
def defaultSparsityLevels : List ℚ :=
  [0, 1 / 10, 3 / 10, 1 / 2, 688 / 1000, 3 / 4, 9 / 10].map format.round

variable (formatFloat : ℚ → String) (numLayers seqLen headDim numKvHeads numDevices : ℕ)

def iciBytesPerStep (sparsity : ℚ) (dtypeBytes : ℕ) : Except Raised IciBytes :=
  if ¬(0 ≤ sparsity ∧ sparsity ≤ 1) then
    .error (.valueError ("sparsity must be in [0, 1], got " ++ formatFloat sparsity))
  else if numDevices * numDevices = 0 then .error .zeroDivision
  else
    let denseBytes := truncate (format.round
      ((numLayers * seqLen * headDim * numKvHeads * dtypeBytes : ℕ) / (numDevices * numDevices : ℕ)))
    let sparseBytes :=
      truncate (format.round (format.round denseBytes * format.round (1 - sparsity)))
    let savingsBytes := denseBytes - sparseBytes
    let savingsPct :=
      if 0 < denseBytes then format.round (format.round (savingsBytes / denseBytes) * 100) else 0
    let savingsGbPer1000 := format.round (format.round (savingsBytes * 1000 : ℤ) / bytesPerGb)
    .ok { denseBytes, sparseBytes, savingsBytes
          savingsPct := format.roundTo 2 savingsPct
          savingsGbPer1000Steps := format.roundTo 3 savingsGbPer1000 }

def megabytes (bytes : ℤ) : ℚ := format.roundTo 2 (format.round (format.round bytes / bytesPerMb))

def bandwidthRow (dtypeBytes : ℕ) (s : ℚ) : Except Raised BandwidthRow := do
  let r ← iciBytesPerStep format formatFloat numLayers seqLen headDim numKvHeads numDevices s
    dtypeBytes
  return {
    sparsity := s
    denseMb := megabytes format r.denseBytes
    sparseMb := megabytes format r.sparseBytes
    savingsMb := megabytes format r.savingsBytes
    savingsPct := r.savingsPct }

def iciBandwidthTable (dtypeBytes : ℕ) (sparsityLevels : Option (List ℚ)) :
    Except Raised (List BandwidthRow) :=
  (sparsityLevels.getD (defaultSparsityLevels format)).mapM
    (bandwidthRow format formatFloat numLayers seqLen headDim numKvHeads numDevices dtypeBytes)

end Model

section Bytes
variable (format : FloatFormat ℚ)

def sentBytes (dense : ℤ) (sparsity : ℚ) : ℤ :=
  truncate (format.round (format.round dense * format.round (1 - sparsity)))

def savedPct (dense sent : ℤ) : ℚ :=
  if 0 < dense then format.round (format.round ((dense - sent : ℤ) / dense) * 100) else 0

structure Representable (bytes : ℤ) : Prop where
  nonneg : 0 ≤ bytes
  round : format.round bytes = bytes

variable {format} {dense : ℤ} (held : Representable format dense)

theorem representable_truncate {x : ℚ} (nonneg : 0 ≤ x) :
    Representable format (truncate (format.round x)) where
  nonneg := truncate_nonneg (format.round_nonneg nonneg)
  round := format.round_truncate x

section Sent
include held

theorem Representable.round_nonneg : 0 ≤ format.round dense :=
  held.round.symm ▸ Int.cast_nonneg held.nonneg

theorem sentBytes_nonneg {s : ℚ} (le : s ≤ 1) : 0 ≤ sentBytes format dense s := by
  have share : 0 ≤ format.round (1 - s) := format.round_nonneg (sub_nonneg.mpr le)
  exact truncate_nonneg (format.round_nonneg (mul_nonneg held.round_nonneg share))

theorem sentBytes_antitone {s t : ℚ} (le : s ≤ t) (valid : t ≤ 1) :
    sentBytes format dense t ≤ sentBytes format dense s := by
  have share : 0 ≤ format.round (1 - t) := format.round_nonneg (sub_nonneg.mpr valid)
  exact truncate_mono (format.round_nonneg (mul_nonneg held.round_nonneg share)) (format.round_mono
    (mul_le_mul_of_nonneg_left (format.round_mono (sub_le_sub_left le 1)) held.round_nonneg))

theorem sentBytes_zero : sentBytes format dense 0 = dense := by
  rw [sentBytes, sub_zero, format.round_one, mul_one, format.round_round, held.round,
    truncate_intCast]

theorem sentBytes_le {s : ℚ} (nonneg : 0 ≤ s) (valid : s ≤ 1) :
    sentBytes format dense s ≤ dense :=
  (sentBytes_antitone held nonneg valid).trans (sentBytes_zero held).le

end Sent

theorem sentBytes_one : sentBytes format dense 1 = 0 := by
  rw [sentBytes, sub_self, format.round_zero, mul_zero, format.round_zero, ← Int.cast_zero,
    truncate_intCast]

section Saved
variable {sent other : ℤ}

theorem savedPct_antitone (le : other ≤ sent) :
    savedPct format dense sent ≤ savedPct format dense other := by
  unfold savedPct
  split_ifs with positive
  · have bytes : (0 : ℚ) ≤ dense := Int.cast_nonneg positive.le
    have saved : ((dense - sent : ℤ) : ℚ) ≤ (dense - other : ℤ) := Int.cast_le.mpr (by omega)
    exact format.round_mono (mul_le_mul_of_nonneg_right
      (format.round_mono (div_le_div_of_nonneg_right saved bytes)) (by norm_num))
  · exact le_rfl

theorem savedPct_self : savedPct format dense dense = 0 := by
  unfold savedPct
  split_ifs with positive
  · rw [sub_self, Int.cast_zero, zero_div, format.round_zero, zero_mul, format.round_zero]
  · rfl

theorem savedPct_zero (positive : 0 < dense) : savedPct format dense 0 = 100 := by
  have bytes : (dense : ℚ) ≠ 0 := Int.cast_ne_zero.mpr positive.ne'
  rw [savedPct, if_pos positive, sub_zero, div_self bytes, format.round_one, one_mul]
  exact_mod_cast format.round_natCast 100 (by norm_num)

theorem savedPct_nonneg (le : sent ≤ dense) : 0 ≤ savedPct format dense sent :=
  savedPct_self.ge.trans (savedPct_antitone le)

theorem savedPct_le (nonneg : 0 ≤ sent) : savedPct format dense sent ≤ 100 := by
  by_cases positive : 0 < dense
  · exact (savedPct_antitone nonneg).trans (savedPct_zero positive).le
  · rw [savedPct, if_neg positive]
    norm_num

end Saved

theorem megabytes_mono {bytes other : ℤ} (le : bytes ≤ other) :
    megabytes format bytes ≤ megabytes format other := by
  have unit : (0 : ℚ) ≤ bytesPerMb := by norm_num [bytesPerMb]
  exact format.roundTo_mono 2 (format.round_mono (div_le_div_of_nonneg_right
    (format.round_mono (Int.cast_le.mpr le)) unit))

theorem megabytes_zero : megabytes format 0 = 0 := by
  rw [megabytes, Int.cast_zero, format.round_zero, zero_div, format.round_zero, format.roundTo_zero]

end Bytes

section Table
variable (format : FloatFormat ℚ) (formatFloat : ℚ → String)
  (numLayers seqLen headDim numKvHeads numDevices dtypeBytes : ℕ)

def denseBytes : ℤ := truncate (format.round
  ((numLayers * seqLen * headDim * numKvHeads * dtypeBytes : ℕ) / (numDevices * numDevices : ℕ)))

/-- Why a level has no row. -/
def rejection (s : ℚ) : Option Raised :=
  if ¬(0 ≤ s ∧ s ≤ 1) then
    some (.valueError ("sparsity must be in [0, 1], got " ++ formatFloat s))
  else if numDevices = 0 then some .zeroDivision
  else none

def levelRow (dense : ℤ) (s : ℚ) : BandwidthRow where
  sparsity := s
  denseMb := megabytes format dense
  sparseMb := megabytes format (sentBytes format dense s)
  savingsMb := megabytes format (dense - sentBytes format dense s)
  savingsPct := format.roundTo 2 (savedPct format dense (sentBytes format dense s))

variable {formatFloat numDevices} in
theorem rejection_eq_none {s : ℚ} :
    rejection formatFloat numDevices s = none ↔ (0 ≤ s ∧ s ≤ 1) ∧ numDevices ≠ 0 := by
  unfold rejection
  split_ifs with outside zero <;> simp_all

theorem bandwidthRow_eq (s : ℚ) :
    bandwidthRow format formatFloat numLayers seqLen headDim numKvHeads numDevices dtypeBytes s =
      match rejection formatFloat numDevices s with
      | some raised => .error raised
      | none => .ok (levelRow format
          (denseBytes format numLayers seqLen headDim numKvHeads numDevices dtypeBytes) s) := by
  have square : numDevices * numDevices = 0 ↔ numDevices = 0 := mul_self_eq_zero
  simp only [bandwidthRow, iciBytesPerStep, rejection, square]
  by_cases valid : 0 ≤ s ∧ s ≤ 1
  · rw [if_neg (not_not.mpr valid), if_neg (not_not.mpr valid)]
    by_cases zero : numDevices = 0
    · rw [if_pos zero, if_pos zero]
      rfl
    · rw [if_neg zero, if_neg zero]
      rfl
  · rw [if_pos valid, if_pos valid]
    rfl

theorem mapM_bandwidthRow (levels : List ℚ) :
    levels.mapM (bandwidthRow format formatFloat numLayers seqLen headDim numKvHeads numDevices
        dtypeBytes) =
      match levels.findSome? (rejection formatFloat numDevices) with
      | some raised => .error raised
      | none => .ok (levels.map (levelRow format
          (denseBytes format numLayers seqLen headDim numKvHeads numDevices dtypeBytes))) := by
  induction levels with
  | nil => rfl
  | cons s levels rest =>
    rw [List.mapM_cons, bandwidthRow_eq, List.findSome?_cons]
    cases rejection formatFloat numDevices s with
    | some raised => rfl
    | none =>
      rw [rest]
      cases levels.findSome? (rejection formatFloat numDevices) <;> rfl

theorem denseBytes_representable : Representable format
    (denseBytes format numLayers seqLen headDim numKvHeads numDevices dtypeBytes) :=
  representable_truncate (div_nonneg (Nat.cast_nonneg _) (Nat.cast_nonneg _))

/-- A row that is consistent with itself. -/
structure RowBetween (row : BandwidthRow) : Prop where
  sparse : 0 ≤ row.sparseMb ∧ row.sparseMb ≤ row.denseMb
  savings : 0 ≤ row.savingsMb ∧ row.savingsMb ≤ row.denseMb
  pct : 0 ≤ row.savingsPct ∧ row.savingsPct ≤ 100
  dense_level : row.sparsity = 0 →
    row.sparseMb = row.denseMb ∧ row.savingsMb = 0 ∧ row.savingsPct = 0
  empty_level : row.sparsity = 1 → row.sparseMb = 0 ∧ row.savingsMb = row.denseMb

/-- A row that evicts at least as much as another one. -/
structure RowLe (row other : BandwidthRow) : Prop where
  dense : row.denseMb = other.denseMb
  sparse : other.sparseMb ≤ row.sparseMb
  savings : row.savingsMb ≤ other.savingsMb
  pct : row.savingsPct ≤ other.savingsPct

variable {format} {dense : ℤ} (held : Representable format dense)
include held

theorem levelRow_between {s : ℚ} (nonneg : 0 ≤ s) (valid : s ≤ 1) :
    RowBetween (levelRow format dense s) where
  sparse := ⟨megabytes_zero.ge.trans (megabytes_mono (sentBytes_nonneg held valid)),
    megabytes_mono (sentBytes_le held nonneg valid)⟩
  savings := ⟨megabytes_zero.ge.trans
      (megabytes_mono (sub_nonneg.mpr (sentBytes_le held nonneg valid))),
    megabytes_mono (sub_le_self _ (sentBytes_nonneg held valid))⟩
  pct := by
    have hundred := format.roundTo_natCast 2 (show 100 ≤ 2 ^ 53 by norm_num)
    refine ⟨format.roundTo_nonneg 2 (savedPct_nonneg (sentBytes_le held nonneg valid)), ?_⟩
    calc format.roundTo 2 (savedPct format dense (sentBytes format dense s))
        ≤ format.roundTo 2 ((100 : ℕ) : ℚ) :=
          format.roundTo_mono 2 (savedPct_le (sentBytes_nonneg held valid))
      _ = 100 := by rw [hundred]; norm_num
  dense_level zero := by
    have zero : s = 0 := zero
    simp only [levelRow, zero, sentBytes_zero held, sub_self, megabytes_zero, savedPct_self,
      format.roundTo_zero, and_self]
  empty_level one := by
    have one : s = 1 := one
    simp only [levelRow, one, sentBytes_one, sub_zero, megabytes_zero, and_self]

theorem levelRow_le {s t : ℚ} (le : s ≤ t) (valid : t ≤ 1) :
    RowLe (levelRow format dense s) (levelRow format dense t) where
  dense := rfl
  sparse := megabytes_mono (sentBytes_antitone held le valid)
  savings := megabytes_mono (sub_le_sub_left (sentBytes_antitone held le valid) dense)
  pct := format.roundTo_mono 2 (savedPct_antitone (sentBytes_antitone held le valid))

end Table

section Outcome
variable (format : FloatFormat ℚ) (formatFloat : ℚ → String)
  (numLayers seqLen headDim numKvHeads numDevices dtypeBytes : ℕ)

theorem defaultSparsityLevels_valid (s : ℚ) (level : s ∈ defaultSparsityLevels format) :
    0 ≤ s ∧ s ≤ 1 := by
  obtain ⟨exact, default, rfl⟩ := List.mem_map.mp level
  have between : 0 ≤ exact ∧ exact ≤ 1 := by
    simp only [List.mem_cons, List.not_mem_nil, or_false] at default
    rcases default with rfl | rfl | rfl | rfl | rfl | rfl | rfl <;> norm_num
  exact ⟨format.round_nonneg between.1, format.round_le_one between.2⟩

theorem default_accepted (devices : numDevices ≠ 0) :
    (defaultSparsityLevels format).findSome? (rejection formatFloat numDevices) = none :=
  List.findSome?_eq_none_iff.mpr
    (fun s level => rejection_eq_none.mpr ⟨defaultSparsityLevels_valid format s level, devices⟩)

/-- In any arithmetic that rounds its results, the table raises the error of the first level that is
out of range, or of the missing devices, and else has one consistent row for every level, in order;
of two rows the one of the higher sparsity sends less and saves more of the same dense volume. The
default levels are all accepted. -/
theorem iciBandwidthTable_outcome (sparsityLevels : Option (List ℚ)) :
    (numDevices ≠ 0 →
      (defaultSparsityLevels format).findSome? (rejection formatFloat numDevices) = none) ∧
    match (sparsityLevels.getD (defaultSparsityLevels format)).findSome?
      (rejection formatFloat numDevices) with
    | some raised => iciBandwidthTable format formatFloat numLayers seqLen headDim numKvHeads
        numDevices dtypeBytes sparsityLevels = .error raised
    | none => ∃ rows, iciBandwidthTable format formatFloat numLayers seqLen headDim numKvHeads
          numDevices dtypeBytes sparsityLevels = .ok rows ∧
        rows.map (·.sparsity) = sparsityLevels.getD (defaultSparsityLevels format) ∧
        (∀ row ∈ rows, RowBetween row) ∧
        ∀ row ∈ rows, ∀ other ∈ rows, row.sparsity ≤ other.sparsity → RowLe row other := by
  refine ⟨default_accepted format formatFloat numDevices, ?_⟩
  have table := mapM_bandwidthRow format formatFloat numLayers seqLen headDim numKvHeads numDevices
    dtypeBytes (sparsityLevels.getD (defaultSparsityLevels format))
  have held := denseBytes_representable format numLayers seqLen headDim numKvHeads numDevices
    dtypeBytes
  unfold iciBandwidthTable
  rw [table]
  cases first : (sparsityLevels.getD (defaultSparsityLevels format)).findSome?
      (rejection formatFloat numDevices) with
  | some raised => rfl
  | none =>
    have valid (s : ℚ) (level : s ∈ sparsityLevels.getD (defaultSparsityLevels format)) :=
      (rejection_eq_none.mp (List.findSome?_eq_none_iff.mp first s level)).1
    refine ⟨_, rfl, ?_, ?_, ?_⟩
    · rw [List.map_map]
      exact List.map_id _
    · intro row listed
      obtain ⟨s, level, rfl⟩ := List.mem_map.mp listed
      exact levelRow_between held (valid s level).1 (valid s level).2
    · intro row listed other listed' le
      obtain ⟨s, -, rfl⟩ := List.mem_map.mp listed
      obtain ⟨t, level, rfl⟩ := List.mem_map.mp listed'
      exact levelRow_le held le (valid t level).2

end Outcome

end OrthoCache.IciBandwidthModel
