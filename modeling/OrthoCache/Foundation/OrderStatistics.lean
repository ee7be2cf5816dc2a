import Mathlib

/-!
Percentiles by linear interpolation between the two nearest order statistics. No more entries lie
below a percentile than its position says, a percentile lies between the extreme entries and grows
with its fraction, and the median is the percentile at one half.
-/

namespace OrthoCache.Foundation.OrderStatistics

section Definition
variable {R : Type*} [Field R] [LinearOrder R] [FloorRing R]

def interpolate (sorted : List R) (position : R) : R :=
  let index := ⌊position⌋₊
  let lower := sorted.getD index 0
  let upper := sorted.getD (min (index + 1) (sorted.length - 1)) 0
  lower + (upper - lower) * (position - index)

/-- The percentile at a fraction of the way from the smallest to the largest entry. -/
def percentile (entries : List R) (fraction : R) : R :=
  interpolate (entries.mergeSort (· ≤ ·)) (fraction * ((entries.length : R) - 1))

/-- The entry in the middle, or the mean of the two entries around it. -/
def median (entries : List R) : R :=
  let sorted := entries.mergeSort (· ≤ ·)
  let index := sorted.length / 2
  if sorted.length % 2 = 1 then sorted.getD index 0
  else (sorted.getD (index - 1) 0 + sorted.getD index 0) / (2 : ℕ)

end Definition

theorem getD_mem {R : Type*} (sorted : List R) {i : ℕ} (inside : i < sorted.length) (default : R) :
    sorted.getD i default ∈ sorted := by
  rw [List.getD_eq_getElem _ _ inside]
  exact List.getElem_mem inside

section Sorted
variable {R : Type*} [LinearOrder R]

theorem pairwise_mergeSort (entries : List R) :
    (entries.mergeSort (· ≤ ·)).Pairwise (· ≤ ·) := by
  have sorted : (entries.mergeSort (fun a b => decide (a ≤ b))).Pairwise
      (fun a b => decide (a ≤ b) = true) := List.pairwise_mergeSort
    (fun a b c ab bc => by simp only [decide_eq_true_eq] at *; exact ab.trans bc)
    (fun a b => by simp only [Bool.or_eq_true, decide_eq_true_eq]; exact le_total a b) entries
  exact sorted.imp (fun le => decide_eq_true_eq.mp le)

theorem getD_mono {sorted : List R} (ordered : sorted.Pairwise (· ≤ ·)) {i j : ℕ} (before : i ≤ j)
    (inside : j < sorted.length) (default : R) : sorted.getD i default ≤ sorted.getD j default := by
  rw [List.getD_eq_getElem _ _ (before.trans_lt inside), List.getD_eq_getElem _ _ inside]
  rcases before.eq_or_lt with rfl | less
  · exact le_rfl
  · exact List.pairwise_iff_getElem.mp ordered i j _ inside less

theorem countP_lt_le {sorted : List R} (ordered : sorted.Pairwise (· ≤ ·)) {i : ℕ}
    (inside : i < sorted.length) {value default : R} (reached : value ≤ sorted.getD i default) :
    sorted.countP (fun entry => decide (entry < value)) ≤ i := by
  have behind : (sorted.drop i).countP (fun entry => decide (entry < value)) = 0 := by
    rw [List.countP_eq_zero]
    intro entry member
    obtain ⟨k, room, rfl⟩ := List.getElem_of_mem member
    rw [List.length_drop] at room
    rw [List.getElem_drop, decide_eq_true_eq, not_lt]
    have here : i + k < sorted.length := by omega
    have later := getD_mono ordered (Nat.le_add_right i k) here default
    rw [List.getD_eq_getElem sorted default here] at later
    exact reached.trans later
  calc sorted.countP (fun entry => decide (entry < value))
      = (sorted.take i).countP (fun entry => decide (entry < value)) +
          (sorted.drop i).countP (fun entry => decide (entry < value)) := by
        rw [← List.countP_append, List.take_append_drop]
    _ ≤ i := by
        rw [behind, Nat.add_zero]
        exact List.countP_le_length.trans (List.length_take_le i sorted)

end Sorted

section Interpolation
variable {R : Type*} [Field R] [LinearOrder R] [IsStrictOrderedRing R] [FloorRing R]
  {sorted : List R} (ordered : sorted.Pairwise (· ≤ ·)) {position : R} (nonneg : 0 ≤ position)
  (inside : position ≤ (sorted.length : R) - 1)
include nonneg inside

theorem floor_lt_length : ⌊position⌋₊ < sorted.length := by
  have below : (⌊position⌋₊ : R) < sorted.length :=
    (Nat.floor_le nonneg).trans_lt (by linarith)
  exact_mod_cast below

include ordered

theorem interpolate_between :
    sorted.getD ⌊position⌋₊ 0 ≤ interpolate sorted position ∧
      interpolate sorted position ≤ sorted.getD (min (⌊position⌋₊ + 1) (sorted.length - 1)) 0 := by
  have room := floor_lt_length nonneg inside
  have order := getD_mono ordered (i := ⌊position⌋₊)
    (j := min (⌊position⌋₊ + 1) (sorted.length - 1)) (by omega) (by omega) (0 : R)
  have fraction := Nat.floor_le nonneg
  have small := Nat.lt_floor_add_one position
  simp only [interpolate]
  constructor
  · have rise := mul_nonneg (sub_nonneg.mpr order) (sub_nonneg.mpr fraction)
    linarith
  · have rise := mul_le_of_le_one_right (sub_nonneg.mpr order)
      (show position - ⌊position⌋₊ ≤ 1 by linarith)
    linarith

/-- No more entries lie below the interpolated value than its position, rounded up. -/
theorem countP_interpolate_le :
    sorted.countP (fun entry => decide (entry < interpolate sorted position)) ≤ ⌈position⌉₊ := by
  have room := floor_lt_length nonneg inside
  have ⟨_, upper⟩ := interpolate_between ordered nonneg inside
  rcases (Nat.floor_le nonneg).eq_or_lt with whole | part
  · -- the position is that of an entry
    have exact_value : interpolate sorted position = sorted.getD ⌊position⌋₊ 0 := by
      simp only [interpolate, whole, sub_self, mul_zero, add_zero]
    refine (countP_lt_le ordered room exact_value.le).trans ?_
    exact Nat.floor_le_ceil position
  · have next : ⌊position⌋₊ + 1 ≤ sorted.length - 1 := by
      have below : (⌊position⌋₊ : R) + 1 < sorted.length := by
        linarith
      have below' : ⌊position⌋₊ + 1 < sorted.length := by exact_mod_cast below
      omega
    rw [min_eq_left next] at upper
    refine (countP_lt_le ordered (by omega) upper).trans ?_
    exact Nat.lt_ceil.mpr part

omit nonneg inside in
theorem interpolate_mono {position' : R} (nonneg : 0 ≤ position) (before : position ≤ position')
    (inside : position' ≤ (sorted.length : R) - 1) :
    interpolate sorted position ≤ interpolate sorted position' := by
  have room := floor_lt_length (nonneg.trans before) inside
  have ⟨_, upper⟩ := interpolate_between ordered nonneg (before.trans inside)
  have ⟨lower, _⟩ := interpolate_between ordered (nonneg.trans before) inside
  rcases (Nat.floor_mono before).eq_or_lt with same | less
  · have order := getD_mono ordered (i := ⌊position⌋₊)
      (j := min (⌊position⌋₊ + 1) (sorted.length - 1)) (by omega) (by omega) (0 : R)
    simp only [interpolate, ← same]
    have rise := mul_le_mul_of_nonneg_left (sub_le_sub_right before (⌊position⌋₊ : R))
      (sub_nonneg.mpr order)
    linarith
  · exact upper.trans ((getD_mono ordered (by omega) room 0).trans lower)

end Interpolation

section Percentile
variable {R : Type*} [Field R] [LinearOrder R] [IsStrictOrderedRing R] [FloorRing R]
  {entries : List R} (nonempty : entries ≠ []) {fraction : R} (nonneg : 0 ≤ fraction)
  (le_one : fraction ≤ 1)
include nonempty nonneg le_one

theorem position_inside : 0 ≤ fraction * ((entries.length : R) - 1) ∧
    fraction * ((entries.length : R) - 1) ≤ ((entries.mergeSort (· ≤ ·)).length : R) - 1 := by
  have positive : (1 : R) ≤ entries.length := by
    exact_mod_cast List.length_pos_iff.mpr nonempty
  rw [List.length_mergeSort]
  exact ⟨mul_nonneg nonneg (by linarith), mul_le_of_le_one_left (by linarith) le_one⟩

theorem percentile_between : ∃ a ∈ entries, ∃ b ∈ entries,
    a ≤ percentile entries fraction ∧ percentile entries fraction ≤ b := by
  obtain ⟨start, stop⟩ := position_inside nonempty nonneg le_one
  have room := floor_lt_length start stop
  obtain ⟨lower, upper⟩ := interpolate_between (pairwise_mergeSort entries) start stop
  exact ⟨_, List.mem_mergeSort.mp (getD_mem _ room 0), _,
    List.mem_mergeSort.mp (getD_mem _ (by omega) 0), lower, upper⟩

theorem countP_percentile_le :
    entries.countP (fun entry => decide (entry < percentile entries fraction)) ≤
      ⌈fraction * ((entries.length : R) - 1)⌉₊ := by
  obtain ⟨start, stop⟩ := position_inside nonempty nonneg le_one
  rw [← (List.mergeSort_perm entries (· ≤ ·)).countP_eq]
  exact countP_interpolate_le (pairwise_mergeSort entries) start stop

theorem percentile_mono {fraction' : R} (before : fraction ≤ fraction') (le_one' : fraction' ≤ 1) :
    percentile entries fraction ≤ percentile entries fraction' := by
  have positive : (1 : R) ≤ entries.length := by
    exact_mod_cast List.length_pos_iff.mpr nonempty
  obtain ⟨start, _⟩ := position_inside nonempty nonneg le_one
  obtain ⟨_, stop⟩ := position_inside nonempty (nonneg.trans before) le_one'
  exact interpolate_mono (pairwise_mergeSort entries) start
    (mul_le_mul_of_nonneg_right before (by linarith)) stop

omit nonneg le_one

theorem median_eq_percentile : median entries = percentile entries (1 / 2) := by
  have positive := List.length_pos_iff.mpr nonempty
  simp only [median, percentile, interpolate, List.length_mergeSort]
  rcases Nat.even_or_odd' entries.length with ⟨m, even | odd⟩
  · have half : 0 < m := by omega
    obtain ⟨k, rfl⟩ := Nat.exists_eq_succ_of_ne_zero half.ne'
    have position : (1 / 2 : R) * ((entries.length : R) - 1) = k + 1 / 2 := by
      rw [even]
      push_cast
      ring
    have index : ⌊(k : R) + 1 / 2⌋₊ = k := by
      rw [Nat.floor_eq_iff (by positivity)]
      constructor <;> linarith
    rw [position, index, if_neg (by omega), show entries.length / 2 = k + 1 by omega,
      min_eq_left (by omega), Nat.add_sub_cancel]
    push_cast
    ring
  · have position : (1 / 2 : R) * ((entries.length : R) - 1) = m := by
      rw [odd]
      push_cast
      ring
    rw [position, Nat.floor_natCast, if_pos (by omega), show entries.length / 2 = m by omega,
      sub_self, mul_zero, add_zero]

end Percentile

end OrthoCache.Foundation.OrderStatistics
