import OrthoCache.Arrays

/-! The bucket sizes of the index-table and bucketed paths. Three modules of the source carry
the same list and the same rounding function. -/

namespace OrthoCache.Buckets

def buckets : List ℕ := [1, 2, 4, 8, 16, 32, 64, 128, 256, 512]

/-- Smallest bucket that is at least `n`; `n` itself past the last bucket. -/
def nextBucket (n : ℕ) : ℕ := (buckets.find? (fun b => b ≥ n)).getD n

theorem le_nextBucket (n : ℕ) : n ≤ nextBucket n := by
  unfold nextBucket
  cases found : buckets.find? (fun b => b ≥ n) with
  | none => exact le_rfl
  | some b => simpa using List.find?_some found

theorem mem_buckets (b : ℕ) : b ∈ buckets ↔ ∃ k ≤ 9, b = 2 ^ k := by
  have powers : buckets = (List.range 10).map (2 ^ ·) := by decide
  rw [powers, List.mem_map]
  simp only [List.mem_range, Nat.lt_succ_iff, eq_comm]

theorem nextBucket_isLeast (n : ℕ) (small : n ≤ 512) :
    IsLeast {b | b ∈ buckets ∧ n ≤ b} (nextBucket n) := by
  have sorted : buckets.Pairwise (· < ·) := by decide
  unfold nextBucket
  cases found : buckets.find? (fun b => b ≥ n) with
  | none =>
    have last := List.find?_eq_none.mp found 512 (by decide)
    simp only [ge_iff_le, decide_eq_true_eq] at last
    exact absurd small last
  | some b =>
    obtain ⟨large, before, after, split, skipped⟩ := List.find?_eq_some_iff_append.mp found
    refine ⟨⟨List.mem_of_find?_eq_some found, by simpa using large⟩, ?_⟩
    rintro c ⟨member, enough⟩
    rw [split] at sorted member
    rcases List.mem_append.mp member with earlier | later
    · have short := skipped c earlier
      simp only [ge_iff_le, Bool.not_eq_true', decide_eq_false_iff_not] at short
      exact absurd enough short
    · rcases List.mem_cons.mp later with rfl | later
      · exact le_rfl
      · exact ((List.pairwise_cons.mp (List.pairwise_append.mp sorted).2.1).1 c later).le

theorem nextBucket_of_lt (n : ℕ) (large : 512 < n) : nextBucket n = n := by
  have found : buckets.find? (fun b => b ≥ n) = none := by
    rw [List.find?_eq_none]
    intro b member enough
    obtain ⟨k, small, rfl⟩ := (mem_buckets b).mp member
    have room : 2 ^ k ≤ 2 ^ 9 := Nat.pow_le_pow_right Nat.two_pos small
    simp only [ge_iff_le, decide_eq_true_eq] at enough
    omega
  rw [nextBucket, found, Option.getD_none]

theorem nextBucket_le_iff (n nb : ℕ) (inside : n ≤ nb) :
    nextBucket n ≤ nb ↔ (∃ k ≤ 9, n ≤ 2 ^ k ∧ 2 ^ k ≤ nb) ∨ 512 < n := by
  rcases le_or_gt n 512 with small | large
  · obtain ⟨⟨member, enough⟩, least⟩ := nextBucket_isLeast n small
    rw [or_iff_left small.not_gt]
    constructor
    · intro room
      obtain ⟨k, bound, power⟩ := (mem_buckets _).mp member
      exact ⟨k, bound, power ▸ enough, power ▸ room⟩
    · rintro ⟨k, bound, enough, room⟩
      exact (least ⟨(mem_buckets _).mpr ⟨k, bound, rfl⟩, enough⟩).trans room
  · rw [nextBucket_of_lt n large]
    exact iff_of_true inside (.inr large)

example : nextBucket 3 = 4 ∧ nextBucket 600 = 600 := by decide

structure BucketMetadata (R : Type) where
  numActive : ℕ
  bucket : ℕ
  numBlocks : Option ℕ
  evictionRate : R

end OrthoCache.Buckets
