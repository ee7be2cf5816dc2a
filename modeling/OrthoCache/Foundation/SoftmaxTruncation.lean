import OrthoCache.Foundation.SoftmaxMean

/-!
How far a softmax average moves when keys are left out. An average lies between the smallest and
the largest value, and leaving keys out moves it by their share of the mass times the distance
between the two averages.
-/

namespace OrthoCache.Foundation.SoftmaxMean
open Finset

variable {κ : Type*}

section Hull
variable (S : Finset κ) (z v : κ → ℝ) {low high : ℝ} (between : ∀ k ∈ S, low ≤ v k ∧ v k ≤ high)
include between

theorem expSum_between : low * expMass S z ≤ expSum S z v ∧ expSum S z v ≤ high * expMass S z := by
  rw [expMass, expSum, mul_sum, mul_sum]
  constructor
  · refine sum_le_sum (fun k member => ?_)
    rw [mul_comm]
    exact mul_le_mul_of_nonneg_left (between k member).1 (Real.exp_pos _).le
  · refine sum_le_sum (fun k member => ?_)
    rw [mul_comm high]
    exact mul_le_mul_of_nonneg_left (between k member).2 (Real.exp_pos _).le

theorem softmaxMean_between (nonempty : S.Nonempty) :
    low ≤ softmaxMean S z v ∧ softmaxMean S z v ≤ high := by
  have mass := expMass_pos S z nonempty
  obtain ⟨lower, upper⟩ := expSum_between S z v between
  exact ⟨(le_div_iff₀ mass).mpr lower, (div_le_iff₀ mass).mpr upper⟩

end Hull

section Truncation
variable [Fintype κ] [DecidableEq κ] (S : Finset κ) (z v : κ → ℝ)

theorem expMass_compl_mono {T : Finset κ} (subset : S ⊆ T) : expMass Tᶜ z ≤ expMass Sᶜ z :=
  sum_le_sum_of_subset_of_nonneg (compl_subset_compl.mpr subset) (fun _ _ _ => (Real.exp_pos _).le)

variable (nonempty : S.Nonempty)
include nonempty

theorem softmaxMean_univ_sub : softmaxMean univ z v - softmaxMean S z v =
    expMass Sᶜ z / expMass univ z * (softmaxMean Sᶜ z v - softmaxMean S z v) := by
  have mass : expMass S z + expMass Sᶜ z = expMass univ z := sum_add_sum_compl S _
  have sum : expSum S z v + expSum Sᶜ z v = expSum univ z v := sum_add_sum_compl S _
  have kept := expMass_pos S z nonempty
  have full : 0 < expMass univ z := expMass_pos univ z (nonempty.mono (subset_univ S))
  rcases (Sᶜ).eq_empty_or_nonempty with none | some
  · rw [none, expMass_empty, add_zero] at mass
    rw [none, expSum_empty, add_zero] at sum
    rw [none, expMass_empty, zero_div, zero_mul, softmaxMean, softmaxMean, mass, sum, sub_self]
  · have evicted := expMass_pos Sᶜ z some
    rw [softmaxMean, softmaxMean, softmaxMean, ← sum, ← mass]
    field_simp
    ring

/-- The average moves by at most the evicted share of the mass times the spread of the values. -/
theorem abs_softmaxMean_sub_le {low high : ℝ} (between : ∀ k, low ≤ v k ∧ v k ≤ high) :
    |softmaxMean S z v - softmaxMean univ z v| ≤
      expMass Sᶜ z / expMass univ z * (high - low) := by
  have share : 0 ≤ expMass Sᶜ z / expMass univ z :=
    div_nonneg (expMass_nonneg _ z) (expMass_nonneg _ z)
  rw [abs_sub_comm, softmaxMean_univ_sub S z v nonempty, abs_mul, abs_of_nonneg share]
  rcases (Sᶜ).eq_empty_or_nonempty with none | some
  · rw [none, expMass_empty, zero_div, zero_mul, zero_mul]
  · have inside := softmaxMean_between S z v (fun k _ => between k) nonempty
    have outside := softmaxMean_between Sᶜ z v (fun k _ => between k) some
    refine mul_le_mul_of_nonneg_left (abs_le.mpr ⟨?_, ?_⟩) share
    · linarith
    · linarith
end Truncation

end OrthoCache.Foundation.SoftmaxMean
