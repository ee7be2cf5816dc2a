import Mathlib

/-!
Softmax averages over a finite set of keys, the one-shot softmax that computes them, and
the total variation distance between a softmax distribution and its restriction to a subset.
-/

namespace OrthoCache.Foundation.SoftmaxMean
open Finset

variable {κ : Type*}

/-- Softmax mass of a set of keys with logits `z`. -/
noncomputable def expMass (S : Finset κ) (z : κ → ℝ) : ℝ := ∑ k ∈ S, Real.exp (z k)

noncomputable def expSum (S : Finset κ) (z v : κ → ℝ) : ℝ := ∑ k ∈ S, Real.exp (z k) * v k

/-- Softmax average of the values over a set of keys; zero over the empty set. -/
noncomputable def softmaxMean (S : Finset κ) (z v : κ → ℝ) : ℝ := expSum S z v / expMass S z

theorem expMass_nonneg (S : Finset κ) (z : κ → ℝ) : 0 ≤ expMass S z :=
  sum_nonneg (fun k _ => (Real.exp_pos (z k)).le)

theorem expMass_pos (S : Finset κ) (z : κ → ℝ) (nonempty : S.Nonempty) : 0 < expMass S z :=
  sum_pos (fun k _ => Real.exp_pos (z k)) nonempty

theorem exp_le_expMass (S : Finset κ) (z : κ → ℝ) (k : κ) (member : k ∈ S) :
    Real.exp (z k) ≤ expMass S z :=
  single_le_sum (f := fun k => Real.exp (z k)) (fun k _ => (Real.exp_pos (z k)).le) member

@[simp] theorem expSum_empty (z v : κ → ℝ) : expSum ∅ z v = 0 := rfl

@[simp] theorem expMass_empty (z : κ → ℝ) : expMass ∅ z = 0 := rfl

@[simp] theorem softmaxMean_empty (z v : κ → ℝ) : softmaxMean ∅ z v = 0 := by
  simp [softmaxMean]

theorem expMass_shift (S : Finset κ) (z : κ → ℝ) (shift : ℝ) :
    ∑ k ∈ S, Real.exp (z k - shift) = expMass S z / Real.exp shift := by
  simp only [expMass, sum_div, Real.exp_sub]

theorem expSum_shift (S : Finset κ) (z v : κ → ℝ) (shift : ℝ) :
    ∑ k ∈ S, Real.exp (z k - shift) * v k = expSum S z v / Real.exp shift := by
  simp only [expSum, sum_div, Real.exp_sub, div_mul_eq_mul_div]

theorem softmaxMean_shift (S : Finset κ) (z v : κ → ℝ) (shift : ℝ) :
    (∑ k ∈ S, Real.exp (z k - shift) * v k) / (∑ k ∈ S, Real.exp (z k - shift)) =
      softmaxMean S z v := by
  rw [expMass_shift, expSum_shift, softmaxMean, div_div_div_cancel_right₀ (Real.exp_ne_zero shift)]

theorem softmaxMean_equiv [Fintype κ] (order : Equiv.Perm κ) (z v : κ → ℝ) :
    softmaxMean univ (fun k => z (order k)) (fun k => v (order k)) = softmaxMean univ z v := by
  unfold softmaxMean expSum expMass
  rw [Equiv.sum_comp order (fun k => Real.exp (z k) * v k),
    Equiv.sum_comp order (fun k => Real.exp (z k))]

theorem softmaxMean_eq_zero (S : Finset κ) (z v : κ → ℝ) (vanish : ∀ k ∈ S, v k = 0) :
    softmaxMean S z v = 0 := by
  have sum : expSum S z v = 0 := sum_eq_zero (fun k member => by rw [vanish k member, mul_zero])
  rw [softmaxMean, sum, zero_div]

theorem softmaxMean_const (S : Finset κ) (z : κ → ℝ) (c : ℝ) (nonempty : S.Nonempty) :
    softmaxMean S z (fun _ => c) = c := by
  rw [softmaxMean, expSum, ← sum_mul, ← expMass,
    mul_div_cancel_left₀ _ (expMass_pos S z nonempty).ne']

theorem softmaxMean_pos (S : Finset κ) (z v : κ → ℝ) (nonneg : ∀ k ∈ S, 0 ≤ v k)
    (seen : ∃ k ∈ S, 0 < v k) : 0 < softmaxMean S z v := by
  obtain ⟨k, member, positive⟩ := seen
  have sum : 0 < expSum S z v :=
    sum_pos' (fun j inside => mul_nonneg (Real.exp_pos _).le (nonneg j inside))
      ⟨k, member, mul_pos (Real.exp_pos _) positive⟩
  exact div_pos sum (expMass_pos S z ⟨k, member⟩)

theorem softmaxMean_eq_zero_iff (S : Finset κ) (z v : κ → ℝ) :
    softmaxMean S z v = 0 ↔ expSum S z v = 0 := by
  rcases S.eq_empty_or_nonempty with rfl | nonempty
  · simp
  · rw [softmaxMean, div_eq_zero_iff, or_iff_left (expMass_pos S z nonempty).ne']

/-- Adding further keys leaves an average as it is exactly when they average to the same. -/
theorem softmaxMean_eq_iff [DecidableEq κ] (T S : Finset κ) (z v : κ → ℝ) (subset : S ⊆ T)
    (inside : S.Nonempty) (outside : (T \ S).Nonempty) :
    softmaxMean T z v = softmaxMean S z v ↔ softmaxMean (T \ S) z v = softmaxMean S z v := by
  have mass : expMass T z = expMass S z + expMass (T \ S) z := by
    rw [add_comm]
    exact (sum_sdiff subset).symm
  have sum : expSum T z v = expSum S z v + expSum (T \ S) z v := by
    rw [add_comm]
    exact (sum_sdiff subset).symm
  have kept := expMass_pos S z inside
  have evicted := expMass_pos (T \ S) z outside
  rw [softmaxMean, softmaxMean, softmaxMean, mass, sum,
    div_eq_div_iff (add_pos kept evicted).ne' kept.ne', div_eq_div_iff evicted.ne' kept.ne',
    add_mul, mul_add, add_right_inj]

theorem softmaxMean_univ_eq_iff [Fintype κ] [DecidableEq κ] (S : Finset κ) (z v : κ → ℝ)
    (inside : S.Nonempty) (outside : Sᶜ.Nonempty) :
    softmaxMean univ z v = softmaxMean S z v ↔ softmaxMean Sᶜ z v = softmaxMean S z v :=
  softmaxMean_eq_iff univ S z v (subset_univ S) inside outside

/-! ### Averages with a clamped normaliser -/

noncomputable def peak (level : ℝ) (S : Finset κ) (z : κ → ℝ) : ℝ := S.fold max level z

/-- Normaliser clamped from below in units of the largest weight. -/
noncomputable def clampedMass (level clamp : ℝ) (S : Finset κ) (z : κ → ℝ) : ℝ :=
  expMass S z ⊔ clamp * Real.exp (peak level S z)

noncomputable def clampedMean (level clamp : ℝ) (S : Finset κ) (z v : κ → ℝ) : ℝ :=
  expSum S z v / clampedMass level clamp S z

theorem clampedMass_pos (level clamp : ℝ) (S : Finset κ) (z : κ → ℝ) (positive : 0 < clamp) :
    0 < clampedMass level clamp S z :=
  (mul_pos positive (Real.exp_pos _)).trans_le le_sup_right

@[simp] theorem clampedMean_empty (level clamp : ℝ) (z v : κ → ℝ) :
    clampedMean level clamp ∅ z v = 0 := by
  simp [clampedMean]

theorem clampedMass_eq (level clamp : ℝ) (S : Finset κ) (z : κ → ℝ) (small : clamp ≤ 1)
    (reached : ∃ k ∈ S, level ≤ z k) : clampedMass level clamp S z = expMass S z := by
  have attained : ∃ k ∈ S, peak level S z ≤ z k := by
    by_contra none
    push Not at none
    obtain ⟨k, member, above⟩ := reached
    have below : peak level S z < peak level S z :=
      (fold_max_lt _).mpr ⟨above.trans_lt (none k member), none⟩
    exact below.false
  obtain ⟨k, member, top⟩ := attained
  apply sup_eq_left.mpr
  calc clamp * Real.exp (peak level S z) ≤ 1 * Real.exp (peak level S z) :=
        mul_le_mul_of_nonneg_right small (Real.exp_pos _).le
    _ ≤ Real.exp (z k) := by rw [one_mul]; exact Real.exp_le_exp.mpr top
    _ ≤ expMass S z := exp_le_expMass S z k member

theorem clampedMean_eq (level clamp : ℝ) (S : Finset κ) (z v : κ → ℝ) (small : clamp ≤ 1)
    (reached : ∃ k ∈ S, level ≤ z k) : clampedMean level clamp S z v = softmaxMean S z v := by
  rw [clampedMean, clampedMass_eq level clamp S z small reached, softmaxMean]

/-! ### The one-shot softmax -/

section OneShot
variable [Fintype κ] {R : Type*} [Field R] [LinearOrder R]

theorem row_nonempty (k : κ) : (univ : Finset κ).Nonempty := ⟨k, mem_univ k⟩

/-- Softmax of a finite row: subtract the maximum, exponentiate, normalise. -/
def softmax (exp : R → R) (x : κ → R) (k : κ) : R :=
  let rowMax := univ.sup' (row_nonempty k) x
  exp (x k - rowMax) / ∑ j, exp (x j - rowMax)

theorem sum_softmax_mul (exp : R → R) (x v : κ → R) (k : κ) :
    ∑ j, softmax exp x j * v j =
      (∑ j, exp (x j - univ.sup' (row_nonempty k) x) * v j) /
        ∑ j, exp (x j - univ.sup' (row_nonempty k) x) := by
  simp only [softmax, div_mul_eq_mul_div, sum_div]

theorem sum_softmax_exact (x v : κ → ℝ) :
    ∑ k, softmax Real.exp x k * v k = softmaxMean univ x v := by
  cases isEmpty_or_nonempty κ with
  | inl empty => simp [softmaxMean, expSum]
  | inr nonempty =>
    obtain ⟨k⟩ := nonempty
    rw [sum_softmax_mul _ _ _ k, softmaxMean_shift]

theorem sum_softmax_const (exp : ℝ → ℝ) (one : exp 0 = 1) (level : ℝ) (v : κ → ℝ) :
    ∑ k, softmax exp (fun _ => level) k * v k = (∑ k, v k) / Fintype.card κ := by
  cases isEmpty_or_nonempty κ with
  | inl empty => simp
  | inr nonempty =>
    obtain ⟨k⟩ := nonempty
    rw [sum_softmax_mul _ _ _ k, sup'_const, sub_self, one]
    simp

end OneShot

/-- An exponential that is exact down to `-depth` and underflows to zero below it. -/
structure FlushesBelow (exp : ℝ → ℝ) (depth : ℝ) : Prop where
  exact : ∀ x, -depth ≤ x → exp x = Real.exp x
  flush : ∀ x, x < -depth → exp x = 0

/-- Replacing the logits of masked keys by a sentinel far below all others removes these keys
from the average, as long as one key is kept. -/
theorem sum_softmax_masked [Fintype κ] {exp : ℝ → ℝ} {depth : ℝ} (flushes : FlushesBelow exp depth)
    (mask : κ → Bool) (z v : κ → ℝ) (bound sentinel : ℝ)
    (bounded : ∀ k, mask k = true → |z k| ≤ bound) (deep : 2 * bound ≤ depth)
    (low : sentinel + bound < -depth) (kept : ∃ k, mask k = true) :
    ∑ k, softmax exp (fun k => if mask k then z k else sentinel) k * v k =
      softmaxMean {k | mask k = true} z v := by
  obtain ⟨k, keptKey⟩ := kept
  have bound_nonneg : 0 ≤ bound := (abs_nonneg _).trans (bounded k keptKey)
  rw [sum_softmax_mul _ _ _ k]
  set top := univ.sup' (row_nonempty k) (fun k => if mask k then z k else sentinel) with htop
  have top_le : top ≤ bound := by
    apply sup'_le
    intro j _
    by_cases keep : mask j = true
    · simpa [keep] using (abs_le.mp (bounded j keep)).2
    · simp only [keep, Bool.false_eq_true, ↓reduceIte]
      linarith
  have le_top : -bound ≤ top := by
    have reached := le_sup' (fun k => if mask k then z k else sentinel) (mem_univ k)
    simp only [keptKey, ↓reduceIte] at reached
    exact (abs_le.mp (bounded k keptKey)).1.trans reached
  have weight (j : κ) : exp ((if mask j then z j else sentinel) - top) =
      if mask j = true then Real.exp (z j - top) else 0 := by
    by_cases keep : mask j = true
    · simp only [keep, ↓reduceIte]
      have lower := (abs_le.mp (bounded j keep)).1
      exact flushes.exact _ (by linarith)
    · simp only [keep, Bool.false_eq_true, ↓reduceIte]
      exact flushes.flush _ (by linarith)
  simp only [weight, ite_mul, zero_mul, ← sum_filter]
  exact softmaxMean_shift _ z v top

/-! ### Truncation -/

section Truncation
variable [Fintype κ]

/-- Half the `l1` distance between a softmax distribution and its renormalised restriction to
`S` is the mass outside `S`. -/
theorem half_l1_truncation [DecidableEq κ] (S : Finset κ) (z : κ → ℝ) (nonempty : S.Nonempty) :
    1 / 2 * ∑ k, |Real.exp (z k) / expMass univ z -
        (if k ∈ S then Real.exp (z k) / expMass S z else 0)| =
      expMass Sᶜ z / expMass univ z := by
  have total : expMass S z + expMass Sᶜ z = expMass univ z := sum_add_sum_compl S _
  have kept_pos := expMass_pos S z nonempty
  have evicted_nonneg := expMass_nonneg Sᶜ z
  have full_pos : 0 < expMass univ z := by linarith
  have kept : ∑ k ∈ S, |Real.exp (z k) / expMass univ z -
      (if k ∈ S then Real.exp (z k) / expMass S z else 0)| =
        expMass Sᶜ z / expMass univ z := by
    have term : ∀ k ∈ S, |Real.exp (z k) / expMass univ z -
        (if k ∈ S then Real.exp (z k) / expMass S z else 0)| =
          Real.exp (z k) * (1 / expMass S z - 1 / expMass univ z) := by
      intro k member
      have order : Real.exp (z k) / expMass univ z ≤ Real.exp (z k) / expMass S z :=
        div_le_div_of_nonneg_left (Real.exp_pos _).le kept_pos (by linarith)
      rw [if_pos member, abs_sub_comm, abs_of_nonneg (by linarith)]
      ring
    rw [sum_congr rfl term, ← sum_mul]
    change expMass S z * _ = _
    field_simp
    linarith
  have evicted : ∑ k ∈ Sᶜ, |Real.exp (z k) / expMass univ z -
      (if k ∈ S then Real.exp (z k) / expMass S z else 0)| =
        expMass Sᶜ z / expMass univ z := by
    rw [expMass.eq_1 Sᶜ, sum_div]
    apply sum_congr rfl
    intro k outside
    rw [if_neg (mem_compl.mp outside), sub_zero, abs_of_nonneg (by positivity)]
  rw [← sum_add_sum_compl S, kept, evicted]
  ring

/-- Keys whose logits stay below `level` carry at most `exp (level - z j)` of the mass each. -/
theorem mass_fraction_le (E : Finset κ) (z : κ → ℝ) (level : ℝ) (below : ∀ k ∈ E, z k ≤ level)
    (j : κ) : expMass E z / expMass univ z ≤ #E * Real.exp (level - z j) := by
  have full := exp_le_expMass univ z j (mem_univ j)
  have positive : 0 < expMass univ z := (Real.exp_pos _).trans_le full
  rw [div_le_iff₀ positive]
  calc expMass E z ≤ ∑ _k ∈ E, Real.exp level :=
        sum_le_sum (fun k member => Real.exp_le_exp.mpr (below k member))
    _ = #E * Real.exp (level - z j) * Real.exp (z j) := by
        rw [sum_const, nsmul_eq_mul, mul_assoc, ← Real.exp_add, sub_add_cancel]
    _ ≤ #E * Real.exp (level - z j) * expMass univ z :=
        mul_le_mul_of_nonneg_left full (by positivity)

end Truncation

end OrthoCache.Foundation.SoftmaxMean
