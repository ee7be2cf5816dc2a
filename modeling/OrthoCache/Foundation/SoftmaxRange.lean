import OrthoCache.Foundation.OnlineSoftmax

/-!
The range of softmax averages when all that is known of the exponential is that it is no negative
weight, at most one below zero and one at zero. Every state of an online softmax has a normaliser
between zero and the number of keys it has absorbed and a weighted sum in proportion to it.
-/

namespace OrthoCache.Foundation.OnlineSoftmax
open Finset SoftmaxMean

section Weights
variable {R : Type*} [Field R] [LinearOrder R]

/-- What the weights of an average need of an exponential. -/
structure Weighs (exp : R → R) : Prop where
  nonneg : ∀ x, 0 ≤ exp x
  le_one : ∀ x, x ≤ 0 → exp x ≤ 1
  zero : exp 0 = 1

theorem weighs_of_flushesBelow {exp : ℝ → ℝ} {depth : ℝ} (flushes : FlushesBelow exp depth)
    (deep : 0 ≤ depth) : Weighs exp where
  nonneg x := by
    rcases lt_or_ge x (-depth) with below | above
    · exact (flushes.flush x below).ge
    · rw [flushes.exact x above]
      exact (Real.exp_pos x).le
  le_one x negative := by
    rcases lt_or_ge x (-depth) with below | above
    · rw [flushes.flush x below]
      exact zero_le_one
    · rw [flushes.exact x above]
      exact Real.exp_le_one_iff.mpr negative
  zero := by rw [flushes.exact 0 (neg_nonpos.mpr deep), Real.exp_zero]

theorem weighs_exp : Weighs Real.exp where
  nonneg x := (Real.exp_pos x).le
  le_one _ negative := Real.exp_le_one_iff.mpr negative
  zero := Real.exp_zero

variable [IsStrictOrderedRing R] {κ : Type*} {w v : κ → R} {low high : R}

theorem weighted_between (S : Finset κ) (nonneg : ∀ k ∈ S, 0 ≤ w k)
    (between : ∀ k ∈ S, low ≤ v k ∧ v k ≤ high) :
    low * ∑ k ∈ S, w k ≤ ∑ k ∈ S, w k * v k ∧ ∑ k ∈ S, w k * v k ≤ high * ∑ k ∈ S, w k := by
  rw [mul_sum, mul_sum]
  constructor
  · refine sum_le_sum (fun k member => ?_)
    rw [mul_comm]
    exact mul_le_mul_of_nonneg_left (between k member).1 (nonneg k member)
  · refine sum_le_sum (fun k member => ?_)
    rw [mul_comm high]
    exact mul_le_mul_of_nonneg_left (between k member).2 (nonneg k member)

theorem sum_softmax_between [Fintype κ] [Nonempty κ] {exp : R → R} (weighs : Weighs exp) (x : κ → R)
    (between : ∀ k, low ≤ v k ∧ v k ≤ high) :
    low ≤ ∑ k, softmax exp x k * v k ∧ ∑ k, softmax exp x k * v k ≤ high := by
  obtain ⟨k⟩ := ‹Nonempty κ›
  obtain ⟨top, _, attained⟩ := exists_mem_eq_sup' (row_nonempty k) x
  have mass : 0 < ∑ j, exp (x j - univ.sup' (row_nonempty k) x) := by
    refine sum_pos' (fun j _ => weighs.nonneg _) ⟨top, mem_univ top, ?_⟩
    rw [attained, sub_self, weighs.zero]
    exact one_pos
  obtain ⟨lower, upper⟩ := weighted_between (univ : Finset κ)
    (w := fun j => exp (x j - univ.sup' (row_nonempty k) x)) (fun j _ => weighs.nonneg _)
    (fun j _ => between j)
  rw [sum_softmax_mul exp x v k]
  exact ⟨(le_div_iff₀ mass).mpr lower, (div_le_iff₀ mass).mpr upper⟩

end Weights

/-! ### States of an online softmax -/

section States
variable {R δ ι β : Type*} [Field R] [LinearOrder R]

/-- A state that has absorbed `visited` keys with values between the bounds at coordinate `d`. -/
structure Stable (low high level : R) (visited : ℕ) (d : δ) (acc : Acc R δ) : Prop where
  nonneg : 0 ≤ acc.sum
  sum_le : acc.sum ≤ visited
  lower : low * acc.sum ≤ acc.out d
  upper : acc.out d ≤ high * acc.sum
  full : 1 ≤ acc.sum ∨ acc.max = level

theorem stable_init (low high level : R) (d : δ) : Stable low high level 0 d (.init level) where
  nonneg := le_rfl
  sum_le := Nat.cast_zero.ge
  lower := (mul_zero _).le
  upper := (mul_zero _).ge
  full := .inr rfl

variable {low high level : R} {visited : ℕ} {d : δ} {acc : Acc R δ}

theorem Stable.one_le (stable : Stable low high level visited d acc) (reached : level < acc.max) :
    1 ≤ acc.sum :=
  stable.full.resolve_right reached.ne'

variable [IsStrictOrderedRing R] [Fintype ι] [Nonempty ι] {exp : R → R} (weighs : Weighs exp)
include weighs

theorem absorb_full (z : ι → R) (v : ι → δ → R) (nonneg : 0 ≤ acc.sum)
    (full : 1 ≤ acc.sum ∨ acc.max = level) :
    1 ≤ (acc.absorb exp z v).sum ∨ (acc.absorb exp z v).max = level := by
  obtain ⟨top, _, attained⟩ := exists_mem_eq_sup' univ_nonempty z
  have weights : ∀ t ∈ univ, 0 ≤ exp (z t - (acc.max ⊔ univ.sup' univ_nonempty z)) :=
    fun t _ => weighs.nonneg _
  rcases le_total acc.max (univ.sup' univ_nonempty z) with fresh | old
  · left
    have own := single_le_sum weights (mem_univ top)
    rw [sup_eq_right.mpr fresh, ← attained, sub_self, weighs.zero] at own
    have before : 0 ≤ acc.sum * exp (acc.max - (acc.max ⊔ univ.sup' univ_nonempty z)) :=
      mul_nonneg nonneg (weighs.nonneg _)
    rw [sup_eq_right.mpr fresh] at before
    simp only [Acc.absorb, sup_eq_right.mpr fresh]
    linarith
  · rcases full with full | start
    · left
      have added := sum_nonneg weights
      rw [sup_eq_left.mpr old] at added
      simp only [Acc.absorb, sup_eq_left.mpr old, sub_self, weighs.zero, mul_one]
      linarith
    · exact .inr ((sup_eq_left.mpr old).trans start)

theorem one_le_run_sum (z : β → ι → R) (v : β → ι → δ → R) (blocks : List β) {b : β}
    (visited : b ∈ blocks) (t : ι) (above : level < z b t) :
    1 ≤ ((Acc.init level : Acc R δ).run exp z v blocks).sum := by
  have full (acc : Acc R δ) (nonneg : 0 ≤ acc.sum) (start : 1 ≤ acc.sum ∨ acc.max = level) :
      1 ≤ (acc.run exp z v blocks).sum ∨ (acc.run exp z v blocks).max = level := by
    clear visited
    induction blocks generalizing acc with
    | nil => exact start
    | cons c blocks ih =>
      refine ih _ ?_ (absorb_full weighs (z c) (v c) nonneg start)
      exact add_nonneg (mul_nonneg nonneg (weighs.nonneg _))
        (sum_nonneg (fun t _ => weighs.nonneg _))
  refine (full (.init level) le_rfl (.inr rfl)).resolve_right (fun unreached => ?_)
  exact ((above.trans_le (logit_le_run_max exp z v (.init level) blocks b visited t)).ne'
    unreached).elim

theorem absorb_stable (z : ι → R) (v : ι → δ → R) (stable : Stable low high level visited d acc)
    (between : ∀ t, low ≤ v t d ∧ v t d ≤ high) :
    Stable low high level (visited + Fintype.card ι) d (acc.absorb exp z v) := by
  set newMax := acc.max ⊔ univ.sup' univ_nonempty z with hmax
  have weight_nonneg : ∀ t ∈ univ, 0 ≤ exp (z t - newMax) := fun t _ => weighs.nonneg _
  have weight_le : ∀ t ∈ univ, exp (z t - newMax) ≤ 1 := fun t _ =>
    weighs.le_one _ (sub_nonpos.mpr ((le_sup' z (mem_univ t)).trans le_sup_right))
  have scale_nonneg : 0 ≤ exp (acc.max - newMax) := weighs.nonneg _
  have scale_le : exp (acc.max - newMax) ≤ 1 := weighs.le_one _ (sub_nonpos.mpr le_sup_left)
  have old_le : acc.sum * exp (acc.max - newMax) ≤ acc.sum :=
    mul_le_of_le_one_right stable.nonneg scale_le
  have added := sum_le_card_nsmul univ _ 1 weight_le
  rw [card_univ, nsmul_eq_mul, mul_one] at added
  constructor
  · exact add_nonneg (mul_nonneg stable.nonneg scale_nonneg) (sum_nonneg weight_nonneg)
  · rw [Nat.cast_add]
    exact add_le_add (old_le.trans stable.sum_le) added
  · have block := (weighted_between univ weight_nonneg (fun t _ => between t)).1
    have old := mul_le_mul_of_nonneg_right stable.lower scale_nonneg
    calc low * (acc.sum * exp (acc.max - newMax) + ∑ t, exp (z t - newMax))
        = low * acc.sum * exp (acc.max - newMax) + low * ∑ t, exp (z t - newMax) := by ring
      _ ≤ acc.out d * exp (acc.max - newMax) + ∑ t, exp (z t - newMax) * v t d :=
        add_le_add old block
  · have block := (weighted_between univ weight_nonneg (fun t _ => between t)).2
    have old := mul_le_mul_of_nonneg_right stable.upper scale_nonneg
    calc acc.out d * exp (acc.max - newMax) + ∑ t, exp (z t - newMax) * v t d
        ≤ high * acc.sum * exp (acc.max - newMax) + high * ∑ t, exp (z t - newMax) :=
        add_le_add old block
      _ = high * (acc.sum * exp (acc.max - newMax) + ∑ t, exp (z t - newMax)) := by ring
  · exact absorb_full weighs z v stable.nonneg stable.full

/-- Every state of a run is stable. -/
theorem run_stable (z : β → ι → R) (v : β → ι → δ → R) (blocks : List β)
    (stable : Stable low high level visited d acc)
    (between : ∀ b ∈ blocks, ∀ t, low ≤ v b t d ∧ v b t d ≤ high) :
    Stable low high level (visited + blocks.length * Fintype.card ι) d
      (acc.run exp z v blocks) := by
  induction blocks generalizing acc visited with
  | nil => simpa [Acc.run] using stable
  | cons b blocks ih =>
    have step := absorb_stable weighs (z b) (v b) stable (between b List.mem_cons_self)
    have rest := ih step (fun c member => between c (List.mem_cons_of_mem b member))
    rw [List.length_cons, Nat.succ_mul, Nat.add_comm (blocks.length * _), ← Nat.add_assoc]
    exact rest

omit weighs

theorem Stable.between (stable : Stable low high level visited d acc) (full : 0 < acc.sum) :
    low ≤ acc.out d / acc.sum ∧ acc.out d / acc.sum ≤ high :=
  ⟨(le_div_iff₀ full).mpr stable.lower, (div_le_iff₀ full).mpr stable.upper⟩

theorem Stable.clamped_between (stable : Stable low high level visited d acc) {clamp : R}
    (positive : 0 < clamp) (negative : low ≤ 0) (nonneg : 0 ≤ high) :
    low ≤ acc.out d / (acc.sum ⊔ clamp) ∧ acc.out d / (acc.sum ⊔ clamp) ≤ high := by
  have divisor : 0 < acc.sum ⊔ clamp := positive.trans_le le_sup_right
  constructor
  · rw [le_div_iff₀ divisor]
    exact (mul_le_mul_of_nonpos_left le_sup_left negative).trans stable.lower
  · rw [div_le_iff₀ divisor]
    exact stable.upper.trans (mul_le_mul_of_nonneg_left le_sup_left nonneg)

end States

end OrthoCache.Foundation.OnlineSoftmax
