import OrthoCache.Foundation.SoftmaxMean

/-!
The online softmax: one pass over a list of blocks that keeps a running maximum, a running
normaliser and a running weighted sum, rescaled whenever the maximum grows. The accumulators
times `exp max` are the plain sums over the visited keys, which is all that the final
division needs.
-/

namespace OrthoCache.Foundation.OnlineSoftmax
open Finset SoftmaxMean

structure Acc (R δ : Type*) where
  max : R
  sum : R
  out : δ → R

section Definitions
variable {R δ ι β : Type*} [Field R]

def Acc.init (level : R) : Acc R δ := ⟨level, 0, fun _ => 0⟩

@[simp] theorem Acc.init_max (level : R) : (Acc.init level : Acc R δ).max = level := rfl

@[simp] theorem Acc.init_sum (level : R) : (Acc.init level : Acc R δ).sum = 0 := rfl

@[simp] theorem Acc.init_out (level : R) (d : δ) : (Acc.init level : Acc R δ).out d = 0 := rfl

variable [LinearOrder R] [Fintype ι] [Nonempty ι]

/-- Absorb one block of logits `z` and values `v`. -/
def Acc.absorb (exp : R → R) (acc : Acc R δ) (z : ι → R) (v : ι → δ → R) : Acc R δ :=
  let localMax := univ.sup' univ_nonempty z
  let newMax := acc.max ⊔ localMax
  let expLogits := fun t => exp (z t - newMax)
  let scaleOld := exp (acc.max - newMax)
  { max := newMax
    sum := acc.sum * scaleOld + ∑ t, expLogits t
    out := fun d => acc.out d * scaleOld + ∑ t, expLogits t * v t d }

def Acc.run (exp : R → R) (z : β → ι → R) (v : β → ι → δ → R) (acc : Acc R δ)
    (blocks : List β) : Acc R δ :=
  blocks.foldl (fun acc b => acc.absorb exp (z b) (v b)) acc

theorem Acc.run_cons (exp : R → R) (z : β → ι → R) (v : β → ι → δ → R) (acc : Acc R δ)
    (b : β) (blocks : List β) :
    acc.run exp z v (b :: blocks) = (acc.absorb exp (z b) (v b)).run exp z v blocks := rfl

/-- Skipping blocks by a gate is running over the blocks that pass it. -/
theorem Acc.run_filter (exp : R → R) (z : β → ι → R) (v : β → ι → δ → R) (acc : Acc R δ)
    (gate : β → Bool) (blocks : List β) :
    acc.run exp z v (blocks.filter gate) =
      blocks.foldl (fun acc b => if gate b then acc.absorb exp (z b) (v b) else acc) acc :=
  List.foldl_filter

end Definitions

section Exact
variable {δ ι β : Type*} [Fintype ι] [Nonempty ι]

theorem absorb_sum (acc : Acc ℝ δ) (z : ι → ℝ) (v : ι → δ → ℝ) :
    (acc.absorb Real.exp z v).sum * Real.exp (acc.absorb Real.exp z v).max =
      acc.sum * Real.exp acc.max + ∑ t, Real.exp (z t) := by
  simp only [Acc.absorb, add_mul, sum_mul, mul_assoc, ← Real.exp_add, sub_add_cancel]

theorem absorb_out (acc : Acc ℝ δ) (z : ι → ℝ) (v : ι → δ → ℝ) (d : δ) :
    (acc.absorb Real.exp z v).out d * Real.exp (acc.absorb Real.exp z v).max =
      acc.out d * Real.exp acc.max + ∑ t, Real.exp (z t) * v t d := by
  simp only [Acc.absorb, add_mul, sum_mul, mul_assoc, ← Real.exp_add, sub_add_cancel]
  congr 1
  apply sum_congr rfl
  intro t _
  rw [mul_comm (v t d), ← mul_assoc, ← Real.exp_add, sub_add_cancel]

theorem run_sum (z : β → ι → ℝ) (v : β → ι → δ → ℝ) (acc : Acc ℝ δ) (blocks : List β) :
    (acc.run Real.exp z v blocks).sum * Real.exp (acc.run Real.exp z v blocks).max =
      acc.sum * Real.exp acc.max + (blocks.map (fun b => ∑ t, Real.exp (z b t))).sum := by
  induction blocks generalizing acc with
  | nil => simp [Acc.run]
  | cons b blocks ih =>
    rw [Acc.run_cons, ih, absorb_sum, List.map_cons, List.sum_cons, add_assoc]

theorem run_sum_pos_iff (z : β → ι → ℝ) (v : β → ι → δ → ℝ) (level : ℝ) (blocks : List β) :
    0 < (Acc.run Real.exp z v (.init level) blocks).sum ↔ blocks ≠ [] := by
  constructor
  · rintro positive rfl
    exact lt_irrefl _ positive
  · intro visited
    have mass : ∀ s ∈ blocks.map (fun b => ∑ t, Real.exp (z b t)), 0 < s := by
      rintro s member
      obtain ⟨b, -, rfl⟩ := List.mem_map.mp member
      exact sum_pos (fun t _ => Real.exp_pos _) univ_nonempty
    have total := List.sum_pos _ mass (by simpa using visited)
    have scaled := run_sum z v (.init level) blocks
    rw [Acc.init_sum, zero_mul, zero_add] at scaled
    rw [← scaled] at total
    exact pos_of_mul_pos_left total (Real.exp_pos _).le

theorem run_out (z : β → ι → ℝ) (v : β → ι → δ → ℝ) (acc : Acc ℝ δ) (blocks : List β) (d : δ) :
    (acc.run Real.exp z v blocks).out d * Real.exp (acc.run Real.exp z v blocks).max =
      acc.out d * Real.exp acc.max +
        (blocks.map (fun b => ∑ t, Real.exp (z b t) * v b t d)).sum := by
  induction blocks generalizing acc with
  | nil => simp [Acc.run]
  | cons b blocks ih =>
    rw [Acc.run_cons, ih, absorb_out, List.map_cons, List.sum_cons, add_assoc]

/-- Dividing at the end yields the softmax average of everything visited. -/
theorem run_div (z : β → ι → ℝ) (v : β → ι → δ → ℝ) (level : ℝ) (blocks : List β) (d : δ) :
    (Acc.run Real.exp z v (.init level) blocks).out d /
        (Acc.run Real.exp z v (.init level) blocks).sum =
      (blocks.map (fun b => ∑ t, Real.exp (z b t) * v b t d)).sum /
        (blocks.map (fun b => ∑ t, Real.exp (z b t))).sum := by
  have numerator := run_out z v (.init level) blocks d
  have denominator := run_sum z v (.init level) blocks
  simp only [Acc.init_sum, Acc.init_out, zero_mul, zero_add] at numerator denominator
  rw [← numerator, ← denominator, mul_div_mul_right _ _ (Real.exp_ne_zero _)]

/-- The same with the normaliser clamped away from zero: the clamp scales with `exp max`. -/
theorem run_div_clamped (z : β → ι → ℝ) (v : β → ι → δ → ℝ) (level clamp : ℝ)
    (blocks : List β) (d : δ) :
    (Acc.run Real.exp z v (.init level) blocks).out d /
        ((Acc.run Real.exp z v (.init level) blocks).sum ⊔ clamp) =
      (blocks.map (fun b => ∑ t, Real.exp (z b t) * v b t d)).sum /
        ((blocks.map (fun b => ∑ t, Real.exp (z b t))).sum ⊔
          clamp * Real.exp (Acc.run Real.exp z v (.init level) blocks).max) := by
  have numerator := run_out z v (.init level) blocks d
  have denominator := run_sum z v (.init level) blocks
  simp only [Acc.init_sum, Acc.init_out, zero_mul, zero_add] at numerator denominator
  rw [← numerator, ← denominator, ← max_mul_of_nonneg _ _ (Real.exp_pos _).le,
    mul_div_mul_right _ _ (Real.exp_ne_zero _)]

end Exact

section Maximum
variable {R δ ι β : Type*} [Field R] [LinearOrder R] [Fintype ι] [Nonempty ι]

theorem le_run_max (exp : R → R) (z : β → ι → R) (v : β → ι → δ → R) (acc : Acc R δ)
    (blocks : List β) : acc.max ≤ (acc.run exp z v blocks).max := by
  induction blocks generalizing acc with
  | nil => exact le_rfl
  | cons b blocks ih =>
    have step : acc.max ≤ (acc.absorb exp (z b) (v b)).max := le_sup_left
    exact step.trans (ih _)

theorem logit_le_run_max (exp : R → R) (z : β → ι → R) (v : β → ι → δ → R) (acc : Acc R δ)
    (blocks : List β) (b : β) (visited : b ∈ blocks) (t : ι) :
    z b t ≤ (acc.run exp z v blocks).max := by
  induction blocks generalizing acc with
  | nil => simp at visited
  | cons c blocks ih =>
    rcases List.mem_cons.mp visited with rfl | later
    · calc z b t ≤ univ.sup' univ_nonempty (z b) := le_sup' (z b) (mem_univ t)
        _ ≤ (acc.absorb exp (z b) (v b)).max := le_sup_right
        _ ≤ _ := le_run_max exp z v _ blocks
    · exact ih _ later

theorem run_max_attained (exp : R → R) (z : β → ι → R) (v : β → ι → δ → R) (acc : Acc R δ)
    (blocks : List β) : (acc.run exp z v blocks).max = acc.max ∨
      ∃ b ∈ blocks, ∃ t, z b t = (acc.run exp z v blocks).max := by
  induction blocks generalizing acc with
  | nil => exact .inl rfl
  | cons b blocks ih =>
    rw [Acc.run_cons]
    rcases ih (acc.absorb exp (z b) (v b)) with same | ⟨c, member, t, reached⟩
    · obtain ⟨t, _, peak⟩ := exists_mem_eq_sup' univ_nonempty (z b)
      rcases max_choice acc.max (univ.sup' univ_nonempty (z b)) with old | fresh
      · exact .inl (same.trans old)
      · exact .inr ⟨b, List.mem_cons_self, t, (same.trans (fresh.trans peak)).symm⟩
    · exact .inr ⟨c, List.mem_cons_of_mem b member, t, reached⟩

end Maximum

section Range
variable {δ ι β : Type*} [Fintype ι] [Nonempty ι]

/-- Accumulators from which an exponential that is exact on `[-2 * bound, 0]` cannot be told
from the exact one: empty, or with the maximum inside the logit range. -/
def InRange (bound : ℝ) (acc : Acc ℝ δ) : Prop :=
  acc.max ≤ bound ∧ (-bound ≤ acc.max ∨ acc.sum = 0 ∧ ∀ d, acc.out d = 0)

theorem absorb_inRange (exp : ℝ → ℝ) (bound : ℝ) (acc : Acc ℝ δ) (z : ι → ℝ) (v : ι → δ → ℝ)
    (bounded : ∀ t, |z t| ≤ bound) (range : InRange bound acc) :
    InRange bound (acc.absorb exp z v) := by
  obtain ⟨t⟩ := ‹Nonempty ι›
  constructor
  · exact sup_le range.1 (sup'_le _ _ (fun t _ => (abs_le.mp (bounded t)).2))
  · exact .inl ((abs_le.mp (bounded t)).1.trans ((le_sup' z (mem_univ t)).trans le_sup_right))

theorem absorb_eq_exact {exp : ℝ → ℝ} {bound : ℝ}
    (exact : ∀ x, -(2 * bound) ≤ x → exp x = Real.exp x) (acc : Acc ℝ δ) (z : ι → ℝ)
    (v : ι → δ → ℝ) (bounded : ∀ t, |z t| ≤ bound) (range : InRange bound acc) :
    acc.absorb exp z v = acc.absorb Real.exp z v := by
  have upper : acc.max ⊔ univ.sup' univ_nonempty z ≤ bound :=
    (absorb_inRange exp bound acc z v bounded range).1
  have logits (t : ι) : exp (z t - (acc.max ⊔ univ.sup' univ_nonempty z)) =
      Real.exp (z t - (acc.max ⊔ univ.sup' univ_nonempty z)) := by
    have lower := (abs_le.mp (bounded t)).1
    exact exact _ (by linarith)
  rcases range.2 with inside | ⟨noSum, noOut⟩
  · have scale : exp (acc.max - (acc.max ⊔ univ.sup' univ_nonempty z)) =
        Real.exp (acc.max - (acc.max ⊔ univ.sup' univ_nonempty z)) := exact _ (by linarith)
    simp only [Acc.absorb, logits, scale]
  · simp only [Acc.absorb, logits, noSum, noOut, zero_mul]

/-- On bounded logits an exponential that underflows far below the range runs as the exact one. -/
theorem run_eq_exact {exp : ℝ → ℝ} {bound : ℝ}
    (exact : ∀ x, -(2 * bound) ≤ x → exp x = Real.exp x) (z : β → ι → ℝ) (v : β → ι → δ → ℝ)
    (acc : Acc ℝ δ) (blocks : List β) (bounded : ∀ b ∈ blocks, ∀ t, |z b t| ≤ bound)
    (range : InRange bound acc) : acc.run exp z v blocks = acc.run Real.exp z v blocks := by
  induction blocks generalizing acc with
  | nil => rfl
  | cons b blocks ih =>
    have first := bounded b List.mem_cons_self
    rw [Acc.run_cons, Acc.run_cons, absorb_eq_exact exact acc _ _ first range]
    exact ih _ (fun c member => bounded c (List.mem_cons_of_mem b member))
      (absorb_inRange Real.exp bound acc _ _ first range)

end Range

end OrthoCache.Foundation.OnlineSoftmax
