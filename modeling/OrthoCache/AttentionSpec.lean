import OrthoCache.Arrays

/-!
What the attention paths are for: softmax attention over a chosen set of cached tokens, per
head. Every kernel is compared with `attend`, or with its clamped variant where the kernel
divides by a clamped normaliser.
-/

namespace OrthoCache.AttentionSpec
open Finset Foundation.SoftmaxMean Foundation.OnlineSoftmax Foundation.StablePartition
open Foundation.RowMajor Arrays

section Tokens
variable {nb bs : ℕ}

def tokensOf (mask : Fin nb → Bool) : Finset (Fin (nb * bs)) := {k | mask k.divNat = true}

theorem mem_tokensOf (mask : Fin nb → Bool) (k : Fin (nb * bs)) :
    k ∈ (tokensOf mask : Finset (Fin (nb * bs))) ↔ mask k.divNat = true := by
  simp [tokensOf]

theorem tokensOf_nonempty_iff [NeZero bs] (mask : Fin nb → Bool) :
    (tokensOf mask : Finset (Fin (nb * bs))).Nonempty ↔ ∃ b, mask b = true := by
  constructor
  · rintro ⟨k, member⟩
    exact ⟨k.divNat, (mem_tokensOf mask k).mp member⟩
  · rintro ⟨b, kept⟩
    exact ⟨finProdFinEquiv (b, 0), by rw [mem_tokensOf, index_divNat, kept]⟩

theorem tokensOf_eq_empty (mask : Fin nb → Bool) (none : ¬∃ b, mask b = true) :
    (tokensOf mask : Finset (Fin (nb * bs))) = ∅ := by
  apply eq_empty_of_forall_notMem
  intro k member
  exact none ⟨k.divNat, (mem_tokensOf mask k).mp member⟩

theorem tokensOf_all : (tokensOf (fun _ => true) : Finset (Fin (nb * bs))) = univ := by
  simp [tokensOf]

theorem compl_tokensOf (mask : Fin nb → Bool) :
    (tokensOf mask : Finset (Fin (nb * bs)))ᶜ = tokensOf (fun b => !mask b) := by
  ext k
  simp [mem_tokensOf]

theorem sum_tokensOf {M : Type*} [AddCommMonoid M] (mask : Fin nb → Bool)
    (f : Fin (nb * bs) → M) :
    ∑ k ∈ tokensOf mask, f k = ∑ b with mask b = true, ∑ t, f (finProdFinEquiv (b, t)) :=
  sum_rows_filter mask f

theorem card_tokensOf (mask : Fin nb → Bool) :
    #(tokensOf mask : Finset (Fin (nb * bs))) = countActive mask * bs := by
  rw [card_eq_sum_ones, sum_tokensOf, countActive, ← sum_filter, sum_mul]
  simp

end Tokens

section Attention
variable {Q n heads dim : ℕ}

noncomputable def logits (q : Tensor ℝ Q heads dim) (keys : Tensor ℝ n heads dim) (i : Fin Q)
    (h : Fin heads) (k : Fin n) : ℝ := logit .exact (q i h) (keys k h)

/-- Softmax attention in which head `h` sees exactly the tokens `kept h`. -/
noncomputable def attend (q : Tensor ℝ Q heads dim) (keys values : Tensor ℝ n heads dim)
    (kept : Fin heads → Finset (Fin n)) : Tensor ℝ Q heads dim :=
  fun i h d => softmaxMean (kept h) (logits q keys i h) (fun k => values k h d)

def LogitsBounded (bound : ℝ) (q : Tensor ℝ Q heads dim) (keys : Tensor ℝ n heads dim) : Prop :=
  ∀ i h k, |logits q keys i h k| ≤ bound

theorem attend_evicted {nb bs : ℕ} (q : Tensor ℝ Q heads dim)
    (keys values : Tensor ℝ (nb * bs) heads dim) (mask : Fin nb → Bool)
    (evicted : ¬∃ b, mask b = true) : attend q keys values (fun _ => tokensOf mask) = zeros := by
  funext i h d
  rw [attend, tokensOf_eq_empty _ evicted, softmaxMean_empty]
  rfl

theorem logits_zeros (keys : Tensor ℝ n heads dim) (i : Fin Q) (h : Fin heads) (k : Fin n) :
    logits zeros keys i h k = 0 := by
  simp [logits, logit, zeros]

theorem logitsBounded_zeros (keys : Tensor ℝ n heads dim) :
    LogitsBounded (10 ^ 7) (zeros : Tensor ℝ Q heads dim) keys := by
  intro i h k
  rw [logits_zeros]
  norm_num

end Attention

section OnlineRun
variable {nb bs : ℕ} [NeZero bs] {δ : Type}

/-- An online-softmax run over the retained blocks ends in the clamped average over their
tokens. -/
theorem run_selected_clampedMean (z : Fin (nb * bs) → ℝ) (v : Fin (nb * bs) → δ → ℝ)
    (level clamp : ℝ) (mask : Fin nb → Bool) (d : δ) :
    (Acc.run Real.exp (blocked z) (blocked v) (.init level) (selected mask)).out d /
        ((Acc.run Real.exp (blocked z) (blocked v) (.init level) (selected mask)).sum ⊔ clamp) =
      clampedMean level clamp (tokensOf mask) z (fun k => v k d) := by
  set final := Acc.run Real.exp (blocked z) (blocked v) (.init level) (selected mask) with hfinal
  have top : final.max = peak level (tokensOf mask) z := by
    apply le_antisymm
    · rcases run_max_attained Real.exp (blocked z) (blocked v) (.init level) (selected mask) with
        initial | ⟨b, visited, t, reached⟩
      · exact initial.le.trans ((le_fold_max _).mpr (.inl le_rfl))
      · have member : finProdFinEquiv (b, t) ∈ tokensOf mask := by
          rw [mem_tokensOf, index_divNat]
          exact (mem_selected mask b).mp visited
        exact reached.ge.trans ((le_fold_max _).mpr (.inr ⟨_, member, le_rfl⟩))
    · refine (fold_max_le _).mpr ⟨le_run_max Real.exp (blocked z) (blocked v) (.init level) _, ?_⟩
      intro k member
      have visited := (mem_selected mask k.divNat).mpr ((mem_tokensOf mask k).mp member)
      rw [← blocked_apply_div_mod z k]
      exact logit_le_run_max _ _ _ _ _ _ visited _
  rw [run_div_clamped, clampedMean, clampedMass, expSum, expMass, sum_tokensOf, sum_tokensOf,
    ← sum_map_selected, ← sum_map_selected, ← hfinal, top]
  rfl

end OnlineRun

end OrthoCache.AttentionSpec
