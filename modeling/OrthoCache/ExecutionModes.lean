import OrthoCache.Pipeline

/-!
Compact and sparse mode against each other. Compaction reduces the mask over heads before it
attends, so the modes evict the same entries only for heads that retain what any head retains.
-/

namespace OrthoCache.ExecutionModes
open Finset Foundation.SoftmaxMean Foundation.RowMajor Foundation.WalshFunctions Arrays
open AttentionSpec SparseAttention SpectralEnergy Pipeline

section Agreement
variable {Q nb heads dim : ℕ} [NeZero Q] [NeZero nb] (q : Tensor ℝ Q heads dim)
  (keys values : Tensor ℝ (nb * 512) heads dim) (zetaMax : ℝ) (tau : Option ℝ)

/-- Compact mode returns what the fallback returns for the mask reduced over heads, and agrees
with sparse mode on every head that retains all blocks some head retains. -/
theorem modes_agree (bounded : LogitsBounded (10 ^ 7) q keys)
    (active : ∃ b, anyHead (gateMask .flushing q keys zetaMax tau) b = true) :
    let mask := gateMask .flushing q keys zetaMax tau
    ∃ compact sparse,
      (orthocacheForward .flushing false q keys values zetaMax tau .compact).map Prod.fst =
          .ok compact ∧
        (orthocacheForward .flushing false q keys values zetaMax tau .sparse).map Prod.fst =
          .ok sparse ∧
        compact = compilePallasSparseAttention .flushing false q keys values
          (fun b _ => anyHead mask b) ∧
        ∀ h, (∀ b, anyHead mask b = true → mask b h = true) →
          ∀ i d, compact i h d = sparse i h d := by
  intro mask
  obtain ⟨sparse, returned, own⟩ := orthocacheForward_sparse q keys values zetaMax tau bounded
  refine ⟨_, sparse, orthocacheForward_compact false q keys values zetaMax tau bounded active,
    returned, ?_, fun h all i d => ?_⟩
  · exact (compilePallasSparseAttention_mean false q keys values _ bounded (fun _ => active)).symm
  · have same : (fun b => mask b h) = anyHead mask := by
      funext b
      rw [Bool.eq_iff_iff]
      exact ⟨fun kept => (anyHead_iff mask b).mpr ⟨h, kept⟩, all b⟩
    obtain ⟨b, kept⟩ := active
    rw [own i h d ⟨b, all b kept⟩, attend, attend]
    exact congrArg (fun mask => softmaxMean (tokensOf mask) _ _) same.symm

end Agreement

/-- Two constant blocks on two heads: the second block opposes the query on the first head. -/
def level (b h : Fin 2) : ℝ := if b.val = 1 ∧ h.val = 0 then -1 else 1

def secondBlock : Tensor ℝ (2 * 512) 2 1 := flattened (fun b _ _ _ => if b.val = 1 then 1 else 0)

theorem logits_level (i : Fin 1) (h b : Fin 2) (t : Fin 512) :
    logits (ones : Tensor ℝ 1 2 1) (walshKeys 0 level) i h (finProdFinEquiv (b, t)) = level b h := by
  rw [logits_walshKeys, walshSign_zero_left, mul_one]

theorem logitsBounded_level :
    LogitsBounded (10 ^ 7) (ones : Tensor ℝ 1 2 1) (walshKeys 0 level) := by
  intro i h k
  rw [← index_div_mod k, logits_level, level]
  split_ifs <;> norm_num

theorem gateMask_level (b h : Fin 2) :
    gateMask .flushing (ones : Tensor ℝ 1 2 1) (walshKeys 0 level) 5 (some 0) b h =
      !decide (b.val = 1 ∧ h.val = 0) := by
  change computeMultibandMask .exact (ones : Tensor ℝ 1 2 1) (walshKeys 0 level) 0 5 b h = _
  rw [computeMultibandMask_constant _ _ _ _ _ (by norm_num), level]
  by_cases zero : b.val = 1 ∧ h.val = 0
  · rw [if_pos zero, decide_eq_true zero]
    simp
  · rw [if_neg zero, decide_eq_false zero]
    simp

theorem anyHead_level (b : Fin 2) :
    anyHead (gateMask .flushing (ones : Tensor ℝ 1 2 1) (walshKeys 0 level) 5 (some 0)) b =
      true := by
  rw [anyHead_iff]
  exact ⟨1, by simp [gateMask_level]⟩

theorem modes_agree_level :
    let mask := gateMask .flushing (ones : Tensor ℝ 1 2 1) (walshKeys 0 level) 5 (some 0)
    ∃ compact sparse,
      (orthocacheForward .flushing false (ones : Tensor ℝ 1 2 1) (walshKeys 0 level) secondBlock 5
          (some 0) .compact).map Prod.fst = .ok compact ∧
        (orthocacheForward .flushing false (ones : Tensor ℝ 1 2 1) (walshKeys 0 level) secondBlock
          5 (some 0) .sparse).map Prod.fst = .ok sparse ∧
        compact = compilePallasSparseAttention .flushing false ones (walshKeys 0 level) secondBlock
          (fun b _ => anyHead mask b) ∧
        ∀ h, (∀ b, anyHead mask b = true → mask b h = true) →
          ∀ i d, compact i h d = sparse i h d :=
  modes_agree ones (walshKeys 0 level) secondBlock 5 (some 0) logitsBounded_level
    ⟨0, anyHead_level 0⟩

/-- The first head evicts the second block and the second head retains it: compact mode lets
the first head see it, sparse mode does not. -/
theorem modes_differ_level :
    LogitsBounded (10 ^ 7) (ones : Tensor ℝ 1 2 1) (walshKeys 0 level) ∧
      (orthocacheForward .flushing false (ones : Tensor ℝ 1 2 1) (walshKeys 0 level) secondBlock 5
          (some 0) .compact).map Prod.fst ≠
        (orthocacheForward .flushing false (ones : Tensor ℝ 1 2 1) (walshKeys 0 level) secondBlock
          5 (some 0) .sparse).map Prod.fst := by
  refine ⟨logitsBounded_level, fun same => ?_⟩
  have value (k : Fin (2 * 512)) : secondBlock k 0 0 = if k.divNat.val = 1 then 1 else 0 := rfl
  obtain ⟨sparse, returned, own⟩ :=
    orthocacheForward_sparse (ones : Tensor ℝ 1 2 1) (walshKeys 0 level) secondBlock 5
      (some 0) logitsBounded_level
  rw [returned, orthocacheForward_compact false _ _ _ _ _ logitsBounded_level
    ⟨0, anyHead_level 0⟩, Except.ok.injEq] at same
  have evicted : sparse 0 0 0 = 0 := by
    rw [own 0 0 0 ⟨0, by simp [gateMask_level]⟩]
    apply softmaxMean_eq_zero
    intro k member
    rw [mem_tokensOf, gateMask_level] at member
    rw [value, if_neg (by simpa using member)]
  have seen : 0 < sparse 0 0 0 := by
    rw [← same]
    apply softmaxMean_pos
    · intro k _
      rw [value]
      split_ifs <;> norm_num
    · refine ⟨finProdFinEquiv ((1 : Fin 2), (0 : Fin 512)), ?_, ?_⟩
      · rw [mem_tokensOf, anyHead_level]
      · rw [value, index_divNat]
        simp
  exact seen.ne' evicted

end OrthoCache.ExecutionModes
