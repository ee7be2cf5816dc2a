import OrthoCache.OutputError

/-!
What the two thresholds do to the end-to-end call. Stricter thresholds evict more blocks; at the two
ends of the eviction rate the output is that of dense attention and nothing at all.
-/

namespace OrthoCache.Thresholds
open Finset Foundation.SoftmaxMean Arrays AttentionSpec SparseAttention SpectralEnergy Compaction
open Pipeline ExecutionModes OutputError

section Gates
variable {Q nb heads dim : ℕ} [NeZero Q] {q : Tensor ℝ Q heads dim}
  {keys : Tensor ℝ (nb * 512) heads dim} {loose strict : Option ℝ} {zetaLoose zetaStrict : ℝ}

theorem gateMask_mono
    (taus : loose.getD (computeAutoTau .flushing q keys) ≤
      strict.getD (computeAutoTau .flushing q keys))
    (zetas : zetaStrict ≤ zetaLoose) {b : Fin nb} {h : Fin heads}
    (passes : gateMask .flushing q keys zetaStrict strict b h = true) :
    gateMask .flushing q keys zetaLoose loose b h = true := by
  simp only [gateMask, computeMultibandMask, computeQueryAwareMask, Bool.and_eq_true,
    decide_eq_true_eq] at passes ⊢
  exact ⟨taus.trans passes.1, passes.2.trans zetas⟩

theorem countActive_mono {loose strict : Fin nb → Bool}
    (passes : ∀ b, strict b = true → loose b = true) : countActive strict ≤ countActive loose := by
  simp only [countActive, ← card_filter]
  exact card_le_card (fun b member =>
    (mem_filter_univ b).mpr (passes b ((mem_filter_univ b).mp member)))

end Gates

section Extremes
variable {nb : ℕ}

noncomputable def evictedShare (mask : Fin nb → Bool) : ℝ := 1 - (countActive mask : ℝ) / nb

theorem evictedShare_le {loose strict : Fin nb → Bool}
    (passes : ∀ b, strict b = true → loose b = true) : evictedShare loose ≤ evictedShare strict := by
  have count : (countActive strict : ℝ) ≤ countActive loose :=
    Nat.cast_le.mpr (countActive_mono passes)
  exact sub_le_sub_left (div_le_div_of_nonneg_right count (Nat.cast_nonneg nb)) 1

variable [NeZero nb] (mask : Fin nb → Bool)

theorem evictedShare_eq_zero_iff : evictedShare mask = 0 ↔ ∀ b, mask b = true := by
  have size : (nb : ℝ) ≠ 0 := Nat.cast_ne_zero.mpr (NeZero.ne nb)
  rw [evictedShare, sub_eq_zero, eq_comm, div_eq_one_iff_eq size, Nat.cast_inj, countActive,
    ← card_filter]
  constructor
  · intro full b
    have all := (card_eq_iff_eq_univ _).mp (full.trans (Fintype.card_fin nb).symm)
    exact (mem_filter_univ b).mp (all ▸ mem_univ b)
  · intro all
    rw [filter_true_of_mem (fun b _ => all b), card_univ, Fintype.card_fin]

theorem evictedShare_eq_one_iff : evictedShare mask = 1 ↔ ∀ b, mask b = false := by
  have size : (nb : ℝ) ≠ 0 := Nat.cast_ne_zero.mpr (NeZero.ne nb)
  rw [evictedShare, sub_eq_self, div_eq_zero_iff, or_iff_left size, Nat.cast_eq_zero]
  have active := countActive_pos_iff mask
  constructor
  · intro none b
    by_contra kept
    exact none.not_gt (active.mpr ⟨b, Bool.eq_true_of_not_eq_false kept⟩)
  · intro none
    by_contra positive
    obtain ⟨b, kept⟩ := active.mp (Nat.pos_of_ne_zero positive)
    exact Bool.false_ne_true ((none b).symm.trans kept)

end Extremes

section Forward
variable {Q nb heads dim : ℕ} [NeZero Q] [NeZero nb] (isTpu : Bool) (q : Tensor ℝ Q heads dim)
  (keys values : Tensor ℝ (nb * 512) heads dim)

/-- Outputs of the three modes and the reported rate, as the gates decide them. -/
structure RateMeaning (zetaMax : ℝ) (tau : Option ℝ) (rate : ℝ)
    (compact sparse dense : Tensor ℝ Q heads dim) : Prop where
  rate_eq_zero : rate = 0 ↔ ∀ b, ∃ h, gateMask .flushing q keys zetaMax tau b h = true
  dense_of_zero : rate = 0 → compact = dense
  rate_eq_one : rate = 1 ↔ ∀ b h, gateMask .flushing q keys zetaMax tau b h = false
  zeros_of_one : rate = 1 → compact = zeros
  sparse_head : ∀ h, (∀ b, gateMask .flushing q keys zetaMax tau b h = true) →
    ∀ i d, sparse i h d = dense i h d

variable (bounded : LogitsBounded (10 ^ 7) q keys)
include bounded

theorem forward_rateMeaning (zetaMax : ℝ) (tau : Option ℝ) :
    RateMeaning q keys zetaMax tau (evictedShare (anyHead (gateMask .flushing q keys zetaMax tau)))
      (compactAndAttend .flushing isTpu q keys values (gateMask .flushing q keys zetaMax tau)).1
      (compilePallasSparseAttention .flushing isTpu q keys values
        (gateMask .flushing q keys zetaMax tau))
      (denseAttention .flushing q keys values) := by
  set mask := gateMask .flushing q keys zetaMax tau
  have retained : evictedShare (anyHead mask) = 0 ↔ ∀ b, ∃ h, mask b h = true := by
    rw [evictedShare_eq_zero_iff]
    exact forall_congr' (fun b => anyHead_iff mask b)
  have evicted : evictedShare (anyHead mask) = 1 ↔ ∀ b h, mask b h = false := by
    rw [evictedShare_eq_one_iff]
    refine forall_congr' (fun b => ?_)
    rw [← Bool.not_eq_true, anyHead_iff, not_exists]
    exact forall_congr' (fun h => iff_of_eq (Bool.not_eq_true _))
  refine ⟨retained, fun zero => ?_, evicted, fun one => ?_, fun h all i d => ?_⟩
  · have all : anyHead mask = fun _ => true := funext ((evictedShare_eq_zero_iff _).mp zero)
    rw [compactAndAttend_attend q keys values mask isTpu bounded, all, tokensOf_all,
      denseAttention_eq q keys values bounded]
  · have none := (evictedShare_eq_one_iff _).mp one
    refine compactAndAttend_evicted q keys values mask isTpu bounded ?_
    rintro ⟨b, kept⟩
    exact Bool.false_ne_true ((none b).symm.trans kept)
  · have whole : (fun b => mask b h) = fun _ => true := funext all
    rw [compilePallasSparseAttention_head isTpu q keys values mask bounded i h d
      ⟨0, all 0⟩, denseAttention_eq q keys values bounded, attend, attend, whole, tokensOf_all]

/-- Of two calls the one with the stricter thresholds evicts every block that the other one evicts,
and reports at least its eviction rate. A rate of zero means that every block passes both gates on
some head, and then compact mode returns the dense output; a rate of one that no block does on any,
and then it returns nothing. Sparse mode is dense on a head where every block passes. -/
theorem orthocacheForward_thresholds {loose strict : Option ℝ} {zetaLoose zetaStrict : ℝ}
    (taus : loose.getD (computeAutoTau .flushing q keys) ≤
      strict.getD (computeAutoTau .flushing q keys))
    (zetas : zetaStrict ≤ zetaLoose) :
    ∃ compact compact' sparse sparse' dense metadata metadata',
      orthocacheForward .flushing isTpu q keys values zetaLoose loose .compact =
          .ok (compact, metadata) ∧
        orthocacheForward .flushing isTpu q keys values zetaStrict strict .compact =
          .ok (compact', metadata') ∧
        (orthocacheForward .flushing isTpu q keys values zetaLoose loose .sparse).map Prod.fst =
          .ok sparse ∧
        (orthocacheForward .flushing isTpu q keys values zetaStrict strict .sparse).map Prod.fst =
          .ok sparse' ∧
        (orthocacheForward .flushing isTpu q keys values zetaLoose loose .dense).map Prod.fst =
          .ok dense ∧
        metadata.evictionRate ≤ metadata'.evictionRate ∧
        (∀ b h, gateMask .flushing q keys zetaLoose loose b h = false →
          gateMask .flushing q keys zetaStrict strict b h = false) ∧
        RateMeaning q keys zetaLoose loose metadata.evictionRate compact sparse dense ∧
        RateMeaning q keys zetaStrict strict metadata'.evictionRate compact' sparse' dense := by
  have nested (b : Fin nb) (h : Fin heads) := gateMask_mono taus zetas (b := b) (h := h)
  refine ⟨_, _, _, _, _, _, _, rfl, rfl, rfl, rfl, rfl, ?_, ?_,
    forward_rateMeaning isTpu q keys values bounded zetaLoose loose,
    forward_rateMeaning isTpu q keys values bounded zetaStrict strict⟩
  · refine evictedShare_le (fun b kept => ?_)
    obtain ⟨h, passes⟩ := (anyHead_iff _ b).mp kept
    exact (anyHead_iff _ b).mpr ⟨h, nested b h passes⟩
  · intro b h evicted
    rw [← Bool.not_eq_true] at evicted ⊢
    exact fun passes => evicted (nested b h passes)

end Forward

theorem orthocacheForward_thresholds_level :
    ∃ compact compact' metadata metadata',
      orthocacheForward .flushing true (ones : Tensor ℝ 1 2 1) (walshKeys 0 level) secondBlock 5
          (some 0) .compact = .ok (compact, metadata) ∧
        orthocacheForward .flushing true (ones : Tensor ℝ 1 2 1) (walshKeys 0 level) secondBlock 4
          (some 1) .compact = .ok (compact', metadata') ∧
        metadata.evictionRate ≤ metadata'.evictionRate := by
  obtain ⟨compact, compact', _, _, _, metadata, metadata', call, call', -, -, -, rates, -⟩ :=
    orthocacheForward_thresholds true (ones : Tensor ℝ 1 2 1) (walshKeys 0 level) secondBlock
      logitsBounded_level (show (some (0 : ℝ)).getD _ ≤ (some 1).getD _ from zero_le_one)
      (show (4 : ℝ) ≤ 5 by norm_num)
  exact ⟨compact, compact', metadata, metadata', call, call', rates⟩

end OrthoCache.Thresholds
