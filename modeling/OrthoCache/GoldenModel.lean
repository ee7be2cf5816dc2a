import OrthoCache.BoundTightness
import OrthoCache.ButterflyLengths
import OrthoCache.ReferenceAgreement

/-!
The golden model at every block size. The loops over blocks return exactly for the powers of two,
and there energies, bounds and both gates mean what they mean for 512 tokens: a block's energy is
the squared length of its keys, and a bound lies above the logits of its block and close to what
the energy allows.
-/

namespace OrthoCache.GoldenModel
open Finset Foundation.WalshFunctions Foundation.RowMajor Arrays SpectralEnergy Reference
open ButterflyLengths ReferenceAgreement BoundTightness

section Errors
variable {σ α : Type} {Q nb bs heads dim : ℕ}

theorem foldlM_error {β : Type} (body : σ → β → Except Raised σ) (e : Raised)
    (raises : ∀ state x, body state x = .error e) (visited : List β) (some : visited ≠ [])
    (init : σ) : visited.foldlM body init = .error e := by
  obtain ⟨first, later, rfl⟩ := List.exists_cons_of_ne_nil some
  rw [List.foldlM_cons, raises]
  rfl

theorem finRange_ne_nil (n : ℕ) [NeZero n] : List.finRange n ≠ [] :=
  List.ne_nil_of_mem (List.mem_finRange 0)

theorem forHeadsBlocks_error [NeZero nb] [NeZero heads]
    (body : σ → Fin heads → Fin nb → Except Raised σ) (e : Raised)
    (raises : ∀ state h b, body state h b = .error e) (init : σ) :
    forHeadsBlocks body init = .error e :=
  foldlM_error _ e (fun state h => foldlM_error _ e (fun state b => raises state h b) _
    (finRange_ne_nil nb) state) _ (finRange_ne_nil heads) init

variable [NeZero bs] [NeZero dim] (other : ¬∃ m, bs = 2 ^ m)
include other

theorem numpyFwht_error (tile : Fin bs → Fin dim → ℝ) :
    numpyFwht .exact tile = .error .indexError := by
  refine foldlM_error _ _ (fun transformed d => ?_) _ (finRange_ne_nil dim) _
  rw [numpyFwht1d_error .exact (NeZero.pos bs) other]
  rfl

variable [NeZero nb] [NeZero heads] (q : Tensor ℝ Q heads dim) (keys : Tensor ℝ (nb * bs) heads dim)

theorem computeBlockEnergyReference_error :
    computeBlockEnergyReference .exact keys = .error .indexError := by
  refine forHeadsBlocks_error _ _ (fun energies h b => ?_) _
  rw [blockEnergyStep, numpyFwht_error other]
  rfl

theorem computeSpectralBandsReference_error (low mid high : ℕ × ℕ) :
    computeSpectralBandsReference .exact keys low mid high = .error .indexError := by
  refine forHeadsBlocks_error _ _ (fun bands h b => ?_) _
  rw [spectralBandsStep, numpyFwht_error other]
  rfl

theorem computeQueryAwareBoundsReference_error :
    computeQueryAwareBoundsReference .exact q keys = .error .indexError := by
  refine forHeadsBlocks_error _ _ (fun bounds h b => ?_) _
  rw [queryAwareBoundsStep, numpyFwht_error other]
  rfl

theorem computeMultibandMaskReference_error [NeZero Q] (tau zetaMax : ℝ) :
    computeMultibandMaskReference .exact q keys tau zetaMax = .error .indexError := by
  rw [computeMultibandMaskReference, computeQueryAwareBoundsReference_error other]
  rfl

end Errors

section Columns
variable {m dim : ℕ} (x : Fin (2 ^ m) → Fin dim → ℝ)

noncomputable def coefficient (s : ℕ) (d : Fin dim) : ℝ := projection (fun t => x t d) s

theorem sliceEnergy_Ico (low high : ℕ) (inside : high ≤ 2 ^ m) :
    sliceEnergy (fun s : Fin (2 ^ m) => coefficient x s) (low, high) =
      ∑ s ∈ Ico low high, ∑ d, coefficient x s d ^ 2 := by
  have image : Ico low high = ({s : Fin (2 ^ m) | low ≤ s.val ∧ s.val < high} : Finset _).map
      Fin.valEmbedding := by
    ext s
    simp only [mem_Ico, mem_map, mem_filter, mem_univ, true_and, Fin.valEmbedding_apply]
    constructor
    · intro within
      exact ⟨⟨s, by omega⟩, within, rfl⟩
    · rintro ⟨t, within, rfl⟩
      exact within
  rw [image, sum_map]
  rfl

theorem sum_coefficient_sq :
    ∑ s : Fin (2 ^ m), ∑ d, coefficient x s d ^ 2 = ∑ t, ∑ d, x t d ^ 2 := by
  rw [sum_comm, sum_comm (γ := Fin (2 ^ m)) (s := univ)]
  refine sum_congr rfl (fun d _ => ?_)
  rw [← sum_projection_sq m (fun t => x t d), sum_range]
  rfl

theorem sum_coefficient_deviation : ∑ s ∈ Ico 1 (2 ^ m), ∑ d, coefficient x s d ^ 2 =
    ∑ t, ∑ d, (x t d - coefficient x 0 d / √((2 ^ m : ℕ) : ℝ)) ^ 2 := by
  rw [sum_comm, sum_comm (s := (univ : Finset (Fin (2 ^ m))))]
  exact sum_congr rfl (fun d _ => sum_projection_sq_deviation m (fun t => x t d))

theorem sum_mul_row_le (v : Fin dim → ℝ) (t : Fin (2 ^ m)) :
    ∑ d, v d * x t d ≤ ∑ d, v d * (coefficient x 0 d / √((2 ^ m : ℕ) : ℝ)) +
      √(∑ d, v d ^ 2) * √(∑ s ∈ Ico 1 (2 ^ m), ∑ d, coefficient x s d ^ 2) := by
  set mean := fun d => coefficient x 0 d / √((2 ^ m : ℕ) : ℝ) with hmean
  have own : ∑ d, (x t d - mean d) ^ 2 ≤ ∑ s ∈ Ico 1 (2 ^ m), ∑ d, coefficient x s d ^ 2 := by
    rw [sum_coefficient_deviation]
    exact single_le_sum (f := fun t => ∑ d, (x t d - mean d) ^ 2)
      (fun t _ => sum_nonneg (fun d _ => sq_nonneg _)) (mem_univ t)
  have split : ∑ d, v d * x t d = ∑ d, v d * mean d + ∑ d, v d * (x t d - mean d) := by
    rw [← sum_add_distrib]
    exact sum_congr rfl (fun d _ => by ring)
  rw [split]
  exact add_le_add_right ((Real.sum_mul_le_sqrt_mul_sqrt _ _ _).trans
    (mul_le_mul_of_nonneg_left (Real.sqrt_le_sqrt own) (Real.sqrt_nonneg _))) _

/-- The constant and the other coefficients together exceed the root of the total energy by a factor
of at most `√((n + 1) / n)`. -/
theorem mean_add_deviation_le (v : Fin dim → ℝ) :
    ∑ d, v d * (coefficient x 0 d / √((2 ^ m : ℕ) : ℝ)) +
        √(∑ d, v d ^ 2) * √(∑ s ∈ Ico 1 (2 ^ m), ∑ d, coefficient x s d ^ 2) ≤
      √(((2 ^ m : ℕ) + 1) / (2 ^ m : ℕ)) * (√(∑ d, v d ^ 2) * √(∑ t, ∑ d, x t d ^ 2)) := by
  set n : ℝ := ((2 ^ m : ℕ) : ℝ) with hn
  have positive : 0 < n := by positivity
  set dc := ∑ d, coefficient x 0 d ^ 2
  set ac := ∑ s ∈ Ico 1 (2 ^ m), ∑ d, coefficient x s d ^ 2
  have dcNonneg : 0 ≤ dc := sum_nonneg (fun _ _ => sq_nonneg _)
  have acNonneg : 0 ≤ ac := sum_nonneg (fun _ _ => sum_nonneg (fun _ _ => sq_nonneg _))
  have total : ∑ t, ∑ d, x t d ^ 2 = dc + ac := by
    rw [← sum_coefficient_sq x, ← sum_range (fun s => ∑ d, coefficient x s d ^ 2), range_eq_Ico,
      sum_eq_sum_Ico_succ_bot (Nat.two_pow_pos m)]
  have constant : ∑ d, v d * (coefficient x 0 d / √n) ≤ √(∑ d, v d ^ 2) * (1 / √n * √dc) := by
    calc ∑ d, v d * (coefficient x 0 d / √n) = 1 / √n * ∑ d, v d * coefficient x 0 d := by
          rw [mul_sum]
          exact sum_congr rfl (fun d _ => by ring)
      _ ≤ 1 / √n * (√(∑ d, v d ^ 2) * √dc) := by
          gcongr
          exact Real.sum_mul_le_sqrt_mul_sqrt _ _ _
      _ = √(∑ d, v d ^ 2) * (1 / √n * √dc) := by ring
  have factor : (1 / √n) ^ 2 + 1 = (n + 1) / n := by
    rw [div_pow, one_pow, Real.sq_sqrt positive.le]
    field_simp
    ring
  have roots := mul_add_le_sqrt_mul_sqrt (1 / √n) √dc √ac
  rw [factor, Real.sq_sqrt dcNonneg, Real.sq_sqrt acNonneg, ← total] at roots
  calc ∑ d, v d * (coefficient x 0 d / √n) + √(∑ d, v d ^ 2) * √ac
      ≤ √(∑ d, v d ^ 2) * (1 / √n * √dc + √ac) := by
        rw [mul_add]
        exact add_le_add_left constant _
    _ ≤ √(∑ d, v d ^ 2) * (√((n + 1) / n) * √(∑ t, ∑ d, x t d ^ 2)) := by gcongr
    _ = √((n + 1) / n) * (√(∑ d, v d ^ 2) * √(∑ t, ∑ d, x t d ^ 2)) := by ring

end Columns

section Blocks
variable {m Q nb heads dim : ℕ} (q : Tensor ℝ Q heads dim)
  (keys : Tensor ℝ (nb * 2 ^ m) heads dim)

theorem numpyFwht_coefficient (b : Fin nb) (h : Fin heads) :
    numpyFwht .exact (blockKeys keys b h) =
      .ok (fun s : Fin (2 ^ m) => coefficient (blockKeys keys b h) s) :=
  numpyFwht_exact (blockKeys keys b h)

theorem readAt_first {α : Type} (spectral : Fin (2 ^ m) → α) :
    readAt spectral 0 = .ok (spectral ⟨0, Nat.two_pow_pos m⟩) :=
  readAt_of_lt spectral 0 (Nat.two_pow_pos m)

theorem computeBlockEnergyReference_eq : computeBlockEnergyReference .exact keys =
    .ok (fun b h => ∑ t, ∑ d, blockKeys keys b h t d ^ 2) := by
  obtain ⟨final, loop, final_eq⟩ := forHeadsBlocks_fill (blockEnergyStep .exact keys)
    (fun energies place => energies place.1 place.2)
    (fun place => ∑ t, ∑ d, blockKeys keys place.1 place.2 t d ^ 2)
    (fun energies h b => ⟨_, by
      rw [blockEnergyStep, numpyFwht_coefficient]
      rfl, by
      funext place
      rw [setEntry_apply, sum_coefficient_sq]⟩) (fun _ _ => 0)
  unfold computeBlockEnergyReference
  rw [loop]
  congr 1
  funext b h
  exact congrFun final_eq (b, h)

noncomputable def goldenBands (low mid high : ℕ × ℕ) : SpectralBands ℝ nb heads dim :=
  let slice := fun band b h =>
    sliceEnergy (fun s : Fin (2 ^ m) => coefficient (blockKeys keys b h) s) band
  { dcComponent := fun b h => coefficient (blockKeys keys b h) 0
    lowEnergy := slice low
    midEnergy := slice mid
    highEnergy := slice high }

theorem computeSpectralBandsReference_ok (low mid high : ℕ × ℕ) :
    computeSpectralBandsReference .exact keys low mid high = .ok (goldenBands keys low mid high) := by
  obtain ⟨final, loop, final_eq⟩ := forHeadsBlocks_fill
    (spectralBandsStep .exact keys low mid high) bandsAt (bandsAt (goldenBands keys low mid high))
    (fun bands h b => ⟨_, by
      rw [spectralBandsStep, numpyFwht_coefficient]
      simp only [bind, Except.bind, readAt_first]
      rfl, by
      funext place
      by_cases here : place = (b, h)
      · subst here
        simp only [bandsAt, setEntry_apply _ _ _ _ (b, h), Function.update_self, goldenBands]
      · simp only [bandsAt, setEntry_apply _ _ _ _ place, Function.update_of_ne here]⟩) _
  unfold computeSpectralBandsReference
  rw [loop, bands_eq_of_bandsAt final _ final_eq]

noncomputable def goldenBound (i : Fin Q) (b : Fin nb) (h : Fin heads) : ℝ :=
  let x := blockKeys keys b h
  (∑ d, q i h d * (coefficient x 0 d / √((2 ^ m : ℕ) : ℝ))) / √dim +
    √(∑ d, q i h d ^ 2) * √(∑ s ∈ Ico 1 (2 ^ m), ∑ d, coefficient x s d ^ 2) / √dim

theorem computeQueryAwareBoundsReference_ok :
    computeQueryAwareBoundsReference .exact q keys = .ok (goldenBound q keys) := by
  obtain ⟨final, loop, final_eq⟩ := forHeadsBlocks_fill (queryAwareBoundsStep .exact q keys)
    (fun bounds place i => bounds i place.1 place.2)
    (fun place i => goldenBound q keys i place.1 place.2)
    (fun bounds h b => ⟨_, by
      rw [queryAwareBoundsStep, numpyFwht_coefficient]
      simp only [bind, Except.bind, readAt_first, sliceEnergy_Ico _ 1 (2 ^ m) le_rfl]
      rfl, by
      funext place i
      rw [foldl_setEntry, if_pos (List.mem_finRange i), setEntry_apply]
      by_cases here : place = (b, h)
      · subst here
        rw [Function.update_self, Function.update_self]
        rfl
      · rw [Function.update_of_ne here, Function.update_of_ne here]⟩) (fun _ _ _ => 0)
  unfold computeQueryAwareBoundsReference
  rw [loop]
  congr 1
  funext i b h
  exact congrFun (congrFun final_eq (b, h)) i

theorem logit_le_goldenBound (i : Fin Q) (b : Fin nb) (h : Fin heads) (t : Fin (2 ^ m)) :
    logit .exact (q i h) (blockKeys keys b h t) ≤ goldenBound q keys i b h := by
  rw [goldenBound, ← add_div, logit]
  exact div_le_div_of_nonneg_right (sum_mul_row_le _ _ t) (Real.sqrt_nonneg _)

theorem goldenBound_le (i : Fin Q) (b : Fin nb) (h : Fin heads) :
    goldenBound q keys i b h ≤ √(((2 ^ m : ℕ) + 1) / (2 ^ m : ℕ)) *
      (√(∑ d, q i h d ^ 2) * √(∑ t, ∑ d, blockKeys keys b h t d ^ 2)) / √dim := by
  rw [goldenBound, ← add_div]
  exact div_le_div_of_nonneg_right (mean_add_deviation_le _ _) (Real.sqrt_nonneg _)

theorem sliceEnergy_nonneg {n : ℕ} (spectral : Fin n → Fin dim → ℝ) (band : ℕ × ℕ) :
    0 ≤ sliceEnergy spectral band :=
  sum_nonneg (fun _ _ => sum_nonneg (fun _ _ => sq_nonneg _))

end Blocks

section Analysis
variable {Q nb bs heads dim : ℕ} (q : Tensor ℝ Q heads dim) (keys : Tensor ℝ (nb * bs) heads dim)
  (tau zetaMax : ℝ)

/-- What the tables of the analysis say about the keys, and the mask about the logits. -/
structure Meaningful (energies : Fin nb → Fin heads → ℝ) (bounds : Fin Q → Fin nb → Fin heads → ℝ)
    (zeta : Fin nb → Fin heads → ℝ) (mask : Fin nb → Fin heads → Bool) : Prop where
  energies_eq : ∀ b h, energies b h = ∑ t, ∑ d, blockKeys keys b h t d ^ 2
  logit_le : ∀ i b h t, logit .exact (q i h) (blockKeys keys b h t) ≤ bounds i b h
  bounds_le : ∀ i b h, bounds i b h ≤
    √((bs + 1) / bs) * (√(∑ d, q i h d ^ 2) * √(energies b h)) / √dim
  zeta_nonneg : ∀ b h, 0 ≤ zeta b h
  evicted : ∀ b h, mask b h = false →
    (∀ i t, logit .exact (q i h) (blockKeys keys b h t) < tau) ∨ zetaMax < zeta b h

variable [NeZero Q]

theorem analysis_ok (power : ∃ m, bs = 2 ^ m) : ∃ energies bounds zeta mask,
    computeBlockEnergyReference .exact keys = .ok energies ∧
      computeQueryAwareBoundsReference .exact q keys = .ok bounds ∧
      computeSpectralDecayRatioReference .exact keys (1, 64) (256, 512) = .ok zeta ∧
      computeMultibandMaskReference .exact q keys tau zetaMax = .ok mask ∧
      Meaningful q keys tau zetaMax energies bounds zeta mask := by
  obtain ⟨m, rfl⟩ := power
  have ratio : computeSpectralDecayRatioReference .exact keys (1, 64) (256, 512) =
      .ok (fun b h => (goldenBands keys (1, 64) (64, 256) (256, 512)).highEnergy b h /
        ((goldenBands keys (1, 64) (64, 256) (256, 512)).lowEnergy b h + 1e-6)) := by
    rw [computeSpectralDecayRatioReference, computeSpectralBandsReference_ok]
    rfl
  have gates := computeMultibandMaskReference.eq_def Arith.exact q keys tau zetaMax
  rw [computeQueryAwareBoundsReference_ok, ratio] at gates
  refine ⟨_, _, _, _, computeBlockEnergyReference_eq keys, computeQueryAwareBoundsReference_ok q keys,
    ratio, gates, fun _ _ => rfl, logit_le_goldenBound q keys, goldenBound_le q keys, ?_, ?_⟩
  · intro b h
    have low := sliceEnergy_nonneg (fun s : Fin (2 ^ m) => coefficient (blockKeys keys b h) s) (1, 64)
    exact div_nonneg (sliceEnergy_nonneg _ _) (add_nonneg low (by norm_num))
  · intro b h evicted
    rw [Bool.and_eq_false_iff, decide_eq_false_iff_not, decide_eq_false_iff_not, not_le,
      not_le] at evicted
    refine evicted.imp_left (fun below i t => ?_)
    exact (logit_le_goldenBound q keys i b h t).trans_lt
      ((sup'_lt_iff _).mp below i (mem_univ i))

variable [NeZero nb] [NeZero bs] [NeZero heads] [NeZero dim]

/-- The analysis of a cache that is not empty runs past the end of a block exactly when the block
size is no power of two. Otherwise energies, bounds, ratio and mask are what they are meant to be,
also for blocks that the bands of the ratio do not fit. -/
theorem goldenModel_outcome :
    ((¬∃ m, bs = 2 ^ m) → computeBlockEnergyReference .exact keys = .error .indexError ∧
      (∀ low mid high,
        computeSpectralBandsReference .exact keys low mid high = .error .indexError) ∧
      computeQueryAwareBoundsReference .exact q keys = .error .indexError ∧
      computeMultibandMaskReference .exact q keys tau zetaMax = .error .indexError) ∧
    ((∃ m, bs = 2 ^ m) → ∃ energies bounds zeta mask,
      computeBlockEnergyReference .exact keys = .ok energies ∧
        computeQueryAwareBoundsReference .exact q keys = .ok bounds ∧
        computeSpectralDecayRatioReference .exact keys (1, 64) (256, 512) = .ok zeta ∧
        computeMultibandMaskReference .exact q keys tau zetaMax = .ok mask ∧
        Meaningful q keys tau zetaMax energies bounds zeta mask) := by
  constructor
  · intro other
    exact ⟨computeBlockEnergyReference_error other keys,
      computeSpectralBandsReference_error other keys,
      computeQueryAwareBoundsReference_error other q keys,
      computeMultibandMaskReference_error other q keys tau zetaMax⟩
  · exact analysis_ok q keys tau zetaMax

theorem goldenModel_outcome_small :
    (∃ mask, computeMultibandMaskReference .exact (ones : Tensor ℝ 1 1 1)
        (ones : Tensor ℝ (2 * 4) 1 1) 0 0 = .ok mask) ∧
      computeMultibandMaskReference .exact (ones : Tensor ℝ 1 1 1) (ones : Tensor ℝ (2 * 3) 1 1) 0 0 =
        .error .indexError := by
  constructor
  · obtain ⟨_, _, _, mask, _, _, _, returned, _⟩ := (goldenModel_outcome (ones : Tensor ℝ 1 1 1)
      (ones : Tensor ℝ (2 * 4) 1 1) 0 0).2 ⟨2, rfl⟩
    exact ⟨mask, returned⟩
  · have odd : ¬∃ m, 3 = 2 ^ m := by
      rintro ⟨m, same⟩
      cases m with
      | zero => cases same
      | succ m =>
        rw [pow_succ] at same
        omega
    exact ((goldenModel_outcome (ones : Tensor ℝ 1 1 1) (ones : Tensor ℝ (2 * 3) 1 1) 0 0).1
      odd).2.2.2

end Analysis

end OrthoCache.GoldenModel
