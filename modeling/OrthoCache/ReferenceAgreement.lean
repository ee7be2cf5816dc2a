import OrthoCache.Reference

/-!
The eviction mask agrees with its golden model. The batched pipeline gives every block, head and
dimension the coefficients that the block-by-block loops compute, so bounds, decay ratios and
both gates are equal, and each depends on its own block and head only.
-/

namespace OrthoCache.ReferenceAgreement
open Finset Foundation.WalshFunctions Foundation.RowMajor Arrays SpectralEnergy Reference

section Loops
variable {σ α : Type} {nb heads : ℕ}

theorem setEntry_apply (x : Fin nb → Fin heads → α) (b : Fin nb) (h : Fin heads) (v : α)
    (place : Fin nb × Fin heads) : setEntry x b h v place.1 place.2 =
      Function.update (fun place => x place.1 place.2) (b, h) v place := by
  obtain ⟨c, g⟩ := place
  unfold setEntry
  by_cases block : c = b
  · subst block
    rw [Function.update_self]
    by_cases head : g = h
    · subst head
      rw [Function.update_self, Function.update_self]
    · rw [Function.update_of_ne head, Function.update_of_ne (by simp [head])]
  · rw [Function.update_of_ne block, Function.update_of_ne (by simp [block])]

theorem setEntry_setEntry (x : Fin nb → Fin heads → α) (b : Fin nb) (h : Fin heads) (v w : α) :
    setEntry (setEntry x b h v) b h w = setEntry x b h w := by
  unfold setEntry
  rw [Function.update_self, Function.update_idem, Function.update_idem]

theorem forHeadsBlocks_fill (body : σ → Fin heads → Fin nb → Except Raised σ)
    (entry : σ → Fin nb × Fin heads → α) (value : Fin nb × Fin heads → α)
    (writes : ∀ state h b, ∃ next, body state h b = .ok next ∧
      entry next = Function.update (entry state) (b, h) (value (b, h))) (init : σ) :
    ∃ final, forHeadsBlocks body init = .ok final ∧ entry final = value := by
  let visits := fun h : Fin heads => (List.finRange nb).map (fun b => (b, h))
  obtain ⟨final, loop, final_eq⟩ := foldlM_fill (fun state place => body state place.2 place.1) entry
    value (fun state place => writes state place.2 place.1) ((List.finRange heads).flatMap visits)
    init
  refine ⟨final, ?_, ?_⟩
  · rw [foldlM_flatMap] at loop
    simp only [visits, List.foldlM_map] at loop
    exact loop
  · funext place
    rw [final_eq place, if_pos]
    refine List.mem_flatMap.mpr ⟨place.2, List.mem_finRange _, ?_⟩
    exact List.mem_map.mpr ⟨place.1, List.mem_finRange _, rfl⟩

end Loops

section Spectrum
variable {nb heads dim : ℕ} (keys : Tensor ℝ (nb * 512) heads dim)

theorem numpyFwht_blockKeys (b : Fin nb) (h : Fin heads) : numpyFwht .exact (blockKeys keys b h) =
    .ok (fun s d => runFwhtOnBlocks .exact keys b s h d) := by
  have transform := numpyFwht_exact (m := 9) (blockKeys keys b h)
  simp only [runFwhtOnBlocks_exact]
  exact transform

theorem readAt_constant {α : Type} (spectral : Fin 512 → α) :
    readAt spectral 0 = .ok (spectral bandDc) := readAt_of_lt spectral 0 (by decide)

theorem sliceEnergy_eq (band : ℕ × ℕ) (b : Fin nb) (h : Fin heads) :
    sliceEnergy (fun s d => runFwhtOnBlocks .exact keys b s h d) band =
      bandEnergy (runFwhtOnBlocks .exact keys) band b h := rfl

def bandsAt (bands : SpectralBands ℝ nb heads dim) (place : Fin nb × Fin heads) :
    (Fin dim → ℝ) × ℝ × ℝ × ℝ :=
  (bands.dcComponent place.1 place.2, bands.lowEnergy place.1 place.2,
    bands.midEnergy place.1 place.2, bands.highEnergy place.1 place.2)

theorem bands_eq_of_bandsAt (first second : SpectralBands ℝ nb heads dim)
    (same : bandsAt first = bandsAt second) : first = second := by
  have entry (b : Fin nb) (h : Fin heads) := congrFun same (b, h)
  simp only [bandsAt, Prod.mk.injEq] at entry
  cases first
  cases second
  congr 1
  · funext b h
    exact (entry b h).1
  · funext b h
    exact (entry b h).2.1
  · funext b h
    exact (entry b h).2.2.1
  · funext b h
    exact (entry b h).2.2.2

theorem spectralBandsStep_writes (low mid high : ℕ × ℕ) (bands : SpectralBands ℝ nb heads dim)
    (h : Fin heads) (b : Fin nb) : ∃ next,
    spectralBandsStep .exact keys low mid high bands h b = .ok next ∧
      bandsAt next = Function.update (bandsAt bands) (b, h)
        (bandsAt (computeSpectralBands .exact keys low mid high) (b, h)) := by
  unfold spectralBandsStep
  rw [numpyFwht_blockKeys]
  simp only [bind, Except.bind, readAt_constant, sliceEnergy_eq]
  refine ⟨_, rfl, ?_⟩
  funext place
  by_cases here : place = (b, h)
  · subst here
    simp only [bandsAt, setEntry_apply _ _ _ _ (b, h), Function.update_self, computeSpectralBands]
  · simp only [bandsAt, setEntry_apply _ _ _ _ place, Function.update_of_ne here]

theorem computeSpectralBandsReference_eq (low mid high : ℕ × ℕ) :
    computeSpectralBandsReference .exact keys low mid high =
      .ok (computeSpectralBands .exact keys low mid high) := by
  unfold computeSpectralBandsReference
  obtain ⟨final, loop, final_eq⟩ := forHeadsBlocks_fill
    (spectralBandsStep .exact keys low mid high) bandsAt _
    (spectralBandsStep_writes keys low mid high) _
  rw [loop, bands_eq_of_bandsAt final _ final_eq]

theorem computeSpectralDecayRatioReference_eq (low high : ℕ × ℕ) :
    computeSpectralDecayRatioReference .exact keys low high =
      .ok (computeSpectralDecayRatio .exact keys low high) := by
  unfold computeSpectralDecayRatioReference
  rw [computeSpectralBandsReference_eq]
  rfl

end Spectrum

section Bounds
variable {Q nb heads dim : ℕ} (q : Tensor ℝ Q heads dim) (keys : Tensor ℝ (nb * 512) heads dim)

theorem foldl_setEntry (bounds : Fin Q → Fin nb → Fin heads → ℝ) (b : Fin nb) (h : Fin heads)
    (bound : Fin Q → ℝ) (rows : List (Fin Q)) (i : Fin Q) :
    rows.foldl (fun bounds qi => Function.update bounds qi (setEntry (bounds qi) b h (bound qi)))
        bounds i = if i ∈ rows then setEntry (bounds i) b h (bound i) else bounds i := by
  induction rows generalizing bounds with
  | nil => rw [if_neg List.not_mem_nil, List.foldl_nil]
  | cons row rows ih =>
    rw [List.foldl_cons, ih]
    by_cases now : i = row
    · subst now
      rw [Function.update_self, setEntry_setEntry, if_pos List.mem_cons_self, ite_self]
    · rw [Function.update_of_ne now]
      simp only [List.mem_cons, now, false_or]

theorem queryAwareBoundsStep_writes (bounds : Fin Q → Fin nb → Fin heads → ℝ) (h : Fin heads)
    (b : Fin nb) : ∃ next, queryAwareBoundsStep .exact q keys bounds h b = .ok next ∧
      (fun place : Fin nb × Fin heads => fun i => next i place.1 place.2) =
        Function.update (fun place => fun i => bounds i place.1 place.2) (b, h)
          (fun i => computeQueryAwareBounds .exact q keys i b h) := by
  unfold queryAwareBoundsStep
  rw [numpyFwht_blockKeys]
  simp only [bind, Except.bind, readAt_constant, sliceEnergy_eq]
  refine ⟨_, rfl, ?_⟩
  funext place i
  rw [foldl_setEntry, if_pos (List.mem_finRange i), setEntry_apply]
  by_cases here : place = (b, h)
  · subst here
    rw [Function.update_self, Function.update_self]
    rfl
  · rw [Function.update_of_ne here, Function.update_of_ne here]

theorem computeQueryAwareBoundsReference_eq : computeQueryAwareBoundsReference .exact q keys =
    .ok (computeQueryAwareBounds .exact q keys) := by
  unfold computeQueryAwareBoundsReference
  obtain ⟨final, loop, final_eq⟩ := forHeadsBlocks_fill (queryAwareBoundsStep .exact q keys)
    (fun bounds place i => bounds i place.1 place.2)
    (fun place i => computeQueryAwareBounds .exact q keys i place.1 place.2)
    (queryAwareBoundsStep_writes q keys) (fun _ _ _ => 0)
  rw [loop]
  congr 1
  funext i b h
  exact congrFun (congrFun final_eq (b, h)) i

end Bounds

section Locality
variable {Q nb heads dim : ℕ} (q other : Tensor ℝ Q heads dim)
  (keys others : Tensor ℝ (nb * 512) heads dim) (b : Fin nb) (h : Fin heads)

theorem column_congr (same : blockKeys keys b h = blockKeys others b h) (d : Fin dim) :
    column keys b h d = column others b h d := by
  funext t
  exact congrFun (congrFun same t) d

theorem energyAt_congr (same : blockKeys keys b h = blockKeys others b h) (s : ℕ) :
    energyAt keys b h s = energyAt others b h s := by
  unfold energyAt
  simp only [column_congr keys others b h same]

theorem computeQueryAwareBounds_congr (same : blockKeys keys b h = blockKeys others b h)
    (rows : ∀ i, q i h = other i h) (i : Fin Q) :
    computeQueryAwareBounds .exact q keys i b h = computeQueryAwareBounds .exact other others i b h := by
  rw [computeQueryAwareBounds_exact, computeQueryAwareBounds_exact]
  simp only [energyAt_congr keys others b h same, blockMean, column_congr keys others b h same, rows]

theorem computeSpectralDecayRatio_congr (same : blockKeys keys b h = blockKeys others b h) :
    computeSpectralDecayRatio .exact keys bandLow bandHigh b h =
      computeSpectralDecayRatio .exact others bandLow bandHigh b h := by
  unfold computeSpectralDecayRatio computeSpectralBands bandLow bandHigh
  simp only [bandEnergy_eq _ 1 64 (by decide), bandEnergy_eq _ 256 512 le_rfl,
    energyAt_congr keys others b h same]

end Locality

/-- The eviction mask is the golden model's: the loops return, block by block, what the batched
pipeline computes, and another block or head changes neither bound nor ratio. -/
theorem computeMultibandMask_eq_reference {Q nb heads dim : ℕ} [NeZero Q] (q : Tensor ℝ Q heads dim)
    (keys : Tensor ℝ (nb * 512) heads dim) (tau zetaMax : ℝ) :
    computeMultibandMaskReference .exact q keys tau zetaMax =
        .ok (computeMultibandMask .exact q keys tau zetaMax) ∧
      (∀ b h, numpyFwht .exact (blockKeys keys b h) =
        .ok (fun s d => runFwhtOnBlocks .exact keys b s h d)) ∧
      ∀ (other : Tensor ℝ Q heads dim) (others : Tensor ℝ (nb * 512) heads dim) b h,
        blockKeys keys b h = blockKeys others b h → (∀ i, q i h = other i h) →
        (∀ i, computeQueryAwareBounds .exact q keys i b h =
          computeQueryAwareBounds .exact other others i b h) ∧
        computeSpectralDecayRatio .exact keys bandLow bandHigh b h =
          computeSpectralDecayRatio .exact others bandLow bandHigh b h := by
  refine ⟨?_, numpyFwht_blockKeys keys, ?_⟩
  · unfold computeMultibandMaskReference
    rw [computeQueryAwareBoundsReference_eq, computeSpectralDecayRatioReference_eq]
    rfl
  · intro other others b h same rows
    exact ⟨computeQueryAwareBounds_congr q other keys others b h same rows,
      computeSpectralDecayRatio_congr keys others b h same⟩

theorem computeMultibandMask_eq_reference_opposed :
    let q : Tensor ℝ 1 1 1 := ones
    let keys : Tensor ℝ (2 * 512) 1 1 := walshKeys 0 (fun b _ => ![1, -1] b)
    computeMultibandMaskReference .exact q keys 0 5 = .ok (fun b _ => decide (b = 0)) := by
  intro q keys
  have mask : computeMultibandMask .exact q keys 0 5 = fun b _ => decide (b = 0) := by
    funext b h
    rw [computeMultibandMask_constant _ _ _ _ _ (by norm_num)]
    fin_cases b <;> norm_num
  rw [(computeMultibandMask_eq_reference q keys 0 5).1, mask]

end OrthoCache.ReferenceAgreement
