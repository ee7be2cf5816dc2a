import OrthoCache.Reference

/-!
The transforms are the Walsh-Hadamard matrix. The in-place loops of the golden model compute it
for every power of two. The unrolled stages compute it for 512 entries; there the two agree, and
the transform is its own inverse.
-/

namespace OrthoCache.TransformAgreement
open Finset Foundation.WalshFunctions Arrays Fwht Reference

section Matrix
variable {m : ℕ}

theorem rpow_neg_half (m : ℕ) : (2 : ℝ) ^ (-(m : ℝ) / 2) = 1 / √((2 ^ m : ℕ) : ℝ) := by
  have root : √((2 ^ m : ℕ) : ℝ) = (2 : ℝ) ^ ((m : ℝ) / 2) := by
    rw [Real.sqrt_eq_rpow, Nat.cast_pow, Nat.cast_ofNat, ← Real.rpow_natCast,
      ← Real.rpow_mul (by norm_num), mul_one_div]
  rw [root, neg_div, Real.rpow_neg (by norm_num), one_div]

theorem projection_eq_matrix (x : Fin (2 ^ m) → ℝ) (s : Fin (2 ^ m)) :
    projection x s =
      2 ^ (-(m : ℝ) / 2) * ∑ i : Fin (2 ^ m), (-1) ^ popcount (s.val &&& i.val) * x i := by
  rw [rpow_neg_half, one_div_mul_eq_div, sum_div]
  simp only [projection, orthonormalWalsh, walshSign, div_mul_eq_mul_div]

theorem numpyFwht1d_exact (a : Fin (2 ^ m) → ℝ) :
    numpyFwht1d .exact a = .ok (fun s => projection a s) := by
  have agree (s : Fin (2 ^ m)) : a s = Function.extend Fin.val a 0 s :=
    (Fin.val_injective.extend_apply a 0 s).symm
  rw [numpyFwht1d_walshSum .exact m _ _ agree]
  congr 1
  funext s
  rw [projection_eq _ _ agree]
  rfl

/-- The golden model multiplies a vector, and each column of a tile, by the matrix with entries
`2 ^ (-m / 2) * (-1) ^ popcount(s & i)`. -/
theorem numpyFwht_eq_matrix (m : ℕ) :
    (∀ a : Fin (2 ^ m) → ℝ, numpyFwht1d .exact a = .ok (fun s =>
      2 ^ (-(m : ℝ) / 2) * ∑ i : Fin (2 ^ m), (-1) ^ popcount (s.val &&& i.val) * a i)) ∧
    ∀ (dim : ℕ) (tile : Fin (2 ^ m) → Fin dim → ℝ), numpyFwht .exact tile = .ok (fun s d =>
      2 ^ (-(m : ℝ) / 2) * ∑ i : Fin (2 ^ m), (-1) ^ popcount (s.val &&& i.val) * tile i d) := by
  constructor
  · intro a
    simp only [numpyFwht1d_exact, projection_eq_matrix]
  · intro dim tile
    simp only [numpyFwht_exact, projection_eq_matrix]

end Matrix

section Unrolled

theorem fwht512Vector_exact (x : Fin 512 → ℝ) (s : Fin 512) :
    fwht512Vector .exact x s = projection x s := fwht512_exact _ s 0

theorem fwht512_fwht512 {d : ℕ} (x : Fin 512 → Fin d → ℝ) :
    fwht512 .exact (fwht512 .exact x) = x := by
  funext s c
  rw [fwht512_exact]
  simp only [fwht512_exact]
  exact projection_projection 9 rfl (fun i => x i c) s

/-- The unrolled stages are the loops, on tiles and on vectors, and undo themselves. -/
theorem fwht512_eq_numpyFwht :
    (∀ (d : ℕ) (x : Fin 512 → Fin d → ℝ), numpyFwht .exact x = .ok (fwht512 .exact x) ∧
      fwht512 .exact (fwht512 .exact x) = x) ∧
    ∀ x : Fin 512 → ℝ, numpyFwht1d .exact x = .ok (fwht512Vector .exact x) ∧
      fwht512Vector .exact (fwht512Vector .exact x) = x := by
  constructor
  · intro d x
    refine ⟨?_, fwht512_fwht512 x⟩
    have loops : numpyFwht .exact x = _ := numpyFwht_exact (m := 9) x
    apply loops.trans (congrArg Except.ok _)
    funext s c
    exact (fwht512_exact x s c).symm
  · intro x
    constructor
    · have loops : numpyFwht1d .exact x = _ := numpyFwht1d_exact (m := 9) x
      apply loops.trans (congrArg Except.ok _)
      funext s
      exact (fwht512Vector_exact x s).symm
    · have once : fwht512Vector .exact x = fun s : Fin 512 => projection x s :=
        funext (fwht512Vector_exact x)
      funext s
      rw [fwht512Vector_exact, once]
      exact projection_projection 9 rfl x s

end Unrolled

end OrthoCache.TransformAgreement
