import OrthoCache.Arrays
import OrthoCache.Foundation.WalshFunctions

/-!
The nine-stage Walsh-Hadamard transform along the rows of a `(512, d)` array. Stage `k` works
in place at stride `2 ^ k`, so after nine stages row `s` holds the Walsh coefficient with
natural index `s`.
-/

namespace OrthoCache.Fwht
open Finset Foundation.WalshFunctions Foundation.RowMajor Arrays

section Model
variable {R : Type} [Field R] {d : ℕ}

/-- One unrolled stage: reshape to `(g, 2, h)`, stack sum and difference on the middle axis,
reshape back. -/
def stage {α : Type} [Add α] [Sub α] (g h : ℕ) (x : Fin (g * 2 * h) → α) : Fin (g * 2 * h) → α :=
  let x : Fin g → Fin 2 → Fin h → α := blocked (blocked x)
  flattened (flattened (fun i j r => if j = 0 then x i 0 r + x i 1 r else x i 0 r - x i 1 r))

def fwhtStages {α : Type} [Add α] [Sub α] (x : Fin 512 → α) : Fin 512 → α :=
  let x := stage 256 1 x
  let x := stage 128 2 x
  let x := stage 64 4 x
  let x := stage 32 8 x
  let x := stage 16 16 x
  let x := stage 8 32 x
  let x := stage 4 64 x
  let x := stage 2 128 x
  stage 1 256 x

/-- The source divides by a literal, which its comment gives as `sqrt(512)`. -/
def fwht512 (A : Arith R) (x : Fin 512 → Fin d → R) : Fin 512 → Fin d → R :=
  fun s c => fwhtStages x s c / A.sqrt 512

/-- The branch for one-dimensional input: a single column is added and squeezed out again. -/
def fwht512Vector (A : Arith R) (x : Fin 512 → R) : Fin 512 → R :=
  fun s => squeeze (fwht512 A (fun i (_ : Fin 1) => x i) s)

end Model

section Stages
variable {R : Type} [CommRing R]

theorem stage_apply (g h : ℕ) (y : Fin (g * 2 * h) → R) (x : ℕ → R) (agree : ∀ s, y s = x s)
    (s : Fin (g * 2 * h)) : stage g h y s = butterfly h x s := by
  have entry (i : Fin g) (j : Fin 2) (r : Fin h) :
      (blocked (blocked y) i j r : R) = x (r + h * (j + 2 * i)) := agree _
  have row : (s.divNat.divNat : ℕ) = s / h / 2 := rfl
  have half : (s.divNat.modNat : ℕ) = s / h % 2 := rfl
  have column : (s.modNat : ℕ) = s % h := rfl
  have digits := (Nat.mod_add_div (s : ℕ) h).symm
  have bits := (Nat.mod_add_div ((s : ℕ) / h) 2).symm
  simp only [stage, flattened, butterfly, entry, row, column, Fin.ext_iff, half, Fin.val_zero,
    Fin.val_one]
  by_cases lower : (s : ℕ) / h % 2 = 0
  · rw [lower] at bits
    rw [if_pos lower, if_pos lower, Nat.add_comm 1, Nat.mul_add h _ 1, Nat.mul_one, ← Nat.add_assoc,
      Nat.add_comm 0 _, Nat.add_zero, ← Nat.zero_add (2 * _), ← bits, ← digits]
  · rw [show (s : ℕ) / h % 2 = 1 by omega] at bits
    have partner : (s : ℕ) - h = s % h + h * (0 + 2 * (s / h / 2)) := by
      rw [bits, Nat.mul_add, Nat.mul_one] at digits
      rw [Nat.zero_add]
      omega
    rw [if_neg lower, if_neg lower, ← bits, ← digits, partner]

/-- What `k` stages have computed is extended by one more. -/
theorem stage_partialWalsh (g k : ℕ) (x : ℕ → R) (y : Fin (g * 2 * 2 ^ k) → R)
    (done : ∀ s, y s = partialWalsh k x s) (s : Fin (g * 2 * 2 ^ k)) :
    stage g (2 ^ k) y s = partialWalsh (k + 1) x s := by
  rw [stage_apply g (2 ^ k) y (partialWalsh k x) done, butterfly_partialWalsh]

theorem fwhtStages_eq (x : ℕ → R) (y : Fin 512 → R) (agree : ∀ s, y s = x s) (s : Fin 512) :
    fwhtStages y s = walshSum 9 x s := by
  have h0 : ∀ s, y s = partialWalsh 0 x s := by simpa only [partialWalsh_zero] using agree
  have h1 := stage_partialWalsh 256 0 x y h0
  have h2 := stage_partialWalsh 128 1 x _ h1
  have h3 := stage_partialWalsh 64 2 x _ h2
  have h4 := stage_partialWalsh 32 3 x _ h3
  have h5 := stage_partialWalsh 16 4 x _ h4
  have h6 := stage_partialWalsh 8 5 x _ h5
  have h7 := stage_partialWalsh 4 6 x _ h6
  have h8 := stage_partialWalsh 2 7 x _ h7
  have h9 := stage_partialWalsh 1 8 x _ h8 s
  exact h9.trans (partialWalsh_of_lt 9 x s s.isLt)

theorem fwhtStages_column {d : ℕ} (x : Fin 512 → Fin d → R) (s : Fin 512) (c : Fin d) :
    fwhtStages x s c = ∑ i : Fin 512, walshSign s i * x i c := by
  have agree (i : Fin 512) : x i = Function.extend Fin.val x 0 i :=
    (Fin.val_injective.extend_apply x 0 i).symm
  rw [fwhtStages_eq _ x agree, walshSum, sum_range, Finset.sum_apply]
  simp only [← agree]
  apply sum_congr rfl
  intro i _
  simp [walshSign]

end Stages

/-- In exact arithmetic row `s` is the projection of each column on the Walsh function `s`. -/
theorem fwht512_exact {d : ℕ} (x : Fin 512 → Fin d → ℝ) (s : Fin 512) (c : Fin d) :
    fwht512 .exact x s c = projection (fun i => x i c) s := by
  simp only [fwht512, fwhtStages_column, sum_div, projection, orthonormalWalsh, div_mul_eq_mul_div,
    Arith.exact, Nat.cast_ofNat]

end OrthoCache.Fwht
