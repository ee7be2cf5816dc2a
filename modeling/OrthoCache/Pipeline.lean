import OrthoCache.Partitioning
import OrthoCache.SpectralEnergy

/-!
The end-to-end call: spectral analysis, the two-gate mask and one of three ways to attend. The
metadata is modelled without its timings. Reductions over rows and blocks need one of each.
-/

namespace OrthoCache.Pipeline
open Finset Foundation.SoftmaxMean Foundation.RowMajor Arrays AttentionSpec SparseAttention
open Compaction Partitioning SpectralEnergy

inductive Mode where
  | compact
  | sparse
  | dense
  | unknown (name : String)
  deriving DecidableEq, Repr

structure SpectralReport (R : Type) where
  tauAuto : Bool
  tau : R
  zetaMean : R
  zetaStd : R
  zetaMin : R
  zetaMaxObserved : R
  blocksRetained : ℕ
  blocksEvicted : ℕ
  compactNumActive : Option ℕ

structure Metadata (R : Type) where
  mode : Mode
  seqLenQ : ℕ
  seqLenK : ℕ
  numBlocks : ℕ
  numHeads : ℕ
  headDim : ℕ
  blockSize : ℕ
  zetaMax : R
  evictionRate : R
  spectral : Option (SpectralReport R)

def reprChar (quote c : Char) : List Char :=
  let backslash := Char.ofNat 92
  if c = quote ∨ c = backslash then [backslash, c]
  else if c = Char.ofNat 9 then [backslash, 't']
  else if c = Char.ofNat 10 then [backslash, 'n']
  else if c = Char.ofNat 13 then [backslash, 'r']
  else if c.toNat < 32 ∨ c.toNat = 127 then
    [backslash, 'x', Nat.digitChar (c.toNat / 16), Nat.digitChar (c.toNat % 16)]
  else [c]

/-- Python's `repr` of a string: double quotes only around a text with apostrophes and without double
quotes. Characters outside ASCII are taken to be printable. -/
def pythonRepr (text : String) : String :=
  let apostrophe := Char.ofNat 39
  let doubleQuote := Char.ofNat 34
  let quote :=
    if apostrophe ∈ text.toList ∧ doubleQuote ∉ text.toList then doubleQuote else apostrophe
  String.ofList (quote :: text.toList.flatMap (reprChar quote) ++ [quote])

section Model
variable {R : Type} [Field R] [LinearOrder R] {Q nb n heads dim : ℕ}

def mean (x : Fin n → R) : R := (∑ i, x i) / n

def std (A : Arith R) (x : Fin n → R) : R := A.sqrt (mean (fun i => (x i - mean x) ^ 2))

def denseAttention (A : Arith R) (q : Tensor R Q heads dim) (keys values : Tensor R n heads dim) :
    Tensor R Q heads dim :=
  let logits := fun i k h => logit A (q i h) (keys k h)
  let weights := fun i k h => softmax A.exp (fun k => logits i k h) k
  fun i h d => ∑ k, weights i k h * values k h d

/-- One standard deviation below the mean of the bounds. -/
def computeAutoTau [NeZero Q] (A : Arith R) (q : Tensor R Q heads dim)
    (keys : Tensor R (nb * 512) heads dim) : R :=
  let maxBounds := flattened (maxBounds A q keys)
  mean maxBounds - std A maxBounds

/-- The mask that the two gates produce, with the threshold given or computed. -/
def gateMask [NeZero Q] (A : Arith R) (q : Tensor R Q heads dim)
    (keys : Tensor R (nb * 512) heads dim) (zetaMax : R) (tau : Option R) :
    Fin nb → Fin heads → Bool :=
  computeMultibandMask A q keys (tau.getD (computeAutoTau A q keys)) zetaMax

def orthocacheForward [NeZero Q] [NeZero nb] (A : Arith R) (isTpu : Bool)
    (q : Tensor R Q heads dim) (keys values : Tensor R (nb * 512) heads dim) (zetaMax : R)
    (tau : Option R) (mode : Mode) : Except Raised (Tensor R Q heads dim × Metadata R) :=
  let metadata : R → Option (SpectralReport R) → Metadata R := fun evictionRate spectral =>
    { mode := mode
      seqLenQ := Q
      seqLenK := nb * 512
      numBlocks := nb
      numHeads := heads
      headDim := dim
      blockSize := 512
      zetaMax := zetaMax
      evictionRate := evictionRate
      spectral := spectral }
  let zetaAnyHead := fun b => mean (computeSpectralDecayRatio A keys bandLow bandHigh b)
  let blockMask := gateMask A q keys zetaMax tau
  let blocksRetained := countActive (anyHead blockMask)
  let evictionRate := 1 - (blocksRetained : R) / nb
  let report : Option ℕ → SpectralReport R := fun compactNumActive =>
    { tauAuto := tau.isNone
      tau := tau.getD (computeAutoTau A q keys)
      zetaMean := mean zetaAnyHead
      zetaStd := std A zetaAnyHead
      zetaMin := univ.inf' (axis_univ_nonempty nb) zetaAnyHead
      zetaMaxObserved := univ.sup' (axis_univ_nonempty nb) zetaAnyHead
      blocksRetained := blocksRetained
      blocksEvicted := nb - blocksRetained
      compactNumActive := compactNumActive }
  match mode with
  -- the baseline returns before any analysis
  | .dense => .ok (denseAttention A q keys values, metadata 0 none)
  | .compact => .ok (orthocacheAttentionImpl A isTpu q keys values blockMask,
      metadata evictionRate (some (report (some blocksRetained))))
  | .sparse => .ok (compilePallasSparseAttention A isTpu q keys values blockMask,
      metadata evictionRate (some (report none)))
  | .unknown name => .error (.valueError
      ("Unknown mode: " ++ pythonRepr name ++ ". Use 'dense', 'sparse', or 'compact'."))

end Model

section Dispersion
variable {n : ℕ} (x : Fin n → ℝ)

theorem mul_std_sq : n * std .exact x ^ 2 = ∑ i, (x i - mean x) ^ 2 := by
  rcases n.eq_zero_or_pos with rfl | positive
  · simp
  have nonneg : 0 ≤ mean (fun i => (x i - mean x) ^ 2) :=
    div_nonneg (sum_nonneg (fun i _ => sq_nonneg _)) (Nat.cast_nonneg n)
  have size : (n : ℝ) ≠ 0 := Nat.cast_ne_zero.mpr positive.ne'
  have square : std .exact x ^ 2 = mean (fun i => (x i - mean x) ^ 2) := Real.sq_sqrt nonneg
  rw [square, mean, mul_div_cancel₀ _ size]

theorem sum_mean_sub : ∑ i, (mean x - x i) = 0 := by
  rcases n.eq_zero_or_pos with rfl | positive
  · simp
  have size : (n : ℝ) ≠ 0 := Nat.cast_ne_zero.mpr positive.ne'
  rw [sum_sub_distrib, sum_const, card_univ, Fintype.card_fin, nsmul_eq_mul, mean,
    mul_div_cancel₀ _ size, sub_self]

/-- Fewer than half of the entries lie more than one standard deviation below the mean: their
squared distances from one deviation above it outweigh half of the total. -/
theorem two_mul_card_below_lt [NeZero n] :
    2 * #{i | x i < mean x - std .exact x} < n := by
  set below : Finset (Fin n) := {i | x i < mean x - std .exact x} with hbelow
  rcases below.eq_empty_or_nonempty with empty | nonempty
  · rw [empty, card_empty]
    exact NeZero.pos n
  have sigma_nonneg : 0 ≤ std .exact x := Real.sqrt_nonneg _
  have far : ∀ i ∈ below, 4 * std .exact x ^ 2 < (mean x - x i + std .exact x) ^ 2 := by
    intro i member
    have distance := (mem_filter.mp member).2
    nlinarith only [distance, sigma_nonneg]
  have total : ∑ i, (mean x - x i + std .exact x) ^ 2 = 2 * (n * std .exact x ^ 2) := by
    have centred := sum_mean_sub x
    have expand (i : Fin n) : (mean x - x i + std .exact x) ^ 2 =
        (x i - mean x) ^ 2 + 2 * std .exact x * (mean x - x i) + std .exact x ^ 2 := by ring
    simp only [expand, sum_add_distrib, ← mul_sum, centred, ← mul_std_sq, sum_const, card_univ,
      Fintype.card_fin, nsmul_eq_mul]
    ring
  have weight : below.card * (4 * std .exact x ^ 2) < 2 * (n * std .exact x ^ 2) := by
    calc below.card * (4 * std .exact x ^ 2) = ∑ _i ∈ below, 4 * std .exact x ^ 2 := by
          rw [sum_const, nsmul_eq_mul]
      _ < ∑ i ∈ below, (mean x - x i + std .exact x) ^ 2 := sum_lt_sum_of_nonempty nonempty far
      _ ≤ ∑ i, (mean x - x i + std .exact x) ^ 2 :=
          sum_le_univ_sum_of_nonneg (fun i => sq_nonneg _)
      _ = 2 * (n * std .exact x ^ 2) := total
  have count : (2 * below.card : ℝ) < n := by nlinarith only [weight, sq_nonneg (std .exact x)]
  exact_mod_cast count

end Dispersion

section Modes
variable {Q nb heads dim : ℕ} [NeZero Q] [NeZero nb] (isTpu : Bool) (q : Tensor ℝ Q heads dim)
  (keys values : Tensor ℝ (nb * 512) heads dim) (zetaMax : ℝ) (tau : Option ℝ)

/-- Compact mode attends on every head to the blocks that some head retains. -/
theorem orthocacheForward_compact (bounded : LogitsBounded (10 ^ 7) q keys)
    (active : ∃ b, anyHead (gateMask .flushing q keys zetaMax tau) b = true) :
    (orthocacheForward .flushing isTpu q keys values zetaMax tau .compact).map Prod.fst =
      .ok (attend q keys values
        (fun _ => tokensOf (anyHead (gateMask .flushing q keys zetaMax tau)))) :=
  congrArg Except.ok (compactAndAttend_mean q keys values _ isTpu bounded active)

/-- Sparse mode attends on every head to the blocks that this head retains, if any. -/
theorem orthocacheForward_sparse (bounded : LogitsBounded (10 ^ 7) q keys) :
    ∃ output, (orthocacheForward .flushing false q keys values zetaMax tau .sparse).map Prod.fst =
        .ok output ∧
      ∀ i h d, (∃ b, gateMask .flushing q keys zetaMax tau b h = true) →
        output i h d = attend q keys values
          (fun h => tokensOf (fun b => gateMask .flushing q keys zetaMax tau b h)) i h d := by
  refine ⟨_, rfl, fun i h d retained => ?_⟩
  exact jaxBlockSparseAttention_mean q keys values _ bounded i h d
    ((tokensOf_nonempty_iff _).mpr retained)

end Modes

end OrthoCache.Pipeline
