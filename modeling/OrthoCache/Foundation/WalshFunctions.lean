import Mathlib

/-!
Walsh functions of length `2 ^ m` in natural (Hadamard) order, over any commutative ring.
The function with index `s` takes the value `(-1) ^ popcount (s AND i)` at `i`. The module
gives the butterfly recursion, Parseval's identity, the energies of two families of
indices, and the number of sign changes of each function.
-/

namespace OrthoCache.Foundation.WalshFunctions
open Finset

section Summation
variable {M : Type*} [AddCommMonoid M]

theorem sum_range_pair (f : ℕ → M) (n : ℕ) :
    ∑ i ∈ range (2 * n), f i = ∑ i ∈ range n, (f (2 * i) + f (2 * i + 1)) := by
  induction n with
  | zero => simp
  | succ n ih => rw [Nat.mul_succ, sum_range_succ, sum_range_succ, sum_range_succ, ih, add_assoc]

theorem sum_range_rows (f : ℕ → M) (n width : ℕ) :
    ∑ i ∈ range (n * width), f i = ∑ g ∈ range n, ∑ r ∈ range width, f (width * g + r) := by
  induction n with
  | zero => simp
  | succ n ih => rw [Nat.succ_mul, sum_range_add, sum_range_succ, ih, Nat.mul_comm n width]

end Summation

def popcount (n : ℕ) : ℕ := (Nat.digits 2 n).sum

theorem popcount_zero : popcount 0 = 0 := rfl

theorem popcount_bit (b n : ℕ) (bit : b < 2) : popcount (b + 2 * n) = b + popcount n := by
  by_cases empty : b = 0 ∧ n = 0
  · simp [empty.1, empty.2, popcount]
  · have nonzero : b ≠ 0 ∨ n ≠ 0 := by omega
    simp [popcount, Nat.digits_add 2 (by decide) b n bit nonzero]

theorem popcount_div_mod_two (n : ℕ) : popcount n = n % 2 + popcount (n / 2) := by
  conv_lhs => rw [← Nat.mod_add_div n 2]
  exact popcount_bit _ _ (Nat.mod_lt _ (by decide))

theorem popcount_split (k n : ℕ) : popcount n = popcount (n / 2 ^ k) + popcount (n % 2 ^ k) := by
  induction k generalizing n with
  | zero => simp [Nat.mod_one, popcount_zero]
  | succ k ih =>
    have low : n % 2 ^ (k + 1) = n % 2 + 2 * (n / 2 % 2 ^ k) := by
      rw [pow_succ', Nat.mod_mul]
    have high : n / 2 ^ (k + 1) = n / 2 / 2 ^ k := by rw [pow_succ', Nat.div_div_eq_div_mul]
    rw [low, popcount_bit _ _ (Nat.mod_lt _ (by decide)), high, popcount_div_mod_two n,
      ih (n / 2)]
    omega

section Sign
variable {R : Type*} [CommRing R]

/-- Value at `i` of the Walsh function with natural index `s`. -/
def walshSign (s i : ℕ) : R := (-1) ^ popcount (s &&& i)

@[simp] theorem walshSign_zero_left (i : ℕ) : (walshSign 0 i : R) = 1 := by
  simp [walshSign, popcount_zero]

@[simp] theorem walshSign_zero_right (s : ℕ) : (walshSign s 0 : R) = 1 := by
  simp [walshSign, popcount_zero]

@[simp] theorem walshSign_mul_self (s i : ℕ) : (walshSign s i * walshSign s i : R) = 1 := by
  rw [walshSign, ← pow_add, ← two_mul, pow_mul, neg_one_sq, one_pow]

theorem walshSign_split (k s i : ℕ) : (walshSign s i : R) =
    walshSign (s / 2 ^ k) (i / 2 ^ k) * walshSign (s % 2 ^ k) (i % 2 ^ k) := by
  rw [walshSign, popcount_split k, pow_add, Nat.and_div_two_pow, Nat.and_mod_two_pow]
  rfl

theorem walshSign_one_one : (walshSign 1 1 : R) = -1 := by
  rw [walshSign, show 1 &&& 1 = 1 + 2 * 0 by decide, popcount_bit 1 0 (by decide), popcount_zero]
  simp

theorem walshSign_even (s i : ℕ) : (walshSign s (2 * i) : R) = walshSign (s / 2) i := by
  rw [walshSign_split 1]
  simp

theorem walshSign_odd (s i : ℕ) :
    (walshSign s (2 * i + 1) : R) = (-1) ^ (s % 2) * walshSign (s / 2) i := by
  have half : (2 * i + 1) / 2 = i := by omega
  rw [walshSign_split 1, pow_one, half, show (2 * i + 1) % 2 = 1 by omega, mul_comm]
  rcases Nat.mod_two_eq_zero_or_one s with even | odd
  · simp [even]
  · simp [odd, walshSign_one_one]

theorem walshSign_high (k s i r : ℕ) (small : r < 2 ^ k) :
    (walshSign (2 ^ k * s) (2 ^ k * i + r) : R) = walshSign s i := by
  have positive : 0 < 2 ^ k := by positivity
  rw [walshSign_split k, Nat.mul_add_div positive, Nat.div_eq_of_lt small, Nat.add_zero,
    Nat.mul_div_cancel_left s positive, Nat.mul_mod_right, walshSign_zero_left, mul_one]

theorem walshSign_low (k s i r : ℕ) (index : s < 2 ^ k) (small : r < 2 ^ k) :
    (walshSign s (2 ^ k * i + r) : R) = walshSign s r := by
  rw [walshSign_split k, Nat.div_eq_of_lt index, walshSign_zero_left, one_mul,
    Nat.mod_eq_of_lt index, Nat.mul_add_mod, Nat.mod_eq_of_lt small]

/-- Unnormalised Walsh coefficient of index `s` of a vector of length `2 ^ m`. -/
def walshSum (m : ℕ) (x : ℕ → R) (s : ℕ) : R := ∑ i ∈ range (2 ^ m), walshSign s i * x i

theorem walshSum_succ (m : ℕ) (x : ℕ → R) (s : ℕ) :
    walshSum (m + 1) x s =
      walshSum m (fun i => x (2 * i) + (-1) ^ (s % 2) * x (2 * i + 1)) (s / 2) := by
  rw [walshSum, pow_succ', sum_range_pair, walshSum]
  apply sum_congr rfl
  intro i _
  rw [walshSign_even, walshSign_odd]
  ring

/-- Parseval's identity, by halving the vector into its even and odd entries. -/
theorem sum_walshSum_sq (m : ℕ) (x : ℕ → R) :
    ∑ s ∈ range (2 ^ m), walshSum m x s ^ 2 = 2 ^ m * ∑ i ∈ range (2 ^ m), x i ^ 2 := by
  induction m generalizing x with
  | zero => simp [walshSum]
  | succ m ih =>
    have halves (s : ℕ) : walshSum (m + 1) x (2 * s) ^ 2 + walshSum (m + 1) x (2 * s + 1) ^ 2 =
        walshSum m (fun i => x (2 * i) + x (2 * i + 1)) s ^ 2 +
          walshSum m (fun i => x (2 * i) - x (2 * i + 1)) s ^ 2 := by
      rw [walshSum_succ, walshSum_succ, show 2 * s % 2 = 0 by omega, show 2 * s / 2 = s by omega,
        show (2 * s + 1) % 2 = 1 by omega, show (2 * s + 1) / 2 = s by omega]
      simp only [pow_zero, one_mul, pow_one, neg_one_mul, ← sub_eq_add_neg]
    rw [pow_succ' 2 m, sum_range_pair, sum_range_pair]
    simp only [halves, sum_add_distrib]
    rw [ih, ih, ← mul_add, ← sum_add_distrib, ← sum_add_distrib, pow_succ', mul_comm (2 : R),
      mul_assoc, mul_sum (range (2 ^ m)) _ (2 : R)]
    congr 1
    apply sum_congr rfl
    intro i _
    ring

theorem walshSum_walshSign (m s t : ℕ) (hs : s < 2 ^ m) (ht : t < 2 ^ m) :
    walshSum m (walshSign t) s = if s = t then (2 : R) ^ m else 0 := by
  induction m generalizing s t with
  | zero =>
    obtain rfl : s = 0 := by simpa using hs
    obtain rfl : t = 0 := by simpa using ht
    simp [walshSum]
  | succ m ih =>
    rw [pow_succ'] at hs ht
    have inner : (walshSum (m + 1) (walshSign t) s : R) =
        (1 + (-1) ^ (s % 2) * (-1) ^ (t % 2)) * walshSum m (walshSign (t / 2)) (s / 2) := by
      rw [walshSum_succ, walshSum, walshSum, mul_sum]
      apply sum_congr rfl
      intro i _
      rw [walshSign_even, walshSign_odd]
      ring
    rw [inner, ih (s / 2) (t / 2) (by omega) (by omega), pow_succ']
    by_cases same : s = t
    · subst same
      rw [if_pos rfl, if_pos rfl, ← pow_add, ← two_mul, pow_mul, neg_one_sq, one_pow]
      ring
    · rw [if_neg same]
      by_cases halves : s / 2 = t / 2
      · rcases Nat.mod_two_eq_zero_or_one s with hs | hs <;>
          rcases Nat.mod_two_eq_zero_or_one t with ht | ht <;>
          first
            | exact absurd (show s = t by omega) same
            | simp [hs, ht]
      · rw [if_neg halves, mul_zero]

/-- Coefficients at the multiples of `2 ^ a` see only the sums over runs of `2 ^ a` entries. -/
theorem walshSum_multiple (a b : ℕ) (x : ℕ → R) (s : ℕ) :
    walshSum (a + b) x (2 ^ a * s) =
      walshSum b (fun g => ∑ r ∈ range (2 ^ a), x (2 ^ a * g + r)) s := by
  rw [walshSum, walshSum, pow_add, mul_comm, sum_range_rows]
  apply sum_congr rfl
  intro g _
  rw [mul_sum]
  apply sum_congr rfl
  intro r small
  rw [walshSign_high a s g r (mem_range.mp small)]

/-- Coefficients below `2 ^ b` see only the sums over the residue classes modulo `2 ^ b`. -/
theorem walshSum_initial (a b : ℕ) (x : ℕ → R) (s : ℕ) (index : s < 2 ^ b) :
    walshSum (a + b) x s = walshSum b (fun r => ∑ g ∈ range (2 ^ a), x (2 ^ b * g + r)) s := by
  rw [walshSum, walshSum, pow_add, sum_range_rows, sum_comm]
  apply sum_congr rfl
  intro r small
  rw [mul_sum]
  apply sum_congr rfl
  intro g _
  rw [walshSign_low b s g r index (mem_range.mp small)]

theorem sum_multiples_sq (a b : ℕ) (x : ℕ → R) :
    ∑ s ∈ range (2 ^ b), walshSum (a + b) x (2 ^ a * s) ^ 2 =
      2 ^ b * ∑ g ∈ range (2 ^ b), (∑ r ∈ range (2 ^ a), x (2 ^ a * g + r)) ^ 2 := by
  simp only [walshSum_multiple]
  exact sum_walshSum_sq b _

theorem sum_initial_sq (a b : ℕ) (x : ℕ → R) :
    ∑ s ∈ range (2 ^ b), walshSum (a + b) x s ^ 2 =
      2 ^ b * ∑ r ∈ range (2 ^ b), (∑ g ∈ range (2 ^ a), x (2 ^ b * g + r)) ^ 2 := by
  rw [← sum_walshSum_sq b]
  apply sum_congr rfl
  intro s index
  rw [walshSum_initial a b x s (mem_range.mp index)]

/-! ### The in-place butterfly -/

/-- One butterfly pass at stride `h`: entries `h` apart are replaced by their sum and difference. -/
def butterfly (h : ℕ) (x : ℕ → R) (s : ℕ) : R :=
  if s / h % 2 = 0 then x s + x (s + h) else x (s - h) - x s

/-- A pass in progress: the pairs whose lower entry has been visited are done. -/
def halfDone (h : ℕ) (x : ℕ → R) (visited : List ℕ) (s : ℕ) : R :=
  if s ∈ visited then x s + x (s + h) else
    if h ≤ s ∧ s - h ∈ visited then x (s - h) - x s else x s

theorem halfDone_nil (h : ℕ) (x : ℕ → R) : halfDone h x [] = x := by
  funext s
  simp [halfDone]

theorem halfDone_of_untouched (h : ℕ) (x : ℕ → R) (visited : List ℕ) (s : ℕ)
    (lower : s ∉ visited) (upper : h ≤ s → s - h ∉ visited) : halfDone h x visited s = x s := by
  unfold halfDone
  rw [if_neg lower, if_neg (fun done => upper done.1 done.2)]

theorem halfDone_cons (h : ℕ) (x : ℕ → R) (visited : List ℕ) (j : ℕ) (positive : 0 < h)
    (partner : j + h ∉ visited) :
    Function.update (Function.update (halfDone h x visited) j (x j + x (j + h)))
      (j + h) (x j - x (j + h)) = halfDone h x (j :: visited) := by
  funext s
  by_cases upper : s = j + h
  · subst upper
    have fresh : j + h ∉ j :: visited := List.not_mem_cons_of_ne_of_not_mem (by omega) partner
    rw [Function.update_self]
    unfold halfDone
    rw [if_neg fresh, Nat.add_sub_cancel,
      if_pos ⟨Nat.le_add_left h j, List.mem_cons_self⟩]
  · rw [Function.update_of_ne upper]
    by_cases lower : s = j
    · subst lower
      rw [Function.update_self]
      unfold halfDone
      rw [if_pos List.mem_cons_self]
    · have other : h ≤ s → s - h ≠ j := by omega
      rw [Function.update_of_ne lower]
      unfold halfDone
      simp only [List.mem_cons, lower, false_or]
      by_cases far : h ≤ s
      · simp only [far, other far, true_and, false_or]
      · simp only [far, false_and]

theorem halfDone_all (h : ℕ) (x : ℕ → R) (visited : List ℕ) (s : ℕ) (positive : 0 < h)
    (all : ∀ j ≤ s, j ∈ visited ↔ j / h % 2 = 0) : halfDone h x visited s = butterfly h x s := by
  unfold halfDone butterfly
  by_cases lower : s / h % 2 = 0
  · rw [if_pos ((all s le_rfl).mpr lower), if_pos lower]
  · have far : h ≤ s := by
      by_contra near
      rw [Nat.div_eq_of_lt (by omega)] at lower
      exact lower rfl
    have below : (s - h) / h % 2 = 0 := by
      have quotient := Nat.div_eq_sub_div positive far
      omega
    rw [if_neg (fun member => lower ((all s le_rfl).mp member)), if_neg lower,
      if_pos ⟨far, (all (s - h) (Nat.sub_le s h)).mpr below⟩]

/-- Walsh transform of each aligned run of `2 ^ k` entries: what `k` passes have computed. -/
def partialWalsh (k : ℕ) (x : ℕ → R) (s : ℕ) : R :=
  walshSum k (fun i => x (2 ^ k * (s / 2 ^ k) + i)) (s % 2 ^ k)

theorem partialWalsh_zero (x : ℕ → R) : partialWalsh 0 x = x := by
  funext s
  simp [partialWalsh, walshSum, Nat.mod_one]

theorem partialWalsh_of_lt (m : ℕ) (x : ℕ → R) (s : ℕ) (inside : s < 2 ^ m) :
    partialWalsh m x s = walshSum m x s := by
  simp only [partialWalsh, Nat.div_eq_of_lt inside, Nat.mod_eq_of_lt inside, Nat.mul_zero,
    Nat.zero_add]

theorem walshSum_halves (k : ℕ) (x : ℕ → R) (s : ℕ) :
    walshSum (k + 1) x s = walshSum k x (s % 2 ^ k) +
      (-1) ^ (s / 2 ^ k % 2) * walshSum k (fun i => x (2 ^ k + i)) (s % 2 ^ k) := by
  rw [walshSum, pow_succ, mul_two, sum_range_add, walshSum, walshSum, mul_sum]
  congr 1
  · apply sum_congr rfl
    intro i small
    have small := mem_range.mp small
    rw [walshSign_split k, Nat.div_eq_of_lt small, walshSign_zero_right, one_mul,
      Nat.mod_eq_of_lt small]
  · apply sum_congr rfl
    intro i small
    have small := mem_range.mp small
    have top : (2 ^ k + i) / 2 ^ k = 2 * 0 + 1 := by
      rw [Nat.add_div_left i (by positivity), Nat.div_eq_of_lt small]
    rw [walshSign_split k, top, walshSign_odd, walshSign_zero_right, mul_one,
      Nat.add_mod_left, Nat.mod_eq_of_lt small, mul_assoc]

/-- One more pass doubles the length of the transformed runs. -/
theorem butterfly_partialWalsh (k : ℕ) (x : ℕ → R) :
    butterfly (2 ^ k) (partialWalsh k x) = partialWalsh (k + 1) x := by
  funext s
  have positive : 0 < 2 ^ k := by positivity
  have twice : s / 2 ^ (k + 1) = s / 2 ^ k / 2 := by rw [pow_succ, Nat.div_div_eq_div_mul]
  have low : s % 2 ^ (k + 1) % 2 ^ k = s % 2 ^ k :=
    Nat.mod_mod_of_dvd s (pow_dvd_pow 2 (Nat.le_succ k))
  have topBit : s % 2 ^ (k + 1) / 2 ^ k = s / 2 ^ k % 2 := by
    rw [pow_succ, Nat.mod_mul_right_div_self]
  have decompose : s / 2 ^ k = 2 * (s / 2 ^ k / 2) + s / 2 ^ k % 2 := by omega
  simp only [partialWalsh, butterfly]
  rw [walshSum_halves, low, topBit, twice, Nat.mod_mod]
  rcases Nat.mod_two_eq_zero_or_one (s / 2 ^ k) with even | odd
  · have upper : (s + 2 ^ k) / 2 ^ k = s / 2 ^ k + 1 := Nat.add_div_right s positive
    rw [if_pos even, even, pow_zero, one_mul, upper, Nat.add_mod_right]
    rw [even, Nat.add_zero] at decompose
    congr 2
    · funext i
      conv_lhs => rw [decompose]
      ring_nf
    · funext i
      conv_lhs => rw [decompose]
      ring_nf
  · have aligned : 2 ^ k ≤ s := by
      by_contra small
      rw [Nat.div_eq_of_lt (by omega)] at odd
      omega
    have lower : (s - 2 ^ k) / 2 ^ k = 2 * (s / 2 ^ k / 2) := by
      have step := Nat.div_eq_sub_div positive aligned
      omega
    have residue : (s - 2 ^ k) % 2 ^ k = s % 2 ^ k := (Nat.mod_eq_sub_mod aligned).symm
    rw [if_neg (by omega), odd, pow_one, neg_one_mul, ← sub_eq_add_neg, lower, residue]
    rw [odd] at decompose
    congr 2
    · funext i
      ring_nf
    · funext i
      conv_lhs => rw [decompose]
      ring_nf

end Sign

/-! ### The orthonormal functions -/

section Orthonormal

/-- Walsh function with natural index `s`, scaled to unit length over `n` entries. -/
noncomputable def orthonormalWalsh (n s i : ℕ) : ℝ := walshSign s i / √n

noncomputable def projection {n : ℕ} (x : Fin n → ℝ) (s : ℕ) : ℝ :=
  ∑ i : Fin n, orthonormalWalsh n s i * x i

theorem projection_eq {n : ℕ} (x : Fin n → ℝ) (f : ℕ → ℝ) (agree : ∀ i, x i = f i) (s : ℕ) :
    projection x s = (∑ i ∈ range n, walshSign s i * f i) / √n := by
  simp only [projection, orthonormalWalsh, agree, sum_range, sum_div, div_mul_eq_mul_div]

theorem projection_sq {m : ℕ} (x : Fin (2 ^ m) → ℝ) (f : ℕ → ℝ) (agree : ∀ i, x i = f i)
    (s : ℕ) : projection x s ^ 2 = walshSum m f s ^ 2 / 2 ^ m := by
  rw [projection_eq x f agree, ← walshSum, div_pow, Real.sq_sqrt (Nat.cast_nonneg _)]
  simp only [Nat.cast_pow, Nat.cast_ofNat]

theorem projection_orthonormalWalsh (m s t : ℕ) (hs : s < 2 ^ m) (ht : t < 2 ^ m) :
    projection (fun i : Fin (2 ^ m) => orthonormalWalsh (2 ^ m) t i) s = if s = t then 1 else 0 := by
  have root : √((2 ^ m : ℕ) : ℝ) * √((2 ^ m : ℕ) : ℝ) = (2 : ℝ) ^ m := by
    rw [Real.mul_self_sqrt (Nat.cast_nonneg _), Nat.cast_pow, Nat.cast_ofNat]
  have product := walshSum_walshSign (R := ℝ) m s t hs ht
  rw [projection_eq _ (orthonormalWalsh (2 ^ m) t) (fun _ => rfl)]
  simp only [orthonormalWalsh, mul_div_assoc', ← sum_div]
  rw [← walshSum, product, div_div, root]
  split_ifs
  · exact div_self (by positivity)
  · exact zero_div _

theorem orthonormalWalsh_comm (n s i : ℕ) : orthonormalWalsh n s i = orthonormalWalsh n i s := by
  rw [orthonormalWalsh, orthonormalWalsh, walshSign, walshSign, Nat.land_comm]

theorem projection_projection {n : ℕ} (m : ℕ) (size : n = 2 ^ m) (x : Fin n → ℝ) (t : Fin n) :
    projection (fun s : Fin n => projection x s) t = x t := by
  subst size
  have entry (i : Fin (2 ^ m)) :
      ∑ s : Fin (2 ^ m), orthonormalWalsh (2 ^ m) t s * orthonormalWalsh (2 ^ m) s i =
        if t = i then 1 else 0 := by
    have unit := projection_orthonormalWalsh m t i t.isLt i.isLt
    simp only [Fin.val_inj] at unit
    rw [← unit, projection]
    exact sum_congr rfl (fun s _ => by rw [orthonormalWalsh_comm _ s i])
  calc projection (fun s : Fin (2 ^ m) => projection x s) t
      = ∑ i : Fin (2 ^ m),
          (∑ s : Fin (2 ^ m), orthonormalWalsh (2 ^ m) t s * orthonormalWalsh (2 ^ m) s i) * x i := by
        simp only [projection, mul_sum, sum_mul, mul_assoc]
        exact sum_comm
    _ = ∑ i : Fin (2 ^ m), (if t = i then 1 else 0) * x i := by simp only [entry]
    _ = x t := by simp

theorem sum_projection_sq (m : ℕ) (x : Fin (2 ^ m) → ℝ) :
    ∑ s ∈ range (2 ^ m), projection x s ^ 2 = ∑ i, x i ^ 2 := by
  have agree (i : Fin (2 ^ m)) : x i = Function.extend Fin.val x 0 i :=
    (Fin.val_injective.extend_apply x 0 i).symm
  simp only [projection_sq x _ agree, ← sum_div, sum_walshSum_sq]
  rw [mul_div_cancel_left₀ _ (by positivity), sum_range]
  simp only [← agree]

theorem projection_mul_left {n : ℕ} (c : ℝ) (x : Fin n → ℝ) (s : ℕ) :
    projection (fun i => c * x i) s = c * projection x s := by
  simp only [projection, mul_sum, mul_left_comm]

theorem sum_projection_multiples {n : ℕ} (a b : ℕ) (size : n = 2 ^ (a + b)) (x : Fin n → ℝ)
    (f : ℕ → ℝ) (agree : ∀ i, x i = f i) : ∑ s ∈ range (2 ^ b), projection x (2 ^ a * s) ^ 2 =
      (∑ g ∈ range (2 ^ b), (∑ r ∈ range (2 ^ a), f (2 ^ a * g + r)) ^ 2) / 2 ^ a := by
  subst size
  simp only [projection_sq x f agree, ← sum_div, sum_multiples_sq]
  rw [pow_add, mul_comm, mul_div_mul_right _ _ (by positivity)]

theorem sum_projection_initial {n : ℕ} (a b : ℕ) (size : n = 2 ^ (a + b)) (x : Fin n → ℝ)
    (f : ℕ → ℝ) (agree : ∀ i, x i = f i) : ∑ s ∈ range (2 ^ b), projection x s ^ 2 =
      (∑ r ∈ range (2 ^ b), (∑ g ∈ range (2 ^ a), f (2 ^ b * g + r)) ^ 2) / 2 ^ a := by
  subst size
  simp only [projection_sq x f agree, ← sum_div, sum_initial_sq]
  rw [pow_add, mul_comm, mul_div_mul_right _ _ (by positivity)]

theorem sum_projection_sq_deviation (m : ℕ) (x : Fin (2 ^ m) → ℝ) :
    ∑ s ∈ Ico 1 (2 ^ m), projection x s ^ 2 =
      ∑ i, (x i - projection x 0 / √((2 ^ m : ℕ) : ℝ)) ^ 2 := by
  have positive : (0 : ℝ) < (2 ^ m : ℕ) := by positivity
  have mean : projection x 0 / √((2 ^ m : ℕ) : ℝ) = (∑ i, x i) / (2 ^ m : ℕ) := by
    simp only [projection, orthonormalWalsh, walshSign_zero_left, ← mul_sum]
    rw [one_div, ← div_eq_inv_mul, div_div, Real.mul_self_sqrt positive.le]
  have total : ∑ s ∈ Ico 1 (2 ^ m), projection x s ^ 2 + projection x 0 ^ 2 = ∑ i, x i ^ 2 := by
    rw [← sum_projection_sq, range_eq_Ico, sum_eq_sum_Ico_succ_bot (Nat.two_pow_pos m), add_comm]
  have constant : projection x 0 ^ 2 = (2 ^ m : ℕ) * ((∑ i, x i) / (2 ^ m : ℕ)) ^ 2 := by
    rw [← mean, div_pow, Real.sq_sqrt positive.le, mul_div_cancel₀ _ positive.ne']
  rw [mean, eq_sub_of_add_eq total, constant]
  set average := (∑ i, x i) / ((2 ^ m : ℕ) : ℝ) with haverage
  have sum : ∑ i, x i = (2 ^ m : ℕ) * average := (mul_div_cancel₀ _ positive.ne').symm
  simp only [sub_sq, sum_add_distrib, sum_sub_distrib, ← sum_mul, ← mul_sum, sum, sum_const,
    card_univ, Fintype.card_fin, nsmul_eq_mul]
  ring

end Orthonormal

theorem abs_walshSign_le_one (s i : ℕ) : |(walshSign s i : ℝ)| ≤ 1 :=
  abs_le_one_iff_mul_self_le_one.mpr (walshSign_mul_self s i).le

/-! ### Sign changes -/

section Sequency
variable {R : Type*} [CommRing R] [LinearOrder R]

def signChanges (n : ℕ) (f : ℕ → R) : ℕ := #{i ∈ range (n - 1) | f i * f (i + 1) < 0}

theorem signChanges_lt (n : ℕ) (f : ℕ → R) (positive : 0 < n) : signChanges n f < n := by
  have bound := card_filter_le (range (n - 1)) (fun i => f i * f (i + 1) < 0)
  rw [card_range] at bound
  unfold signChanges
  omega

theorem signChanges_pairs (n : ℕ) (f : ℕ → R) (positive : 0 < n) :
    signChanges (2 * n) f = #{i ∈ range n | f (2 * i) * f (2 * i + 1) < 0} +
      #{i ∈ range (n - 1) | f (2 * i + 1) * f (2 * (i + 1)) < 0} := by
  obtain ⟨k, rfl⟩ : ∃ k, n = k + 1 := ⟨n - 1, by omega⟩
  unfold signChanges
  rw [show 2 * (k + 1) - 1 = 2 * k + 1 by omega, Nat.add_sub_cancel]
  have next (i : ℕ) : 2 * i + 1 + 1 = 2 * (i + 1) := by omega
  simp only [card_filter]
  rw [sum_range_succ, sum_range_pair, sum_add_distrib, sum_range_succ]
  simp only [next]
  omega

variable [IsStrictOrderedRing R]

theorem signChanges_walshSign_even (m s : ℕ) :
    signChanges (2 ^ (m + 1)) (walshSign (2 * s) : ℕ → R) =
      signChanges (2 ^ m) (walshSign s : ℕ → R) := by
  rw [pow_succ', signChanges_pairs _ _ (by positivity)]
  simp [walshSign_even, walshSign_odd, signChanges, not_lt_of_gt]

theorem signChanges_walshSign_odd (m s : ℕ) :
    signChanges (2 ^ (m + 1)) (walshSign (2 * s + 1) : ℕ → R) +
      signChanges (2 ^ m) (walshSign s : ℕ → R) + 1 = 2 ^ (m + 1) := by
  have half : (2 * s + 1) / 2 = s := by omega
  have bit : (2 * s + 1) % 2 = 1 := by omega
  have positive : 0 < 2 ^ m := by positivity
  -- inside a pair the sign always flips; between pairs it flips where the half-size one does not
  have flips (i : ℕ) : (-(walshSign s i : R) * walshSign s (i + 1) < 0) ↔
      ¬(walshSign s i : R) * walshSign s (i + 1) < 0 := by
    rw [walshSign, walshSign, ← neg_mul_eq_neg_mul, ← pow_add]
    rcases neg_one_pow_eq_or R (popcount (s &&& i) + popcount (s &&& (i + 1))) with sign | sign <;>
      simp [sign]
  rw [pow_succ', signChanges_pairs _ _ positive]
  simp only [walshSign_even, walshSign_odd, half, bit, pow_one, neg_one_mul, mul_neg,
    walshSign_mul_self, flips]
  have split := card_filter_add_card_filter_not (s := range (2 ^ m - 1))
    (fun i => (walshSign s i : R) * walshSign s (i + 1) < 0)
  rw [card_range] at split
  simp only [signChanges, Left.neg_neg_iff, zero_lt_one, filter_true, card_range]
  omega

/-- Fewer than `2 ^ m` sign changes means that the low `a` index bits vanish: the natural
index is not the sequency, its low bits decide. -/
theorem signChanges_walshSign_lt_iff (a m s : ℕ) :
    signChanges (2 ^ (a + m)) (walshSign s : ℕ → R) < 2 ^ m ↔ 2 ^ a ∣ s := by
  induction a generalizing s with
  | zero => simpa using signChanges_lt (2 ^ m) (walshSign s : ℕ → R) (by positivity)
  | succ a ih =>
    rw [Nat.add_right_comm]
    obtain ⟨half, rfl | rfl⟩ := Nat.even_or_odd' s
    · rw [signChanges_walshSign_even, ih, pow_succ', Nat.mul_dvd_mul_iff_left (by decide)]
    · have total := signChanges_walshSign_odd (R := R) (a + m) half
      have bound := signChanges_lt (2 ^ (a + m)) (walshSign half : ℕ → R) (by positivity)
      have larger : 2 ^ m ≤ 2 ^ (a + m) := Nat.pow_le_pow_right (by decide) (by omega)
      have odd : ¬2 ^ (a + 1) ∣ 2 * half + 1 := by
        intro divides
        have even : 2 ∣ 2 * half + 1 := (dvd_pow_self 2 (Nat.succ_ne_zero a)).trans divides
        omega
      have double : 2 ^ (a + m + 1) = 2 * 2 ^ (a + m) := pow_succ' 2 (a + m)
      simp only [odd, iff_false, not_lt]
      omega

end Sequency

noncomputable def sequency (n s : ℕ) : ℕ := signChanges n (orthonormalWalsh n s)

theorem sequency_eq (m s : ℕ) : sequency (2 ^ m) s = signChanges (2 ^ m) (walshSign s : ℕ → ℝ) := by
  have positive : (0 : ℝ) < √(2 ^ m : ℕ) := by positivity
  have scaled (i : ℕ) : orthonormalWalsh (2 ^ m) s i * orthonormalWalsh (2 ^ m) s (i + 1) < 0 ↔
      (walshSign s i : ℝ) * walshSign s (i + 1) < 0 := by
    rw [orthonormalWalsh, orthonormalWalsh, div_mul_div_comm,
      div_lt_iff₀ (mul_pos positive positive), zero_mul]
  simp only [sequency, signChanges, scaled]

/-- The functions with fewer than `2 ^ m` sign changes are the multiples of `2 ^ a`. -/
theorem sum_sequency_lt {M : Type*} [AddCommMonoid M] (a m : ℕ) (f : ℕ → M) :
    ∑ s ∈ range (2 ^ (a + m)) with sequency (2 ^ (a + m)) s < 2 ^ m, f s =
      ∑ j ∈ range (2 ^ m), f (2 ^ a * j) := by
  have image : {s ∈ range (2 ^ (a + m)) | sequency (2 ^ (a + m)) s < 2 ^ m} =
      (range (2 ^ m)).image (2 ^ a * ·) := by
    ext s
    simp only [mem_filter, mem_range, sequency_eq, signChanges_walshSign_lt_iff, mem_image]
    constructor
    · rintro ⟨inside, j, rfl⟩
      rw [pow_add] at inside
      exact ⟨j, Nat.lt_of_mul_lt_mul_left inside, rfl⟩
    · rintro ⟨j, inside, rfl⟩
      rw [pow_add]
      exact ⟨Nat.mul_lt_mul_of_pos_left inside (Nat.two_pow_pos a), dvd_mul_right _ _⟩
  rw [image, sum_image]
  intro i _ j _ same
  exact Nat.eq_of_mul_eq_mul_left (Nat.two_pow_pos a) same

end OrthoCache.Foundation.WalshFunctions
