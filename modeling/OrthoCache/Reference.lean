import OrthoCache.SpectralEnergy

/-!
The NumPy golden model: the butterfly transform with its loops over array positions, and block
by block the band energies, the decay ratio, the logit bounds and the two-gate mask. An index
past the end of an array raises, so a transform that returns has stayed inside.
-/

namespace OrthoCache.Reference
open Finset Foundation.WalshFunctions Foundation.RowMajor Arrays SpectralEnergy

section Transform
variable {α R : Type} [Field R] {n dim : ℕ}

def pyRange (start stop step : ℕ) : List ℕ :=
  List.range' start ((stop - start + step - 1) / step) step

def readAt (x : Fin n → α) (j : ℕ) : Except Raised α :=
  if inside : j < n then .ok (x ⟨j, inside⟩) else .error .indexError

def writeAt (x : Fin n → α) (j : ℕ) (v : α) : Except Raised (Fin n → α) :=
  if inside : j < n then .ok (Function.update x ⟨j, inside⟩ v) else .error .indexError

/-- Body of the inner loop of `numpy_fwht_1d`. -/
def butterflyStep (h : ℕ) (x : Fin n → R) (j : ℕ) : Except Raised (Fin n → R) := do
  let u ← readAt x j
  let v ← readAt x (j + h)
  let x ← writeAt x j (u + v)
  writeAt x (j + h) (u - v)

def butterflyPass (h : ℕ) (x : Fin n → R) : Except Raised (Fin n → R) :=
  (pyRange 0 n (h * 2)).foldlM (fun x i => (pyRange i (i + h) 1).foldlM (butterflyStep h) x) x

theorem twice_pos {h : ℕ} (positive : 0 < h) : 0 < h * 2 := Nat.mul_pos positive Nat.two_pos

def butterflyPasses (h : ℕ) (positive : 0 < h) (x : Fin n → R) : Except Raised (Fin n → R) :=
  if h < n then do
    let x ← butterflyPass h x
    butterflyPasses (h * 2) (twice_pos positive) x
  else pure x
termination_by n - h

def numpyFwht1d (A : Arith R) (a : Fin n → R) : Except Raised (Fin n → R) := do
  let x ← butterflyPasses 1 Nat.one_pos a
  pure (fun s => x s / A.sqrt n)

def numpyFwht (A : Arith R) (tile : Fin n → Fin dim → R) : Except Raised (Fin n → Fin dim → R) :=
  (List.finRange dim).foldlM (fun transformed d => do
    let y ← numpyFwht1d A (fun t => tile t d)
    pure (fun s => Function.update (transformed s) d (y s))) (fun _ _ => 0)

end Transform

section Model
variable {R : Type} [Field R] [LinearOrder R] {Q nb bs heads dim : ℕ}

/-- `for h in range(num_heads): for b in range(num_blocks)`. -/
def forHeadsBlocks {σ : Type} (body : σ → Fin heads → Fin nb → Except Raised σ) (init : σ) :
    Except Raised σ :=
  (List.finRange heads).foldlM
    (fun state h => (List.finRange nb).foldlM (fun state b => body state h b) state) init

def setEntry {α : Type} (x : Fin nb → Fin heads → α) (b : Fin nb) (h : Fin heads) (v : α) :
    Fin nb → Fin heads → α := Function.update x b (Function.update (x b) h v)

def blockKeys (keys : Tensor R (nb * bs) heads dim) (b : Fin nb) (h : Fin heads) :
    Fin bs → Fin dim → R := fun t d => blocked keys b t h d

def blockEnergyStep (A : Arith R) (keys : Tensor R (nb * bs) heads dim)
    (energies : Fin nb → Fin heads → R) (h : Fin heads) (b : Fin nb) :
    Except Raised (Fin nb → Fin heads → R) := do
  let spectral ← numpyFwht A (blockKeys keys b h)
  pure (setEntry energies b h (∑ s, ∑ d, spectral s d ^ 2))

def computeBlockEnergyReference (A : Arith R) (keys : Tensor R (nb * bs) heads dim) :
    Except Raised (Fin nb → Fin heads → R) :=
  forHeadsBlocks (blockEnergyStep A keys) (fun _ _ => 0)

def sliceEnergy (spectral : Fin bs → Fin dim → R) (band : ℕ × ℕ) : R :=
  ∑ s : Fin bs with band.1 ≤ s.val ∧ s.val < band.2, ∑ d, spectral s d ^ 2

def spectralBandsStep (A : Arith R) (keys : Tensor R (nb * bs) heads dim) (low mid high : ℕ × ℕ)
    (bands : SpectralBands R nb heads dim) (h : Fin heads) (b : Fin nb) :
    Except Raised (SpectralBands R nb heads dim) := do
  let spectral ← numpyFwht A (blockKeys keys b h)
  let dc ← readAt spectral 0
  pure
    { dcComponent := setEntry bands.dcComponent b h dc
      lowEnergy := setEntry bands.lowEnergy b h (sliceEnergy spectral low)
      midEnergy := setEntry bands.midEnergy b h (sliceEnergy spectral mid)
      highEnergy := setEntry bands.highEnergy b h (sliceEnergy spectral high) }

def computeSpectralBandsReference (A : Arith R) (keys : Tensor R (nb * bs) heads dim)
    (low mid high : ℕ × ℕ) : Except Raised (SpectralBands R nb heads dim) :=
  forHeadsBlocks (spectralBandsStep A keys low mid high)
    { dcComponent := zeros
      lowEnergy := fun _ _ => 0
      midEnergy := fun _ _ => 0
      highEnergy := fun _ _ => 0 }

def computeSpectralDecayRatioReference (A : Arith R) (keys : Tensor R (nb * bs) heads dim)
    (low high : ℕ × ℕ) : Except Raised (Fin nb → Fin heads → R) := do
  let bands ← computeSpectralBandsReference A keys low (low.2, high.1) high
  pure (fun b h => bands.highEnergy b h / (bands.lowEnergy b h + 1e-6))

/-- The branch for two-dimensional input: a single block without a head axis. -/
def computeSpectralDecayRatioBlock (A : Arith R) (keys : Fin bs → Fin dim → R)
    (low high : ℕ × ℕ) : Except Raised R := do
  let spectral ← numpyFwht A keys
  pure (sliceEnergy spectral high / (sliceEnergy spectral low + 1e-6))

def queryAwareBoundsStep (A : Arith R) (q : Tensor R Q heads dim)
    (keys : Tensor R (nb * bs) heads dim) (bounds : Fin Q → Fin nb → Fin heads → R)
    (h : Fin heads) (b : Fin nb) : Except Raised (Fin Q → Fin nb → Fin heads → R) := do
  let spectral ← numpyFwht A (blockKeys keys b h)
  let dc ← readAt spectral 0
  let acEnergy := sliceEnergy spectral (1, bs)
  let blockMean := fun d => dc d / A.sqrt bs
  let bound := fun qi : Fin Q =>
    let qVec := q qi h
    let alignment := (∑ d, qVec d * blockMean d) / A.sqrt dim
    let qNorm := A.sqrt (∑ d, qVec d ^ 2)
    let residual := qNorm * A.sqrt acEnergy / A.sqrt dim
    alignment + residual
  pure ((List.finRange Q).foldl
    (fun bounds qi => Function.update bounds qi (setEntry (bounds qi) b h (bound qi))) bounds)

def computeQueryAwareBoundsReference (A : Arith R) (q : Tensor R Q heads dim)
    (keys : Tensor R (nb * bs) heads dim) : Except Raised (Fin Q → Fin nb → Fin heads → R) :=
  forHeadsBlocks (queryAwareBoundsStep A q keys) (fun _ _ _ => 0)

/-- `np.max(bounds, axis=0)` needs a query row. -/
def computeMultibandMaskReference [NeZero Q] (A : Arith R) (q : Tensor R Q heads dim)
    (keys : Tensor R (nb * bs) heads dim) (tau zetaMax : R) :
    Except Raised (Fin nb → Fin heads → Bool) := do
  let bounds ← computeQueryAwareBoundsReference A q keys
  let maxBounds := fun b h => univ.sup' (axis_univ_nonempty Q) (fun i => bounds i b h)
  let logitMask := fun b h => decide (maxBounds b h ≥ tau)
  let zeta ← computeSpectralDecayRatioReference A keys (1, 64) (256, 512)
  let noiseMask := fun b h => decide (zeta b h ≤ zetaMax)
  pure (fun b h => logitMask b h && noiseMask b h)

def computeTvDistance {n : ℕ} (alpha alphaHat : Fin n → R) : R :=
  0.5 * ∑ k, |alpha k - alphaHat k|

end Model

section Positions
variable {n h : ℕ}

theorem mem_pyRange (start stop step j : ℕ) (positive : 0 < step) :
    j ∈ pyRange start stop step ↔ ∃ i, j = start + step * i ∧ j < stop := by
  unfold pyRange
  simp only [List.mem_range', Nat.lt_iff_add_one_le, Nat.le_div_iff_mul_le positive, Nat.succ_mul]
  constructor
  · rintro ⟨i, inside, rfl⟩
    rw [Nat.mul_comm] at inside
    exact ⟨i, rfl, by omega⟩
  · rintro ⟨i, rfl, inside⟩
    refine ⟨i, ?_, rfl⟩
    rw [Nat.mul_comm]
    omega

def positions (n h : ℕ) : List ℕ := (pyRange 0 n (h * 2)).flatMap (fun i => pyRange i (i + h) 1)

theorem mem_positions (positive : 0 < h) (j : ℕ) :
    j ∈ positions n h ↔ j / h % 2 = 0 ∧ h * 2 * (j / h / 2) < n := by
  unfold positions
  simp only [List.mem_flatMap, mem_pyRange _ _ _ _ (twice_pos positive),
    mem_pyRange _ _ _ _ Nat.one_pos, Nat.zero_add, one_mul]
  constructor
  · rintro ⟨_, ⟨g, rfl, inside⟩, r, rfl, small⟩
    have quotient : (h * 2 * g + r) / h = 2 * g := by
      rw [Nat.mul_assoc, Nat.mul_add_div positive, Nat.div_eq_of_lt (by omega), Nat.add_zero]
    rw [quotient]
    exact ⟨Nat.mul_mod_right 2 g, by rwa [Nat.mul_div_cancel_left g Nat.two_pos]⟩
  · rintro ⟨lower, inside⟩
    have digits := Nat.div_add_mod j h
    have small := Nat.mod_lt j positive
    have run : h * 2 * (j / h / 2) = h * (j / h) := by
      rw [Nat.mul_assoc]
      congr 1
      omega
    exact ⟨_, ⟨j / h / 2, rfl, inside⟩, j % h, by omega, by omega⟩

theorem positions_nodup (positive : 0 < h) : (positions n h).Nodup := by
  unfold positions
  rw [List.nodup_flatMap]
  refine ⟨fun i _ => List.nodup_range' 1, ?_⟩
  rw [pyRange, List.pairwise_iff_getElem]
  intro g next _ _ less j here there
  rw [List.getElem_range', mem_pyRange _ _ _ _ Nat.one_pos] at here there
  obtain ⟨-, -, below⟩ := here
  obtain ⟨r, rfl, -⟩ := there
  have apart : h * 2 * (g + 1) ≤ h * 2 * next := Nat.mul_le_mul_left _ less
  rw [Nat.mul_succ] at apart
  omega

theorem positions_inside (positive : 0 < h) (pairs : h * 2 ∣ n) (j : ℕ)
    (member : j ∈ positions n h) : j / h % 2 = 0 ∧ j + h < n := by
  obtain ⟨lower, start⟩ := (mem_positions positive j).mp member
  obtain ⟨g, rfl⟩ := pairs
  have room : h * 2 * (j / h / 2 + 1) ≤ h * 2 * g :=
    Nat.mul_le_mul_left _ (Nat.lt_of_mul_lt_mul_left start)
  have digits := Nat.div_add_mod j h
  have small := Nat.mod_lt j positive
  have run : h * 2 * (j / h / 2) = h * (j / h) := by
    rw [Nat.mul_assoc]
    congr 1
    omega
  rw [Nat.mul_succ] at room
  exact ⟨lower, by omega⟩

theorem mem_positions_of_lower (positive : 0 < h) (j : ℕ) (lower : j / h % 2 = 0)
    (inside : j < n) : j ∈ positions n h := by
  rw [mem_positions positive]
  have digits := Nat.div_mul_le_self j h
  have run : h * 2 * (j / h / 2) ≤ j / h * h := by
    rw [Nat.mul_assoc, Nat.mul_comm]
    exact Nat.mul_le_mul_right h (Nat.mul_div_le _ _)
  exact ⟨lower, by omega⟩

end Positions

section Pass
variable {R : Type} [Field R] {n h : ℕ}

theorem readAt_of_lt {α : Type} (x : Fin n → α) (j : ℕ) (inside : j < n) :
    readAt x j = .ok (x ⟨j, inside⟩) := dif_pos inside

theorem writeAt_of_lt {α : Type} (x : Fin n → α) (j : ℕ) (v : α) (inside : j < n) :
    writeAt x j v = .ok (Function.update x ⟨j, inside⟩ v) := dif_pos inside

theorem partner_upper (positive : 0 < h) (j : ℕ) (lower : j / h % 2 = 0) : (j + h) / h % 2 = 1 := by
  rw [Nat.add_div_right j positive]
  omega

theorem before_upper (positive : 0 < h) (j : ℕ) (far : h ≤ j) (lower : j / h % 2 = 0) :
    (j - h) / h % 2 = 1 := by
  have quotient := Nat.div_eq_sub_div positive far
  omega

theorem butterflyStep_halfDone (positive : 0 < h) (x : ℕ → R) (visited : List ℕ) (j : ℕ)
    (y : Fin n → R) (so_far : ∀ s, y s = halfDone h x visited s)
    (lowers : ∀ i ∈ visited, i / h % 2 = 0) (lower : j / h % 2 = 0) (fresh : j ∉ visited)
    (inside : j + h < n) :
    ∃ z, butterflyStep h y j = .ok z ∧ ∀ s, z s = halfDone h x (j :: visited) s := by
  have here : j < n := by omega
  have partner : j + h ∉ visited := by
    intro member
    have even := lowers (j + h) member
    rw [partner_upper positive j lower] at even
    cases even
  have before : h ≤ j → j - h ∉ visited := by
    intro far member
    have even := lowers (j - h) member
    rw [before_upper positive j far lower] at even
    cases even
  have low : y ⟨j, here⟩ = x j :=
    (so_far _).trans (halfDone_of_untouched h x visited j fresh before)
  have high : y ⟨j + h, inside⟩ = x (j + h) :=
    (so_far _).trans (halfDone_of_untouched h x visited (j + h) partner
      (fun _ => by rwa [Nat.add_sub_cancel]))
  have step : butterflyStep h y j = .ok (Function.update
      (Function.update y ⟨j, here⟩ (x j + x (j + h))) ⟨j + h, inside⟩ (x j - x (j + h))) := by
    unfold butterflyStep
    rw [readAt_of_lt y j here, readAt_of_lt y (j + h) inside, low, high]
    simp only [bind, Except.bind, writeAt_of_lt _ _ _ here, writeAt_of_lt _ _ _ inside]
  refine ⟨_, step, ?_⟩
  intro s
  rw [← halfDone_cons h x visited j positive partner]
  simp only [Function.update_apply, Fin.ext_iff, so_far]

theorem foldlM_butterflyStep (positive : 0 < h) (x : ℕ → R) (remaining visited : List ℕ)
    (y : Fin n → R) (so_far : ∀ s, y s = halfDone h x visited s)
    (lowers : ∀ i ∈ visited, i / h % 2 = 0)
    (pairs : ∀ i ∈ remaining, i / h % 2 = 0 ∧ i + h < n)
    (fresh : remaining.Nodup) (disjoint : remaining.Disjoint visited) :
    ∃ z, remaining.foldlM (butterflyStep h) y = .ok z ∧
      ∀ s, z s = halfDone h x (remaining.reverse ++ visited) s := by
  induction remaining generalizing y visited with
  | nil => exact ⟨y, rfl, so_far⟩
  | cons j remaining ih =>
    rw [List.nodup_cons] at fresh
    rw [List.disjoint_cons_left] at disjoint
    obtain ⟨lower, inside⟩ := pairs j List.mem_cons_self
    obtain ⟨next, step, next_eq⟩ :=
      butterflyStep_halfDone positive x visited j y so_far lowers lower disjoint.1 inside
    have lowers' : ∀ i ∈ j :: visited, i / h % 2 = 0 := by
      intro i member
      cases member with
      | head => exact lower
      | tail _ member => exact lowers i member
    obtain ⟨z, rest, z_eq⟩ := ih (j :: visited) next next_eq lowers'
      (fun i member => pairs i (List.mem_cons_of_mem j member)) fresh.2
      (List.disjoint_cons_right.mpr ⟨fresh.1, disjoint.2⟩)
    refine ⟨z, ?_, ?_⟩
    · rw [List.foldlM_cons, step]
      exact rest
    · intro s
      rw [z_eq s, List.reverse_cons, List.append_assoc, List.singleton_append]

/-- On a length that the stride divides into pairs of runs, a pass stays inside the array and is
the butterfly at its stride. -/
theorem butterflyPass_butterfly (positive : 0 < h) (pairs : h * 2 ∣ n) (x : ℕ → R) (y : Fin n → R)
    (agree : ∀ s, y s = x s) :
    ∃ z, butterflyPass h y = .ok z ∧ ∀ s, z s = butterfly h x s := by
  have inside := positions_inside positive pairs
  obtain ⟨z, loop, z_eq⟩ := foldlM_butterflyStep positive x (positions n h) [] y
    (fun s => by rw [halfDone_nil, agree]) (fun _ member => absurd member List.not_mem_nil) inside
    (positions_nodup positive) (List.disjoint_nil_right _)
  refine ⟨z, ?_, ?_⟩
  · rw [butterflyPass, ← foldlM_flatMap]
    exact loop
  · intro s
    rw [z_eq s, List.append_nil]
    apply halfDone_all h x _ s positive
    intro j before
    rw [List.mem_reverse]
    have last := s.isLt
    exact ⟨fun member => (inside j member).1,
      fun lower => mem_positions_of_lower positive j lower (by omega)⟩

end Pass

section Spectrum

theorem butterflyPasses_walshSum {R : Type} [Field R] (m k : ℕ) (below : k ≤ m) (x : ℕ → R)
    (y : Fin (2 ^ m) → R) (so_far : ∀ s, y s = partialWalsh k x s) (positive : 0 < 2 ^ k) :
    ∃ z, butterflyPasses (2 ^ k) positive y = .ok z ∧ ∀ s, z s = walshSum m x s := by
  induction below using Nat.decreasingInduction generalizing y with
  | self =>
    unfold butterflyPasses
    rw [if_neg (lt_irrefl _)]
    refine ⟨y, rfl, ?_⟩
    intro s
    rw [so_far s, partialWalsh_of_lt m x s s.isLt]
  | of_succ k less ih =>
    have pairs : 2 ^ k * 2 ∣ 2 ^ m := by
      rw [← pow_succ]
      exact pow_dvd_pow 2 less
    obtain ⟨next, pass, next_eq⟩ :=
      butterflyPass_butterfly positive pairs (partialWalsh k x) y so_far
    rw [butterfly_partialWalsh] at next_eq
    obtain ⟨z, rest, z_eq⟩ := ih next next_eq (Nat.two_pow_pos _)
    refine ⟨z, ?_, z_eq⟩
    unfold butterflyPasses
    rw [if_pos (Nat.pow_lt_pow_right Nat.one_lt_two less), pass]
    exact rest

theorem numpyFwht1d_walshSum {R : Type} [Field R] (A : Arith R) (m : ℕ) (x : ℕ → R)
    (a : Fin (2 ^ m) → R) (agree : ∀ s, a s = x s) :
    numpyFwht1d A a = .ok (fun s => walshSum m x s / A.sqrt (2 ^ m : ℕ)) := by
  obtain ⟨z, passes, z_eq⟩ := butterflyPasses_walshSum m 0 (Nat.zero_le m) x a
    (by simpa only [partialWalsh_zero] using agree) Nat.one_pos
  have loop : butterflyPasses 1 Nat.one_pos a = .ok z := passes
  unfold numpyFwht1d
  rw [loop]
  simp only [← z_eq]
  rfl

theorem numpyFwht_columns {R : Type} [Field R] {n dim : ℕ} (A : Arith R) (tile : Fin n → Fin dim → R)
    (transformed : Fin dim → Fin n → R)
    (columns : ∀ d, numpyFwht1d A (fun t => tile t d) = .ok (transformed d)) :
    numpyFwht A tile = .ok (fun s d => transformed d s) := by
  obtain ⟨final, loop, final_eq⟩ := foldlM_fill
    (fun (acc : Fin n → Fin dim → R) d => do
      let y ← numpyFwht1d A (fun t => tile t d)
      pure (fun s => Function.update (acc s) d (y s)))
    (fun acc d s => acc s d) transformed
    (fun acc d => ⟨_, by rw [columns d]; rfl, by
      funext c s
      simp only [Function.update_apply]
      split_ifs <;> rfl⟩) (List.finRange dim) (fun _ _ => 0)
  unfold numpyFwht
  rw [loop]
  congr 1
  funext s d
  have entry := congrFun (final_eq d) s
  rwa [if_pos (List.mem_finRange d)] at entry

/-- In exact arithmetic the tile's columns are projected on the Walsh functions. -/
theorem numpyFwht_exact {m dim : ℕ} (tile : Fin (2 ^ m) → Fin dim → ℝ) :
    numpyFwht .exact tile = .ok (fun s d => projection (fun t => tile t d) s) := by
  apply numpyFwht_columns
  intro d
  have agree (t : Fin (2 ^ m)) : tile t d = Function.extend Fin.val (fun t => tile t d) 0 t :=
    (Fin.val_injective.extend_apply (fun t => tile t d) 0 t).symm
  rw [numpyFwht1d_walshSum .exact m _ _ agree]
  congr 1
  funext s
  rw [projection_eq _ _ agree]
  rfl

end Spectrum

end OrthoCache.Reference
