import OrthoCache.Foundation.OnlineSoftmax
import OrthoCache.Foundation.RowMajor

/-!
The array operations the kernels are written in. Arrays are functions on `Fin`, so a shape
that the code would reject is not a value; checks that depend on two run-time sizes are
`Except`. Scalars are any ordered field with an exponential and a square root, passed as an
`Arith`; the results are about its two real instances.
-/

namespace OrthoCache.Arrays
open Finset Foundation.SoftmaxMean Foundation.StablePartition Foundation.RowMajor

section Axes

-- The literal block size, named so that definitions over it share one proof.
instance neZeroBlock : NeZero 512 := ⟨by decide⟩
instance atLeastTwoBlock : Nat.AtLeastTwo 512 := ⟨by decide⟩

instance axisNonempty (n : ℕ) [NeZero n] : Nonempty (Fin n) := ⟨0⟩

theorem axis_univ_nonempty (n : ℕ) [NeZero n] : (univ : Finset (Fin n)).Nonempty := univ_nonempty

end Axes

abbrev Tensor (R : Type) (n heads dim : ℕ) := Fin n → Fin heads → Fin dim → R

def zeros {R : Type} [Zero R] {n heads dim : ℕ} : Tensor R n heads dim := fun _ _ _ => 0

def ones {R : Type} [One R] {n heads dim : ℕ} : Tensor R n heads dim := fun _ _ _ => 1

/-- The scalar functions that are not field operations. -/
structure Arith (R : Type) where
  exp : R → R
  sqrt : R → R

noncomputable def Arith.exact : Arith ℝ := ⟨Real.exp, Real.sqrt⟩

/-- Exact real arithmetic in which the exponential underflows below `-10 ^ 8`. -/
noncomputable def Arith.flushing : Arith ℝ :=
  ⟨fun x => if x < -10 ^ 8 then 0 else Real.exp x, Real.sqrt⟩

theorem flushing_flushesBelow : FlushesBelow Arith.flushing.exp (10 ^ 8) where
  exact _ above := if_neg (not_lt.mpr above)
  flush _ below := if_pos below

theorem flushing_exp_zero : Arith.flushing.exp 0 = 1 := by
  rw [flushing_flushesBelow.exact 0 (by norm_num), Real.exp_zero]

inductive Raised where
  | shapeMismatch
  | integerOverflow
  | zeroDivision
  | indexError
  | valueError (message : String)
  deriving DecidableEq, Repr

section Slicing
variable {α : Type} {n size : ℕ}

def squeeze (x : Fin 1 → α) : α := x 0

/-- `x[i]` at a traced index: reads past the end return the last entry. -/
def getClamped [NeZero n] (x : Fin n → α) (i : ℕ) : α :=
  x ⟨min i (n - 1), by have := NeZero.pos n; omega⟩

theorem getClamped_of_lt [NeZero n] (x : Fin n → α) (i : ℕ) (inside : i < n) :
    getClamped x i = x ⟨i, inside⟩ := by
  have position : min i (n - 1) = i := by omega
  simp only [getClamped, position]

/-- `lax.dynamic_slice` along the leading axis: the start is clamped so that the slice fits. -/
def dynamicSlice (x : Fin n → α) (start size : ℕ) (fits : size ≤ n) (j : Fin size) : α :=
  x ⟨min start (n - size) + j.val, by omega⟩

def dynamicUpdateSlice (x : Fin n → α) (update : Fin size → α) (start : ℕ) (k : Fin n) : α :=
  if inside : min start (n - size) ≤ k.val ∧ k.val < min start (n - size) + size then
    update ⟨k.val - min start (n - size), by omega⟩
  else x k

variable {nb bs : ℕ}

theorem block_fits [NeZero nb] : bs ≤ nb * bs := Nat.le_mul_of_pos_left bs (NeZero.pos nb)

private theorem block_start (b : Fin nb) : min (b.val * bs) (nb * bs - bs) = b.val * bs := by
  have room : (b.val + 1) * bs ≤ nb * bs := Nat.mul_le_mul_right bs b.isLt
  rw [Nat.succ_mul] at room
  omega

theorem dynamicSlice_block (x : Fin (nb * bs) → α) (b : Fin nb) (fits : bs ≤ nb * bs) :
    dynamicSlice x (b.val * bs) bs fits = blocked x b := by
  funext t
  simp only [dynamicSlice, blocked, block_start]
  congr 1
  apply Fin.ext
  change b.val * bs + t.val = t.val + bs * b.val
  rw [Nat.mul_comm, Nat.add_comm]

theorem blocked_dynamicUpdateSlice (x : Fin (nb * bs) → α) (update : Fin bs → α) (b c : Fin nb) :
    blocked (dynamicUpdateSlice x update (b.val * bs)) c = if c = b then update else blocked x c := by
  funext t
  have position : (finProdFinEquiv (c, t)).val = t.val + bs * c.val := rfl
  have inside := t.isLt
  simp only [blocked, dynamicUpdateSlice, block_start, position]
  by_cases same : c = b
  · subst same
    have start : c.val * bs = bs * c.val := Nat.mul_comm _ _
    rw [dif_pos (by omega), if_pos rfl]
    congr 1
    apply Fin.ext
    change t.val + bs * c.val - c.val * bs = t.val
    omega
  · have outside : ¬(b.val * bs ≤ t.val + bs * c.val ∧
        t.val + bs * c.val < b.val * bs + bs) := by
      intro covered
      have quotient : (t.val + bs * c.val) / bs = c.val := by
        rw [Nat.add_mul_div_left _ _ (by omega), Nat.div_eq_of_lt inside, Nat.zero_add]
      rw [Nat.div_eq_of_lt_le covered.1 (by rw [Nat.succ_mul]; exact covered.2)] at quotient
      exact same (Fin.ext quotient.symm)
    rw [if_neg same, dif_neg outside]
    rfl

/-- A loop of updates at block boundaries fills the visited blocks. -/
theorem blocked_foldl_update (x : Fin (nb * bs) → α) (updates : Fin nb → Fin bs → α)
    (visited : List (Fin nb)) (c : Fin nb) :
    blocked (visited.foldl (fun x b => dynamicUpdateSlice x (updates b) (b.val * bs)) x) c =
      if c ∈ visited then updates c else blocked x c := by
  induction visited generalizing x with
  | nil => rw [List.foldl_nil, if_neg List.not_mem_nil]
  | cons b visited ih =>
    rw [List.foldl_cons, ih, blocked_dynamicUpdateSlice]
    by_cases later : c ∈ visited
    · rw [if_pos later, if_pos (List.mem_cons_of_mem b later)]
    · by_cases now : c = b
      · rw [if_neg later, if_pos now, if_pos (List.mem_cons.mpr (.inl now)), now]
      · rw [if_neg later, if_neg now, if_neg (by simp [now, later])]

end Slicing

section Scatter
variable {α ι : Type} [DecidableEq ι] {m : ℕ}

/-- `x.at[indices].set(updates)` along the leading axis; of two updates of one place, which the
library orders as it likes, the later one stays. -/
def scatterSet (x : ι → α) (indices : Fin m → ι) (updates : Fin m → α) : ι → α :=
  (List.finRange m).foldl (fun x i => Function.update x (indices i) (updates i)) x

theorem foldl_update_of_ne (indices : Fin m → ι) (updates : Fin m → α) (place : ι)
    (positions : List (Fin m)) (x : ι → α) (elsewhere : ∀ i ∈ positions, place ≠ indices i) :
    positions.foldl (fun x i => Function.update x (indices i) (updates i)) x place = x place := by
  induction positions generalizing x with
  | nil => rfl
  | cons i positions ih =>
    rw [List.foldl_cons, ih _ (fun j member => elsewhere j (List.mem_cons_of_mem i member)),
      Function.update_of_ne (elsewhere i List.mem_cons_self)]

theorem scatterSet_apply (x : ι → α) (indices : Fin m → ι) (updates : Fin m → α)
    (distinct : Function.Injective indices) (i : Fin m) :
    scatterSet x indices updates (indices i) = updates i := by
  obtain ⟨before, after, split⟩ := List.append_of_mem (List.mem_finRange i)
  have nodup := List.nodup_finRange m
  rw [split, List.nodup_append, List.nodup_cons] at nodup
  have elsewhere : ∀ j ∈ after, indices i ≠ indices j := by
    intro j member same
    exact nodup.2.1.1 (distinct same ▸ member)
  rw [scatterSet, split, List.foldl_append, List.foldl_cons,
    foldl_update_of_ne _ _ _ after _ elsewhere, Function.update_self]

end Scatter

section Loops
variable {σ β : Type}

/-- `lax.fori_loop(0, n, body, init)`; a Python loop over `range(n)` is the same. -/
def foriLoop (n : ℕ) (body : ℕ → σ → σ) (init : σ) : σ :=
  (List.range n).foldl (fun state i => body i state) init

theorem foriLoop_succ (n : ℕ) (body : ℕ → σ → σ) (init : σ) :
    foriLoop (n + 1) body init = body n (foriLoop n body init) := by
  simp [foriLoop, List.range_succ]

theorem foriLoop_invariant (invariant : ℕ → σ → Prop) (n : ℕ) (body : ℕ → σ → σ) (init : σ)
    (start : invariant 0 init)
    (step : ∀ i state, i < n → invariant i state → invariant (i + 1) (body i state)) :
    invariant n (foriLoop n body init) := by
  induction n with
  | zero => exact start
  | succ n ih =>
    rw [foriLoop_succ]
    exact step n _ (Nat.lt_succ_self n) (ih (fun i state less => step i state (by omega)))

/-- `lax.while_loop` on a state with a counter: the condition compares the counter with a bound,
the body increments it. -/
def whileBelow (bound : ℕ) (body : ℕ → σ → σ) (i : ℕ) (state : σ) : σ :=
  if i < bound then whileBelow bound body (i + 1) (body i state) else state
termination_by bound - i

theorem whileBelow_zero (bound : ℕ) (body : ℕ → σ → σ) (init : σ) :
    whileBelow bound body 0 init = foriLoop bound body init := by
  have remaining (k : ℕ) (inside : k ≤ bound) :
      whileBelow bound body (bound - k) (foriLoop (bound - k) body init) =
        foriLoop bound body init := by
    induction k with
    | zero =>
      unfold whileBelow
      rw [Nat.sub_zero, if_neg (lt_irrefl bound)]
    | succ k ih =>
      have next : bound - (k + 1) + 1 = bound - k := by omega
      have step := foriLoop_succ (bound - (k + 1)) body init
      rw [next] at step
      unfold whileBelow
      rw [if_pos (by omega), next, ← step]
      exact ih (by omega)
  have start := remaining bound le_rfl
  rwa [Nat.sub_self] at start

theorem foldlM_flatMap {α : Type} {m : Type → Type} [Monad m] [LawfulMonad m]
    (step : σ → β → m σ) (visits : α → List β) (outer : List α) (init : σ) :
    (outer.flatMap visits).foldlM step init =
      outer.foldlM (fun state a => (visits a).foldlM step state) init := by
  induction outer generalizing init with
  | nil => rfl
  | cons a outer ih =>
    rw [List.flatMap_cons, List.foldlM_append, List.foldlM_cons]
    exact bind_congr (fun state => ih state)

/-- A loop that writes one entry at every step, and never fails, fills the visited entries. -/
theorem foldlM_fill {κ α ε : Type} [DecidableEq κ] (body : σ → κ → Except ε σ)
    (entry : σ → κ → α) (value : κ → α)
    (writes : ∀ state k, ∃ next, body state k = .ok next ∧
      entry next = Function.update (entry state) k (value k))
    (visited : List κ) (init : σ) : ∃ final, visited.foldlM body init = .ok final ∧
      ∀ k, entry final k = if k ∈ visited then value k else entry init k := by
  induction visited generalizing init with
  | nil =>
    refine ⟨init, rfl, ?_⟩
    intro k
    rw [if_neg List.not_mem_nil]
  | cons k visited ih =>
    obtain ⟨next, step, next_eq⟩ := writes init k
    obtain ⟨final, rest, final_eq⟩ := ih next
    refine ⟨final, ?_, ?_⟩
    · rw [List.foldlM_cons, step]
      exact rest
    · intro other
      rw [final_eq other, next_eq]
      by_cases later : other ∈ visited
      · rw [if_pos later, if_pos (List.mem_cons_of_mem k later)]
      · by_cases now : other = k
        · subst now
          rw [if_neg later, if_pos List.mem_cons_self, Function.update_self]
        · rw [if_neg later, if_neg (List.not_mem_cons_of_ne_of_not_mem now later),
            Function.update_of_ne now]

theorem foldl_row {ρ : Type} {κ : ρ → Type} (step : β → (r : ρ) → κ r → κ r)
    (init : (r : ρ) → κ r) (blocks : List β) (r : ρ) :
    blocks.foldl (fun state b r => step b r (state r)) init r =
      blocks.foldl (fun acc b => step b r acc) (init r) := by
  induction blocks generalizing init with
  | nil => rfl
  | cons b blocks ih => exact ih _

end Loops

section Masks
variable {nb heads : ℕ}

/-- `jnp.any(block_mask, axis=-1)`: some head retains the block. -/
def anyHead (mask : Fin nb → Fin heads → Bool) (b : Fin nb) : Bool := decide (∃ h, mask b h = true)

theorem anyHead_iff (mask : Fin nb → Fin heads → Bool) (b : Fin nb) :
    anyHead mask b = true ↔ ∃ h, mask b h = true := by
  simp [anyHead]

/-- Sort key `-active_int`: retained blocks get `-1`, evicted blocks `0`. -/
def negatedKey (mask : Fin nb → Bool) (b : Fin nb) : ℤ := -(if mask b then 1 else 0)

/-- Sort key of the other compactions: the index, moved past the end for evicted blocks. -/
def offsetKey (mask : Fin nb → Bool) (b : Fin nb) : ℕ := if mask b then b.val else nb + b.val

def paddingKey (mask : Fin nb → Bool) (b : Fin nb) : ℕ := if mask b then 0 else 1

def argsort {α : Type} [LinearOrder α] (key : Fin nb → α) : Equiv.Perm (Fin nb) := Tuple.sort key

theorem negatedKey_partitions (mask : Fin nb → Bool) : PartitionKey mask (negatedKey mask) where
  before i j chosen dropped := by simp [negatedKey, chosen, dropped]
  along i j same _ := by simp [negatedKey, same]

theorem offsetKey_partitions (mask : Fin nb → Bool) : PartitionKey mask (offsetKey mask) where
  before i j chosen dropped := by
    have inside := i.isLt
    simp only [offsetKey, chosen, dropped, ↓reduceIte, Bool.false_eq_true]
    omega
  along i j same less := by
    have order := Fin.lt_def.mp less
    simp only [offsetKey, same]
    split_ifs <;> omega

theorem paddingKey_partitions (mask : Fin nb → Bool) : PartitionKey mask (paddingKey mask) where
  before i j chosen dropped := by simp [paddingKey, chosen, dropped]
  along i j same _ := by simp [paddingKey, same]

theorem argsort_paddingKey (mask : Fin nb → Bool) :
    IsStablePartition mask (argsort (paddingKey mask)) :=
  (paddingKey_partitions mask).sort_isStablePartition

theorem argsort_negatedKey (mask : Fin nb → Bool) :
    IsStablePartition mask (argsort (negatedKey mask)) :=
  (negatedKey_partitions mask).sort_isStablePartition

theorem argsort_offsetKey (mask : Fin nb → Bool) :
    IsStablePartition mask (argsort (offsetKey mask)) :=
  (offsetKey_partitions mask).sort_isStablePartition

theorem map_getClamped_argsort [NeZero nb] (mask : Fin nb → Bool) :
    (List.range (selectedCount mask)).map (getClamped (argsort (offsetKey mask))) =
      selected mask :=
  (argsort_offsetKey mask).map_range_eq _ (fun i inside => getClamped_of_lt _ i inside)

def countActive (mask : Fin nb → Bool) : ℕ := ∑ b, if mask b then 1 else 0

theorem countActive_eq (mask : Fin nb → Bool) : countActive mask = selectedCount mask :=
  (selectedCount_eq_sum mask).symm

theorem countActive_le (mask : Fin nb → Bool) : countActive mask ≤ nb := by
  rw [countActive_eq]
  exact selectedCount_le mask

theorem countActive_pos_iff (mask : Fin nb → Bool) :
    0 < countActive mask ↔ ∃ b, mask b = true := by
  rw [countActive_eq, selectedCount_pos_iff]

theorem countActive_front (count : ℕ) (room : count ≤ nb) :
    countActive (fun j : Fin nb => decide (j.val < count)) = count := by
  rw [countActive, ← sum_filter]
  simp only [decide_eq_true_eq]
  rw [← sum_castLE room]
  simp

theorem countActive_flattened {m : ℕ} (mask : Fin m → Fin nb → Bool) :
    countActive (flattened mask) = ∑ i, countActive (mask i) := by
  simp only [countActive_eq, selectedCount_flattened]

end Masks

section Logits
variable {R : Type} [Field R] {dim : ℕ}

/-- Scaled dot product of a query row and a key: one entry of `q @ k.T / sqrt(head_dim)`. -/
def logit (A : Arith R) (q k : Fin dim → R) : R := (∑ d, q d * k d) / A.sqrt dim

theorem logit_zero (A : Arith R) (q : Fin dim → R) : logit A q (fun _ => 0) = 0 := by
  simp [logit]

end Logits

end OrthoCache.Arrays
