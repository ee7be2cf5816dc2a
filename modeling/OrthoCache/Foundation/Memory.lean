import OrthoCache.Foundation.RowMajor

/-!
Buffers of a language without checks of its own. A load or a store outside a buffer, and an index
that its integer type does not hold, are undefined behaviour and end the run here. A loop that meets
none of them on the encodings of some states computes what a loop on the states computes.
-/

namespace OrthoCache.Foundation.Memory
open RowMajor

inductive Undefined where
  | outOfBounds
  | overflow
  deriving DecidableEq, Repr

section Accesses
variable {ε α β : Type}

theorem ok_bind (x : α) (next : α → Except ε β) : (Except.ok x >>= next) = next x := rfl

theorem error_bind (e : ε) (next : α → Except ε β) : (Except.error e >>= next) = .error e := rfl

def load (buffer : List α) (i : ℕ) : Except Undefined α :=
  match buffer[i]? with
  | some x => .ok x
  | none => .error .outOfBounds

def store (buffer : List α) (i : ℕ) (x : α) : Except Undefined (List α) :=
  if i < buffer.length then .ok (buffer.set i x) else .error .outOfBounds

/-- Store behind the written front of an array of `capacity` entries. -/
def push (capacity : ℕ) (written : List α) (x : α) : Except Undefined (List α) :=
  if written.length < capacity then .ok (written ++ [x]) else .error .outOfBounds

def clear [Zero α] (capacity n : ℕ) : Except Undefined (List α) :=
  if n ≤ capacity then .ok (List.replicate n 0) else .error .outOfBounds

/-- An index of a signed type of 32 bits. -/
def int32 (x : ℕ) : Except Undefined ℕ := if x < 2 ^ 31 then .ok x else .error .overflow

theorem int32_of_lt {x : ℕ} (fits : x < 2 ^ 31) : int32 x = .ok x := if_pos fits

theorem clear_of_le [Zero α] {capacity n : ℕ} (room : n ≤ capacity) :
    clear capacity n = .ok (List.ofFn (fun _ : Fin n => (0 : α))) := by
  rw [clear, if_pos room, List.ofFn_const]

end Accesses

/-! ### Arrays in buffers -/

section Arrays
variable {α : Type} {m n : ℕ}

theorem load_ofFn (x : Fin n → α) (i : Fin n) : load (List.ofFn x) i = .ok (x i) := by
  simp [load]

theorem store_ofFn (x : Fin n → α) (i : Fin n) (v : α) :
    store (List.ofFn x) i v = .ok (List.ofFn (Function.update x i v)) := by
  rw [store, List.length_ofFn, if_pos i.isLt]
  congr 1
  apply List.ext_getElem
  · simp
  · intro k _ inside
    rw [List.length_ofFn] at inside
    rw [List.getElem_set, List.getElem_ofFn, List.getElem_ofFn]
    split_ifs with same
    · subst same
      rw [Function.update_self]
    · rw [Function.update_of_ne (fun equal => same (congrArg Fin.val equal).symm)]

def rows (x : Fin m → Fin n → α) : List α := List.ofFn (flattened x)

theorem flat_index (i : Fin m) (j : Fin n) : (finProdFinEquiv (i, j)).val = i.val * n + j.val := by
  rw [finProdFinEquiv_apply_val, Nat.mul_comm, Nat.add_comm]

theorem flat_index_lt (i : Fin m) (j : Fin n) : i.val * n + j.val < m * n :=
  flat_index i j ▸ (finProdFinEquiv (i, j)).isLt

theorem load_rows (x : Fin m → Fin n → α) (i : Fin m) (j : Fin n) :
    load (rows x) (i.val * n + j.val) = .ok (x i j) := by
  rw [← flat_index, rows, load_ofFn, flattened, index_divNat, index_modNat]

theorem store_rows (x : Fin m → Fin n → α) (i : Fin m) (j : Fin n) (v : α) :
    store (rows x) (i.val * n + j.val) v =
      .ok (rows (Function.update x i (Function.update (x i) j v))) := by
  rw [← flat_index, rows, store_ofFn, rows]
  congr 2
  funext k
  by_cases here : k = finProdFinEquiv (i, j)
  · subst here
    rw [Function.update_self, flattened, index_divNat, index_modNat, Function.update_self,
      Function.update_self]
  · rw [Function.update_of_ne here, flattened, flattened]
    by_cases row : k.divNat = i
    · have column : k.modNat ≠ j := by
        rintro rfl
        exact here (row ▸ (index_div_mod k).symm)
      rw [row, Function.update_self, Function.update_of_ne column]
    · rw [Function.update_of_ne row]

end Arrays

/-! ### Loops -/

section Loops
variable {ε σ τ α β : Type}

theorem foldlM_encoded (step : σ → β → Except ε σ) (encode : τ → σ) (next : τ → β → τ)
    (visited : List β)
    (steps : ∀ s, ∀ b ∈ visited, step (encode s) b = .ok (encode (next s b))) (s : τ) :
    visited.foldlM step (encode s) = .ok (encode (visited.foldl next s)) := by
  induction visited generalizing s with
  | nil => rfl
  | cons b visited ih =>
    have first := steps s b List.mem_cons_self
    have rest := ih (fun s b member => steps s b (List.mem_cons_of_mem _ member)) (next s b)
    rw [List.foldlM_cons, first]
    exact rest

theorem foldlM_range (n : ℕ) (step : σ → ℕ → Except ε σ) (s : σ) :
    (List.range n).foldlM step s = (List.finRange n).foldlM (fun s (i : Fin n) => step s i) s := by
  rw [← List.map_coe_finRange_eq_range, List.foldlM_map]

theorem foldlM_loads (buffer : List α) (step : σ → α → Except Undefined σ) (s : σ) :
    (List.range buffer.length).foldlM (fun s i => do step s (← load buffer i)) s =
      buffer.foldlM step s := by
  induction buffer generalizing s with
  | nil => rfl
  | cons x buffer ih =>
    rw [List.length_cons, List.range_succ_eq_map, List.foldlM_cons, List.foldlM_cons]
    refine bind_congr (fun s => ?_)
    rw [List.foldlM_map]
    exact ih s

/-- A loop that pushes what passes a test fills the array or overruns it. -/
theorem foldlM_push (capacity : ℕ) (test : β → Bool) (value : β → α) (visited : List β)
    (written : List α) (room : written.length ≤ capacity) :
    visited.foldlM (fun written b => if test b then push capacity written (value b)
        else pure written) written =
      if written.length + (visited.filter test).length ≤ capacity then
        .ok (written ++ (visited.filter test).map value)
      else .error .outOfBounds := by
  induction visited generalizing written with
  | nil =>
    rw [List.filter_nil, List.length_nil, Nat.add_zero, if_pos room, List.map_nil, List.append_nil]
    rfl
  | cons b visited ih =>
    rw [List.foldlM_cons]
    cases passes : test b with
    | false =>
      rw [List.filter_cons_of_neg (by simp [passes])]
      exact ih written room
    | true =>
      rw [List.filter_cons_of_pos passes, List.length_cons, if_pos rfl, push]
      by_cases space : written.length < capacity
      · have rest := ih (written ++ [value b]) (by simpa using space)
        rw [if_pos space]
        refine rest.trans ?_
        rw [List.length_append, List.length_singleton, List.map_cons, List.append_assoc,
          Nat.add_assoc, Nat.add_comm 1]
        rfl
      · rw [if_neg space, if_neg (by omega)]
        rfl

theorem foldl_update [DecidableEq β] (f : β → α → α) (visited : List β) (distinct : visited.Nodup)
    (x : β → α) : visited.foldl (fun x b => Function.update x b (f b (x b))) x =
      fun b => if b ∈ visited then f b (x b) else x b := by
  induction visited generalizing x with
  | nil => simp
  | cons b visited ih =>
    obtain ⟨fresh, distinct⟩ := List.nodup_cons.mp distinct
    rw [List.foldl_cons, ih distinct]
    funext c
    by_cases here : c = b
    · subst here
      rw [if_neg fresh, Function.update_self, if_pos List.mem_cons_self]
    · simp [here]

theorem foldl_update_finRange {n : ℕ} (f : Fin n → α → α) (x : Fin n → α) :
    (List.finRange n).foldl (fun x i => Function.update x i (f i (x i))) x =
      fun i => f i (x i) := by
  rw [foldl_update f _ (List.nodup_finRange n)]
  simp

end Loops

end OrthoCache.Foundation.Memory
