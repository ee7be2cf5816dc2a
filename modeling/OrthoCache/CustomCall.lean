import OrthoCache.Foundation.Memory
import OrthoCache.Foundation.SoftmaxRange
import OrthoCache.Compaction

/-!
The custom call in C++: flat buffers, a list of the active blocks on the stack, and an online
softmax that absorbs one token at a time. It has two arrays of fixed size on the stack, and nothing
checks that the list of blocks or a row of the output fits.
-/

namespace OrthoCache.CustomCall
open Finset Foundation.Memory Foundation.SoftmaxMean Foundation.OnlineSoftmax
open Foundation.StablePartition Foundation.RowMajor Arrays AttentionSpec

section Model
variable {R : Type} [Field R] [LinearOrder R]

structure CompactedAttentionDescriptor where
  seqLenQ : ℕ
  headDim : ℕ
  blockSize : ℕ
  numBlocks : ℕ

structure RowState (R : Type) where
  rMax : R
  rSum : R
  rOut : List R

/-- `int32_t active_indices[4096]` and `float r_out[4096]`. -/
def stackEntries : ℕ := 4096

/-- The first loop: `active_indices[num_active++] = b`. -/
def buildActiveIndices (blockMask : List ℤ) (numBlocks : ℕ) : Except Undefined (List ℕ) :=
  (List.range numBlocks).foldlM (fun activeIndices b => do
    if (← load blockMask b) ≠ 0 then push stackEntries activeIndices b else pure activeIndices) []

def dotProduct (q keys : List R) (headDim qi kIdx : ℕ) : Except Undefined R :=
  (List.range headDim).foldlM (fun logit d => do
    let x ← load q (← int32 (qi * headDim + d))
    let y ← load keys (← int32 (kIdx * headDim + d))
    pure (logit + x * y)) 0

def absorbToken (A : Arith R) (scale : R) (q keys values : List R) (headDim qi kIdx : ℕ)
    (state : RowState R) : Except Undefined (RowState R) := do
  let logit := (← dotProduct q keys headDim qi kIdx) * scale
  let newMax := state.rMax ⊔ logit
  let expLogit := A.exp (logit - newMax)
  let scaleOld := A.exp (state.rMax - newMax)
  let rOut ← (List.range headDim).foldlM (fun rOut d => do
    let old ← load rOut d
    let v ← load values (← int32 (kIdx * headDim + d))
    store rOut d (old * scaleOld + expLogit * v)) state.rOut
  pure { rMax := newMax, rSum := state.rSum * scaleOld + expLogit, rOut := rOut }

def absorbActiveBlock (A : Arith R) (scale : R) (q keys values : List R) (headDim blockSize qi : ℕ)
    (state : RowState R) (b : ℕ) : Except Undefined (RowState R) := do
  let blockStart ← int32 (b * blockSize)
  (List.range blockSize).foldlM (fun state t => do
    let kIdx ← int32 (blockStart + t)
    absorbToken A scale q keys values headDim qi kIdx state) state

def normalizeRow (rOut : List R) (invSum : R) (headDim qi : ℕ) (out : List R) :
    Except Undefined (List R) :=
  (List.range headDim).foldlM (fun out d => do
    let x ← load rOut d
    store out (← int32 (qi * headDim + d)) (x * invSum)) out

def attendRow (A : Arith R) (scale : R) (q keys values : List R) (activeIndices : List ℕ)
    (headDim blockSize : ℕ) (out : List R) (qi : ℕ) : Except Undefined (List R) := do
  let rOut ← clear stackEntries headDim
  let state ← (List.range activeIndices.length).foldlM (fun state i => do
    absorbActiveBlock A scale q keys values headDim blockSize qi state (← load activeIndices i))
    { rMax := -1e9, rSum := 0, rOut := rOut }
  let invSum := if state.rSum > 1e-9 then 1 / state.rSum else 0
  normalizeRow state.rOut invSum headDim qi out

def orthocacheCompactedAttention (A : Arith R) (out q keys values : List R) (blockMask : List ℤ)
    (desc : CompactedAttentionDescriptor) : Except Undefined (List R) := do
  let scale := 1 / A.sqrt desc.headDim
  let activeIndices ← buildActiveIndices blockMask desc.numBlocks
  (List.range desc.seqLenQ).foldlM
    (attendRow A scale q keys values activeIndices desc.headDim desc.blockSize) out

end Model

/-! ### Memory -/

section Memory
variable {R : Type} [Field R] [LinearOrder R] {Q nb bs dim : ℕ}

def activeBlock (blockMask : Fin nb → ℤ) (b : Fin nb) : Bool := blockMask b ≠ 0

theorem buildActiveIndices_eq (blockMask : Fin nb → ℤ) :
    buildActiveIndices (List.ofFn blockMask) nb =
      if selectedCount (activeBlock blockMask) ≤ stackEntries then
        .ok ((selected (activeBlock blockMask)).map Fin.val)
      else .error .outOfBounds := by
  have body (written : List ℕ) (b : Fin nb) : (do
      if (← load (List.ofFn blockMask) b) ≠ 0 then push stackEntries written b else pure written) =
      if activeBlock blockMask b then push stackEntries written b.val else pure written := by
    rw [load_ofFn, ok_bind]
    by_cases active : blockMask b = 0 <;> simp [activeBlock, active]
  rw [buildActiveIndices, foldlM_range]
  simp only [body]
  have pushed := foldlM_push stackEntries (activeBlock blockMask) Fin.val (List.finRange nb) []
    (Nat.zero_le _)
  rw [List.length_nil, Nat.zero_add, List.nil_append] at pushed
  exact pushed

/-- All indices fit their type. -/
structure IndicesFit (Q nb bs dim : ℕ) : Prop where
  positive : 0 < dim
  rows : Q * dim ≤ 2 ^ 31
  cache : nb * bs * dim ≤ 2 ^ 31

namespace IndicesFit
variable (fit : IndicesFit Q nb bs dim)
include fit

theorem row (i : Fin Q) (d : Fin dim) : int32 (i.val * dim + d.val) = .ok (i.val * dim + d.val) :=
  int32_of_lt ((flat_index_lt i d).trans_le fit.rows)

theorem entry (k : Fin (nb * bs)) (d : Fin dim) :
    int32 (k.val * dim + d.val) = .ok (k.val * dim + d.val) :=
  int32_of_lt ((flat_index_lt k d).trans_le fit.cache)

theorem tokens : nb * bs ≤ 2 ^ 31 := (Nat.le_mul_of_pos_right _ fit.positive).trans fit.cache

theorem token (b : Fin nb) (t : Fin bs) :
    int32 (b.val * bs + t.val) = .ok (finProdFinEquiv (b, t)).val := by
  rw [flat_index]
  exact int32_of_lt ((flat_index_lt b t).trans_le fit.tokens)

theorem blockStart (b : Fin nb) : int32 (b.val * bs) = .ok (b.val * bs) := by
  refine int32_of_lt ?_
  rcases bs.eq_zero_or_pos with rfl | positive
  · exact Nat.two_pow_pos 31
  · exact ((Nat.mul_lt_mul_right positive).mpr b.isLt).trans_le fit.tokens

end IndicesFit

/-- The locals of a row in which the output is an array. -/
def encode (acc : Acc R (Fin dim)) : RowState R := ⟨acc.max, acc.sum, List.ofFn acc.out⟩

variable (A : Arith R) (q : Fin Q → Fin dim → R) (keys values : Fin (nb * bs) → Fin dim → R)

def absorbed (i : Fin Q) (acc : Acc R (Fin dim)) (k : Fin (nb * bs)) : Acc R (Fin dim) :=
  acc.absorb A.exp (fun _ : Unit => logit A (q i) (keys k)) (fun _ => values k)

variable (fit : IndicesFit Q nb bs dim) (i : Fin Q)
include fit

omit [LinearOrder R] in
theorem dotProduct_ok (k : Fin (nb * bs)) :
    dotProduct (rows q) (rows keys) dim i k = .ok (∑ d, q i d * keys k d) := by
  have steps (s : R) (d : Fin dim) : (do
      let x ← load (rows q) (← int32 (i.val * dim + d.val))
      let y ← load (rows keys) (← int32 (k.val * dim + d.val))
      pure (s + x * y) : Except Undefined R) = .ok (s + q i d * keys k d) := by
    rw [fit.row, fit.entry, ok_bind, load_rows, ok_bind, ok_bind, load_rows]
    rfl
  rw [dotProduct, foldlM_range]
  refine (foldlM_encoded _ id (fun s d => s + q i d * keys k d) (List.finRange dim)
    (fun s d _ => steps s d) 0).trans ?_
  rw [id_eq, ← List.foldl_map, ← List.sum_eq_foldl, ← List.ofFn_eq_map, List.sum_ofFn]

theorem absorbToken_ok (k : Fin (nb * bs)) (acc : Acc R (Fin dim)) :
    absorbToken A (1 / A.sqrt dim) (rows q) (rows keys) (rows values) dim i k (encode acc) =
      .ok (encode (absorbed A q keys values i acc k)) := by
  have scaled : (∑ d, q i d * keys k d) * (1 / A.sqrt dim) = logit A (q i) (keys k) :=
    mul_one_div _ _
  set expLogit := A.exp (logit A (q i) (keys k) - (acc.max ⊔ logit A (q i) (keys k)))
  set scaleOld := A.exp (acc.max - (acc.max ⊔ logit A (q i) (keys k)))
  have steps (out : Fin dim → R) (d : Fin dim) : (do
      let old ← load (List.ofFn out) d
      let v ← load (rows values) (← int32 (k.val * dim + d.val))
      store (List.ofFn out) d (old * scaleOld + expLogit * v) : Except Undefined (List R)) =
      .ok (List.ofFn (Function.update out d (out d * scaleOld + expLogit * values k d))) := by
    rw [load_ofFn, ok_bind, fit.entry, ok_bind, load_rows, ok_bind, store_ofFn]
  have updates : (List.range dim).foldlM (fun rOut d => do
      let old ← load rOut d
      let v ← load (rows values) (← int32 (k.val * dim + d))
      store rOut d (old * scaleOld + expLogit * v)) (List.ofFn acc.out) =
      .ok (List.ofFn (fun d => acc.out d * scaleOld + expLogit * values k d)) := by
    rw [foldlM_range]
    refine (foldlM_encoded _ List.ofFn _ _ (fun out d _ => steps out d) acc.out).trans ?_
    rw [foldl_update_finRange (fun d x => x * scaleOld + expLogit * values k d)]
  rw [absorbToken, dotProduct_ok q keys fit, ok_bind, scaled]
  refine (congrArg (fun rOut : Except Undefined (List R) => rOut >>= _) updates).trans ?_
  rw [ok_bind]
  refine congrArg Except.ok ?_
  simp [encode, absorbed, Acc.absorb, expLogit, scaleOld]

theorem absorbActiveBlock_ok (b : Fin nb) (acc : Acc R (Fin dim)) :
    absorbActiveBlock A (1 / A.sqrt dim) (rows q) (rows keys) (rows values) dim bs i (encode acc)
        b =
      .ok (encode (((List.finRange bs).map (fun t => finProdFinEquiv (b, t))).foldl
        (absorbed A q keys values i) acc)) := by
  have steps (acc : Acc R (Fin dim)) (t : Fin bs) : (do
      let kIdx ← int32 (b.val * bs + t.val)
      absorbToken A (1 / A.sqrt dim) (rows q) (rows keys) (rows values) dim i kIdx (encode acc)) =
      .ok (encode (absorbed A q keys values i acc (finProdFinEquiv (b, t)))) := by
    rw [fit.token, ok_bind, absorbToken_ok A q keys values fit]
  rw [absorbActiveBlock, fit.blockStart, ok_bind, foldlM_range, List.foldl_map]
  exact foldlM_encoded _ encode _ _ (fun acc t _ => steps acc t) acc

def visitedTokens (bs : ℕ) (mask : Fin nb → Bool) : List (Fin (nb * bs)) :=
  (selected mask).flatMap (fun b => (List.finRange bs).map (fun t => finProdFinEquiv (b, t)))

def finalRow (mask : Fin nb → Bool) : Acc R (Fin dim) :=
  (visitedTokens bs mask).foldl (absorbed A q keys values i) (.init (-1e9))

def invSum (acc : Acc R (Fin dim)) : R := if acc.sum > 1e-9 then 1 / acc.sum else 0

omit [LinearOrder R] in
theorem normalizeRow_ok (rOut : Fin dim → R) (factor : R) (out : Fin Q → Fin dim → R) :
    normalizeRow (List.ofFn rOut) factor dim i (rows out) =
      .ok (rows (Function.update out i (fun d => rOut d * factor))) := by
  have steps (row : Fin dim → R) (d : Fin dim) : (do
      let x ← load (List.ofFn rOut) d
      store (rows (Function.update out i row)) (← int32 (i.val * dim + d.val)) (x * factor)) =
      .ok (rows (Function.update out i (Function.update row d (rOut d * factor)))) := by
    rw [load_ofFn, ok_bind, fit.row, ok_bind, store_rows, Function.update_self,
      Function.update_idem]
  rw [normalizeRow, foldlM_range, ← Function.update_eq_self i out]
  refine (foldlM_encoded _ (fun row => rows (Function.update out i row)) _ _
    (fun row d _ => steps row d) (out i)).trans ?_
  rw [foldl_update_finRange (fun d _ => rOut d * factor), Function.update_idem]

theorem attendRow_ok (room : dim ≤ stackEntries) (mask : Fin nb → Bool)
    (out : Fin Q → Fin dim → R) :
    attendRow A (1 / A.sqrt dim) (rows q) (rows keys) (rows values)
        ((selected mask).map Fin.val) dim bs (rows out) i =
      .ok (rows (Function.update out i (fun d => (finalRow A q keys values i mask).out d *
        invSum (finalRow A q keys values i mask)))) := by
  have blocks : (List.range ((selected mask).map Fin.val).length).foldlM (fun state j => do
      absorbActiveBlock A (1 / A.sqrt dim) (rows q) (rows keys) (rows values) dim bs i state
        (← load ((selected mask).map Fin.val) j)) (encode (.init (-1e9) : Acc R (Fin dim))) =
      .ok (encode (finalRow A q keys values i mask)) := by
    rw [foldlM_loads, List.foldlM_map, finalRow, visitedTokens, List.foldl_flatMap]
    exact foldlM_encoded _ encode _ _
      (fun acc b _ => absorbActiveBlock_ok A q keys values fit i b acc) _
  rw [attendRow, clear_of_le room, ok_bind]
  refine (congrArg (fun state : Except Undefined (RowState R) => state >>= _) blocks).trans ?_
  exact normalizeRow_ok fit i _ _ out

omit fit in
theorem attendRow_error (beyond : stackEntries < dim) (scale : R) (q keys values out : List R)
    (activeIndices : List ℕ) (qi : ℕ) :
    attendRow A scale q keys values activeIndices dim bs out qi = .error .outOfBounds := by
  rw [attendRow, clear, if_neg (Nat.not_le.mpr beyond), error_bind]

omit i in
/-- In any arithmetic the call is defined exactly if the active blocks and the rows fit on the
stack, and then it leaves a run over the tokens of the active blocks in every row. -/
theorem orthocacheCompactedAttention_eq (out : Fin Q → Fin dim → R) (blockMask : Fin nb → ℤ) :
    orthocacheCompactedAttention A (rows out) (rows q) (rows keys) (rows values)
        (List.ofFn blockMask) ⟨Q, dim, bs, nb⟩ =
      if selectedCount (activeBlock blockMask) ≤ stackEntries ∧ (dim ≤ stackEntries ∨ Q = 0) then
        .ok (rows (fun i d => (finalRow A q keys values i (activeBlock blockMask)).out d *
          invSum (finalRow A q keys values i (activeBlock blockMask))))
      else .error .outOfBounds := by
  rw [orthocacheCompactedAttention]
  simp only [buildActiveIndices_eq]
  by_cases listed : selectedCount (activeBlock blockMask) ≤ stackEntries
  · rw [if_pos listed, ok_bind, foldlM_range]
    by_cases room : dim ≤ stackEntries
    · rw [if_pos ⟨listed, .inl room⟩]
      refine (foldlM_encoded _ rows _ _ (fun out i _ => attendRow_ok A q keys values fit i room
        (activeBlock blockMask) out) out).trans ?_
      rw [foldl_update_finRange (fun i _ => fun d =>
        (finalRow A q keys values i (activeBlock blockMask)).out d *
          invSum (finalRow A q keys values i (activeBlock blockMask)))]
    · cases Q with
      | zero =>
        rw [if_pos ⟨listed, .inr rfl⟩]
        exact congrArg (fun x => Except.ok (rows x)) (funext (fun i => i.elim0))
      | succ Q =>
        rw [if_neg (by omega), List.finRange_succ, List.foldlM_cons,
          attendRow_error A (Nat.not_le.mp room), error_bind]
  · rw [if_neg listed, if_neg (fun fits => listed fits.1), error_bind]

end Memory

/-! ### Attention -/

section Attention
variable {Q nb bs dim : ℕ}

theorem mem_visitedTokens {mask : Fin nb → Bool} {k : Fin (nb * bs)} :
    k ∈ visitedTokens bs mask ↔ k ∈ tokensOf mask := by
  rw [visitedTokens, List.mem_flatMap, mem_tokensOf]
  constructor
  · rintro ⟨b, member, inside⟩
    obtain ⟨t, _, rfl⟩ := List.mem_map.mp inside
    rw [index_divNat]
    exact (mem_selected mask b).mp member
  · intro active
    exact ⟨k.divNat, (mem_selected mask _).mpr active,
      List.mem_map.mpr ⟨k.modNat, List.mem_finRange _, index_div_mod k⟩⟩

theorem sum_map_visitedTokens (mask : Fin nb → Bool) (f : Fin (nb * bs) → ℝ) :
    ((visitedTokens bs mask).map f).sum = ∑ k ∈ tokensOf mask, f k := by
  rw [sum_tokensOf, ← sum_map_selected, visitedTokens, List.map_flatMap, List.flatMap_def,
    List.sum_flatten, List.map_map]
  refine congrArg List.sum (List.map_congr_left (fun b _ => ?_))
  rw [Function.comp_apply, List.map_map, ← List.ofFn_eq_map, List.sum_ofFn]
  rfl

variable (q : Fin Q → Fin dim → ℝ) (keys values : Fin (nb * bs) → Fin dim → ℝ) (i : Fin Q)
  (mask : Fin nb → Bool)

theorem finalRow_eq_run (A : Arith ℝ) : finalRow A q keys values i mask =
    Acc.run A.exp (fun k (_ : Unit) => logit A (q i) (keys k)) (fun k _ => values k)
      (.init (-1e9)) (visitedTokens bs mask) := rfl

section Bounded
variable (bounded : ∀ k, |logit .exact (q i) (keys k)| ≤ 10 ^ 7)
include bounded

theorem finalRow_flushing :
    finalRow .flushing q keys values i mask = finalRow .exact q keys values i mask := by
  have exact : ∀ x : ℝ, -(2 * 10 ^ 7) ≤ x → Arith.flushing.exp x = Real.exp x :=
    fun x above => flushing_flushesBelow.exact x (by linarith)
  have range : InRange (10 ^ 7) (.init (-1e9) : Acc ℝ (Fin dim)) :=
    ⟨by norm_num, .inr ⟨rfl, fun _ => rfl⟩⟩
  rw [finalRow_eq_run, finalRow_eq_run]
  exact run_eq_exact exact _ _ _ _ (fun k _ _ => bounded k) range

theorem finalRow_mean (d : Fin dim) :
    (finalRow .flushing q keys values i mask).out d *
        invSum (finalRow .flushing q keys values i mask) =
      softmaxMean (tokensOf mask) (fun k => logit .exact (q i) (keys k)) (fun k => values k d) := by
  rw [finalRow_flushing q keys values i mask bounded]
  rcases (tokensOf mask : Finset (Fin (nb * bs))).eq_empty_or_nonempty with empty | ⟨k, visited⟩
  · have nothing : visitedTokens bs mask = [] := by
      refine List.eq_nil_iff_forall_not_mem.mpr (fun k member => ?_)
      rw [mem_visitedTokens, empty] at member
      cases member
    rw [finalRow, nothing, empty, softmaxMean_empty]
    exact zero_mul _
  · have above : -1e9 < logit .exact (q i) (keys k) := by
      have lower := (abs_le.mp (bounded k)).1
      norm_num
      linarith
    have full : 1 ≤ (finalRow .exact q keys values i mask).sum :=
      one_le_run_sum weighs_exp _ _ _ (mem_visitedTokens.mpr visited) () above
    have large : (finalRow .exact q keys values i mask).sum > 1e-9 := by
      norm_num
      linarith
    have mean := run_div (fun k (_ : Unit) => logit .exact (q i) (keys k)) (fun k _ => values k)
      (-1e9) (visitedTokens bs mask) d
    rw [invSum, if_pos large, mul_one_div, softmaxMean, expSum, expMass, ← sum_map_visitedTokens,
      ← sum_map_visitedTokens]
    refine mean.trans ?_
    simp

end Bounded

def oneHead {n : ℕ} (x : Fin n → Fin dim → ℝ) : Tensor ℝ n 1 dim := fun i _ => x i

noncomputable def attended (blockMask : Fin nb → ℤ) (i : Fin Q) : Fin dim → ℝ :=
  attend (oneHead q) (oneHead keys) (oneHead values) (fun _ => tokensOf (activeBlock blockMask)) i
    ⟨0, Nat.one_pos⟩

omit i mask in
theorem orthocacheCompactedAttention_attended (out : Fin Q → Fin dim → ℝ) (blockMask : Fin nb → ℤ)
    (fit : IndicesFit Q nb bs dim) (bounded : LogitsBounded (10 ^ 7) (oneHead q) (oneHead keys)) :
    orthocacheCompactedAttention .flushing (rows out) (rows q) (rows keys) (rows values)
        (List.ofFn blockMask) ⟨Q, dim, bs, nb⟩ =
      if countActive (activeBlock blockMask) ≤ stackEntries ∧ (dim ≤ stackEntries ∨ Q = 0) then
        .ok (rows (attended q keys values blockMask))
      else .error .outOfBounds := by
  have row : (fun i d => (finalRow .flushing q keys values i (activeBlock blockMask)).out d *
      invSum (finalRow .flushing q keys values i (activeBlock blockMask))) =
      attended q keys values blockMask := by
    funext i d
    exact finalRow_mean q keys values i _ (fun k => bounded i 0 k) d
  rw [orthocacheCompactedAttention_eq .flushing q keys values fit, row, countActive_eq]

omit i mask in
/-- With bounded logits the call is undefined exactly if more blocks are active, or a row is longer,
than its stack has entries for. Otherwise it fills the output, whatever is in it, with attention to
the tokens of the active blocks, which is what compacting first and attending then gives. -/
theorem orthocacheCompactedAttention_outcome [NeZero bs] (isTpu : Bool) (out : Fin Q → Fin dim → ℝ)
    (blockMask : Fin nb → ℤ) (fit : IndicesFit Q nb bs dim)
    (bounded : LogitsBounded (10 ^ 7) (oneHead q) (oneHead keys)) :
    (orthocacheCompactedAttention .flushing (rows out) (rows q) (rows keys) (rows values)
        (List.ofFn blockMask) ⟨Q, dim, bs, nb⟩ =
      if countActive (activeBlock blockMask) ≤ 4096 ∧ (dim ≤ 4096 ∨ Q = 0) then
        .ok (rows (attended q keys values blockMask))
      else .error .outOfBounds) ∧
    ∀ i, attended q keys values blockMask i =
      (Compaction.compactAndAttend .flushing isTpu (oneHead q) (oneHead keys) (oneHead values)
        (fun b _ => activeBlock blockMask b)).1 i 0 := by
  refine ⟨orthocacheCompactedAttention_attended q keys values out blockMask fit bounded,
    fun i => ?_⟩
  have anyOfOne :
      anyHead (fun b (_ : Fin 1) => activeBlock blockMask b) = activeBlock blockMask := by
    funext b
    rw [Bool.eq_iff_iff, anyHead_iff]
    exact exists_const _
  rw [Compaction.compactAndAttend_attend _ _ _ _ isTpu bounded, anyOfOne]
  rfl

section Sample

def pairQuery : Fin 1 → Fin 1 → ℝ := fun _ _ => 0

def pairKeys : Fin (2 * 1) → Fin 1 → ℝ := fun _ _ => 1

def pairValues : Fin (2 * 1) → Fin 1 → ℝ := fun k _ => k.val

theorem orthocacheCompactedAttention_outcome_second :
    orthocacheCompactedAttention .flushing (rows (fun _ _ => 7 : Fin 1 → Fin 1 → ℝ))
        (rows pairQuery) (rows pairKeys) (rows pairValues) (List.ofFn ![0, 1]) ⟨1, 1, 1, 2⟩ =
      .ok (rows (attended pairQuery pairKeys pairValues ![0, 1])) ∧
    ∀ i, attended pairQuery pairKeys pairValues ![0, 1] i =
      (Compaction.compactAndAttend .flushing true (oneHead pairQuery) (oneHead pairKeys)
        (oneHead pairValues) (fun b _ => activeBlock ![0, 1] b)).1 i 0 := by
  have outcome := orthocacheCompactedAttention_outcome pairQuery pairKeys pairValues true
    (fun _ _ => 7) ![0, 1] ⟨by norm_num, by norm_num, by norm_num⟩ (logitsBounded_zeros _)
  have few : countActive (activeBlock ![0, 1]) ≤ 4096 := (countActive_le _).trans (by norm_num)
  exact ⟨outcome.1.trans (if_pos ⟨few, .inl (by norm_num)⟩), outcome.2⟩

end Sample

end Attention

/-! ### The call of the notebook -/

section Notebook

def seqLenQ : ℕ := 1
def numBlocks : ℕ := 64
def blockSize : ℕ := 512
def headDim : ℕ := 256

/-- `mask_np[-n_evict:] = 0` on an array of ones. -/
def evictLast (nEvict : ℕ) (b : Fin numBlocks) : ℤ := if numBlocks - nEvict ≤ b.val then 0 else 1

def runCustomCall {R : Type} [Field R] [LinearOrder R] (A : Arith R)
    (q : Fin seqLenQ → Fin headDim → R)
    (keys values : Fin (numBlocks * blockSize) → Fin headDim → R) (evictionPct : ℕ) : Except Undefined (List R) :=
  let nEvict := numBlocks * evictionPct / 100
  let maskNp := if nEvict > 0 then evictLast nEvict else fun _ => 1
  orthocacheCompactedAttention A (rows (fun (_ : Fin seqLenQ) (_ : Fin headDim) => 0)) (rows q)
    (rows keys) (rows values) (List.ofFn maskNp) ⟨seqLenQ, headDim, blockSize, numBlocks⟩

/-- At every rate the call of the notebook is defined, and attends to the front of the cache. -/
theorem runCustomCall_attends (q : Fin seqLenQ → Fin headDim → ℝ)
    (keys values : Fin (numBlocks * blockSize) → Fin headDim → ℝ) (evictionPct : ℕ)
    (bounded : LogitsBounded (10 ^ 7) (oneHead q) (oneHead keys)) :
    runCustomCall .flushing q keys values evictionPct =
      .ok (rows (fun i => attend (oneHead q) (oneHead keys) (oneHead values)
        (fun _ => tokensOf (fun b => b.val < numBlocks - numBlocks * evictionPct / 100)) i 0)) := by
  set front : Fin numBlocks → Bool :=
    fun b => b.val < numBlocks - numBlocks * evictionPct / 100 with hfront
  have mask (blockMask : Fin numBlocks → ℤ) (active : activeBlock blockMask = front) :
      orthocacheCompactedAttention .flushing (rows (fun (_ : Fin seqLenQ) (_ : Fin headDim) => 0))
          (rows q) (rows keys) (rows values) (List.ofFn blockMask)
          ⟨seqLenQ, headDim, blockSize, numBlocks⟩ =
        .ok (rows (fun i => attend (oneHead q) (oneHead keys) (oneHead values)
          (fun _ => tokensOf front) i 0)) := by
    have room : countActive front ≤ stackEntries :=
      (countActive_le front).trans (by norm_num [numBlocks, stackEntries])
    rw [orthocacheCompactedAttention_attended q keys values _ blockMask
      ⟨by norm_num [headDim], by norm_num [seqLenQ, headDim],
        by norm_num [numBlocks, blockSize, headDim]⟩ bounded, active,
      if_pos ⟨room, .inl (by norm_num [headDim, stackEntries])⟩, ← active]
    rfl
  rw [runCustomCall]
  refine mask _ ?_
  funext b
  have inside := b.isLt
  by_cases evicts : numBlocks * evictionPct / 100 > 0
  · by_cases retained : numBlocks - numBlocks * evictionPct / 100 ≤ b.val
    · simp [activeBlock, evictLast, evicts, retained, hfront, not_lt.mpr retained]
    · simp [activeBlock, evictLast, evicts, retained, hfront, not_le.mp retained]
  · have whole : b.val < numBlocks - numBlocks * evictionPct / 100 := by omega
    simp [activeBlock, evicts, hfront, whole]

end Notebook

end OrthoCache.CustomCall
