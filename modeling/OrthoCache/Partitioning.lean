import OrthoCache.Compaction

/-!
The compacted path as the pipeline calls it, behind its custom partitioning. The sharding rule
lets query rows and heads be split and the lowered function run on every shard. Rows are
independent of each other; heads are not, because compaction keeps what any head it can see
retains, and a shard does not see the heads of the others.
-/

namespace OrthoCache.Partitioning
open Finset Foundation.SoftmaxMean Foundation.StablePartition Arrays AttentionSpec Compaction

section Model
variable {R : Type} [Field R] [LinearOrder R] {Q nb bs heads dim : ℕ} [NeZero bs]

/-- `_orthocache_attention_impl`, which `orthocache_attention_partitioned` runs unsharded. -/
def orthocacheAttentionImpl (A : Arith R) (isTpu : Bool) (q : Tensor R Q heads dim)
    (keys values : Tensor R (nb * bs) heads dim) (blockMask : Fin nb → Fin heads → Bool) :
    Tensor R Q heads dim := (compactAndAttend A isTpu q keys values blockMask).1

/-- A sharding with a mesh and a partition spec, or one of another kind. -/
inductive Sharding (Mesh Axis Other : Type) where
  | named (mesh : Mesh) (spec : List (Option Axis))
  | other (sharding : Other)

variable {Mesh Axis Other : Type}

/-- `_supported_sharding`: the spec cut or padded to the rank of the array. -/
def supportedSharding (sharding : Sharding Mesh Axis Other) (rank : ℕ) :
    Sharding Mesh Axis Other :=
  match sharding with
  | .other sharding => .other sharding
  | .named mesh spec =>
    if rank = 0 then .named mesh spec
    else
      let maxSharedDims := min spec.length rank
      .named mesh (spec.take maxSharedDims ++ List.replicate (rank - maxSharedDims) none)

structure Partitioned (R : Type) (bs : ℕ) (Mesh Axis Other : Type) where
  mesh : Mesh
  lowerFn : ∀ {Q nb heads dim : ℕ}, Tensor R Q heads dim → Tensor R (nb * bs) heads dim →
    Tensor R (nb * bs) heads dim → (Fin nb → Fin heads → Bool) → Tensor R Q heads dim
  resultSharding : Sharding Mesh Axis Other
  argShardings : List (Sharding Mesh Axis Other)

/-- `_partition` on a query of rank three. -/
def partition (A : Arith R) (isTpu : Bool) (mesh : Mesh) (qSharding : Sharding Mesh Axis Other) :
    Partitioned R bs Mesh Axis Other :=
  let outSharding := supportedSharding qSharding 3
  { mesh := mesh
    lowerFn := fun q k v mask => (compactAndAttend A isTpu q k v mask).1
    resultSharding := outSharding
    argShardings := [outSharding] }

end Model

section Shards
variable {R : Type} {rowShards headShards n nb dim : ℕ} (rows : Fin rowShards → ℕ)
  (heads : Fin headShards → ℕ)

/-- The query rows and heads of one shard; shards are consecutive. -/
def shardQuery (q : Tensor R (∑ r, rows r) (∑ s, heads s) dim) (r : Fin rowShards)
    (s : Fin headShards) : Tensor R (rows r) (heads s) dim :=
  fun i h => q (finSigmaFinEquiv ⟨r, i⟩) (finSigmaFinEquiv ⟨s, h⟩)

def shardHeads (x : Tensor R n (∑ s, heads s) dim) (s : Fin headShards) :
    Tensor R n (heads s) dim := fun k h => x k (finSigmaFinEquiv ⟨s, h⟩)

def shardMask (blockMask : Fin nb → Fin (∑ s, heads s) → Bool) (s : Fin headShards) :
    Fin nb → Fin (heads s) → Bool := fun b h => blockMask b (finSigmaFinEquiv ⟨s, h⟩)

def concatenate (parts : (r : Fin rowShards) → (s : Fin headShards) →
    Tensor R (rows r) (heads s) dim) : Tensor R (∑ r, rows r) (∑ s, heads s) dim :=
  fun i h =>
    let row := finSigmaFinEquiv.symm i
    let head := finSigmaFinEquiv.symm h
    parts row.1 head.1 row.2 head.2

theorem concatenate_apply (parts : (r : Fin rowShards) → (s : Fin headShards) →
    Tensor R (rows r) (heads s) dim) (r : Fin rowShards) (i : Fin (rows r)) (s : Fin headShards)
    (h : Fin (heads s)) : concatenate rows heads parts (finSigmaFinEquiv ⟨r, i⟩)
      (finSigmaFinEquiv ⟨s, h⟩) = parts r s i h :=
  congrArg₂ (fun (row : (r : Fin rowShards) × Fin (rows r)) (head : (s : Fin headShards) ×
      Fin (heads s)) => parts row.1 head.1 row.2 head.2)
    (finSigmaFinEquiv.symm_apply_apply ⟨r, i⟩) (finSigmaFinEquiv.symm_apply_apply ⟨s, h⟩)

theorem eq_concatenate_iff (x : Tensor R (∑ r, rows r) (∑ s, heads s) dim)
    (parts : (r : Fin rowShards) → (s : Fin headShards) → Tensor R (rows r) (heads s) dim) :
    concatenate rows heads parts = x ↔ ∀ r i s h d,
      parts r s i h d = x (finSigmaFinEquiv ⟨r, i⟩) (finSigmaFinEquiv ⟨s, h⟩) d := by
  constructor
  · rintro rfl r i s h d
    rw [concatenate_apply]
  · intro agree
    funext i h d
    obtain ⟨⟨r, i⟩, rfl⟩ := finSigmaFinEquiv.surjective i
    obtain ⟨⟨s, h⟩, rfl⟩ := finSigmaFinEquiv.surjective h
    rw [concatenate_apply]
    exact agree r i s h d

end Shards

section Foreign
variable {headShards nb bs : ℕ} (heads : Fin headShards → ℕ)
  (blockMask : Fin nb → Fin (∑ s, heads s) → Bool)

/-- Blocks that only heads of other shards retain. -/
def foreign (s : Fin headShards) (b : Fin nb) : Bool :=
  anyHead blockMask b && !anyHead (shardMask heads blockMask s) b

theorem anyHead_of_shard (s : Fin headShards) (b : Fin nb)
    (kept : anyHead (shardMask heads blockMask s) b = true) : anyHead blockMask b = true := by
  obtain ⟨h, own⟩ := (anyHead_iff _ b).mp kept
  exact (anyHead_iff _ b).mpr ⟨finSigmaFinEquiv ⟨s, h⟩, own⟩

theorem tokensOf_foreign (s : Fin headShards) :
    (tokensOf (foreign heads blockMask s) : Finset (Fin (nb * bs))) =
      tokensOf (anyHead blockMask) \ tokensOf (anyHead (shardMask heads blockMask s)) := by
  ext k
  simp [mem_tokensOf, foreign]

end Foreign

section Agreement
variable {rowShards headShards nb bs dim : ℕ} [NeZero bs] (rows : Fin rowShards → ℕ)
  (heads : Fin headShards → ℕ) (q : Tensor ℝ (∑ r, rows r) (∑ s, heads s) dim)
  (keys values : Tensor ℝ (nb * bs) (∑ s, heads s) dim)
  (blockMask : Fin nb → Fin (∑ s, heads s) → Bool)

noncomputable def runSharded {Mesh Axis Other : Type}
    (partitioned : Partitioned ℝ bs Mesh Axis Other) :
    Tensor ℝ (∑ r, rows r) (∑ s, heads s) dim :=
  concatenate rows heads (fun r s => partitioned.lowerFn (shardQuery rows heads q r s)
    (shardHeads heads keys s) (shardHeads heads values s) (shardMask heads blockMask s))

/-- On every head, the blocks that only other shards retain average to what the shard's own
blocks average to; on a shard without blocks of its own they contribute nothing. -/
def ForeignBlocksIrrelevant : Prop :=
  ∀ r (i : Fin (rows r)) s (h : Fin (heads s)) d,
    let z := logits q keys (finSigmaFinEquiv ⟨r, i⟩) (finSigmaFinEquiv ⟨s, h⟩)
    let v := fun k => values k (finSigmaFinEquiv ⟨s, h⟩) d
    if ∃ b, anyHead (shardMask heads blockMask s) b = true then
      (∃ b, foreign heads blockMask s b = true) →
        softmaxMean (tokensOf (foreign heads blockMask s)) z v =
          softmaxMean (tokensOf (anyHead (shardMask heads blockMask s))) z v
    else expSum (tokensOf (foreign heads blockMask s)) z v = 0

/-- The rows of a shard see the shard's own blocks. -/
theorem lowerFn_attend {Mesh Axis Other : Type} (isTpu : Bool) (mesh : Mesh)
    (qSharding : Sharding Mesh Axis Other) (bounded : LogitsBounded (10 ^ 7) q keys)
    (r : Fin rowShards) (i : Fin (rows r)) (s : Fin headShards) (h : Fin (heads s)) (d : Fin dim) :
    (partition .flushing isTpu mesh qSharding : Partitioned ℝ bs Mesh Axis Other).lowerFn
        (shardQuery rows heads q r s) (shardHeads heads keys s) (shardHeads heads values s)
        (shardMask heads blockMask s) i h d =
      softmaxMean (tokensOf (anyHead (shardMask heads blockMask s)))
        (logits q keys (finSigmaFinEquiv ⟨r, i⟩) (finSigmaFinEquiv ⟨s, h⟩))
        (fun k => values k (finSigmaFinEquiv ⟨s, h⟩) d) := by
  have own := compactAndAttend_attend (shardQuery rows heads q r s) (shardHeads heads keys s)
    (shardHeads heads values s) (shardMask heads blockMask s) isTpu
    (fun i h k => bounded (finSigmaFinEquiv ⟨r, i⟩) (finSigmaFinEquiv ⟨s, h⟩) k)
  exact congrFun (congrFun (congrFun own i) h) d

/-- Sharding is invisible exactly where the blocks of other shards do not matter. -/
theorem runSharded_eq_iff {Mesh Axis Other : Type} (isTpu : Bool) (mesh : Mesh)
    (qSharding : Sharding Mesh Axis Other) (bounded : LogitsBounded (10 ^ 7) q keys) :
    runSharded rows heads q keys values blockMask
        (partition .flushing isTpu mesh qSharding : Partitioned ℝ bs Mesh Axis Other) =
      orthocacheAttentionImpl .flushing isTpu q keys values blockMask ↔
    ForeignBlocksIrrelevant rows heads q keys values blockMask := by
  rw [runSharded, eq_concatenate_iff, orthocacheAttentionImpl,
    compactAndAttend_attend q keys values blockMask isTpu bounded, ForeignBlocksIrrelevant]
  refine forall_congr' fun r => forall_congr' fun i => forall_congr' fun s =>
    forall_congr' fun h => forall_congr' fun d => ?_
  rw [lowerFn_attend rows heads q keys values blockMask isTpu mesh qSharding bounded, attend,
    eq_comm]
  set z := logits q keys (finSigmaFinEquiv ⟨r, i⟩) (finSigmaFinEquiv ⟨s, h⟩)
  have own_subset : (tokensOf (anyHead (shardMask heads blockMask s)) : Finset (Fin (nb * bs))) ⊆
      tokensOf (anyHead blockMask) := by
    intro k member
    rw [mem_tokensOf] at member ⊢
    exact anyHead_of_shard heads blockMask s _ member
  split_ifs with own
  · by_cases others : ∃ b, foreign heads blockMask s b = true
    · rw [forall_prop_of_true others, tokensOf_foreign]
      apply softmaxMean_eq_iff _ _ _ _ own_subset ((tokensOf_nonempty_iff _).mpr own)
      rw [← tokensOf_foreign]
      exact (tokensOf_nonempty_iff _).mpr others
    · rw [forall_prop_of_false others, iff_true]
      congr 1
      apply own_subset.antisymm'
      rw [← sdiff_eq_empty_iff_subset, ← tokensOf_foreign]
      exact tokensOf_eq_empty _ others
  · rw [tokensOf_foreign, tokensOf_eq_empty _ own, sdiff_empty, softmaxMean_empty,
      softmaxMean_eq_zero_iff]

end Agreement

section Examples

theorem head_position (s : Fin 2) (h : Fin 1) :
    (finSigmaFinEquiv ⟨s, h⟩ : Fin (∑ _ : Fin 2, 1)).val = s.val := by
  simp [finSigmaFinEquiv_apply]

/-- One row, two heads on a shard each, two blocks of one token: head `h` retains block `h` only, but
the other block holds the same value. -/
theorem runSharded_eq_equal_blocks :
    runSharded (fun _ : Fin 1 => 1) (fun _ : Fin 2 => 1) zeros (zeros : Tensor ℝ (2 * 1) _ 1) ones
        (fun b h => b.val = h.val)
        (partition .flushing true () (.other () : Sharding Unit Unit Unit)) =
      orthocacheAttentionImpl .flushing true zeros (zeros : Tensor ℝ (2 * 1) _ 1) ones
        (fun b h => b.val = h.val) := by
  refine (runSharded_eq_iff (fun _ : Fin 1 => 1) (fun _ : Fin 2 => 1) zeros
    (zeros : Tensor ℝ (2 * 1) _ 1) ones (fun b h => b.val = h.val) true () (.other ())
    (logitsBounded_zeros _)).mpr ?_
  intro r i s h d
  have own : ∃ b, anyHead (shardMask (fun _ : Fin 2 => 1)
      (fun (b : Fin 2) h => decide (b.val = h.val)) s) b = true :=
    ⟨s, (anyHead_iff _ s).mpr ⟨h, decide_eq_true (head_position s h).symm⟩⟩
  rw [if_pos own]
  intro others
  exact (softmaxMean_const _ _ 1 ((tokensOf_nonempty_iff _).mpr others)).trans
    (softmaxMean_const _ _ 1 ((tokensOf_nonempty_iff _).mpr own)).symm

/-- When head `h` retains block `h` only, the first shard does not see the second block. -/
theorem runSharded_ne_diagonal :
    runSharded (fun _ : Fin 1 => 1) (fun _ : Fin 2 => 1) zeros (zeros : Tensor ℝ (2 * 1) _ 1)
        (fun k _ _ => (k.val : ℝ)) (fun b h => b.val = h.val)
        (partition .flushing true () (.other () : Sharding Unit Unit Unit)) ≠
      orthocacheAttentionImpl .flushing true zeros (zeros : Tensor ℝ (2 * 1) _ 1)
        (fun k _ _ => (k.val : ℝ)) (fun b h => b.val = h.val) := by
  intro same
  have irrelevant := (runSharded_eq_iff (fun _ : Fin 1 => 1) (fun _ : Fin 2 => 1) zeros
    (zeros : Tensor ℝ (2 * 1) _ 1) (fun k _ _ => (k.val : ℝ)) (fun b h => b.val = h.val) true ()
    (.other ()) (logitsBounded_zeros _)).mp same 0 0 0 0 0
  have own (b : Fin 2) : anyHead (shardMask (fun _ : Fin 2 => 1)
      (fun (b : Fin 2) h => decide (b.val = h.val)) 0) b = true ↔ b.val = 0 := by
    simp [anyHead_iff, shardMask]
  have second : foreign (fun _ : Fin 2 => 1) (fun (b : Fin 2) h => decide (b.val = h.val)) 0 1 =
      true := by
    have union : anyHead (fun (b : Fin 2) (h : Fin (∑ _ : Fin 2, 1)) => decide (b.val = h.val)) 1 =
        true := (anyHead_iff _ 1).mpr ⟨finSigmaFinEquiv ⟨1, 0⟩, by rw [head_position]; rfl⟩
    rw [foreign, union, Bool.true_and, Bool.not_eq_true', ← Bool.not_eq_true, own]
    decide
  rw [if_pos ⟨0, (own 0).mpr rfl⟩, forall_prop_of_true ⟨1, second⟩] at irrelevant
  refine absurd irrelevant (ne_of_gt ?_)
  rw [softmaxMean_eq_zero]
  · refine softmaxMean_pos _ _ _ (fun k _ => Nat.cast_nonneg k.val) ⟨1, ?_, ?_⟩
    · exact (mem_tokensOf _ 1).mpr second
    · exact Nat.cast_pos.mpr Nat.one_pos
  · intro k member
    have first := (own k.divNat).mp ((mem_tokensOf _ k).mp member)
    rw [Fin.coe_divNat, Nat.div_one] at first
    change (k.val : ℝ) = 0
    rw [first, Nat.cast_zero]

end Examples

end OrthoCache.Partitioning
