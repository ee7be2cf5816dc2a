import OrthoCache.Foundation.Spmd
import OrthoCache.KvExchange
import OrthoCache.Normalisers
import OrthoCache.StratifiedGather

/-!
The multi-device functions as programs that every device runs by itself: local work between
collective operations. Devices run asynchronously and meet in the collectives only. In every order
of their steps they call the same collectives and end with what the functions on all devices return.
-/

namespace OrthoCache.DeviceProtocols
open Finset Foundation.Spmd Foundation.StablePartition Foundation.RowMajor
open Arrays AttentionSpec
open Alltoallv hiding streamCompact packActiveBlocks alltoallvKvExchange
open DistributedAttention hiding distributedOrthocacheAttention
open KvExchange (exchanged alltoallvKvExchange_square alltoallvKvExchange_error)
open Normalisers (distributedCarry distributedCarry_sum_pos_iff)
open StratifiedGather hiding streamCompact branch stratifiedKernel

/-! ### Collectives -/

/-- A collective is told apart by its kind, its shape and its entries. -/
inductive LaxOp : Type 1
  | allGather (α : Type)
  | allGatherTiled (n : ℕ) (α : Type)
  | allToAll (α : Type)
  | pmax

def lax (P : ℕ) [NeZero P] : Collectives P where
  Op := LaxOp
  Operand
    | .allGather α => α
    | .allGatherTiled n α => Fin n → α
    | .allToAll α => Fin P → α
    | .pmax => ℕ
  Result
    | .allGather α => Fin P → α
    | .allGatherTiled n α => Fin (P * n) → α
    | .allToAll α => Fin P → α
    | .pmax => ℕ
  deliver
    | .allGather _, x => Alltoallv.allGather x
    | .allGatherTiled _ _, x => fun _ => DistributedAttention.allGatherTiled x
    | .allToAll _, x => fun i j => x j i
    | .pmax, x => StratifiedGather.pmax x

section Programs
variable {R : Type} [Field R] [LinearOrder R] {P Q nb heads dim : ℕ}

def countOf (allCounts : Fin (P * 1) → ℕ) (p : Fin P) : ℕ :=
  allCounts (finProdFinEquiv (p, ⟨0, Nat.one_pos⟩))

/-! ### Programs of one device -/

variable [NeZero P]

def distributedOrthocacheAttention [NeZero nb] (A : Arith R) (qShard : Tensor R Q heads dim)
    (kShard vShard : Tensor R (nb * 512) heads dim) (blockMask : Fin nb → Bool) :
    Program (lax P) (Tensor R Q heads dim) := do
  let activeIndices := (DistributedAttention.streamCompact blockMask).1
  let numActive := (DistributedAttention.streamCompact blockMask).2
  let kPacked := DistributedAttention.packActiveBlocks kShard activeIndices numActive
  let vPacked := DistributedAttention.packActiveBlocks vShard activeIndices numActive
  let allCounts ← call (C := lax P) (.allGatherTiled 1 ℕ) (fun _ => numActive)
  let totalActive := ∑ p, countOf allCounts p
  let kAll ← call (C := lax P) (.allGatherTiled (nb * 512) (Fin heads → Fin dim → R)) kPacked
  let vAll ← call (C := lax P) (.allGatherTiled (nb * 512) (Fin heads → Fin dim → R)) vPacked
  let validMask := fun c : Fin (P * nb) => decide (c.modNat.val < countOf allCounts c.divNat)
  let sortedIndices := argsort (offsetKey validMask)
  pure (onlineSoftmaxIndirectAttention A gathered_fits qShard kAll vAll sortedIndices totalActive)

/-- One branch of the switch; it gathers buffers of its own capacity. -/
def branch (A : Arith R) (targetK : ℕ) (fits : targetK ≤ nb) (q : Tensor R Q heads dim)
    (kAct vAct : Fin nb → Tensor R 512 heads dim) (allCounts : Fin P → ℕ) :
    Program (lax P) (Tensor R Q heads dim) := do
  let kSl := fun j : Fin targetK => kAct (j.castLE fits)
  let vSl := fun j : Fin targetK => vAct (j.castLE fits)
  let kG ← call (C := lax P) (.allGatherTiled targetK (Tensor R 512 heads dim)) kSl
  let vG ← call (C := lax P) (.allGatherTiled targetK (Tensor R 512 heads dim)) vSl
  let valid := fun bi : Fin (P * targetK) =>
    let did := bi.val / targetK
    let lpos := bi.val % targetK
    let sdid := min did (P - 1)
    decide (did < P) && decide (lpos < getClamped allCounts sdid)
  pure (maskedSoftmax A q (flattened kG) (flattened vG) (repeatBlocks valid))

def stratifiedKernel [NeZero nb] (A : Arith R) (q : Tensor R Q heads dim)
    (kShard vShard : Tensor R (nb * 512) heads dim) (activeIndices : Fin nb → Fin nb)
    (numActive : ℕ) : Program (lax P) (Tensor R Q heads dim) := do
  let ka := fun i => blocked kShard (activeIndices i)
  let va := fun i => blocked vShard (activeIndices i)
  let gmax : ℕ ← call (C := lax P) .pmax numActive
  let ac ← call (C := lax P) (.allGatherTiled 1 ℕ) (fun _ => numActive)
  let bidx := bucketIndex nb gmax
  branch A (bucket nb bidx) (bucket_le nb bidx) q ka va (countOf ac)

end Programs

/-! ### The exchange

Shapes and integer literals are checked when the program is traced, once for all devices and before
any of them runs. -/

/-- The statistics with their literals checked; the counts are known at run time. -/
def traceBandwidthStats (numDevices maxBlocks heads dim : ℕ) : Except Raised (ℕ → ℕ → StatsDict) := do
  let denseBlocks := numDevices * maxBlocks
  let elementsPerBlock := 512 * heads * dim
  let bytesPerElement := 2
  let bytesDense := denseBlocks * elementsPerBlock * bytesPerElement * 2
  let elements ← toInt32 elementsPerBlock
  let dense ← toInt32 bytesDense
  return fun localNumActive totalActive =>
    let bytesActive :=
      wrapInt32 (wrapInt32 (wrapInt32 (totalActive * elements) * bytesPerElement) * 2)
    let bytesSaved := wrapInt32 (dense - bytesActive)
    { localNumActive, totalActive, denseBlocks, bytesSaved, bytesDense }

abbrev DeviceExchange (R : Type) (P maxBlocks heads dim : ℕ) [NeZero P] : Type 1 :=
  Tensor R (maxBlocks * 512) heads dim → Tensor R (maxBlocks * 512) heads dim →
    (Fin maxBlocks → Bool) → Program (lax P) (Exchanged R P maxBlocks heads dim)

def alltoallvKvExchange {R : Type} [Zero R] {P maxBlocks heads dim : ℕ} [NeZero P] :
    Except Raised (DeviceExchange R P maxBlocks heads dim) :=
  if square : P = maxBlocks * 512 then
    (traceBandwidthStats P maxBlocks heads dim).map fun stats kShard vShard blockMask => do
      let activeIndices := (Alltoallv.streamCompact blockMask).1
      let numActive := (Alltoallv.streamCompact blockMask).2
      let gathered ← call (C := lax P) (.allGather (Fin 1 → ℕ)) (fun _ => numActive)
      let allCounts := fun j => squeeze (gathered j)
      let (offsets, totalActive) := computeOffsets allCounts
      let kPacked := Alltoallv.packActiveBlocks kShard activeIndices numActive
      let vPacked := Alltoallv.packActiveBlocks vShard activeIndices numActive
      let kReceived ← call (C := lax P) (.allToAll (Fin heads → Fin dim → R))
        (fun i => kPacked (i.cast square))
      let vReceived ← call (C := lax P) (.allToAll (Fin heads → Fin dim → R))
        (fun i => vPacked (i.cast square))
      let kActive :=
        (unpackReceivedBlocks (kReceived : Tensor R P heads dim) allCounts maxBlocks 512).1
      let vActive :=
        (unpackReceivedBlocks (vReceived : Tensor R P heads dim) allCounts maxBlocks 512).1
      pure { kActive, vActive, allCounts, offsets, statsDict := stats numActive totalActive }
  else .error .shapeMismatch

theorem countOf_eq {P : ℕ} (allCounts : Fin (P * 1) → ℕ) :
    countOf allCounts = fun p => allCounts (p.cast (Nat.mul_one P).symm) := by
  funext p
  have position : finProdFinEquiv (p, (⟨0, Nat.one_pos⟩ : Fin 1)) = p.cast (Nat.mul_one P).symm :=
    Fin.ext (by simp [finProdFinEquiv])
  rw [countOf, position]

theorem countOf_allGatherTiled {P : ℕ} (counts : Fin P → ℕ) :
    countOf (DistributedAttention.allGatherTiled (fun p (_ : Fin 1) => counts p)) = counts := by
  funext p
  rw [countOf, DistributedAttention.allGatherTiled, flattened, index_divNat]

section Attention
variable {R : Type} [Field R] [LinearOrder R] {P Q nb heads dim : ℕ} [NeZero P] [NeZero nb]

/-- The collectives of one call: the counts, the keys and the values. -/
def distributedOps (R : Type) (nb heads dim : ℕ) : List LaxOp :=
  [.allGatherTiled 1 ℕ, .allGatherTiled (nb * 512) (Fin heads → Fin dim → R),
    .allGatherTiled (nb * 512) (Fin heads → Fin dim → R)]

theorem distributedOrthocacheAttention_lockstep (A : Arith R) (qShard : Fin P → Tensor R Q heads dim)
    (kShard vShard : Fin P → Tensor R (nb * 512) heads dim) (blockMask : Fin P → Fin nb → Bool) :
    Lockstep (fun p => distributedOrthocacheAttention (P := P) A (qShard p) (kShard p) (vShard p)
        (blockMask p)) (distributedOps R nb heads dim)
      (DistributedAttention.distributedOrthocacheAttention A qShard kShard vShard blockMask) := by
  refine .round _ _ _ (.round _ _ _ (.round _ _ _ (.ended fun p => congrArg Program.done ?_)))
  change onlineSoftmaxIndirectAttention A gathered_fits (qShard p) _ _
    (argsort (offsetKey fun c => decide (c.modNat.val < countOf (DistributedAttention.allGatherTiled
      (fun p (_ : Fin 1) => (DistributedAttention.streamCompact (blockMask p)).2)) c.divNat)))
    (∑ p, countOf (DistributedAttention.allGatherTiled
      (fun p (_ : Fin 1) => (DistributedAttention.streamCompact (blockMask p)).2)) p) = _
  rw [countOf_allGatherTiled]
  rfl

end Attention

section Exchange
variable {R : Type} [Zero R] {P maxBlocks heads dim : ℕ} [NeZero P]

theorem traceBandwidthStats_eq (numDevices maxBlocks heads dim localNumActive totalActive : ℕ) :
    bandwidthStats numDevices maxBlocks heads dim localNumActive totalActive =
      (traceBandwidthStats numDevices maxBlocks heads dim).map
        (fun stats => stats localNumActive totalActive) := by
  cases literal : toInt32 (512 * heads * dim) with
  | error e =>
    simp only [bandwidthStats, traceBandwidthStats, literal]
    rfl
  | ok elements =>
    cases total : toInt32 (numDevices * maxBlocks * (512 * heads * dim) * 2 * 2) with
    | error e =>
      simp only [bandwidthStats, traceBandwidthStats, literal, total]
      rfl
    | ok dense =>
      simp only [bandwidthStats, traceBandwidthStats, literal, total]
      rfl

def exchangeOps (R : Type) (heads dim : ℕ) : List LaxOp :=
  [.allGather (Fin 1 → ℕ), .allToAll (Fin heads → Fin dim → R), .allToAll (Fin heads → Fin dim → R)]

variable (kShard vShard : Fin P → Tensor R (maxBlocks * 512) heads dim)
  (blockMask : Fin P → Fin maxBlocks → Bool)

/-- Every device of a traced exchange moves through the collectives with the others. -/
theorem alltoallvKvExchange_lockstep (square : maxBlocks * 512 = P) (stats : ℕ → ℕ → StatsDict)
    (traced : traceBandwidthStats P maxBlocks heads dim = .ok stats) :
    ∃ program, alltoallvKvExchange = .ok program ∧
      Lockstep (fun p => program (kShard p) (vShard p) (blockMask p)) (exchangeOps R heads dim)
        (fun i => exchanged kShard vShard blockMask square i (stats (countActive (blockMask i))
          (computeOffsets (fun p => countActive (blockMask p))).2)) := by
  refine ⟨_, by rw [alltoallvKvExchange, dif_pos square.symm, traced]; rfl, ?_⟩
  exact .round _ _ _ (.round _ _ _ (.round _ _ _ (.ended fun p => rfl)))

/-- If tracing fails, the exchange fails on every device with the same error; otherwise every order
of the devices' steps ends with what the exchange returns. -/
theorem alltoallvKvExchange_runs :
    (∀ e, (alltoallvKvExchange : Except Raised (DeviceExchange R P maxBlocks heads dim)) = .error e →
        ∀ i, Alltoallv.alltoallvKvExchange kShard vShard blockMask i = .error e) ∧
      ∀ program, alltoallvKvExchange = .ok program → ∃ values,
        (∀ i, Alltoallv.alltoallvKvExchange kShard vShard blockMask i = .ok (values i)) ∧
          Computes (fun p => program (kShard p) (vShard p) (blockMask p))
            (exchangeOps R heads dim) values := by
  by_cases square : maxBlocks * 512 = P
  · cases traced : traceBandwidthStats P maxBlocks heads dim with
    | error e =>
      have failed :
          (alltoallvKvExchange : Except Raised (DeviceExchange R P maxBlocks heads dim)) = .error e := by
        rw [alltoallvKvExchange, dif_pos square.symm, traced]
        rfl
      refine ⟨fun e' failed' i => ?_, fun program returned => ?_⟩
      · rw [alltoallvKvExchange_square kShard vShard blockMask square, traceBandwidthStats_eq, traced]
        exact congrArg Except.error (Except.error.inj (failed.symm.trans failed'))
      · cases failed.symm.trans returned
    | ok stats =>
      obtain ⟨program, returned, lockstep⟩ :=
        alltoallvKvExchange_lockstep kShard vShard blockMask square stats traced
      refine ⟨fun e failed => (nomatch returned.symm.trans failed), fun program' returned' => ?_⟩
      obtain rfl := Except.ok.inj (returned.symm.trans returned')
      refine ⟨_, fun i => ?_, lockstep.computes⟩
      rw [alltoallvKvExchange_square kShard vShard blockMask square, traceBandwidthStats_eq, traced]
      rfl
  · have failed : (alltoallvKvExchange : Except Raised (DeviceExchange R P maxBlocks heads dim)) =
        .error .shapeMismatch := by
      rw [alltoallvKvExchange, dif_neg (Ne.symm square)]
    refine ⟨fun e failed' i => ?_, fun program returned => (nomatch failed.symm.trans returned)⟩
    rw [alltoallvKvExchange_error kShard vShard blockMask square,
      Except.error.inj (failed.symm.trans failed')]

end Exchange

theorem alltoallvKvExchange_runs_blocks :
    ∃ program, (alltoallvKvExchange : Except Raised (DeviceExchange ℤ 512 1 1 1)) = .ok program ∧
      ∃ values, Computes (fun _ : Fin 512 => program (ones : Tensor ℤ (1 * 512) 1 1) ones
        (fun _ => true)) (exchangeOps ℤ 1 1) values := by
  obtain ⟨program, traced, -⟩ := alltoallvKvExchange_lockstep
    (fun _ : Fin 512 => (ones : Tensor ℤ (1 * 512) 1 1)) (fun _ => ones) (fun _ _ => true) rfl _ rfl
  obtain ⟨values, -, runs⟩ := (alltoallvKvExchange_runs
    (fun _ : Fin 512 => (ones : Tensor ℤ (1 * 512) 1 1)) (fun _ => ones) (fun _ _ => true)).2 program
    traced
  exact ⟨program, traced, values, runs⟩

section Stratified
variable {R : Type} [Field R] [LinearOrder R] {P Q nb heads dim : ℕ} [NeZero P]

def stratifiedOps (R : Type) (heads dim capacity : ℕ) : List LaxOp :=
  [.pmax, .allGatherTiled 1 ℕ, .allGatherTiled capacity (Tensor R 512 heads dim),
    .allGatherTiled capacity (Tensor R 512 heads dim)]

def capacity (nb : ℕ) (numActive : Fin P → ℕ) : ℕ :=
  bucket nb (bucketIndex nb (univ.sup' (axis_univ_nonempty P) numActive))

theorem branch_lockstep (A : Arith R) (targetK : ℕ) (fits : targetK ≤ nb) (q : Tensor R Q heads dim)
    (kAct vAct : Fin P → Fin nb → Tensor R 512 heads dim) (allCounts : Fin P → ℕ) :
    Lockstep (fun p => branch (P := P) A targetK fits q (kAct p) (vAct p) allCounts)
      [.allGatherTiled targetK (Tensor R 512 heads dim),
        .allGatherTiled targetK (Tensor R 512 heads dim)]
      (fun _ => StratifiedGather.branch A targetK fits q kAct vAct allCounts) :=
  .round _ _ _ (.round _ _ _ (.ended fun _ => rfl))

variable [NeZero nb]

/-- The kernel on all devices is the branch of their capacity on their counts. -/
theorem stratifiedKernel_branch (A : Arith R) (q : Tensor R Q heads dim)
    (kShard vShard : Fin P → Tensor R (nb * 512) heads dim) (activeIndices : Fin P → Fin nb → Fin nb)
    (numActive : Fin P → ℕ) :
    StratifiedGather.stratifiedKernel A q kShard vShard activeIndices numActive =
      fun _ => StratifiedGather.branch A (capacity nb numActive) (bucket_le nb _) q
        (fun p i => blocked (kShard p) (activeIndices p i))
        (fun p i => blocked (vShard p) (activeIndices p i)) numActive := by
  have counts := countOf_allGatherTiled numActive
  rw [countOf_eq] at counts
  funext p
  simp only [StratifiedGather.stratifiedKernel, counts]
  rfl

theorem stratifiedKernel_lockstep (A : Arith R) (q : Tensor R Q heads dim)
    (kShard vShard : Fin P → Tensor R (nb * 512) heads dim) (activeIndices : Fin P → Fin nb → Fin nb)
    (numActive : Fin P → ℕ) :
    Lockstep (fun p => stratifiedKernel (P := P) A q (kShard p) (vShard p) (activeIndices p)
        (numActive p)) (stratifiedOps R heads dim (capacity nb numActive))
      (StratifiedGather.stratifiedKernel A q kShard vShard activeIndices numActive) := by
  rw [stratifiedKernel_branch]
  refine .round _ _ _ (.round _ _ _ ?_)
  change Lockstep (fun p => branch A (capacity nb numActive) (bucket_le nb _) q
    (fun i => blocked (kShard p) (activeIndices p i))
    (fun i => blocked (vShard p) (activeIndices p i))
    (countOf (DistributedAttention.allGatherTiled (fun p (_ : Fin 1) => numActive p)))) _ _
  rw [countOf_allGatherTiled]
  apply branch_lockstep

end Stratified

/-! ### Every order of steps -/

/-- With a block left, in every order of the devices' steps no two devices meet in different
collectives, none waits for ever, and every device ends with softmax attention over the active
tokens of the concatenated cache, divided by a positive normaliser. -/
theorem distributedOrthocacheAttention_runs {P Q nb heads dim : ℕ} [NeZero P] [NeZero nb]
    (q : Tensor ℝ Q heads dim) (kShard vShard : Fin P → Tensor ℝ (nb * 512) heads dim)
    (blockMask : Fin P → Fin nb → Bool) (active : ∃ p b, blockMask p b = true) :
    Computes (fun p => distributedOrthocacheAttention (P := P) .exact q (kShard p) (vShard p)
        (blockMask p)) (distributedOps ℝ nb heads dim)
      (fun _ => attend q (DistributedAttention.allGatherTiled kShard)
        (DistributedAttention.allGatherTiled vShard) (fun _ => concatTokens blockMask)) ∧
    ∀ p i h, 0 < (distributedCarry .exact (fun _ => q) kShard vShard blockMask p i h).sum := by
  have lockstep := distributedOrthocacheAttention_lockstep .exact (fun _ => q) kShard vShard blockMask
  have returned : DistributedAttention.distributedOrthocacheAttention .exact (fun _ : Fin P => q) kShard
      vShard blockMask = fun _ => attend q (DistributedAttention.allGatherTiled kShard)
        (DistributedAttention.allGatherTiled vShard) (fun _ => concatTokens blockMask) := by
    funext p
    rw [distributedOrthocacheAttention_exact, attendShards_eq_attend]
  rw [returned] at lockstep
  refine ⟨lockstep.computes, fun p i h => ?_⟩
  rw [distributedCarry_sum_pos_iff]
  exact active

theorem distributedOrthocacheAttention_runs_second :
    Computes (fun _ : Fin 2 => distributedOrthocacheAttention (P := 2) .exact
        (ones : Tensor ℝ 1 1 1) (zeros : Tensor ℝ (2 * 512) 1 1) ones ![false, true])
      (distributedOps ℝ 2 1 1)
      (fun _ => attend ones (DistributedAttention.allGatherTiled fun _ : Fin 2 => zeros)
        (DistributedAttention.allGatherTiled fun _ : Fin 2 => ones)
        (fun _ => concatTokens fun _ : Fin 2 => ![false, true])) ∧
    ∀ p i h, 0 < (distributedCarry .exact (fun _ : Fin 2 => (ones : Tensor ℝ 1 1 1))
      (fun _ => (zeros : Tensor ℝ (2 * 512) 1 1)) (fun _ => ones) (fun _ => ![false, true]) p i h).sum :=
  distributedOrthocacheAttention_runs ones (fun _ : Fin 2 => zeros) (fun _ => ones)
    (fun _ => ![false, true]) ⟨0, 1, rfl⟩

section Capacity
variable {P nb : ℕ}

theorem mem_deduplicated {values : List ℕ} {b : ℕ} (member : b ∈ values) :
    b ∈ deduplicated values := by
  have kept (values seen : List ℕ) (here : b ∈ seen ∨ b ∈ values) :
      b ∈ values.foldl (fun buckets b => if b ∈ buckets then buckets else buckets ++ [b]) seen := by
    induction values generalizing seen with
    | nil => simpa using here
    | cons c values ih =>
      rw [List.foldl_cons]
      apply ih
      rw [List.mem_cons] at here
      split_ifs with known
      · rcases here with before | rfl | later
        · exact .inl before
        · exact .inl known
        · exact .inr later
      · rw [List.mem_append, List.mem_singleton]
        tauto
  exact kept values [] (.inr member)

theorem mem_stratifiedBuckets {b : ℕ}
    (quarter : b ∈ [max 1 (nb / 4), max 1 (nb / 2), max 1 (nb * 3 / 4), nb]) :
    b ∈ stratifiedBuckets nb :=
  List.mem_append_left _ (mem_deduplicated quarter)

variable [NeZero P] [NeZero nb] (numActive : Fin P → ℕ) (counted : ∀ p, numActive p ≤ nb)
include counted

theorem capacity_isLeast :
    IsLeast {b | b ∈ stratifiedBuckets nb ∧ ∀ p, numActive p ≤ b} (capacity nb numActive) := by
  have least := bucket_bucketIndex_isLeast nb (univ.sup' (axis_univ_nonempty P) numActive)
    (sup'_le _ _ (fun p _ => counted p))
  have same : {b | b ∈ stratifiedBuckets nb ∧ univ.sup' (axis_univ_nonempty P) numActive ≤ b} =
      {b | b ∈ stratifiedBuckets nb ∧ ∀ p, numActive p ≤ b} := by
    ext b
    simp only [Set.mem_ofPred_eq, sup'_le_iff, mem_univ, true_imp_iff]
  rwa [same] at least

theorem capacity_lt (p : Fin P) (most : ∀ p', numActive p' ≤ numActive p) (some : 0 < numActive p) :
    capacity nb numActive < numActive p + (nb + 3) / 4 := by
  have below (b : ℕ) (quarter : b ∈ [max 1 (nb / 4), max 1 (nb / 2), max 1 (nb * 3 / 4), nb])
      (fits : numActive p ≤ b) : capacity nb numActive ≤ b :=
    (capacity_isLeast numActive counted).2
      ⟨mem_stratifiedBuckets quarter, fun p' => (most p').trans fits⟩
  simp only [List.mem_cons, List.not_mem_nil, or_false, forall_eq_or_imp, forall_eq] at below
  have positive := NeZero.pos nb
  have inside := counted p
  omega

end Capacity

/-- In every order of the devices' steps all devices gather buffers of one capacity, the smallest
that holds the largest count, and end with what the kernel returns. -/
theorem stratifiedKernel_runs {R : Type} [Field R] [LinearOrder R] {P Q nb heads dim : ℕ} [NeZero P]
    [NeZero nb] (A : Arith R) (q : Tensor R Q heads dim)
    (kShard vShard : Fin P → Tensor R (nb * 512) heads dim) (activeIndices : Fin P → Fin nb → Fin nb)
    (numActive : Fin P → ℕ) (counted : ∀ p, numActive p ≤ nb) :
    ∃ capacity, IsLeast {b | b ∈ stratifiedBuckets nb ∧ ∀ p, numActive p ≤ b} capacity ∧
      (∀ p, (∀ p', numActive p' ≤ numActive p) → 0 < numActive p →
        capacity < numActive p + (nb + 3) / 4) ∧
      Computes (fun p => stratifiedKernel (P := P) A q (kShard p) (vShard p) (activeIndices p)
          (numActive p)) (stratifiedOps R heads dim capacity)
        (StratifiedGather.stratifiedKernel A q kShard vShard activeIndices numActive) :=
  ⟨capacity nb numActive, capacity_isLeast numActive counted, capacity_lt numActive counted,
    (stratifiedKernel_lockstep A q kShard vShard activeIndices numActive).computes⟩

theorem stratifiedKernel_runs_uneven :
    ∃ capacity, IsLeast {b | b ∈ stratifiedBuckets 2 ∧ ∀ p, (![1, 2] : Fin 2 → ℕ) p ≤ b} capacity ∧
      (∀ p, (∀ p', (![1, 2] : Fin 2 → ℕ) p' ≤ (![1, 2] : Fin 2 → ℕ) p) →
        0 < (![1, 2] : Fin 2 → ℕ) p → capacity < (![1, 2] : Fin 2 → ℕ) p + (2 + 3) / 4) ∧
      Computes (C := lax 2) (fun p => stratifiedKernel .exact (ones : Tensor ℝ 1 1 1)
          (zeros : Tensor ℝ (2 * 512) 1 1) ones id ((![1, 2] : Fin 2 → ℕ) p))
        (stratifiedOps ℝ 1 1 capacity)
        (StratifiedGather.stratifiedKernel .exact (ones : Tensor ℝ 1 1 1)
          (fun _ : Fin 2 => (zeros : Tensor ℝ (2 * 512) 1 1)) (fun _ => ones) (fun _ => id) ![1, 2]) :=
  stratifiedKernel_runs .exact ones (fun _ => zeros) (fun _ => ones) (fun _ => id) ![1, 2] (by decide)

end OrthoCache.DeviceProtocols
