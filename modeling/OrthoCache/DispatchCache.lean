import OrthoCache.AdaptiveAttention
import OrthoCache.Foundation.TraceCache

/-!
The adaptive dispatcher inside one process. The block size is a module global that every call
overwrites and that a jitted function reads only while it is traced; the trace is kept under a
key without it. A call sequence in which two calls share a key but not a block size makes the
second one run the loop of the first.
-/

namespace OrthoCache.DispatchCache
open Foundation.TraceCache Foundation.StablePartition Arrays AttentionSpec AdaptiveAttention

section Model

inductive JitFunction where
  | dispatchVmap
  | dispatchLoop
  | batchDispatchVmap
  | batchDispatchLoop
  deriving DecidableEq, Repr

/-- What distinguishes traces: the function, the shapes and dtypes of its arguments, and the
static active count. -/
structure JitKey (D : Type) where
  function : JitFunction
  batch : Option ℕ
  seqQ : ℕ
  seqK : ℕ
  heads : ℕ
  dim : ℕ
  dtypes : D
  numBlocks : ℕ
  numActive : ℕ
  deriving DecidableEq

/-- A loop with the block size frozen; tracing has checked that its slices fit the cache. -/
structure Trace (seqK : ℕ) where
  blockSize : ℕ
  positive : NeZero blockSize
  fits : blockSize ≤ seqK

instance Trace.neZero {seqK : ℕ} (trace : Trace seqK) : NeZero trace.blockSize := trace.positive

theorem Trace.ext_blockSize {seqK : ℕ} {first second : Trace seqK}
    (same : first.blockSize = second.blockSize) : first = second := by
  cases first
  cases second
  cases same
  rfl

/-- A trace request: the key, and the trace that is made if the key is new. -/
abbrev Request (D : Type) := Σ key : JitKey D, Trace key.seqK

/-- The module global `BS` and the traces made so far. -/
structure Process (D : Type) where
  blockSize : ℕ
  traces : Table (fun key : JitKey D => Trace key.seqK)

def Process.fresh {D : Type} : Process D := { blockSize := 512, traces := Table.empty }

section Traced
variable {R : Type} [Field R] [LinearOrder R] {B Q n nb heads dim : ℕ} [NeZero nb] (A : Arith R)
  (trace : Trace n)

def dispatchVmap (q : Tensor R Q heads dim) (k v : Tensor R n heads dim)
    (indices : Fin nb → Fin nb) (K : ℕ) : Tensor R Q heads dim :=
  vmapHeads trace.blockSize A trace.fits q k v indices K

def dispatchLoop (q : Tensor R Q heads dim) (k v : Tensor R n heads dim)
    (indices : Fin nb → Fin nb) (K : ℕ) : Tensor R Q heads dim :=
  multiheadLoop trace.blockSize A trace.fits q k v indices K

def batchDispatchVmap (q : Fin B → Tensor R Q heads dim) (k v : Fin B → Tensor R n heads dim)
    (indices : Fin B → Fin nb → Fin nb) (K : ℕ) : Fin B → Tensor R Q heads dim :=
  batchVmapHeads trace.blockSize A trace.fits q k v indices K

def batchDispatchLoop (q : Fin B → Tensor R Q heads dim) (k v : Fin B → Tensor R n heads dim)
    (indices : Fin B → Fin nb → Fin nb) (K : ℕ) : Fin B → Tensor R Q heads dim :=
  batchMultiheadLoop trace.blockSize A trace.fits q k v indices K

end Traced

/-- The arguments of `orthocache_attention`; the mask has an entry for every whole block. -/
structure AttentionCall (R D : Type) where
  seqQ : ℕ
  seqK : ℕ
  heads : ℕ
  dim : ℕ
  dtypes : D
  blockSize : ℕ
  q : Tensor R seqQ heads dim
  kCache : Tensor R seqK heads dim
  vCache : Tensor R seqK heads dim
  blockMask : Fin (seqK / blockSize) → Bool

structure BatchedCall (R D : Type) where
  batch : ℕ
  seqQ : ℕ
  seqK : ℕ
  heads : ℕ
  dim : ℕ
  dtypes : D
  blockSize : ℕ
  q : Fin batch → Tensor R seqQ heads dim
  kCache : Fin batch → Tensor R seqK heads dim
  vCache : Fin batch → Tensor R seqK heads dim
  blockMask : Fin (seqK / blockSize) → Bool

inductive Call (R D : Type) where
  | single (call : AttentionCall R D)
  | batched (call : BatchedCall R D)

theorem blockSize_positive {seqK blockSize : ℕ} (blockMask : Fin (seqK / blockSize) → Bool)
    (active : (streamCompact blockMask).2 ≠ 0) : NeZero blockSize := by
  have blocks := (neZero_of_active blockMask active).ne
  constructor
  rintro rfl
  exact blocks (Nat.div_zero seqK)

theorem blockSize_fits {seqK blockSize : ℕ} (blockMask : Fin (seqK / blockSize) → Bool)
    (active : (streamCompact blockMask).2 ≠ 0) : blockSize ≤ seqK := by
  have blocks := (neZero_of_active blockMask active).ne
  by_contra larger
  exact blocks (Nat.div_eq_of_lt (not_le.mp larger))

variable {R D : Type} [Field R] [LinearOrder R] [DecidableEq D]

/-- A jitted call runs the trace under its key and keeps it. -/
def Process.jit (process : Process D) (request : Request D) : Process D × Trace request.1.seqK :=
  ({ process with traces := process.traces.serve request }, process.traces.answer request)

def AttentionCall.key (call : AttentionCall R D) (function : JitFunction) : JitKey D where
  function := function
  batch := none
  seqQ := call.seqQ
  seqK := call.seqK
  heads := call.heads
  dim := call.dim
  dtypes := call.dtypes
  numBlocks := call.seqK / call.blockSize
  numActive := (streamCompact call.blockMask).2

def BatchedCall.key (call : BatchedCall R D) (function : JitFunction) : JitKey D where
  function := function
  batch := some call.batch
  seqQ := call.seqQ
  seqK := call.seqK
  heads := call.heads
  dim := call.dim
  dtypes := call.dtypes
  numBlocks := call.seqK / call.blockSize
  numActive := (streamCompact call.blockMask).2

/-- Tracing reads the global. The active count has been compared with zero before, and the mask
has no entry unless a block fits the cache, so the division does not raise. -/
def AttentionCall.run (A : Arith R) (process : Process D) (call : AttentionCall R D) :
    Process D × Tensor R call.seqQ call.heads call.dim × Stats R :=
  let process := { process with blockSize := call.blockSize }
  let activeIndices := (streamCompact call.blockMask).1
  let numActive := (streamCompact call.blockMask).2
  if idle : numActive = 0 then
    (process, zeros, { numActive := 0, numBlocks := none, evictionRate := 1, path := .zero })
  else
    haveI := neZero_of_active call.blockMask idle
    let traced := ⟨process.blockSize, blockSize_positive call.blockMask idle,
      blockSize_fits call.blockMask idle⟩
    let stats := fun path =>
      { numActive := numActive
        numBlocks := some (call.seqK / call.blockSize)
        evictionRate := 1 - (numActive : R) / (call.seqK / call.blockSize : ℕ)
        path := path }
    if call.seqK ≤ seqThreshold then
      let jitted := process.jit ⟨call.key .dispatchVmap, traced⟩
      let out := dispatchVmap A jitted.2 call.q call.kCache call.vCache activeIndices numActive
      (jitted.1, out, stats .vmapHeads)
    else
      let jitted := process.jit ⟨call.key .dispatchLoop, traced⟩
      let out := dispatchLoop A jitted.2 call.q call.kCache call.vCache activeIndices numActive
      (jitted.1, out, stats .multiheadLoop)

def BatchedCall.run (A : Arith R) (process : Process D) (call : BatchedCall R D) :
    Process D × (Fin call.batch → Tensor R call.seqQ call.heads call.dim) × BatchStats R :=
  let process := { process with blockSize := call.blockSize }
  let activeIndices := (streamCompact call.blockMask).1
  let numActive := (streamCompact call.blockMask).2
  if idle : numActive = 0 then
    (process, fun _ => zeros,
      { numActive := 0
        numBlocks := none
        evictionRate := 1
        batchSize := none
        path := .zero })
  else
    haveI := neZero_of_active call.blockMask idle
    let indicesBatched := fun (_ : Fin call.batch) => activeIndices
    let traced := ⟨process.blockSize, blockSize_positive call.blockMask idle,
      blockSize_fits call.blockMask idle⟩
    let stats := fun path =>
      { numActive := numActive
        numBlocks := some (call.seqK / call.blockSize)
        evictionRate := 1 - (numActive : R) / (call.seqK / call.blockSize : ℕ)
        batchSize := some call.batch
        path := path }
    if call.seqK ≤ seqThreshold then
      let jitted := process.jit ⟨call.key .batchDispatchVmap, traced⟩
      let out := batchDispatchVmap A jitted.2 call.q call.kCache call.vCache
        (fun b => indicesBatched b) numActive
      (jitted.1, out, stats .batchVmapHeads)
    else
      let jitted := process.jit ⟨call.key .batchDispatchLoop, traced⟩
      let out := batchDispatchLoop A jitted.2 call.q call.kCache call.vCache
        (fun b => indicesBatched b) numActive
      (jitted.1, out, stats .batchMultiheadLoop)

def Call.Result : Call R D → Type
  | .single call => Tensor R call.seqQ call.heads call.dim × Stats R
  | .batched call => (Fin call.batch → Tensor R call.seqQ call.heads call.dim) × BatchStats R

def Call.run (A : Arith R) (process : Process D) : (call : Call R D) → Process D × call.Result
  | .single call => call.run A process
  | .batched call => call.run A process

def runCalls (A : Arith R) (process : Process D) (calls : List (Call R D)) : Process D :=
  calls.foldl (fun process call => (call.run A process).1) process

end Model

section Requests
variable {R D : Type}

def Call.blockSize : Call R D → ℕ
  | .single call => call.blockSize
  | .batched call => call.blockSize

def Call.seqK : Call R D → ℕ
  | .single call => call.seqK
  | .batched call => call.seqK

/-- The request of a call that gets to a jitted function. -/
def AttentionCall.request (call : AttentionCall R D) : Option (Request D) :=
  if idle : (streamCompact call.blockMask).2 = 0 then none
  else
    let traced := ⟨call.blockSize, blockSize_positive call.blockMask idle,
      blockSize_fits call.blockMask idle⟩
    if call.seqK ≤ seqThreshold then some ⟨call.key .dispatchVmap, traced⟩
    else some ⟨call.key .dispatchLoop, traced⟩

def BatchedCall.request (call : BatchedCall R D) : Option (Request D) :=
  if idle : (streamCompact call.blockMask).2 = 0 then none
  else
    let traced := ⟨call.blockSize, blockSize_positive call.blockMask idle,
      blockSize_fits call.blockMask idle⟩
    if call.seqK ≤ seqThreshold then some ⟨call.key .batchDispatchVmap, traced⟩
    else some ⟨call.key .batchDispatchLoop, traced⟩

def Call.request : Call R D → Option (Request D)
  | .single call => call.request
  | .batched call => call.request

/-- Two calls get to the same jitted function with the same key but different block sizes. -/
def Clash (first second : Call R D) : Prop :=
  first.blockSize ≠ second.blockSize ∧
    ∃ r ∈ first.request, ∃ r' ∈ second.request, r.1 = r'.1

theorem request_blockSize (call : Call R D) (r : Request D) (made : r ∈ call.request) :
    r.2.blockSize = call.blockSize ∧ r.1.seqK = call.seqK ∧
      r.1.numBlocks = call.seqK / call.blockSize := by
  cases call with
  | single call =>
    by_cases idle : (streamCompact call.blockMask).2 = 0
    · simp [Call.request, AttentionCall.request, idle] at made
    · simp only [Call.request, AttentionCall.request, dif_neg idle] at made
      split_ifs at made <;> (cases made; exact ⟨rfl, rfl, rfl⟩)
  | batched call =>
    by_cases idle : (streamCompact call.blockMask).2 = 0
    · simp [Call.request, BatchedCall.request, idle] at made
    · simp only [Call.request, BatchedCall.request, dif_neg idle] at made
      split_ifs at made <;> (cases made; exact ⟨rfl, rfl, rfl⟩)

theorem request_eq_of_not_clash (first second : Call R D) (r r' : Request D)
    (made : r ∈ first.request) (made' : r' ∈ second.request) (sameKey : r.1 = r'.1)
    (compatible : ¬Clash first second) : r = r' := by
  have sizes : r.2.blockSize = r'.2.blockSize := by
    rw [(request_blockSize first r made).1, (request_blockSize second r' made').1]
    by_contra different
    exact compatible ⟨different, r, made, r', made', sameKey⟩
  obtain ⟨key, trace⟩ := r
  obtain ⟨key', trace'⟩ := r'
  cases sameKey
  exact congrArg _ (Trace.ext_blockSize sizes)

theorem not_clash_of_dvd (first second : Call R D) (divides : first.blockSize ∣ first.seqK)
    (divides' : second.blockSize ∣ second.seqK) : ¬Clash first second := by
  rintro ⟨different, r, made, r', made', sameKey⟩
  obtain ⟨size, length, blocks⟩ := request_blockSize first r made
  obtain ⟨size', length', blocks'⟩ := request_blockSize second r' made'
  apply different
  rw [sameKey] at length blocks
  have lengths : first.seqK = second.seqK := length.symm.trans length'
  have counts : first.seqK / first.blockSize = second.seqK / second.blockSize :=
    blocks.symm.trans blocks'
  have positive : 0 < second.seqK / second.blockSize := by
    rw [← size', ← length']
    exact Nat.div_pos r'.2.fits (NeZero.pos r'.2.blockSize)
  have whole := Nat.div_mul_cancel divides
  have whole' := Nat.div_mul_cancel divides'
  rw [counts, lengths, ← whole'] at whole
  rw [Nat.mul_div_cancel _ (by rw [← size']; exact NeZero.pos _)] at whole
  exact Nat.eq_of_mul_eq_mul_left positive whole

end Requests

section Runs
variable {R D : Type} [Field R] [LinearOrder R] [DecidableEq D] (A : Arith R)

theorem run_traces (process : Process D) (call : Call R D) :
    (call.run A process).1.traces =
      call.request.elim process.traces (fun request => process.traces.serve request) := by
  cases call with
  | single call =>
    unfold Call.run Call.request AttentionCall.run AttentionCall.request
    by_cases idle : (streamCompact call.blockMask).2 = 0
    · simp only [dif_pos idle]
      rfl
    · simp only [dif_neg idle]
      split_ifs <;> rfl
  | batched call =>
    unfold Call.run Call.request BatchedCall.run BatchedCall.request
    by_cases idle : (streamCompact call.blockMask).2 = 0
    · simp only [dif_pos idle]
      rfl
    · simp only [dif_neg idle]
      split_ifs <;> rfl

theorem runCalls_traces (process : Process D) (calls : List (Call R D)) :
    (runCalls A process calls).traces =
      process.traces.serveAll (calls.filterMap Call.request) := by
  induction calls generalizing process with
  | nil => rfl
  | cons call calls ih =>
    rw [runCalls, List.foldl_cons, ← runCalls, ih, run_traces, List.filterMap_cons]
    cases call.request <;> rfl

/-- What a call returns depends on the process only through the answer to its request. -/
theorem run_result (process other : Process D) (call : Call R D)
    (same : ∀ request ∈ call.request,
      process.traces.answer request = other.traces.answer request) :
    (call.run A process).2 = (call.run A other).2 := by
  cases call with
  | single call =>
    change ∀ request ∈ call.request, _ at same
    change (call.run A process).2 = (call.run A other).2
    unfold AttentionCall.run
    unfold AttentionCall.request at same
    by_cases idle : (streamCompact call.blockMask).2 = 0
    · simp only [dif_pos idle]
    · simp only [dif_neg idle] at same ⊢
      split_ifs at same ⊢ with short
      · simp only [Process.jit, same _ rfl]
      · simp only [Process.jit, same _ rfl]
  | batched call =>
    change ∀ request ∈ call.request, _ at same
    change (call.run A process).2 = (call.run A other).2
    unfold BatchedCall.run
    unfold BatchedCall.request at same
    by_cases idle : (streamCompact call.blockMask).2 = 0
    · simp only [dif_pos idle]
    · simp only [dif_neg idle] at same ⊢
      split_ifs at same ⊢ with short
      · simp only [Process.jit, same _ rfl]
      · simp only [Process.jit, same _ rfl]

/-- In a sequence of calls of which no two clash, every call returns what it returns in a fresh
process. -/
theorem run_eq_fresh (calls before after : List (Call R D)) (call : Call R D)
    (sequence : calls = before ++ call :: after)
    (compatible : ∀ first ∈ calls, ∀ second ∈ calls, ¬Clash first second) :
    (call.run A (runCalls A .fresh before)).2 = (call.run A .fresh).2 := by
  apply run_result
  intro request made
  have agrees : ∀ other ∈ before.filterMap Call.request, other.1 = request.1 →
      other = request := by
    intro other member sameKey
    obtain ⟨earlier, inside, made'⟩ := List.mem_filterMap.mp member
    apply request_eq_of_not_clash earlier call other request made' made sameKey
    apply compatible
    · rw [sequence]
      exact List.mem_append_left _ inside
    · rw [sequence]
      exact List.mem_append_right _ List.mem_cons_self
  rw [runCalls_traces]
  exact answer_serveAll _ request agrees

theorem run_single_vmap (process : Process D) (call : AttentionCall R D)
    (active : (streamCompact call.blockMask).2 ≠ 0) (short : call.seqK ≤ seqThreshold) :
    haveI := neZero_of_active call.blockMask active
    (call.run A process).2.1 = dispatchVmap A
      (process.traces.answer ⟨call.key .dispatchVmap, call.blockSize,
        blockSize_positive call.blockMask active, blockSize_fits call.blockMask active⟩)
      call.q call.kCache call.vCache (streamCompact call.blockMask).1
      (streamCompact call.blockMask).2 := by
  unfold AttentionCall.run
  simp only [dif_neg active, if_pos short]
  rfl

theorem run_fresh_single (call : AttentionCall R D) [NeZero call.blockSize] :
    orthocacheAttention call.blockSize A call.q call.kCache call.vCache call.blockMask =
      .ok (call.run A .fresh).2 := by
  unfold orthocacheAttention AttentionCall.run
  by_cases idle : (streamCompact call.blockMask).2 = 0
  · simp only [dif_pos idle]
  · simp only [dif_neg idle, dif_pos (blockSize_fits call.blockMask idle)]
    split_ifs <;> rfl

theorem run_fresh_batched (call : BatchedCall R D) [NeZero call.blockSize] :
    orthocacheAttentionBatched call.blockSize A call.q call.kCache call.vCache call.blockMask =
      .ok (call.run A .fresh).2 := by
  unfold orthocacheAttentionBatched BatchedCall.run
  by_cases idle : (streamCompact call.blockMask).2 = 0
  · simp only [dif_pos idle]
  · simp only [dif_neg idle, dif_pos (blockSize_fits call.blockMask idle)]
    split_ifs <;> rfl

end Runs

section Leak

noncomputable def lastToken : Tensor ℝ 3 1 1 := fun k _ _ => if k.val = 2 then 1 else 0

/-- One query over it; blocks of two and of three tokens both leave one whole block. -/
noncomputable def lastTokenCall (blockSize : ℕ) : AttentionCall ℝ Unit where
  seqQ := 1
  seqK := 3
  heads := 1
  dim := 1
  dtypes := ()
  blockSize := blockSize
  q := zeros
  kCache := zeros
  vCache := lastToken
  blockMask := fun _ => true

theorem run_lastTokenCall_whole :
    (Call.run .exact (runCalls .exact .fresh [.single (lastTokenCall 3)])
        (.single (lastTokenCall 1))).2 =
      (Call.run .exact .fresh (.single (lastTokenCall 1))).2 := by
  have whole : ∀ call ∈ [Call.single (lastTokenCall 3), Call.single (lastTokenCall 1)],
      call.blockSize ∣ call.seqK := by
    intro call member
    rcases List.mem_pair.mp member with rfl | rfl
    · exact dvd_refl 3
    · exact one_dvd 3
  exact run_eq_fresh .exact _ [.single (lastTokenCall 3)] [] (.single (lastTokenCall 1)) rfl
    (fun first member second member' =>
      not_clash_of_dvd first second (whole first member) (whole second member'))

noncomputable def firstTokensAverage (size : ℕ) : ℝ :=
  (∑ t ∈ Finset.range size, if t = 2 then 1 else 0) / size

theorem dispatchVmap_lastToken {nb : ℕ} [NeZero nb] (trace : Trace 3) (indices : Fin nb → Fin nb)
    (first : ∀ i, (indices i).val = 0) :
    dispatchVmap .exact trace zeros zeros lastToken indices 1 (0 : Fin 1) 0 0 =
      firstTokensAverage trace.blockSize := by
  rw [dispatchVmap, ← multiheadLoop_eq, multiheadLoop_row, headRun]
  refine (Foundation.OnlineSoftmax.run_div _ _ _ _ _).trans ?_
  rw [firstTokensAverage, Finset.sum_range]
  simp [getClamped, first, dynamicSlice, lastToken, zeros, logit, -Finset.sum_boole]

theorem run_lastTokenCall (process : Process Unit) :
    ∃ own : Trace ((lastTokenCall 3).key .dispatchVmap).seqK, own.blockSize = 2 ∧
      ((lastTokenCall 2).run .exact process).2.1 (0 : Fin 1) (0 : Fin 1) (0 : Fin 1) =
        firstTokensAverage
          (process.traces.answer ⟨(lastTokenCall 3).key .dispatchVmap, own⟩).blockSize := by
  have active : (streamCompact (lastTokenCall 2).blockMask).2 = 1 := by decide
  have some : (streamCompact (lastTokenCall 2).blockMask).2 ≠ 0 := by omega
  have nonempty := neZero_of_active _ some
  have short : (lastTokenCall 2).seqK ≤ seqThreshold := by decide
  refine ⟨⟨2, blockSize_positive _ some, blockSize_fits _ some⟩, rfl, ?_⟩
  have output := dispatchVmap_lastToken (process.traces.answer ⟨(lastTokenCall 2).key .dispatchVmap,
    2, blockSize_positive _ some, blockSize_fits _ some⟩) (streamCompact (lastTokenCall 2).blockMask).1
    (fun i => Nat.lt_one_iff.mp (Fin.isLt _))
  rw [run_single_vmap .exact process _ some short, active]
  exact output

/-- After a call with blocks of three tokens, the call with blocks of two reads three. -/
theorem run_lastTokenCall_stale :
    (Call.run .exact (runCalls .exact .fresh [.single (lastTokenCall 3)])
        (.single (lastTokenCall 2))).2 ≠
      (Call.run .exact .fresh (.single (lastTokenCall 2))).2 := by
  intro same
  have outputs := congrArg (fun result => result.1 (0 : Fin 1) (0 : Fin 1) (0 : Fin 1)) same
  obtain ⟨own, ownSize, stale⟩ :=
    run_lastTokenCall (runCalls .exact .fresh [.single (lastTokenCall 3)])
  obtain ⟨own', ownSize', fresh⟩ := run_lastTokenCall .fresh
  have active : (streamCompact (lastTokenCall 3).blockMask).2 ≠ 0 := by decide
  have short : (lastTokenCall 3).seqK ≤ seqThreshold := by decide
  have earlier : (Call.single (lastTokenCall 3)).request = some ⟨(lastTokenCall 3).key .dispatchVmap,
      3, blockSize_positive _ active, blockSize_fits _ active⟩ := by
    simp only [Call.request, AttentionCall.request, dif_neg active, if_pos short]
    rfl
  have traces : (runCalls .exact .fresh [.single (lastTokenCall 3)]).traces =
      Table.empty.serve ⟨(lastTokenCall 3).key .dispatchVmap, 3, blockSize_positive _ active,
        blockSize_fits _ active⟩ := by
    rw [runCalls_traces, List.filterMap_cons, earlier]
    rfl
  rw [traces, answer_serve, answer_empty] at stale
  have third : firstTokensAverage 3 = firstTokensAverage own'.blockSize :=
    stale.symm.trans (outputs.trans fresh)
  rw [ownSize'] at third
  norm_num [firstTokensAverage, Finset.sum_range_succ] at third

end Leak

end OrthoCache.DispatchCache
