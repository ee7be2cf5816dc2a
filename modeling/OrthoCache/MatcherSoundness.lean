import OrthoCache.PassValidity

/-!
What the matcher does not check. It takes the first scalar integer of the initial tuple for the
induction variable and the constant of the condition for the number of blocks; the rest of the pass
relies on a loop that counts that variable from zero up to that constant, over a mask of that many
rows.
-/

namespace OrthoCache.MatcherSoundness
open Foundation.Hlo StreamCompactPass EmittedCompaction StreamCompactFrame MatchedLoops
open LoopOutcomes TupleScan VisitedLoops ActiveBlockVisits PassValidity

def elementOf (index : ℕ) : Value → Option Value
  | .array _ _ _ => none
  | .tuple elements => elements[index]?

section Statements
variable (rest : Opcode → Shape → List Value → Option Value) (m : HloModule) (c : ℕ)
  (reading : LoopReading)

/-- The condition of the loop is a comparison by `direction` whose left side is element `index` of
the loop state. -/
def ComparesElement (direction : ComparisonDirection) (index : ℕ) : Prop :=
  ∃ computation root var, m.computations[reading.condition]? = some computation ∧
    m.instruction reading.condition computation.root = some root ∧
    root.opcode = .compare direction ∧ root.operands[0]? = some var ∧
    ReadsElement m reading.condition index var

structure CountsElement (index : ℕ) : Prop where
  starts : ∀ args initial, Evaluates rest m c args reading.initId initial →
    elementOf index initial = some (.scalar .s32 0)
  increases : ∀ state next i, Calls rest m reading.body [state] next →
    elementOf index state = some (.scalar .s32 i) →
    elementOf index next = some (.scalar .s32 (i + 1))

/-- The loop has `count` iterations: every run has, and there is one if the condition and the body
always return. -/
def RunsFor (count : ℕ) : Prop :=
  ∀ args initial, Evaluates rest m c args reading.initId initial →
    (∀ states, LoopRun rest m reading.condition reading.body initial states →
      states.length = count) ∧
    ((∀ state, state.shape = initial.shape → (∃ v, Calls rest m reading.condition [state] v) ∧
        ∃ next, Calls rest m reading.body [state] next) →
      ∃ states, LoopRun rest m reading.condition reading.body initial states)

def BoundedBy (count : ℤ) : Prop :=
  ∃ computation root bound constant word, m.computations[reading.condition]? = some computation ∧
    m.instruction reading.condition computation.root = some root ∧ root.operands[1]? = some bound ∧
    m.instruction reading.condition bound = some constant ∧
    constant.opcode = .constant (.scalar .s32 word) ∧ word.toInt = count

/-- The facts about a matched loop that the stages rely on. -/
structure SoundMatch (loop : AttentionLoopMatch) : Prop where
  compares : ComparesElement m reading .lt loop.loopVarIndex
  bounded : BoundedBy m reading loop.numBlocks
  counts : CountsElement rest m c reading loop.loopVarIndex
  runs : RunsFor rest m c reading loop.numBlocks
  masked : ∃ mask dims, m.instruction c loop.blockMask = some mask ∧
    mask.shape = .array .pred (loop.numBlocks :: dims)

/-- A loop that counts the first scalar integer of its state up to a constant, where the last mask
has as many rows as the constant says. -/
structure CountsBlocks (shapes : List Shape) : Prop where
  counts : ∃ index, shapes.findIdx? (fun shape => shape = s32Scalar) = some index ∧
    ComparesElement m reading .lt index ∧ CountsElement rest m c reading index
  masked : ∃ (position rows : ℕ) (dims : List ℕ),
    shapes[position]? = some (.array .pred (rows :: dims)) ∧ dims.length ≤ 1 ∧
    (∀ later shape, position < later → shapes[later]? = some shape → isMask shape = false) ∧
    BoundedBy m reading rows

end Statements

/-! ### The comparison -/

section Comparison
variable {rest : Opcode → Shape → List Value → Option Value} {m : HloModule} {blockSize c : ℕ}
  {whileInst : ℕ} {loop : AttentionLoopMatch} {reading : LoopReading} {shapes : List Shape}
  {trips : ℤ}

theorem trips_eq (recognized : Recognized blockSize m c whileInst loop reading shapes trips) :
    trips = loop.numBlocks := by
  rw [recognized.blocks_eq, Int.toNat_of_nonneg recognized.positive.le]

theorem exists_scalar {literal : Value} (shaped : literal.shape = s32Scalar) :
    ∃ word, literal = .scalar .s32 word := by
  obtain ⟨x, rfl⟩ := Value.exists_read_of_shape .s32 [] literal shaped
  exact ⟨x (), rfl⟩

theorem tripCount_some {condition : ℕ} {computation : Computation} {root : Instruction}
    (counted : tripCount m condition = some trips)
    (there : m.computations[condition]? = some computation)
    (found : m.instruction condition computation.root = some root)
    {direction : ComparisonDirection} (opcode : root.opcode = .compare direction) :
    ∃ bound constant literal, root.operands[1]? = some bound ∧
      m.instruction condition bound = some constant ∧ constant.opcode = .constant literal ∧
      literal.firstInteger = some trips := by
  obtain ⟨_, there', counted⟩ := Option.bind_eq_some_iff.mp counted
  obtain rfl := Option.some.inj (there.symm.trans there')
  obtain ⟨_, found', counted⟩ := Option.bind_eq_some_iff.mp counted
  obtain rfl := Option.some.inj (found.symm.trans found')
  rw [opcode] at counted
  obtain ⟨bound, second, counted⟩ := Option.bind_eq_some_iff.mp counted
  obtain ⟨constant, stands, counted⟩ := Option.bind_eq_some_iff.mp counted
  cases isConstant : constant.opcode with
  | constant literal =>
    rw [isConstant] at counted
    exact ⟨bound, constant, literal, second, stands, isConstant, counted⟩
  | _ =>
    rw [isConstant] at counted
    cases counted

section Typed
variable (verified : m.Verified) {f id : ℕ} {instruction : Instruction}
  (found : m.instruction f id = some instruction)
include verified found

theorem compare_operands {direction : ComparisonDirection} {var : ℕ}
    (opcode : instruction.opcode = .compare direction)
    (first : instruction.operands[0]? = some var)
    (scalar : (m.instruction f var).map Instruction.shape = some s32Scalar) :
    ∃ bound, instruction =
        { opcode := .compare direction, shape := predScalar, operands := [var, bound] } ∧
      (m.instruction f bound).map Instruction.shape = some s32Scalar := by
  obtain ⟨operandShapes, typed, fit⟩ := shapes_of_operandsFit (verified.fits _ _ _ found)
  rw [opcode] at fit
  obtain ⟨et, dims, shaped, rfl⟩ := fits_compare fit
  obtain ⟨left, others, leftShape, typed, operands⟩ := List.forall₂_cons_right_iff.mp typed
  obtain ⟨bound, ends, boundShape, ended, rfl⟩ := List.forall₂_cons_right_iff.mp typed
  obtain rfl := List.forall₂_nil_right_iff.mp ended
  rw [operands] at first
  obtain rfl := Option.some.inj first
  rw [scalar] at leftShape
  obtain ⟨rfl, rfl⟩ := Shape.array.inj (Option.some.inj leftShape)
  refine ⟨bound, ?_, boundShape⟩
  obtain ⟨_, _, _⟩ := instruction
  subst opcode shaped operands
  rfl

theorem constant_eq {literal : Value} (opcode : instruction.opcode = .constant literal)
    (shaped : instruction.shape = s32Scalar) :
    ∃ word, literal = .scalar .s32 word ∧ instruction =
      { opcode := .constant (.scalar .s32 word), shape := s32Scalar, operands := [] } := by
  obtain ⟨_, typed, fit⟩ := shapes_of_operandsFit (verified.fits _ _ _ found)
  rw [opcode, Opcode.fits, decide_eq_true_eq] at fit
  obtain ⟨rfl, literalShape⟩ := fit
  have free := List.forall₂_nil_right_iff.mp typed
  obtain ⟨word, rfl⟩ := exists_scalar (literalShape.trans shaped)
  refine ⟨word, rfl, ?_⟩
  obtain ⟨_, _, _⟩ := instruction
  subst opcode shaped free
  rfl

end Typed

variable (verified : m.Verified)
  (recognized : Recognized blockSize m c whileInst loop reading shapes trips)
include verified recognized

theorem readsElement_shape {var : ℕ}
    (reads : ReadsElement m reading.condition loop.loopVarIndex var) :
    (m.instruction reading.condition var).map Instruction.shape = some s32Scalar := by
  obtain ⟨instruction, parameter, state, found, opcode, operands, there, isParameter⟩ := reads
  have selected := element_shape verified (state_shape verified recognized).conditionParameter found
    opcode (operands ▸ List.mem_singleton_self parameter) there isParameter
  rw [found, Option.map_some, ← selected, loopVarIdx_eq_some recognized.loopVar]

theorem comparison {direction : ComparisonDirection}
    (compares : ComparesElement m reading direction loop.loopVarIndex) :
    ∃ computation var bound word, m.computations[reading.condition]? = some computation ∧
      m.instruction reading.condition computation.root =
        some { opcode := .compare direction, shape := predScalar, operands := [var, bound] } ∧
      ReadsElement m reading.condition loop.loopVarIndex var ∧
      m.instruction reading.condition bound =
        some { opcode := .constant (.scalar .s32 word), shape := s32Scalar, operands := [] } ∧
      word.toInt = loop.numBlocks := by
  obtain ⟨computation, root, var, there, found, opcode, first, reads⟩ := compares
  obtain ⟨bound, rfl, boundShape⟩ := compare_operands verified found opcode first
    (readsElement_shape verified recognized reads)
  -- the constant that the matcher read is the right operand
  obtain ⟨_, constant, literal, second, stands, isConstant, count⟩ :=
    tripCount_some recognized.trips_found there found rfl
  obtain rfl := Option.some.inj second
  rw [stands] at boundShape
  obtain ⟨word, rfl, rfl⟩ :=
    constant_eq verified stands isConstant (Option.some.inj boundShape)
  exact ⟨computation, var, bound, word, there, found, reads, stands,
    (Option.some.inj count).trans (trips_eq recognized)⟩

end Comparison

/-! ### The iterations -/

section Iterations
variable {rest : Opcode → Shape → List Value → Option Value} {m : HloModule} {blockSize c : ℕ}
  {whileInst : ℕ} {loop : AttentionLoopMatch} {reading : LoopReading} {shapes : List Shape}
  {trips : ℤ}

theorem shape_of_returns {f : ℕ} {args : List Value} {v : Value} {state : Shape}
    (returns : m.Returns f state) (called : Calls rest m f args v) : v.shape = state := by
  obtain ⟨computation, there, typed⟩ := returns
  obtain ⟨root, found, shaped⟩ := Option.map_eq_some_iff.mp typed
  obtain ⟨fuel, value⟩ := called.exists
  obtain ⟨_, there', value⟩ := Option.bind_eq_some_iff.mp value
  obtain rfl := Option.some.inj (there.symm.trans there')
  split_ifs at value with accepted
  rw [shape_of_evaluate found value, shaped]

variable (verified : m.Verified)
include verified

theorem parameter_evaluates {f id : ℕ} {shape : Shape} {parameter : Instruction}
    (takes : m.Takes f shape) (found : m.instruction f id = some parameter)
    (isParameter : parameter.opcode = .parameter 0) {state : Value} (shaped : state.shape = shape) :
    Evaluates rest m f [state] id state := by
  obtain ⟨_, typed, fit⟩ := shapes_of_operandsFit (verified.fits _ _ _ found)
  rw [isParameter, Opcode.fits, decide_eq_true_eq] at fit
  subst fit
  have free := List.forall₂_nil_right_iff.mp typed
  refine evaluates_of_operation found (by rw [free]; exact .nil) (fun _ _ => ?_) ?_
  · rw [isParameter]
    rfl
  · rw [shaped, takes.shape id parameter found isParameter]

theorem readsElement_evaluates {f index var : ℕ} (takes : m.Takes f (.tuple shapes))
    (reads : ReadsElement m f index var) {state v : Value} (shaped : state.shape = .tuple shapes)
    (here : elementOf index state = some v) : Evaluates rest m f [state] var v := by
  obtain ⟨instruction, parameter, first, found, opcode, operands, there, isParameter⟩ := reads
  have whole : Evaluates rest m f [state] parameter state :=
    parameter_evaluates verified takes there isParameter shaped
  refine evaluates_of_operation found (by rw [operands]; exact .cons whole .nil) (fun _ _ => ?_) ?_
  · rw [opcode]
    cases state with
    | array => cases here
    | tuple elements => exact here
  · have selected := element_shape verified takes found opcode
      (operands ▸ List.mem_singleton_self parameter) there isParameter
    cases state with
    | array => cases here
    | tuple elements =>
      rw [Value.shape, Value.shapes_eq] at shaped
      rw [← Shape.tuple.inj shaped, List.getElem?_map, show elements[index]? = some v from here,
        Option.map_some] at selected
      exact Option.some.inj selected

variable (recognized : Recognized blockSize m c whileInst loop reading shapes trips)
  (compares : ComparesElement m reading .lt loop.loopVarIndex)
include recognized compares

/-- The condition compares the induction variable with the number of blocks. -/
theorem condition_value {state v : Value} {i : BitVec 32} (shaped : state.shape = .tuple shapes)
    (here : elementOf loop.loopVarIndex state = some (.scalar .s32 i))
    (called : Calls rest m reading.condition [state] v) :
    v = .scalar .pred (decide (i.toInt < loop.numBlocks)) := by
  obtain ⟨computation, var, bound, word, there, root, reads, stands, count⟩ :=
    comparison verified recognized compares
  obtain ⟨fuel, value⟩ := called.exists
  obtain ⟨_, there', value⟩ := Option.bind_eq_some_iff.mp value
  obtain rfl := Option.some.inj (there.symm.trans there')
  split_ifs at value with accepted
  have left : Evaluates rest m reading.condition [state] var (.scalar .s32 i) :=
    readsElement_evaluates verified (state_shape verified recognized).conditionParameter reads
      shaped here
  have right : Evaluates rest m reading.condition [state] bound (.scalar .s32 word) :=
    evaluates_constant stands
  refine called.unique (calls_of_root there accepted (evaluates_of_operation root
    (.cons left (.cons right .nil)) (fun _ _ => ?_) rfl))
  rw [← count]
  simp only [evaluateOperation, compareSigned]
  rfl

/-- A loop that counts the induction variable from zero runs once for each block. -/
theorem runsFor_of_counts (counts : CountsElement rest m c reading loop.loopVarIndex) :
    RunsFor rest m c reading loop.numBlocks := by
  let remains : ℕ → Value → Prop := fun k state => state.shape = .tuple shapes ∧
    ∃ i, i + k = loop.numBlocks ∧
      elementOf loop.loopVarIndex state = some (.scalar .s32 (BitVec.ofNat 32 i))
  have small : loop.numBlocks < 2 ^ 31 := by
    obtain ⟨_, _, _, word, _, _, _, _, count⟩ := comparison verified recognized compares
    have bounded := word.toInt_lt
    omega
  have test (k : ℕ) (state v : Value) (left : remains k state)
      (called : Calls rest m reading.condition [state] v) :
      v = .scalar .pred (decide (0 < k)) := by
    obtain ⟨shaped, i, total, here⟩ := left
    rw [condition_value verified recognized compares shaped here called,
      word_toInt i (by omega)]
    congr 1
    exact decide_eq_decide.mpr (by omega)
  have iteration (k : ℕ) (state next : Value) (left : remains (k + 1) state)
      (called : Calls rest m reading.body [state] next) : remains k next := by
    obtain ⟨shaped, i, total, here⟩ := left
    refine ⟨shape_of_returns (state_shape verified recognized).bodyRoot called, i + 1, by omega, ?_⟩
    rw [counts.increases state next _ called here, BitVec.ofNat_add]
    rfl
  intro args initial evaluated
  have shaped : initial.shape = .tuple shapes := by
    rw [evaluated.shape recognized.init_found, init_shape verified recognized]
  have start : remains loop.numBlocks initial :=
    ⟨shaped, 0, Nat.zero_add _, counts.starts args initial evaluated⟩
  refine ⟨fun states run => run.length_eq test iteration start, fun returns => ?_⟩
  apply LoopRun.exists_of_returns test iteration _ start
  intro k state left
  exact returns state (left.1.trans shaped.symm)

end Iterations

/-! ### Sound matches -/

theorem BoundedBy.unique {m : HloModule} {reading : LoopReading} {n k : ℤ}
    (first : BoundedBy m reading n) (second : BoundedBy m reading k) : n = k := by
  obtain ⟨_, _, _, _, word, there, root, operand, stands, constant, rfl⟩ := first
  obtain ⟨_, _, _, _, word', there', root', operand', stands', constant', rfl⟩ := second
  obtain rfl := Option.some.inj (there.symm.trans there')
  obtain rfl := Option.some.inj (root.symm.trans root')
  obtain rfl := Option.some.inj (operand.symm.trans operand')
  obtain rfl := Option.some.inj (stands.symm.trans stands')
  have same := congrArg Value.firstInteger (Opcode.constant.inj (constant.symm.trans constant'))
  exact Option.some.inj same

section Sound
variable {rest : Opcode → Shape → List Value → Option Value} {m : HloModule} {blockSize c : ℕ}
  {whileInst : ℕ} {loop : AttentionLoopMatch} {reading : LoopReading} {shapes : List Shape}
  {trips : ℤ}
  (recognized : Recognized blockSize m c whileInst loop reading shapes trips)
include recognized

theorem mask_shape : ∃ mask, m.instruction c loop.blockMask = some mask ∧
    shapes[loop.maskTupleIndex]? = some mask.shape ∧ isMask mask.shape = true ∧
    ∀ position shape, loop.maskTupleIndex < position → shapes[position]? = some shape →
      isMask shape = false := by
  obtain ⟨⟨shape, here, isMask⟩, later⟩ := maskIdx_eq_some recognized.mask
  have typed := forall₂_getElem? (forall₂_of_mapM recognized.shaped) recognized.mask_operand here
  obtain ⟨mask, found, rfl⟩ := Option.map_eq_some_iff.mp typed
  exact ⟨mask, found, here, isMask, later⟩

theorem countsBlocks_of_soundMatch (sound : SoundMatch rest m c reading loop) :
    CountsBlocks rest m c reading shapes where
  counts := ⟨loop.loopVarIndex, (scanTuple_loopVarIdx shapes).symm.trans recognized.loopVar,
    sound.compares, sound.counts⟩
  masked := by
    obtain ⟨mask, dims, found, shaped⟩ := sound.masked
    obtain ⟨_, found', here, isMask, later⟩ := mask_shape recognized
    obtain rfl := Option.some.inj (found.symm.trans found')
    rw [shaped] at here isMask
    refine ⟨loop.maskTupleIndex, loop.numBlocks, dims, here, ?_, later, sound.bounded⟩
    rcases dims with _ | ⟨_, _ | _⟩
    · exact Nat.zero_le _
    · exact le_rfl
    · cases isMask

theorem maskTupleIndex_eq {position rows : ℕ} {dims : List ℕ}
    (here : shapes[position]? = some (.array .pred (rows :: dims))) (heads : dims.length ≤ 1)
    (last : ∀ later shape, position < later → shapes[later]? = some shape → isMask shape = false) :
    position = loop.maskTupleIndex := by
  obtain ⟨mask, _, there, isMask, later⟩ := mask_shape recognized
  rcases lt_trichotomy position loop.maskTupleIndex with before | same | after
  · rw [last _ _ before there] at isMask
    cases isMask
  · exact same
  · have other := later _ _ after here
    rcases dims with _ | ⟨_, _ | _⟩
    · cases other
    · cases other
    · simp at heads

theorem soundMatch_of_countsBlocks (verified : m.Verified)
    (counted : CountsBlocks rest m c reading shapes) : SoundMatch rest m c reading loop := by
  obtain ⟨⟨index, first, compares, counts⟩, position, rows, dims, here, heads, last, bounded⟩ :=
    counted
  rw [← scanTuple_loopVarIdx, recognized.loopVar] at first
  obtain rfl := Option.some.inj first
  obtain ⟨computation, _, bound, word, there, root, _, stands, count⟩ :=
    comparison verified recognized compares
  have matched : BoundedBy m reading loop.numBlocks :=
    ⟨computation, _, bound, _, word, there, root, rfl, stands, rfl, count⟩
  obtain rfl := Int.ofNat.inj (bounded.unique matched)
  obtain rfl := maskTupleIndex_eq recognized here heads last
  obtain ⟨mask, found, here', _⟩ := mask_shape recognized
  exact
    { compares := compares
      bounded := matched
      counts := counts
      runs := runsFor_of_counts verified recognized compares counts
      masked := ⟨mask, dims, found, Option.some.inj (here'.symm.trans here)⟩ }

end Sound

structure LoopParts (m : HloModule) (c whileInst : ℕ) (reading : LoopReading)
    (shapes : List Shape) : Prop where
  loop_found : m.instruction c whileInst = some reading.whileInst
  loop_opcode : reading.whileInst.opcode = .while reading.condition reading.body
  init_operand : reading.whileInst.operands[0]? = some reading.initId
  init_found : m.instruction c reading.initId = some reading.init
  shaped : reading.init.operands.mapM (fun id => (m.instruction c id).map Instruction.shape) =
    some shapes

theorem LoopParts.recognized {m : HloModule} {blockSize c whileInst : ℕ} {reading : LoopReading}
    {shapes : List Shape} {loop : AttentionLoopMatch}
    (parts : LoopParts m c whileInst reading shapes)
    (accepted : matchAttentionLoop blockSize m c whileInst = some loop) :
    ∃ trips, Recognized blockSize m c whileInst loop reading shapes trips := by
  obtain ⟨⟨instruction, condition, body, initId, init⟩, shapes', trips, recognized⟩ :=
    (matchAttentionLoop_eq_some_iff blockSize m c whileInst loop).mp accepted
  obtain ⟨instruction', condition', body', initId', init'⟩ := reading
  obtain rfl := Option.some.inj (parts.loop_found.symm.trans recognized.loop_found)
  obtain ⟨rfl, rfl⟩ := Opcode.while.inj (parts.loop_opcode.symm.trans recognized.loop_opcode)
  obtain rfl := Option.some.inj (parts.init_operand.symm.trans recognized.init_operand)
  obtain rfl := Option.some.inj (parts.init_found.symm.trans recognized.init_found)
  obtain rfl := Option.some.inj (parts.shaped.symm.trans recognized.shaped)
  exact ⟨trips, recognized⟩

/-- What the stages rely on holds of an accepted loop if and only if the loop counts the first
scalar integer of its state up from zero, and its last mask has as many rows as the constant of the
condition says. -/
theorem matchAttentionLoop_sound_iff (rest : Opcode → Shape → List Value → Option Value)
    (blockSize : ℕ) (m : HloModule) (verified : m.Verified) (c whileInst : ℕ)
    (loop : AttentionLoopMatch) (accepted : matchAttentionLoop blockSize m c whileInst = some loop)
    (reading : LoopReading) (shapes : List Shape) (parts : LoopParts m c whileInst reading shapes) :
    SoundMatch rest m c reading loop ↔ CountsBlocks rest m c reading shapes := by
  obtain ⟨trips, recognized⟩ := parts.recognized accepted
  exact ⟨countsBlocks_of_soundMatch recognized, soundMatch_of_countsBlocks recognized verified⟩

/-! ### Samples -/

section Sample
variable {rest : Opcode → Shape → List Value → Option Value} {m : HloModule}

theorem elementOf_tuple {f id k operand : ℕ} {args : List Value} {whole v : Value}
    {instruction : Instruction} (found : m.instruction f id = some instruction)
    (opcode : instruction.opcode = .tuple) (listed : instruction.operands[k]? = some operand)
    (tuple : Evaluates rest m f args id whole) (value : Evaluates rest m f args operand v) :
    elementOf k whole = some v := by
  unfold Evaluates at tuple
  rw [← Filter.map_add_atTop_eq_nat 1, Filter.eventually_map] at tuple
  obtain ⟨fuel, tuple, value⟩ := (tuple.and value).exists
  obtain ⟨_, vs, found', operands, operation, _⟩ := exists_of_evaluate tuple
  obtain rfl := Option.some.inj (found.symm.trans found')
  rw [opcode] at operation
  obtain rfl := Option.some.inj operation
  have related := forall₂_of_mapM operands
  have inside := (List.getElem?_eq_some_iff.mp listed).1
  have here := List.getElem?_eq_getElem (related.length_eq ▸ inside)
  have same := forall₂_getElem? related listed here
  rw [value] at same
  exact here.trans same.symm

theorem evaluates_of_calls {f : ℕ} {args : List Value} {v : Value} {computation : Computation}
    (there : m.computations[f]? = some computation) (called : Calls rest m f args v) :
    Evaluates rest m f args computation.root v := by
  filter_upwards [called] with fuel value
  obtain ⟨_, there', value⟩ := Option.bind_eq_some_iff.mp value
  obtain rfl := Option.some.inj (there.symm.trans there')
  split_ifs at value with accepted
  exact value

def twoBlockShapes : List Shape :=
  [s32Scalar, .array .f32 [1], .array .f32 [4, 1, 1], .array .f32 [4, 1, 1], .array .pred [2]]

def twoBlockReading : LoopReading :=
  { whileInst := { opcode := .while 0 1, shape := twoBlockState, operands := [5] }
    condition := 0
    body := 1
    initId := 5
    init := { opcode := .tuple, shape := twoBlockState, operands := [0, 1, 2, 3, 4] } }

theorem twoBlockLoop_increases {state next : Value} {i : BitVec 32}
    (called : Calls rest twoBlockLoop 1 [state] next)
    (here : elementOf 0 state = some (.scalar .s32 i)) :
    elementOf 0 next = some (.scalar .s32 (i + 1)) := by
  have takes := (twoBlockLoop_verified.wellShaped.loop 2 6 _ 0 1 rfl rfl).bodyParameter
  obtain ⟨fuel, value⟩ := called.exists
  have shaped : state.shape = twoBlockState :=
    Option.some.inj (shape_of_callAt value (show twoBlockLoop.instruction 1 0 = _ from rfl) rfl)
  have var : Evaluates rest twoBlockLoop 1 [state] 1 (.scalar .s32 i) :=
    readsElement_evaluates twoBlockLoop_verified takes
      ⟨element 0 s32Scalar, 0, parameterInstruction 0 twoBlockState, rfl, rfl, rfl, rfl, rfl⟩
      shaped here
  have one : Evaluates rest twoBlockLoop 1 [state] 12 (.scalar .s32 1#32) :=
    evaluates_constant rfl
  have sum : Evaluates rest twoBlockLoop 1 [state] 13 (.scalar .s32 (i + 1)) :=
    evaluates_of_operation rfl (.cons var (.cons one .nil)) (fun _ _ => rfl) rfl
  exact elementOf_tuple rfl rfl rfl (evaluates_of_calls rfl called) sum

theorem twoBlockLoop_counts : CountsBlocks rest twoBlockLoop 2 twoBlockReading twoBlockShapes where
  counts := by
    refine ⟨0, rfl, ?_, ?_⟩
    · exact ⟨twoBlockCondition, _, 1, rfl, rfl, rfl, rfl,
        element 0 s32Scalar, 0, parameterInstruction 0 twoBlockState, rfl, rfl, rfl, rfl, rfl⟩
    · exact
        { starts := fun args initial evaluated =>
            elementOf_tuple rfl rfl rfl evaluated (evaluates_constant rfl)
          increases := fun state next i called here => twoBlockLoop_increases called here }
  masked := by
    refine ⟨4, 2, [], rfl, Nat.zero_le _, fun later shape after here => ?_,
      twoBlockCondition, _, 2, _, 2#32, rfl, rfl, rfl, rfl, rfl, rfl⟩
    rw [List.getElem?_eq_none (show twoBlockShapes.length ≤ later from after)] at here
    cases here

def zeroFloats (_ : Opcode) (shape : Shape) (_ : List Value) : Option Value :=
  match shape with
  | .array .f32 dims => some (.array .f32 dims (fun _ => (0 : ℕ)))
  | _ => none

theorem twoBlockLoop_sound : SoundMatch zeroFloats twoBlockLoop 2 twoBlockReading twoBlockMatch :=
  (matchAttentionLoop_sound_iff zeroFloats 2 twoBlockLoop twoBlockLoop_verified 2 6 twoBlockMatch rfl
    twoBlockReading twoBlockShapes ⟨rfl, rfl, rfl, rfl, rfl⟩).mpr twoBlockLoop_counts

/-- The same loop, with its blocks counted down from two to one. -/
def countdownLoop : HloModule :=
  { computations :=
      [buildComputation [parameterInstruction 0 twoBlockState, element 0 s32Scalar, constantS32 1,
        { opcode := .compare .ge, shape := predScalar, operands := [1, 2] }],
      { twoBlockBody with instructions := twoBlockBody.instructions.set 12 (constantS32 (-1)) },
      { twoBlockEntry with instructions := twoBlockEntry.instructions.set 0 (constantS32 2) }] }

/-- The matcher takes the last block for the number of blocks. -/
theorem countdownLoop_unsound : countdownLoop.Verified ∧
    matchAttentionLoop 2 countdownLoop 2 6 = some { twoBlockMatch with numBlocks := 1 } ∧
    LoopParts countdownLoop 2 6 twoBlockReading twoBlockShapes ∧
    ¬SoundMatch zeroFloats countdownLoop 2 twoBlockReading
      { twoBlockMatch with numBlocks := 1 } := by
  refine ⟨verified_of_check _ (by decide), rfl, ⟨rfl, rfl, rfl, rfl, rfl⟩, fun sound => ?_⟩
  obtain ⟨computation, root, _, there, found, opcode, _⟩ := sound.compares
  obtain rfl := Option.some.inj there
  obtain rfl := Option.some.inj found
  cases opcode

end Sample

end OrthoCache.MatcherSoundness
