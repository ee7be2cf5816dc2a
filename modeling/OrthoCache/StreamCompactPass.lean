import OrthoCache.Foundation.HloEvaluation

/-!
The HLO pass that turns a predicated attention loop into a compacted one: matching the loop,
injecting the stream compaction, rewriting the condition and rewriting the body. Instructions and
computations are only ever added at the end, so their positions stand for the source's pointers.
The shape test of the library's `ReplaceOperandWith` is a parameter.
-/

namespace OrthoCache.StreamCompactPass
open Foundation.Hlo

section Library

abbrev Build := StateM HloModule

inductive PassError
  | expectedCompare
  | loopVariableNotFound
  | incompatibleShapes
  | danglingReference
  deriving DecidableEq, Repr

/-- Edits that return a status; an error does not undo the edits before it. -/
abbrev Pass := ExceptT PassError Build

/-- Dereferencing, which well-formed modules allow. -/
def deref {α : Type} (found : Option α) : Pass α :=
  match found with
  | some x => pure x
  | none => throw .danglingReference

def addInstruction (c : ℕ) (instruction : Instruction) : Build ℕ :=
  modifyGet fun m => (m.computations[c]?.elim 0 (fun computation => computation.instructions.length),
    { computations := m.computations.modify c fun computation =>
        { computation with instructions := computation.instructions ++ [instruction] } })

def addEmbeddedComputation (computation : Computation) : Build ℕ :=
  modifyGet fun m => (m.computations.length, { computations := m.computations ++ [computation] })

/-- `HloComputation::Builder::Build`: the root is the instruction added last. -/
def buildComputation (instructions : List Instruction) : Computation :=
  { instructions := instructions
    root := instructions.length - 1
    isFusion := false
    executionThread := "main" }

def modifyInstruction (c id : ℕ) (edit : Instruction → Instruction) : Build Unit :=
  modify fun m =>
    { computations := m.computations.modify c fun computation =>
        { computation with instructions := computation.instructions.modify id edit } }

def setWhileCondition (c id newCond : ℕ) : Build Unit :=
  modifyInstruction c id fun instruction =>
    match instruction.opcode with
    | .while _ body => { instruction with opcode := .while newCond body }
    | _ => instruction

/-- `ReplaceOperandWith`, which tests the old operand's shape against the new one's. -/
def replaceOperandWith (compatible : Shape → Shape → Bool) (c id position newOperand : ℕ) :
    Pass Unit := do
  let m ← get
  let instruction ← deref (m.instruction c id)
  let oldOperand ← deref instruction.operands[position]?
  let old ← deref (m.instruction c oldOperand)
  let new ← deref (m.instruction c newOperand)
  if compatible old.shape new.shape then
    modifyInstruction c id fun instruction =>
      { instruction with operands := instruction.operands.set position newOperand }
  else throw .incompatibleShapes

def isWhile (instruction : Instruction) : Bool :=
  match instruction.opcode with
  | .while _ _ => true
  | _ => false

def isDot (instruction : Instruction) : Bool :=
  match instruction.opcode with
  | .dot => true
  | _ => false

def isMultiply (instruction : Instruction) : Bool :=
  match instruction.opcode with
  | .multiply => true
  | _ => false

def isGetTupleElement (index : ℕ) (instruction : Instruction) : Bool :=
  match instruction.opcode with
  | .getTupleElement k => k = index
  | _ => false

def isParameter (number : ℕ) (instruction : Instruction) : Bool :=
  match instruction.opcode with
  | .parameter k => k = number
  | _ => false

def positionsOf (computation : Computation) (test : Instruction → Bool) : List ℕ :=
  (List.range computation.instructions.length).filter fun id =>
    computation.instructions[id]?.any test

/-- `users()`, in the order in which the users were added. -/
def users (computation : Computation) (id : ℕ) : List ℕ :=
  positionsOf computation (fun instruction => instruction.operands.contains id)

def elementType : Shape → Option ElementType
  | .array et _ => some et
  | .tuple _ => none

end Library

/-! ### Matching -/

section Match

structure AttentionLoopMatch where
  whileInst : ℕ
  blockMask : ℕ
  maskTupleIndex : ℕ
  kvTupleIndexK : ℕ
  kvTupleIndexV : Option ℕ
  loopVarIndex : ℕ
  numBlocks : ℕ
  blockSize : ℕ

/-- The tuple indices found so far; `-1` is `none`. -/
structure TupleIndices where
  loopVarIdx : Option ℕ
  maskIdx : Option ℕ
  kIdx : Option ℕ
  vIdx : Option ℕ

/-- One tuple element: the first scalar integer, the last mask, the first two caches. -/
def scanElement (found : TupleIndices) (i : ℕ) (shape : Shape) : TupleIndices :=
  let et := elementType shape
  let found := if shape.rank = 0 ∧ et = some .s32 ∧ found.loopVarIdx = none then
    { found with loopVarIdx := some i } else found
  let found := if shape.rank = 1 ∧ et = some .pred then { found with maskIdx := some i } else found
  let found := if shape.rank = 2 ∧ et = some .pred then { found with maskIdx := some i } else found
  if shape.rank = 3 ∧ (et = some .f32 ∨ et = some .bf16) then
    if found.kIdx = none then { found with kIdx := some i }
    else if found.vIdx = none then { found with vIdx := some i } else found
  else found

def scanTuple (shapes : List Shape) : TupleIndices :=
  shapes.zipIdx.foldl (fun found element => scanElement found element.2 element.1)
    { loopVarIdx := none, maskIdx := none, kIdx := none, vIdx := none }

/-- The constant on the right of the comparison, whatever is compared and in which direction. -/
def tripCount (m : HloModule) (cond : ℕ) : Option ℤ := do
  let condition ← m.computations[cond]?
  let condRoot ← m.instruction cond condition.root
  match condRoot.opcode with
  | .compare _ =>
    let rhs ← condRoot.operands[1]?
    let constant ← m.instruction cond rhs
    match constant.opcode with
    | .constant literal => literal.firstInteger
    | _ => none
  | _ => none

def matchAttentionLoop (blockSize : ℕ) (m : HloModule) (c whileInst : ℕ) :
    Option AttentionLoopMatch := do
  let loop ← m.instruction c whileInst
  match loop.opcode with
  | .while cond body =>
    let computation ← m.computations[body]?
    if computation.instructions.any isDot then
      let initId ← loop.operands[0]?
      let init ← m.instruction c initId
      match init.opcode with
      | .tuple =>
        let shapes ← init.operands.mapM fun id => (m.instruction c id).map Instruction.shape
        let found := scanTuple shapes
        let loopVarIdx ← found.loopVarIdx
        let maskIdx ← found.maskIdx
        let kIdx ← found.kIdx
        let trips ← tripCount m cond
        if 0 < trips then
          let blockMask ← init.operands[maskIdx]?
          pure
            { whileInst := whileInst
              blockMask := blockMask
              maskTupleIndex := maskIdx
              kvTupleIndexK := kIdx
              kvTupleIndexV := found.vIdx
              loopVarIndex := loopVarIdx
              numBlocks := trips.toNat
              blockSize := blockSize }
        else none
      | _ => none
    else none
  | _ => none

end Match

/-! ### Stream compaction -/

section Compaction

def predScalar : Shape := .array .pred []

def s32Scalar : Shape := .array .s32 []

/-- `LiteralUtil::CreateR0<int32_t>`, which narrows its argument. -/
def constantS32 (value : ℤ) : Instruction :=
  { opcode := .constant (.scalar .s32 (BitVec.ofInt 32 value)), shape := s32Scalar, operands := [] }

def parameterInstruction (number : ℕ) (shape : Shape) : Instruction :=
  { opcode := .parameter number, shape := shape, operands := [] }

def orReduce : Computation := buildComputation
  [parameterInstruction 0 predScalar, parameterInstruction 1 predScalar,
    { opcode := .or, shape := predScalar, operands := [0, 1] }]

def addReduce : Computation := buildComputation
  [parameterInstruction 0 s32Scalar, parameterInstruction 1 s32Scalar,
    { opcode := .add, shape := s32Scalar, operands := [0, 1] }]

/-- Compares the keys; the payloads are parameters 2 and 3. -/
def sortComparator : Computation := buildComputation
  [parameterInstruction 0 s32Scalar, parameterInstruction 1 s32Scalar,
    parameterInstruction 2 s32Scalar, parameterInstruction 3 s32Scalar,
    { opcode := .compare .lt, shape := predScalar, operands := [0, 1] }]

def causalWindow (numBlocks : ℕ) : WindowDimension :=
  { size := numBlocks
    stride := 1
    paddingLow := numBlocks - 1
    paddingHigh := 0
    windowDilation := 1
    baseDilation := 1 }

def reduceMask (c blockMask numBlocks : ℕ) : Build ℕ := do
  let m ← get
  if (m.instruction c blockMask).elim 0 (fun mask => mask.shape.rank) = 2 then
    let orComp ← addEmbeddedComputation orReduce
    let initVal ← addInstruction c
      { opcode := .constant (.scalar .pred false), shape := predScalar, operands := [] }
    addInstruction c
      { opcode := .reduce [1] orComp
        shape := .array .pred [numBlocks]
        operands := [blockMask, initVal] }
  else pure blockMask

/-- The active count, the prefix sum and the sort of a one-dimensional mask. -/
def buildTable (c mask1d numBlocks : ℕ) : Build (ℕ × ℕ) := do
  let i32Shape := Shape.array .s32 [numBlocks]
  let oneConst ← addInstruction c (constantS32 1)
  let ones ← addInstruction c { opcode := .broadcast [], shape := i32Shape, operands := [oneConst] }
  let zeroConst ← addInstruction c (constantS32 0)
  let zeros ← addInstruction c { opcode := .broadcast [], shape := i32Shape, operands := [zeroConst] }
  let maskI32 ← addInstruction c
    { opcode := .select, shape := i32Shape, operands := [mask1d, ones, zeros] }
  let addComp ← addEmbeddedComputation addReduce
  let zeroScalar ← addInstruction c (constantS32 0)
  let numActive ← addInstruction c
    { opcode := .reduce [0] addComp, shape := s32Scalar, operands := [maskI32, zeroScalar] }
  -- the prefix sum is emitted but nothing reads it
  let _ ← addInstruction c
    { opcode := .reduceWindow [causalWindow numBlocks] addComp
      shape := i32Shape
      operands := [maskI32, zeroScalar] }
  let iota ← addInstruction c { opcode := .iota 0, shape := i32Shape, operands := [] }
  let bound ← addInstruction c (constantS32 numBlocks)
  let mConst ← addInstruction c { opcode := .broadcast [], shape := i32Shape, operands := [bound] }
  let inactiveKeys ← addInstruction c
    { opcode := .add, shape := i32Shape, operands := [iota, mConst] }
  let sortKeys ← addInstruction c
    { opcode := .select, shape := i32Shape, operands := [mask1d, iota, inactiveKeys] }
  let cmpComp ← addEmbeddedComputation sortComparator
  let sort ← addInstruction c
    { opcode := .sort 0 cmpComp true
      shape := .tuple [i32Shape, i32Shape]
      operands := [sortKeys, iota] }
  let activeIndices ← addInstruction c
    { opcode := .getTupleElement 1, shape := i32Shape, operands := [sort] }
  pure (activeIndices, numActive)

/-- Returns the positions of the indirection table and of the active count. -/
def injectStreamCompaction (c blockMask numBlocks : ℕ) : Build (ℕ × ℕ) := do
  let mask1d ← reduceMask c blockMask numBlocks
  buildTable c mask1d numBlocks

end Compaction

/-! ### Rewriting the loop -/

section Rewrite
variable (compatible : Shape → Shape → Bool)

def reindexedCondition (loopState : Shape) (loopVarIndex numActiveIdx : ℕ) : Computation :=
  buildComputation
    [parameterInstruction 0 loopState,
      { opcode := .getTupleElement loopVarIndex, shape := s32Scalar, operands := [0] },
      { opcode := .getTupleElement numActiveIdx, shape := s32Scalar, operands := [0] },
      { opcode := .compare .lt, shape := predScalar, operands := [1, 2] }]

/-- Extends the initial tuple by the active count and compares with it. The body computation is
left as it is. -/
def rewriteLoopCondition (c numActive : ℕ) (loop : AttentionLoopMatch) : Pass Unit := do
  let m ← get
  let whileInst ← deref (m.instruction c loop.whileInst)
  match whileInst.opcode with
  | .while cond _ =>
    let condition ← deref m.computations[cond]?
    let condRoot ← deref (m.instruction cond condition.root)
    match condRoot.opcode with
    | .compare _ =>
      let initId ← deref whileInst.operands[0]?
      let oldInit ← deref (m.instruction c initId)
      let newInitElements := oldInit.operands ++ [numActive]
      let numActiveIdx := oldInit.operands.length
      let newShapes ← deref (newInitElements.mapM fun id =>
        (m.instruction c id).map Instruction.shape)
      let newTupleShape := Shape.tuple newShapes
      let newInit ← addInstruction c
        { opcode := .tuple, shape := newTupleShape, operands := newInitElements }
      let newCond ← addEmbeddedComputation
        (reindexedCondition newTupleShape loop.loopVarIndex numActiveIdx)
      setWhileCondition c loop.whileInst newCond
      replaceOperandWith compatible c loop.whileInst 0 newInit
    | _ => throw .expectedCompare
  | _ => throw .danglingReference

/-- What happens to a user of the loop variable: a product gets its factor from a slice. The slice
reads the whole loop state, not the indirection table. -/
def redirectUser (body bodyParam loopVarGte user : ℕ) : Pass Unit := do
  let m ← get
  let instruction ← deref (m.instruction body user)
  if isMultiply instruction then
    let indexLookup ← addInstruction body
      { opcode := .dynamicSlice [1]
        shape := .array .s32 [1]
        operands := [bodyParam, loopVarGte] }
    let indexScalar ← addInstruction body
      { opcode := .reshape, shape := s32Scalar, operands := [indexLookup] }
    replaceOperandWith compatible body user (instruction.operands.idxOf loopVarGte) indexScalar
  else pure ()

/-- The indirection table is an argument that the source does not use either. -/
def rewriteLoopBody (c _activeIndices : ℕ) (loop : AttentionLoopMatch) : Pass Unit := do
  let m ← get
  let whileInst ← deref (m.instruction c loop.whileInst)
  match whileInst.opcode with
  | .while _ body =>
    let computation ← deref m.computations[body]?
    let bodyParam ← deref (positionsOf computation (isParameter 0)).head?
    let states := (users computation bodyParam).filter fun user =>
      computation.instructions[user]?.any (isGetTupleElement loop.loopVarIndex)
    match states with
    | [] => throw .loopVariableNotFound
    | loopVarGte :: _ =>
      List.forM (users computation loopVarGte) (redirectUser compatible body bodyParam loopVarGte)
  | _ => throw .danglingReference

/-- One pass through the inner loop of `Run`; the match is returned when the loop is counted as
changed. -/
def processLoop (blockSize c whileInst : ℕ) : Build (Option AttentionLoopMatch) := do
  let m ← get
  match matchAttentionLoop blockSize m c whileInst with
  | none => pure none
  | some loop =>
    let (activeIndices, numActive) ← injectStreamCompaction c loop.blockMask loop.numBlocks
    match ← (rewriteLoopCondition compatible c numActive loop).run with
    | .error _ => pure none
    | .ok () =>
      match ← (rewriteLoopBody compatible c activeIndices loop).run with
      | .error _ => pure none
      | .ok () => pure (some loop)

/-- The loops of one computation are collected before any of them is rewritten. -/
def processComputation (blockSize : ℕ) (changed : List (ℕ × AttentionLoopMatch)) (c : ℕ) :
    Build (List (ℕ × AttentionLoopMatch)) := do
  let m ← get
  match m.computations[c]? with
  | none => pure changed
  | some computation =>
    if computation.isFusion then pure changed
    else
      (positionsOf computation isWhile).foldlM (fun changed whileInst => do
        match ← processLoop compatible blockSize c whileInst with
        | none => pure changed
        | some loop => pure (changed ++ [(c, loop)])) changed

/-- The loops that `Run` counts as changed, in order. The computations are those the module has
at the start: those that the pass adds have no loops. -/
def runLoops (blockSize : ℕ) (executionThreads : List String) :
    Build (List (ℕ × AttentionLoopMatch)) := do
  let m ← get
  let selected := (List.range m.computations.length).filter fun c =>
    m.computations[c]?.any fun computation =>
      executionThreads.isEmpty || executionThreads.contains computation.executionThread
  selected.foldlM (processComputation compatible blockSize) []

def run (blockSize : ℕ) (executionThreads : List String) : Build Bool := do
  let changed ← runLoops compatible blockSize executionThreads
  pure (!changed.isEmpty)

end Rewrite

end OrthoCache.StreamCompactPass
