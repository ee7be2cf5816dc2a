import Mathlib

/-!
A dataflow language of array programs: computations are graphs of instructions over typed arrays
and tuples, an instruction may call other computations, and loops are instructions. Evaluation is
by need, with fuel for the depth of a graph and the iterations of a loop. The operations whose
meaning a development does not need are a parameter.
-/

namespace OrthoCache.Foundation.Hlo
open Filter

/-! ### Shapes and values -/

inductive ElementType
  | pred
  | s32
  | f32
  | bf16
  | integral (code : ℕ)
  | other (code : ℕ)
  deriving DecidableEq, Repr

/-- Types other than truth values and 32-bit integers hold an integer or a bit pattern. -/
abbrev ElementType.Carrier : ElementType → Type
  | pred => Bool
  | s32 => BitVec 32
  | integral _ => ℤ
  | _ => ℕ

inductive Shape
  | array (elementType : ElementType) (dims : List ℕ)
  | tuple (elements : List Shape)
  deriving Repr

namespace Shape

theorem array_eq_iff (et et' : ElementType) (dims dims' : List ℕ) :
    et = et' ∧ dims = dims' ↔ array et dims = array et' dims' := by rw [array.injEq]

mutual

def decEq : (a b : Shape) → Decidable (a = b)
  | .array et dims, .array et' dims' => decidable_of_iff _ (array_eq_iff et et' dims dims')
  | .tuple vs, .tuple ws =>
    match decEqs vs ws with
    | isTrue same => isTrue (congrArg tuple same)
    | isFalse differ => isFalse (fun same => differ (tuple.inj same))
  | .array _ _, .tuple _ => isFalse nofun
  | .tuple _, .array _ _ => isFalse nofun

def decEqs : (vs ws : List Shape) → Decidable (vs = ws)
  | [], [] => isTrue rfl
  | v :: vs, w :: ws =>
    match decEq v w, decEqs vs ws with
    | isTrue head, isTrue tail => isTrue (congr (congrArg List.cons head) tail)
    | isFalse differ, _ => isFalse (fun same => differ (List.head_eq_of_cons_eq same))
    | _, isFalse differ => isFalse (fun same => differ (List.tail_eq_of_cons_eq same))
  | [], _ :: _ => isFalse nofun
  | _ :: _, [] => isFalse nofun

end

instance : DecidableEq Shape := decEq

def rank : Shape → ℕ
  | .array _ dims => dims.length
  | .tuple _ => 0

end Shape

abbrev Index : List ℕ → Type
  | [] => Unit
  | n :: dims => Fin n × Index dims

def index1 {n : ℕ} (i : Fin n) : Index [n] := (i, ())

def index2 {n m : ℕ} (i : Fin n) (j : Fin m) : Index [n, m] := (i, j, ())

def Index.leading {n : ℕ} {dims : List ℕ} (i : Index (n :: dims)) : Fin n := i.1

def firstIndex : (dims : List ℕ) → Option (Index dims)
  | [] => some ()
  | 0 :: _ => none
  | (n + 1) :: dims => (firstIndex dims).map (fun rest => ((0 : Fin (n + 1)), rest))

inductive Value
  | array (elementType : ElementType) (dims : List ℕ) (entry : Index dims → elementType.Carrier)
  | tuple (elements : List Value)

namespace Value

mutual

def shape : Value → Shape
  | .array et dims _ => .array et dims
  | .tuple vs => .tuple (shapes vs)

def shapes : List Value → List Shape
  | [] => []
  | v :: vs => shape v :: shapes vs

end

theorem shapes_eq (vs : List Value) : shapes vs = vs.map shape := by
  induction vs with
  | nil => rfl
  | cons v vs ih => rw [shapes, ih, List.map_cons]

def scalar (et : ElementType) (x : et.Carrier) : Value := .array et [] (fun _ => x)

def read (et : ElementType) (dims : List ℕ) : Value → Option (Index dims → et.Carrier)
  | .array et' dims' x =>
    if type : et' = et then
      if size : dims' = dims then some (size ▸ type ▸ x) else none
    else none
  | .tuple _ => none

theorem read_array (et : ElementType) (dims : List ℕ) (x : Index dims → et.Carrier) :
    (array et dims x).read et dims = some x := by simp [read]

theorem read_scalar (et : ElementType) (x : et.Carrier) :
    (scalar et x).read et [] = some (fun _ => x) := read_array et [] _

theorem exists_read_of_shape (et : ElementType) (dims : List ℕ) (v : Value)
    (shaped : v.shape = .array et dims) : ∃ x, v = .array et dims x := by
  cases v with
  | tuple vs => cases shaped
  | array et' dims' y =>
    cases shaped
    exact ⟨y, rfl⟩

def truth (v : Value) : Option Bool := (v.read .pred []).map (fun x => x ())

theorem truth_scalar (b : Bool) : (scalar .pred b).truth = some b := by
  rw [truth, read_scalar]
  rfl

def firstInteger : Value → Option ℤ
  | .array .s32 dims x => (firstIndex dims).map (fun i => BitVec.toInt (x i))
  | .array (.integral _) dims x => (firstIndex dims).map x
  | _ => none

end Value

/-! ### Programs -/

inductive ComparisonDirection
  | eq
  | ne
  | lt
  | le
  | gt
  | ge
  deriving DecidableEq, Repr

def ComparisonDirection.holds : ComparisonDirection → ℤ → ℤ → Bool
  | eq, x, y => x = y
  | ne, x, y => x ≠ y
  | lt, x, y => x < y
  | le, x, y => x ≤ y
  | gt, x, y => x > y
  | ge, x, y => x ≥ y

structure WindowDimension where
  size : ℕ
  stride : ℕ
  paddingLow : ℤ
  paddingHigh : ℤ
  windowDilation : ℕ
  baseDilation : ℕ

/-- Computations that an operation calls are named by their position in the module. -/
inductive Opcode
  | parameter (number : ℕ)
  | constant (literal : Value)
  | tuple
  | getTupleElement (index : ℕ)
  | while (condition body : ℕ)
  | dot
  | dynamicSlice (sizes : List ℕ)
  | multiply
  | add
  | or
  | compare (direction : ComparisonDirection)
  | select
  | broadcast (dims : List ℕ)
  | reshape
  | iota (dim : ℕ)
  | reduce (dims : List ℕ) (toApply : ℕ)
  | reduceWindow (window : List WindowDimension) (toApply : ℕ)
  | sort (dim comparator : ℕ) (isStable : Bool)
  | other (name : String)

/-- Operands are named by their position in the computation. -/
structure Instruction where
  opcode : Opcode
  shape : Shape
  operands : List ℕ

structure Computation where
  instructions : List Instruction
  root : ℕ
  isFusion : Bool
  executionThread : String

structure HloModule where
  computations : List Computation

def HloModule.instruction (m : HloModule) (c id : ℕ) : Option Instruction := do
  let computation ← m.computations[c]?
  computation.instructions[id]?

structure HloModule.Takes (m : HloModule) (f : ℕ) (state : Shape) : Prop where
  parameter : ∃ id instruction, m.instruction f id = some instruction ∧
    instruction.opcode = .parameter 0
  shape : ∀ id instruction, m.instruction f id = some instruction →
    instruction.opcode = .parameter 0 → instruction.shape = state

def HloModule.Returns (m : HloModule) (f : ℕ) (state : Shape) : Prop :=
  ∃ computation, m.computations[f]? = some computation ∧
    (m.instruction f computation.root).map Instruction.shape = some state

structure HloModule.StateShaped (m : HloModule) (c : ℕ) (loop : Instruction) (condition body : ℕ)
    (state : Shape) : Prop where
  init : ∃ id, loop.operands = [id] ∧ (m.instruction c id).map Instruction.shape = some state
  conditionParameter : m.Takes condition state
  bodyParameter : m.Takes body state
  bodyRoot : m.Returns body state

/-- What a verified module satisfies: tuples have the shapes of their elements, and loops have one
state shape. -/
structure HloModule.WellShaped (m : HloModule) : Prop where
  tuple : ∀ c id instruction, m.instruction c id = some instruction → instruction.opcode = .tuple →
    ∃ shapes, instruction.operands.mapM (fun id => (m.instruction c id).map Instruction.shape) =
      some shapes ∧ instruction.shape = .tuple shapes
  loop : ∀ c id instruction condition body, m.instruction c id = some instruction →
    instruction.opcode = .while condition body →
    m.StateShaped c instruction condition body instruction.shape

def Computation.parameters (computation : Computation) : List Instruction :=
  computation.instructions.filter fun instruction =>
    match instruction.opcode with
    | .parameter 0 => true
    | _ => false

/-- The part of verification that concerns tuples and loops. -/
def HloModule.verifyInstruction (m : HloModule) (c : ℕ) (instruction : Instruction) : Bool :=
  match instruction.opcode with
  | .tuple =>
    (instruction.operands.mapM fun id => (m.instruction c id).map Instruction.shape).map
      Shape.tuple = some instruction.shape
  | .while condition body =>
    match instruction.operands, m.computations[condition]?, m.computations[body]? with
    | [id], some test, some step =>
      let state := instruction.shape
      (m.instruction c id).map Instruction.shape = some state &&
        (!test.parameters.isEmpty && test.parameters.all (fun p => p.shape = state)) &&
        (!step.parameters.isEmpty && step.parameters.all (fun p => p.shape = state)) &&
        step.instructions[step.root]?.map Instruction.shape = some state
    | _, _, _ => false
  | _ => true

def HloModule.verify (m : HloModule) : Bool :=
  m.computations.zipIdx.all fun entry =>
    entry.1.instructions.all (fun instruction => m.verifyInstruction entry.2 instruction)

theorem instruction_eq {m : HloModule} {f : ℕ} {computation : Computation}
    (found : m.computations[f]? = some computation) (id : ℕ) :
    m.instruction f id = computation.instructions[id]? := by
  unfold HloModule.instruction
  rw [found]
  rfl

theorem takes_of_parameters {m : HloModule} {f : ℕ} {computation : Computation} {state : Shape}
    (found : m.computations[f]? = some computation)
    (exist : (!computation.parameters.isEmpty) = true)
    (typed : computation.parameters.all (fun p => p.shape = state) = true) : m.Takes f state where
  parameter := by
    rw [Bool.not_eq_true', List.isEmpty_eq_false_iff_exists_mem] at exist
    obtain ⟨p, member⟩ := exist
    obtain ⟨listed, test⟩ := List.mem_filter.mp member
    obtain ⟨id, inside, rfl⟩ := List.getElem_of_mem listed
    refine ⟨id, _, (instruction_eq found id).trans (List.getElem?_eq_getElem inside), ?_⟩
    split at test
    next opcode => exact opcode
    next => cases test
  shape id instruction there opcode := by
    rw [instruction_eq found] at there
    have member : instruction ∈ computation.parameters :=
      List.mem_filter.mpr ⟨List.mem_of_getElem? there, by simp only [opcode]⟩
    exact decide_eq_true_eq.mp (List.all_eq_true.mp typed instruction member)

theorem verifyInstruction_of_verify {m : HloModule} (verified : m.verify = true) {c id : ℕ}
    {instruction : Instruction} (found : m.instruction c id = some instruction) :
    m.verifyInstruction c instruction = true := by
  obtain ⟨computation, there, here⟩ := Option.bind_eq_some_iff.mp found
  have entry : (computation, c) ∈ m.computations.zipIdx := List.mk_mem_zipIdx_iff_getElem?.mpr there
  exact List.all_eq_true.mp (List.all_eq_true.mp verified _ entry) instruction
    (List.mem_of_getElem? here)

theorem wellShaped_of_verify (m : HloModule) (verified : m.verify = true) : m.WellShaped where
  tuple c id instruction found opcode := by
    have check := verifyInstruction_of_verify verified found
    simp only [HloModule.verifyInstruction, opcode, decide_eq_true_eq] at check
    obtain ⟨shapes, elements, same⟩ := Option.map_eq_some_iff.mp check
    exact ⟨shapes, elements, same.symm⟩
  loop c id instruction condition body found opcode := by
    have check := verifyInstruction_of_verify verified found
    simp only [HloModule.verifyInstruction, opcode] at check
    split at check
    next initId test step operands foundTest foundStep =>
      simp only [Bool.and_eq_true, decide_eq_true_eq] at check
      obtain ⟨⟨⟨init, ⟨testExist, testTyped⟩⟩, ⟨stepExist, stepTyped⟩⟩, root⟩ := check
      exact
        { init := ⟨initId, operands, init⟩
          conditionParameter := takes_of_parameters foundTest testExist testTyped
          bodyParameter := takes_of_parameters foundStep stepExist stepTyped
          bodyRoot := ⟨step, foundStep, by rw [instruction_eq foundStep, root]⟩ }
    next => cases check

def Computation.accepts (computation : Computation) (args : List Value) : Bool :=
  computation.instructions.all fun instruction =>
    match instruction.opcode with
    | .parameter number => args[number]?.map Value.shape = some instruction.shape
    | _ => true

end OrthoCache.Foundation.Hlo
