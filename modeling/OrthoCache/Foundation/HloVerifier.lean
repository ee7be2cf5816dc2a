import OrthoCache.Foundation.HloEvaluation

/-!
Verification of dataflow modules: every operation has operands of the kinds and shapes it needs,
loops have one state shape and computations have a root.
-/

namespace OrthoCache.Foundation.Hlo

/-! ### Operands -/

namespace Shape

def isIndex : Shape → Bool
  | .array .s32 [] => true
  | .array (.integral _) [] => true
  | _ => false

def hasDims (dims : List ℕ) : Shape → Bool
  | .array _ dims' => dims' = dims
  | .tuple _ => false

end Shape

def keptDims (reduced extents : List ℕ) : List ℕ :=
  (extents.zipIdx.filter fun entry => !reduced.contains entry.2).map Prod.fst

/-- Whether an operation of this shape may have operands of these shapes. -/
def Opcode.fits (opcode : Opcode) (shape : Shape) (operands : List Shape) : Bool :=
  match opcode with
  | .parameter _ => operands = []
  | .constant literal => operands = [] ∧ literal.shape = shape
  | .tuple => shape = .tuple operands
  | .getTupleElement index =>
    match operands with
    | [.tuple elements] => elements[index]? = some shape
    | _ => false
  | .while _ _ => operands = [shape]
  | .dot =>
    match shape, operands with
    | .array _ _, [.array _ _, .array _ _] => true
    | _, _ => false
  -- a slice has one index for each dimension
  | .dynamicSlice sizes =>
    match shape, operands with
    | .array et dims, .array et' extents :: starts =>
      et = et' ∧ dims = sizes ∧ sizes.length = extents.length ∧ starts.length = extents.length ∧
        (sizes.zip extents).all (fun entry => entry.1 ≤ entry.2) ∧ starts.all Shape.isIndex
    | _, _ => false
  | .multiply => operands = [shape, shape]
  | .add => operands = [shape, shape]
  | .or => operands = [shape, shape]
  | .compare _ =>
    match shape, operands with
    | .array .pred dims, [.array et dims', .array et' dims''] =>
      et = et' ∧ dims' = dims ∧ dims'' = dims
    | _, _ => false
  | .select =>
    match shape with
    | .array et dims => operands = [.array .pred dims, .array et dims, .array et dims]
    | .tuple _ => false
  | .broadcast dims =>
    match shape, operands with
    | .array et extents, [.array et' extents'] =>
      et = et' ∧ dims.mapM (fun dim => extents[dim]?) = some extents'
    | _, _ => false
  | .reshape =>
    match shape, operands with
    | .array et dims, [.array et' dims'] => et = et' ∧ dims.prod = dims'.prod
    | _, _ => false
  | .iota dim =>
    match shape with
    | .array _ dims => operands = [] ∧ dim < dims.length
    | .tuple _ => false
  | .reduce dims _ =>
    match shape, operands with
    | .array et extents, [.array et' extents', initial] =>
      et = et' ∧ initial = .array et [] ∧ extents = keptDims dims extents'
    | _, _ => false
  | .reduceWindow window _ =>
    match shape, operands with
    | .array et counts, [.array et' extents, initial] =>
      et = et' ∧ initial = .array et [] ∧ window.length = extents.length ∧
        List.zipWith WindowDimension.count window extents = counts.map Nat.cast
    | _, _ => false
  -- several arrays are sorted together and returned as a tuple
  | .sort dim _ _ =>
    match operands with
    | .array et dims :: others =>
      (shape = .tuple operands ∨ operands = [shape]) ∧ dim < dims.length ∧
        (Shape.array et dims :: others).all (Shape.hasDims dims)
    | _ => false
  | .other _ => true

theorem fits_getTupleElement {index : ℕ} {shape : Shape} {operands : List Shape}
    (fit : (Opcode.getTupleElement index).fits shape operands = true) :
    ∃ elements, operands = [.tuple elements] ∧ elements[index]? = some shape := by
  simp only [Opcode.fits] at fit
  split at fit
  next elements => exact ⟨elements, rfl, decide_eq_true_eq.mp fit⟩
  next => cases fit

theorem fits_compare {direction : ComparisonDirection} {shape : Shape} {operands : List Shape}
    (fit : (Opcode.compare direction).fits shape operands = true) :
    ∃ et dims, shape = .array .pred dims ∧ operands = [.array et dims, .array et dims] := by
  simp only [Opcode.fits] at fit
  split at fit
  next dims et dims' et' dims'' =>
    obtain ⟨rfl, rfl, rfl⟩ := decide_eq_true_eq.mp fit
    exact ⟨et, _, rfl, rfl⟩
  next => cases fit

def HloModule.operandsFit (m : HloModule) (c : ℕ) (instruction : Instruction) : Bool :=
  match instruction.operands.mapM fun id => (m.instruction c id).map Instruction.shape with
  | some shapes => instruction.opcode.fits instruction.shape shapes
  | none => false

theorem shapes_of_operandsFit {m : HloModule} {c : ℕ} {instruction : Instruction}
    (fit : m.operandsFit c instruction = true) : ∃ shapes,
      List.Forall₂ (fun id shape => (m.instruction c id).map Instruction.shape = some shape)
        instruction.operands shapes ∧
      instruction.opcode.fits instruction.shape shapes = true := by
  unfold HloModule.operandsFit at fit
  split at fit
  next shapes typed => exact ⟨shapes, forall₂_of_mapM typed, fit⟩
  next => cases fit

theorem operand_of_operandsFit {m : HloModule} {c k id : ℕ} {instruction : Instruction}
    (fit : m.operandsFit c instruction = true) (operand : instruction.operands[k]? = some id) :
    ∃ used, m.instruction c id = some used := by
  obtain ⟨shapes, typed, _⟩ := shapes_of_operandsFit fit
  obtain ⟨shape, shaped⟩ := exists_of_forall₂ typed (List.mem_of_getElem? operand)
  obtain ⟨used, found, _⟩ := Option.map_eq_some_iff.mp shaped
  exact ⟨used, found⟩

/-! ### Modules -/

structure HloModule.Verified (m : HloModule) : Prop where
  wellShaped : m.WellShaped
  root : ∀ c computation, m.computations[c]? = some computation →
    ∃ instruction, m.instruction c computation.root = some instruction
  fits : ∀ c id instruction, m.instruction c id = some instruction →
    m.operandsFit c instruction = true

def HloModule.check (m : HloModule) : Bool :=
  m.verify && m.computations.zipIdx.all fun entry =>
    entry.1.instructions[entry.1.root]?.isSome &&
      entry.1.instructions.all (fun instruction => m.operandsFit entry.2 instruction)

theorem verified_of_check (m : HloModule) (checked : m.check = true) : m.Verified := by
  obtain ⟨shaped, computations⟩ := Bool.and_eq_true_iff.mp checked
  have each (c : ℕ) (computation : Computation) (there : m.computations[c]? = some computation) :=
    List.all_eq_true.mp computations _ (List.mk_mem_zipIdx_iff_getElem?.mpr there)
  simp only [Bool.and_eq_true] at each
  exact
    { wellShaped := wellShaped_of_verify m shaped
      root := fun c computation there => by
        obtain ⟨root, _⟩ := each c computation there
        obtain ⟨instruction, found⟩ := Option.isSome_iff_exists.mp root
        exact ⟨instruction, (instruction_eq there _).trans found⟩
      fits := fun c id instruction found => by
        obtain ⟨computation, there, here⟩ := Option.bind_eq_some_iff.mp found
        obtain ⟨_, fit⟩ := each c computation there
        exact List.all_eq_true.mp fit instruction (List.mem_of_getElem? here) }

end OrthoCache.Foundation.Hlo
