import OrthoCache.EmittedCompaction

/-!
What the pass leaves as it is. Besides adding instructions and computations it changes operands of
products and, of the loops it is working on, the condition and the initial value; a computation
that it adds is never changed again.
-/

namespace OrthoCache.StreamCompactFrame
open Foundation.Hlo StreamCompactPass EmittedCompaction

/-! ### Frames -/

/-- How an instruction may differ after the pass worked on the loops at `sites`. -/
inductive Edited (sites : Set (ℕ × ℕ)) (site : ℕ × ℕ) (old : Instruction) : Instruction → Prop
  | same : Edited sites site old old
  | product (operands : List ℕ) (multiply : old.opcode = .multiply) :
    Edited sites site old { old with operands := operands }
  | loop (condition newCondition body : ℕ) (operands : List ℕ) (visited : site ∈ sites)
    (loops : old.opcode = .while condition body) :
    Edited sites site old { old with opcode := .while newCondition body, operands := operands }

namespace Edited
variable {sites : Set (ℕ × ℕ)} {site : ℕ × ℕ} {old mid new : Instruction}

theorem shape (edited : Edited sites site old new) : new.shape = old.shape := by
  cases edited <;> rfl

theorem mono {more : Set (ℕ × ℕ)} (subset : sites ⊆ more) (edited : Edited sites site old new) :
    Edited more site old new := by
  cases edited with
  | same => exact .same
  | product operands multiply => exact .product operands multiply
  | loop condition newCondition body operands visited loops =>
    exact .loop condition newCondition body operands (subset visited) loops

theorem trans (first : Edited sites site old mid) (second : Edited sites site mid new) :
    Edited sites site old new := by
  cases first with
  | same => exact second
  | product operands multiply =>
    cases second with
    | same => exact .product operands multiply
    | product operands' _ => exact .product operands' multiply
    | loop _ _ _ _ _ loops => exact absurd (multiply.symm.trans loops) nofun
  | loop condition newCondition body operands visited loops =>
    cases second with
    | same => exact .loop condition newCondition body operands visited loops
    | product _ multiply => exact absurd multiply nofun
    | loop _ newer body' operands' _ again =>
      cases again
      exact .loop condition newer body operands' visited loops

theorem eq_of_other (edited : Edited sites site old new) (other : isMultiply old = false)
    (unvisited : site ∉ sites ∨ isWhile old = false) : new = old := by
  cases edited with
  | same => rfl
  | product _ multiply =>
    simp only [isMultiply, multiply] at other
    cases other
  | loop _ _ _ _ visited loops =>
    cases unvisited with
    | inl outside => exact absurd visited outside
    | inr noLoop =>
      simp only [isWhile, loops] at noLoop
      cases noLoop

theorem isWhile_eq (edited : Edited sites site old new) : isWhile new = isWhile old := by
  cases edited with
  | same => rfl
  | product _ _ => rfl
  | loop _ _ _ _ _ loops => simp only [isWhile, loops]

theorem isMultiply_eq (edited : Edited sites site old new) : isMultiply new = isMultiply old := by
  cases edited with
  | same => rfl
  | product _ _ => rfl
  | loop _ _ _ _ _ loops => simp only [isMultiply, loops]

theorem isDot_eq (edited : Edited sites site old new) : isDot new = isDot old := by
  cases edited with
  | same => rfl
  | product _ _ => rfl
  | loop _ _ _ _ _ loops => simp only [isDot, loops]

end Edited

/-- What is left of `m` in `m'`, where computations from `count` on are complete. -/
structure Kept (count : ℕ) (sites : Set (ℕ × ℕ)) (m m' : HloModule) : Prop where
  instruction : ∀ c id old, m.instruction c id = some old →
    ∃ new, m'.instruction c id = some new ∧ Edited sites (c, id) old new
  loop : ∀ c id new, m'.instruction c id = some new → isWhile new = true →
    ∃ old, m.instruction c id = some old
  length : m.computations.length ≤ m'.computations.length
  complete : ∀ f computation, count ≤ f → m.computations[f]? = some computation →
    m'.computations[f]? = some computation

namespace Kept
variable {count : ℕ} {sites : Set (ℕ × ℕ)} {m m' m'' : HloModule}

theorem refl : Kept count sites m m where
  instruction _ _ old found := ⟨old, found, .same⟩
  loop _ _ new found _ := ⟨new, found⟩
  length := le_rfl
  complete _ _ _ found := found

theorem mono {more : Set (ℕ × ℕ)} (subset : sites ⊆ more) (kept : Kept count sites m m') :
    Kept count more m m' where
  instruction c id old found := by
    obtain ⟨new, here, edited⟩ := kept.instruction c id old found
    exact ⟨new, here, edited.mono subset⟩
  loop := kept.loop
  length := kept.length
  complete := kept.complete

theorem trans (first : Kept count sites m m') (second : Kept count sites m' m'') :
    Kept count sites m m'' where
  instruction c id old found := by
    obtain ⟨mid, there, edited⟩ := first.instruction c id old found
    obtain ⟨new, here, again⟩ := second.instruction c id mid there
    exact ⟨new, here, edited.trans again⟩
  loop c id new found loops := by
    obtain ⟨mid, there⟩ := second.loop c id new found loops
    obtain ⟨new', here, edited⟩ := second.instruction c id mid there
    obtain rfl := Option.some.inj (found.symm.trans here)
    exact first.loop c id mid there (edited.isWhile_eq.symm.trans loops)
  length := first.length.trans second.length
  complete f computation added found :=
    second.complete f computation added (first.complete f computation added found)

end Kept

section Persistence
variable {count : ℕ} {sites : Set (ℕ × ℕ)} {m m' : HloModule} (kept : Kept count sites m m')
include kept

theorem Kept.same {c id : ℕ} {old : Instruction} (found : m.instruction c id = some old)
    (other : isMultiply old = false) (unvisited : (c, id) ∉ sites ∨ isWhile old = false) :
    m'.instruction c id = some old := by
  obtain ⟨new, here, edited⟩ := kept.instruction c id old found
  rw [here, edited.eq_of_other other unvisited]

theorem Kept.loop_of_unvisited {c id : ℕ} {loop : Instruction}
    (found : m'.instruction c id = some loop) (loops : isWhile loop = true)
    (unvisited : (c, id) ∉ sites) : m.instruction c id = some loop := by
  obtain ⟨old, there⟩ := kept.loop c id loop found loops
  obtain ⟨new, here, edited⟩ := kept.instruction c id old there
  obtain rfl := Option.some.inj (found.symm.trans here)
  have other : isMultiply old = false := by
    rw [edited.isWhile_eq] at loops
    unfold isWhile at loops
    split at loops
    next opcode => rw [isMultiply, opcode]
    next => cases loops
  rw [there, edited.eq_of_other other (.inl unvisited)]

theorem Kept.shape {c id : ℕ} {shape : Shape}
    (shaped : (m.instruction c id).map Instruction.shape = some shape) :
    (m'.instruction c id).map Instruction.shape = some shape := by
  obtain ⟨old, found, rfl⟩ := Option.map_eq_some_iff.mp shaped
  obtain ⟨new, here, edited⟩ := kept.instruction c id old found
  rw [here, Option.map_some, edited.shape]

end Persistence

/-! ### Edits -/

section Edits
variable {count : ℕ} {sites : Set (ℕ × ℕ)}

theorem grown_kept (m : HloModule) (c : ℕ) (added : List Instruction) (embedded : List Computation)
    (editable : c < count)
    (noLoop : ∀ instruction ∈ added, isWhile instruction = false)
    (noLoops : ∀ computation ∈ embedded, ∀ instruction ∈ computation.instructions,
      isWhile instruction = false) :
    Kept count sites m (grown m c added embedded) where
  instruction f id old found := ⟨old, grown_original m c added embedded f id old found, .same⟩
  loop f id new found loops := by
    rcases grown_cases m c added embedded f id new found with old | member | ⟨computation, new', member⟩
    · exact ⟨new, old⟩
    · exact absurd loops (by rw [noLoop new member]; decide)
    · exact absurd loops (by rw [noLoops computation new' new member]; decide)
  length := by
    rw [grown_length]
    exact Nat.le_add_right _ _
  complete f computation added' found := by
    have inside := (List.getElem?_eq_some_iff.mp found).1
    rwa [grown_of_ne m c added embedded f (by omega) inside]

theorem modifyInstruction_instruction (m : HloModule) (c id : ℕ) (edit : Instruction → Instruction)
    (f k : ℕ) : (modifyInstruction c id edit m).2.instruction f k =
      if c = f ∧ id = k then (m.instruction f k).map edit else m.instruction f k := by
  change (HloModule.mk _).instruction f k = _
  unfold HloModule.instruction
  simp only [List.getElem?_modify]
  cases m.computations[f]? with
  | none => simp
  | some computation =>
    by_cases same : c = f
    · by_cases here : id = k
      · simp [same, here]
      · simp [same, here]
    · simp [same]

theorem modifyInstruction_kept (m : HloModule) (c id : ℕ) (edit : Instruction → Instruction)
    (editable : c < count)
    (edits : ∀ old, m.instruction c id = some old → Edited sites (c, id) old (edit old)) :
    Kept count sites m (modifyInstruction c id edit m).2 where
  instruction f k old found := by
    rw [modifyInstruction_instruction, found]
    split_ifs with here
    · obtain ⟨rfl, rfl⟩ := here
      exact ⟨edit old, rfl, edits old found⟩
    · exact ⟨old, rfl, .same⟩
  loop f k new found loops := by
    rw [modifyInstruction_instruction] at found
    split_ifs at found with here
    · obtain ⟨old, there, _⟩ := Option.map_eq_some_iff.mp found
      exact ⟨old, there⟩
    · exact ⟨new, found⟩
  length := by
    change _ ≤ (List.modify _ _ _).length
    rw [List.length_modify]
  complete f computation added found := by
    change (List.modify _ _ _)[f]? = _
    rw [List.getElem?_modify_ne _ _ (by omega), found]

end Edits

/-! ### The stages -/

section Stages
variable (compatible : Shape → Shape → Bool)

theorem pass_get_bind {α : Type} (next : HloModule → Pass α) (m : HloModule) :
    (get >>= next : Pass α) m = next m m := rfl

theorem deref_bind {α β : Type} (found : Option α) (next : α → Pass β) (m : HloModule) :
    (found = none ∧ (deref found >>= next : Pass β) m = (.error .danglingReference, m)) ∨
      ∃ x, found = some x ∧ (deref found >>= next : Pass β) m = next x m := by
  cases found with
  | none => exact .inl ⟨rfl, rfl⟩
  | some x => exact .inr ⟨x, rfl, rfl⟩

theorem deref_some_bind {α β : Type} (x : α) (next : α → Pass β) :
    (deref (some x) >>= next : Pass β) = next x := rfl

theorem replaceOperandWith_cases (c id position newOperand : ℕ) (m : HloModule) :
    (∃ e, replaceOperandWith compatible c id position newOperand m = (.error e, m)) ∨
      ∃ instruction oldOperand old new, m.instruction c id = some instruction ∧
        instruction.operands[position]? = some oldOperand ∧ m.instruction c oldOperand = some old ∧
        m.instruction c newOperand = some new ∧ compatible old.shape new.shape = true ∧
        replaceOperandWith compatible c id position newOperand m =
          (.ok (), (modifyInstruction c id (fun instruction =>
            { instruction with operands := instruction.operands.set position newOperand }) m).2) := by
  unfold replaceOperandWith
  rw [pass_get_bind]
  rcases deref_bind (m.instruction c id) _ m with ⟨_, failed⟩ | ⟨instruction, found, step⟩
  · exact .inl ⟨_, failed⟩
  rcases deref_bind instruction.operands[position]? _ m with ⟨_, failed⟩ | ⟨oldOperand, here, step'⟩
  · exact .inl ⟨_, step.trans failed⟩
  replace step := step.trans step'
  rcases deref_bind (m.instruction c oldOperand) _ m with ⟨_, failed⟩ | ⟨old, foundOld, step'⟩
  · exact .inl ⟨_, step.trans failed⟩
  replace step := step.trans step'
  rcases deref_bind (m.instruction c newOperand) _ m with ⟨_, failed⟩ | ⟨new, foundNew, step'⟩
  · exact .inl ⟨_, step.trans failed⟩
  replace step := step.trans step'
  cases accepted : compatible old.shape new.shape with
  | false => exact .inl ⟨.incompatibleShapes, step.trans (by rw [accepted]; rfl)⟩
  | true =>
    exact .inr ⟨instruction, oldOperand, old, new, found, here, foundOld, foundNew, accepted,
      step.trans (by rw [accepted]; rfl)⟩

theorem replaceOperandWith_eq {c id position newOperand oldOperand : ℕ} {m : HloModule}
    {instruction old new : Instruction} (found : m.instruction c id = some instruction)
    (operand : instruction.operands[position]? = some oldOperand)
    (foundOld : m.instruction c oldOperand = some old)
    (foundNew : m.instruction c newOperand = some new) :
    replaceOperandWith compatible c id position newOperand m =
      if compatible old.shape new.shape then
        (.ok (), (modifyInstruction c id (fun instruction =>
          { instruction with operands := instruction.operands.set position newOperand }) m).2)
      else (.error .incompatibleShapes, m) := by
  unfold replaceOperandWith
  rw [pass_get_bind, found, deref_some_bind, operand, deref_some_bind, foundOld, deref_some_bind,
    foundNew, deref_some_bind]
  split_ifs <;> rfl

def initExtended (c numActive : ℕ) (loop : AttentionLoopMatch) (operands : List ℕ)
    (shapes : List Shape) (m : HloModule) : HloModule :=
  grown m c [{ opcode := .tuple, shape := .tuple shapes, operands := operands ++ [numActive] }]
    [reindexedCondition (.tuple shapes) loop.loopVarIndex operands.length]

def conditionReplaced (c numActive : ℕ) (loop : AttentionLoopMatch) (operands : List ℕ)
    (shapes : List Shape) (m : HloModule) : HloModule :=
  (setWhileCondition c loop.whileInst m.computations.length
    (initExtended c numActive loop operands shapes m)).2

theorem rewriteLoopCondition_of_found (c numActive : ℕ) (loop : AttentionLoopMatch) (m : HloModule)
    (inside : c < m.computations.length) {whileInst condRoot init : Instruction}
    {computation : Computation} {condition body initId : ℕ} {direction : ComparisonDirection}
    {shapes : List Shape} (found : m.instruction c loop.whileInst = some whileInst)
    (loops : whileInst.opcode = .while condition body)
    (there : m.computations[condition]? = some computation)
    (foundRoot : m.instruction condition computation.root = some condRoot)
    (compares : condRoot.opcode = .compare direction)
    (first : whileInst.operands[0]? = some initId) (foundInit : m.instruction c initId = some init)
    (shaped : (init.operands ++ [numActive]).mapM
      (fun id => (m.instruction c id).map Instruction.shape) = some shapes) :
    rewriteLoopCondition compatible c numActive loop m =
      replaceOperandWith compatible c loop.whileInst 0 (size m c)
        (conditionReplaced c numActive loop init.operands shapes m) := by
  let newInit : Instruction :=
    { opcode := .tuple, shape := .tuple shapes, operands := init.operands ++ [numActive] }
  let newCond := reindexedCondition (.tuple shapes) loop.loopVarIndex init.operands.length
  have extended : addInstruction c newInit m = (size m c, grown m c [newInit] []) := by
    have adding := addInstruction_grown m c [] [] inside newInit
    rwa [grown_nil] at adding
  have embedded := addEmbeddedComputation_grown m c [newInit] [] newCond
  unfold rewriteLoopCondition
  rw [pass_get_bind, found, deref_some_bind]
  simp only [loops]
  rw [there, deref_some_bind, foundRoot, deref_some_bind]
  simp only [compares]
  rw [first, deref_some_bind, foundInit, deref_some_bind, shaped, deref_some_bind]
  change replaceOperandWith compatible c loop.whileInst 0 (addInstruction c newInit m).1
    (setWhileCondition c loop.whileInst
      (addEmbeddedComputation newCond (addInstruction c newInit m).2).1
      (addEmbeddedComputation newCond (addInstruction c newInit m).2).2).2 = _
  rw [extended, embedded]
  rfl

variable {count : ℕ} {sites : Set (ℕ × ℕ)}

theorem Edited.of_operands {site : ℕ × ℕ} {old : Instruction} {condition body : ℕ}
    (visited : site ∈ sites) (loops : old.opcode = .while condition body) (operands : List ℕ) :
    Edited sites site old { old with operands := operands } := by
  have edited : Edited sites site old _ :=
    .loop condition condition body operands visited loops
  rwa [← loops] at edited

theorem opcode_of_isMultiply {instruction : Instruction}
    (multiplies : isMultiply instruction = true) : instruction.opcode = .multiply := by
  unfold isMultiply at multiplies
  split at multiplies
  next product => exact product
  next => cases multiplies

def lookupInstructions (bodyParam loopVarGte base : ℕ) : List Instruction :=
  [{ opcode := .dynamicSlice [1], shape := .array .s32 [1], operands := [bodyParam, loopVarGte] },
    { opcode := .reshape, shape := s32Scalar, operands := [base] }]

theorem redirectUser_product (body bodyParam loopVarGte user : ℕ) (m : HloModule)
    (inside : body < m.computations.length) (instruction : Instruction)
    (found : m.instruction body user = some instruction) (multiplies : isMultiply instruction = true) :
    redirectUser compatible body bodyParam loopVarGte user m =
      replaceOperandWith compatible body user (instruction.operands.idxOf loopVarGte) (size m body + 1)
        (grown m body (lookupInstructions bodyParam loopVarGte (size m body)) []) := by
  let lookup : Instruction :=
    { opcode := .dynamicSlice [1], shape := .array .s32 [1], operands := [bodyParam, loopVarGte] }
  let scalar := fun base => Instruction.mk .reshape s32Scalar [base]
  have first : addInstruction body lookup m = (size m body, grown m body [lookup] []) := by
    have adding := addInstruction_grown m body [] [] inside lookup
    rwa [grown_nil] at adding
  have second : addInstruction body (scalar (size m body)) (grown m body [lookup] []) =
      (size m body + 1, grown m body (lookupInstructions bodyParam loopVarGte (size m body)) []) :=
    addInstruction_grown m body [lookup] [] inside (scalar (size m body))
  unfold redirectUser
  rw [pass_get_bind, found]
  change (if isMultiply instruction = true then _ else _ : Pass Unit) m = _
  rw [if_pos multiplies]
  change replaceOperandWith compatible body user (instruction.operands.idxOf loopVarGte)
    (addInstruction body (scalar (addInstruction body lookup m).1) (addInstruction body lookup m).2).1
    (addInstruction body (scalar (addInstruction body lookup m).1) (addInstruction body lookup m).2).2
      = _
  rw [first, second]

end Stages

end OrthoCache.StreamCompactFrame
