import OrthoCache.EditedComputations
import OrthoCache.TupleScan

/-!
What a run does to each loop that the matcher accepts. The condition is set before anything can
fail, so it is replaced whether or not the loop is counted; the loop is counted if the longer
initial value is accepted and the body reads the induction variable.
-/

namespace OrthoCache.LoopOutcomes
open Foundation.Hlo Arrays StreamCompactPass EmittedCompaction StreamCompactFrame MatchedLoops
open EditedComputations TupleScan

/-! ### The body stage -/

/-- The instruction that the body stage takes for the induction variable. -/
def loopVarGte (computation : Computation) (loopVarIndex : ℕ) : Option ℕ := do
  let bodyParam ← (positionsOf computation (isParameter 0)).head?
  ((users computation bodyParam).filter fun user =>
    computation.instructions[user]?.any (isGetTupleElement loopVarIndex)).head?

def multipliesLoopVar (computation : Computation) (loopVarIndex : ℕ) : Bool :=
  (loopVarGte computation loopVarIndex).any fun gte =>
    (users computation gte).any fun user => computation.instructions[user]?.any isMultiply

theorem mem_positionsOf {computation : Computation} {test : Instruction → Bool} {id : ℕ} :
    id ∈ positionsOf computation test ↔
      ∃ instruction, computation.instructions[id]? = some instruction ∧ test instruction = true := by
  unfold positionsOf
  rw [List.mem_filter, List.mem_range, Option.any_eq_true]
  constructor
  · rintro ⟨_, instruction, here, holds⟩
    exact ⟨instruction, here, holds⟩
  · rintro ⟨instruction, here, holds⟩
    exact ⟨(List.getElem?_eq_some_iff.mp here).1, instruction, here, holds⟩

theorem positionsOf_filter (computation : Computation) (test test' : Instruction → Bool) :
    (positionsOf computation test).filter (fun id => computation.instructions[id]?.any test') =
      positionsOf computation (fun instruction => test' instruction && test instruction) := by
  unfold positionsOf
  rw [List.filter_filter]
  refine List.filter_congr (fun id _ => ?_)
  cases computation.instructions[id]? with
  | none => rfl
  | some instruction => rfl

section Framed
variable {count : ℕ} {sites : Set (ℕ × ℕ)} {touched : Set ℕ} {m m' : HloModule}
  (framed : Framed count sites touched m m') {f : ℕ} {old new : Computation}
  (before : m.computations[f]? = some old) (after : m'.computations[f]? = some new)
include framed before after

theorem positionsOf_framed (test : Instruction → Bool)
    (edits : ∀ id a b, Edited sites (f, id) a b → test b = test a)
    (fresh : ∀ instruction, Plain m f instruction → test instruction = false) :
    positionsOf new test = positionsOf old test := by
  obtain ⟨new', after', extended, _⟩ := framed.computation f old before
  obtain rfl := Option.some.inj (after.symm.trans after')
  have inside := (List.getElem?_eq_some_iff.mp before).1
  obtain ⟨extra, longer⟩ := Nat.exists_eq_add_of_le extended.length
  unfold positionsOf
  rw [longer, List.range_add, List.filter_append]
  have none_new : (List.map (old.instructions.length + ·) (List.range extra)).filter
      (fun id => new.instructions[id]?.any test) = [] := by
    rw [List.filter_eq_nil_iff]
    intro id member
    obtain ⟨k, _, rfl⟩ := List.mem_map.mp member
    have free : m.instruction f (old.instructions.length + k) = none := by
      rw [instruction_eq before, List.getElem?_eq_none_iff]
      exact Nat.le_add_right _ _
    intro passes
    obtain ⟨instruction, here, holds⟩ := (Option.any_eq_true _ _).mp passes
    rw [← instruction_eq after] at here
    cases (fresh instruction (framed.plain f _ instruction inside here free)).symm.trans holds
  rw [none_new, List.append_nil]
  refine List.filter_congr (fun id member => ?_)
  have there := List.getElem?_eq_getElem (List.mem_range.mp member)
  rw [← instruction_eq before] at there
  obtain ⟨b, here, edited⟩ := framed.instruction f id _ there
  rw [← instruction_eq after, here, ← instruction_eq before, there]
  exact edits id _ b edited

theorem loopVarGte_framed (loopVarIndex : ℕ) :
    loopVarGte new loopVarIndex = loopVarGte old loopVarIndex := by
  have parameters : positionsOf new (isParameter 0) = positionsOf old (isParameter 0) := by
    refine positionsOf_framed framed before after _ (fun id a b edited => ?_)
      (fun instruction plain => plain.noParameter 0)
    cases edited with
    | same => rfl
    | product _ multiply => simp only [isParameter, multiply]
    | loop _ _ _ _ _ loops => simp only [isParameter, loops]
  have reads (parameter : ℕ) (member : parameter ∈ positionsOf old (isParameter 0)) :
      (users new parameter).filter (fun user =>
          new.instructions[user]?.any (isGetTupleElement loopVarIndex)) =
        (users old parameter).filter (fun user =>
          old.instructions[user]?.any (isGetTupleElement loopVarIndex)) := by
    obtain ⟨state, there, _⟩ := mem_positionsOf.mp member
    rw [← instruction_eq before] at there
    unfold users
    rw [positionsOf_filter, positionsOf_filter]
    refine positionsOf_framed framed before after _ (fun id a b edited => ?_)
      (fun instruction plain => ?_)
    · cases edited with
      | same => rfl
      | product _ multiply => simp only [isGetTupleElement, multiply, Bool.false_and]
      | loop _ _ _ _ _ loops => simp only [isGetTupleElement, loops, Bool.false_and]
    · rw [Bool.and_eq_false_imp]
      intro reads
      rw [List.contains_eq_mem, decide_eq_false_iff_not]
      intro operand
      cases (plain.element loopVarIndex reads parameter operand).symm.trans there
  unfold loopVarGte
  rw [parameters]
  cases first : (positionsOf old (isParameter 0)).head? with
  | none => rfl
  | some parameter =>
    simp only [Option.bind_eq_bind, Option.bind_some,
      reads parameter (List.mem_of_mem_head? first)]

end Framed

/-! ### Redirecting the products -/

section Redirect
variable (compatible : Shape → Shape → Bool)

theorem pass_bind_ok {α β : Type} {stage : Pass α} {next : α → Pass β} {m m' : HloModule} {x : α}
    (ok : stage m = (.ok x, m')) : (stage >>= next : Pass β) m = next x m' := by
  change ExceptT.bindCont next (stage m).1 (stage m).2 = _
  rw [ok]
  rfl

theorem pass_bind_error {α β : Type} {stage : Pass α} {next : α → Pass β} {m m' : HloModule}
    {e : PassError} (failed : stage m = (.error e, m')) :
    (stage >>= next : Pass β) m = (.error e, m') := by
  change ExceptT.bindCont next (stage m).1 (stage m).2 = _
  rw [failed]
  rfl

variable (body bodyParam gte : ℕ)

theorem redirectUser_of_noProduct {user : ℕ} {m : HloModule} {instruction : Instruction}
    (found : m.instruction body user = some instruction) (other : isMultiply instruction = false) :
    redirectUser compatible body bodyParam gte user m = (.ok (), m) := by
  unfold redirectUser
  rw [pass_get_bind, found, deref_some_bind, other]
  rfl

def redirectAll (entries : List ℕ) : Pass Unit :=
  List.forM entries (redirectUser compatible body bodyParam gte)

theorem redirectAll_cons (user : ℕ) (entries : List ℕ) :
    redirectAll compatible body bodyParam gte (user :: entries) =
      (redirectUser compatible body bodyParam gte user >>= fun _ =>
        redirectAll compatible body bodyParam gte entries) := rfl

theorem lookupInstructions_plain (m : HloModule) (base : ℕ) :
    ∀ instruction ∈ lookupInstructions bodyParam gte base, Plain m body instruction := by
  apply plain_of_noElement
  simp [lookupInstructions, isWhile, isDot, isParameter, isGetTupleElement]

section Frame
variable {count : ℕ} {sites : Set (ℕ × ℕ)} {touched : Set ℕ} {m : HloModule}
  (editable : body < count) (edited : body ∈ touched) (room : count ≤ m.computations.length)
include editable edited room

theorem redirectProduct_framed {user : ℕ} {instruction : Instruction}
    (found : m.instruction body user = some instruction)
    (multiplies : isMultiply instruction = true) :
    Framed count sites touched (grown m body (lookupInstructions bodyParam gte (size m body)) [])
      (redirectUser compatible body bodyParam gte user m).2 := by
  rw [redirectUser_product compatible body bodyParam gte user m (by omega) instruction found
    multiplies]
  refine replaceOperandWith_framed compatible body user _ _ _ editable edited ?_
  intro old operands here
  rw [grown_original m body _ _ body user instruction found] at here
  obtain rfl := Option.some.inj here
  exact .product _ (opcode_of_isMultiply multiplies)

theorem redirectUser_framed (user : ℕ) :
    Framed count sites touched m (redirectUser compatible body bodyParam gte user m).2 := by
  cases found : m.instruction body user with
  | none =>
    unfold redirectUser
    rw [pass_get_bind, found]
    exact .refl
  | some instruction =>
    cases multiplies : isMultiply instruction with
    | false =>
      rw [redirectUser_of_noProduct compatible body bodyParam gte found multiplies]
      exact .refl
    | true =>
      exact (grown_framed m body _ _ editable edited
        (lookupInstructions_plain body bodyParam gte m _) (by simp)).trans
        (redirectProduct_framed compatible body bodyParam gte editable edited room found multiplies)

theorem redirectAll_framed (entries : List ℕ) :
    Framed count sites touched m (redirectAll compatible body bodyParam gte entries m).2 := by
  induction entries generalizing m with
  | nil => exact .refl
  | cons user entries ih =>
    have first :
        Framed count sites touched m (redirectUser compatible body bodyParam gte user m).2 :=
      redirectUser_framed compatible body bodyParam gte editable edited room user
    cases step : redirectUser compatible body bodyParam gte user m with
    | mk result m' =>
      rw [step] at first
      cases result with
      | error e =>
        rw [redirectAll_cons, pass_bind_error step]
        exact first
      | ok _ =>
        rw [redirectAll_cons, pass_bind_ok step]
        exact first.trans (ih (room.trans first.length))

end Frame

theorem redirectAll_of_noProduct {m : HloModule} (entries : List ℕ)
    (exist : ∀ user ∈ entries, ∃ instruction, m.instruction body user = some instruction ∧
      isMultiply instruction = false) :
    redirectAll compatible body bodyParam gte entries m = (.ok (), m) := by
  induction entries with
  | nil => rfl
  | cons user entries ih =>
    obtain ⟨instruction, found, other⟩ := exist user List.mem_cons_self
    rw [redirectAll_cons,
      pass_bind_ok (redirectUser_of_noProduct compatible body bodyParam gte found other)]
    exact ih (fun user' member => exist user' (List.mem_cons_of_mem _ member))

section Users
variable {m : HloModule} (inside : body < m.computations.length)
include inside

theorem size_redirectUser {user : ℕ} {instruction : Instruction}
    (found : m.instruction body user = some instruction)
    (multiplies : isMultiply instruction = true) :
    size m body < size (redirectUser compatible body bodyParam gte user m).2 body := by
  have longer := size_grown m body (lookupInstructions bodyParam gte (size m body)) [] inside
  have replaced : Framed m.computations.length ∅ {body} _ _ :=
    redirectProduct_framed compatible body bodyParam gte inside (Set.mem_singleton body) le_rfl
      found multiplies
  have kept := replaced.size_le body
  rw [longer] at kept
  exact (Nat.lt_add_of_pos_right Nat.two_pos).trans_le kept

theorem size_redirectAll (entries : List ℕ)
    (exist : ∀ user ∈ entries, ∃ instruction, m.instruction body user = some instruction)
    (product : ∃ user ∈ entries, ∃ instruction, m.instruction body user = some instruction ∧
      isMultiply instruction = true) :
    size m body < size (redirectAll compatible body bodyParam gte entries m).2 body := by
  induction entries with
  | nil => simp at product
  | cons user entries ih =>
    obtain ⟨instruction, found⟩ := exist user List.mem_cons_self
    cases multiplies : isMultiply instruction with
    | false =>
      rw [redirectAll_cons,
        pass_bind_ok (redirectUser_of_noProduct compatible body bodyParam gte found multiplies)]
      refine ih (fun other member => exist other (List.mem_cons_of_mem _ member)) ?_
      obtain ⟨other, member, instruction', found', multiplies'⟩ := product
      rcases List.mem_cons.mp member with rfl | later
      · obtain rfl := Option.some.inj (found.symm.trans found')
        cases multiplies.symm.trans multiplies'
      · exact ⟨other, later, instruction', found', multiplies'⟩
    | true =>
      have first : Framed m.computations.length ∅ {body} m _ :=
        redirectUser_framed compatible body bodyParam gte inside (Set.mem_singleton body) le_rfl user
      have longer := size_redirectUser compatible body bodyParam gte inside found multiplies
      cases step : redirectUser compatible body bodyParam gte user m with
      | mk result m' =>
        rw [step] at first longer
        cases result with
        | error e =>
          rw [redirectAll_cons, pass_bind_error step]
          exact longer
        | ok _ =>
          rw [redirectAll_cons, pass_bind_ok step]
          have others : Framed m.computations.length ∅ {body} m' _ :=
            redirectAll_framed compatible body bodyParam gte inside (Set.mem_singleton body)
              first.length entries
          exact longer.trans_le (others.size_le body)

end Users

theorem redirectUser_ok (reflexive : ∀ shape, compatible shape shape = true) {m : HloModule}
    (inside : body < m.computations.length)
    (scalar : (m.instruction body gte).map Instruction.shape = some s32Scalar) {user : ℕ}
    {instruction : Instruction} (found : m.instruction body user = some instruction)
    (operand : gte ∈ instruction.operands) :
    ∃ m', redirectUser compatible body bodyParam gte user m = (.ok (), m') ∧
      ∀ id other, id ≠ user → m.instruction body id = some other →
        m'.instruction body id = some other := by
  cases multiplies : isMultiply instruction with
  | false =>
    exact ⟨m, redirectUser_of_noProduct compatible body bodyParam gte found multiplies,
      fun _ _ _ stands => stands⟩
  | true =>
    obtain ⟨variable', foundVariable, shaped⟩ := Option.map_eq_some_iff.mp scalar
    let m₁ := grown m body (lookupInstructions bodyParam gte (size m body)) []
    have position : instruction.operands[instruction.operands.idxOf gte]? = some gte := by
      rw [List.getElem?_eq_getElem (List.idxOf_lt_length_of_mem operand), List.getElem_idxOf]
    have step : redirectUser compatible body bodyParam gte user m = (.ok (),
        (modifyInstruction body user (fun instruction' => { instruction' with
          operands := instruction'.operands.set (instruction.operands.idxOf gte)
            (size m body + 1) }) m₁).2) := by
      rw [redirectUser_product compatible body bodyParam gte user m inside instruction found
          multiplies,
        replaceOperandWith_eq compatible (grown_original m body _ _ body user instruction found)
          position (grown_original m body _ _ body gte variable' foundVariable)
          (grown_instruction m body _ _ inside 1), shaped]
      exact if_pos (reflexive s32Scalar)
    refine ⟨_, step, fun id other differs stands => ?_⟩
    rw [modifyInstruction_instruction, if_neg (fun same => differs same.2.symm)]
    exact grown_original m body _ _ body id other stands

theorem redirectAll_ok (reflexive : ∀ shape, compatible shape shape = true) {m : HloModule}
    (inside : body < m.computations.length)
    (scalar : (m.instruction body gte).map Instruction.shape = some s32Scalar) (entries : List ℕ)
    (distinct : entries.Nodup)
    (uses : ∀ user ∈ entries, ∃ instruction, m.instruction body user = some instruction ∧
      gte ∈ instruction.operands) :
    ∃ m', redirectAll compatible body bodyParam gte entries m = (.ok (), m') := by
  induction entries generalizing m with
  | nil => exact ⟨m, rfl⟩
  | cons user entries ih =>
    obtain ⟨notAgain, distinct⟩ := List.nodup_cons.mp distinct
    obtain ⟨instruction, found, operand⟩ := uses user List.mem_cons_self
    obtain ⟨m', step, others⟩ :=
      redirectUser_ok compatible body bodyParam gte reflexive inside scalar found operand
    have framed : Framed m.computations.length ∅ {body} m _ :=
      redirectUser_framed compatible body bodyParam gte inside (Set.mem_singleton body) le_rfl user
    rw [step] at framed
    rw [redirectAll_cons, pass_bind_ok step]
    refine ih (inside.trans_le framed.length) (framed.shape scalar) distinct
      (fun user' member => ?_)
    obtain ⟨instruction', found', operand'⟩ := uses user' (List.mem_cons_of_mem _ member)
    have differs : user' ≠ user := fun same => notAgain (same ▸ member)
    exact ⟨instruction', others user' instruction' differs found', operand'⟩

end Redirect

/-! ### The stages of a loop -/

section Stages
variable (compatible : Shape → Shape → Bool)

section Injection
variable {m : HloModule} {c blockMask : ℕ} {mask : Instruction} (n : ℕ)
  (found : m.instruction c blockMask = some mask)
include found

theorem injectStreamCompaction_framed {count : ℕ} {sites : Set (ℕ × ℕ)} {touched : Set ℕ}
    (editable : c < count) (edited : c ∈ touched) :
    Framed count sites touched m (injectStreamCompaction c blockMask n m).2 := by
  obtain ⟨added, embedded, module, _, plain, noLoops⟩ :=
    injectStreamCompaction_grown m c blockMask n mask found
  rw [module]
  exact grown_framed m c added embedded editable edited plain noLoops

theorem size_injectStreamCompaction :
    size m c < size (injectStreamCompaction c blockMask n m).2 c := by
  obtain ⟨added, embedded, module, nonempty, _⟩ :=
    injectStreamCompaction_grown m c blockMask n mask found
  rw [module, size_grown m c added embedded (inside_of_instruction found)]
  exact Nat.lt_add_of_pos_right (List.length_pos_iff.mpr nonempty)

theorem numActive_shape : ((injectStreamCompaction c blockMask n m).2.instruction c
    (injectStreamCompaction c blockMask n m).1.2).map Instruction.shape = some s32Scalar := by
  obtain ⟨added, embedded, module, _, _, mask1d, base, addComp, cmpComp, table⟩ :=
    injectStreamCompaction_emits m c blockMask n 0 mask found (Nat.zero_le _)
  rw [table.ids_eq, module, table.emitted 6 _ rfl]
  rfl

end Injection

section Condition
variable {m : HloModule} {blockSize c whileInst numActive : ℕ} {loop : AttentionLoopMatch}
  {reading : LoopReading} {shapes : List Shape} {trips : ℤ}
  (recognized : Recognized blockSize m c whileInst loop reading shapes trips)
  (counts : (m.instruction c numActive).map Instruction.shape = some s32Scalar)
include recognized counts

theorem extended_shapes : (reading.init.operands ++ [numActive]).mapM
    (fun id => (m.instruction c id).map Instruction.shape) = some (shapes ++ [s32Scalar]) := by
  rw [List.mapM_append, recognized.shaped, List.mapM_cons, counts]
  rfl

theorem rewriteLoopCondition_eq : rewriteLoopCondition compatible c numActive loop m =
    replaceOperandWith compatible c loop.whileInst 0 (size m c)
      (conditionReplaced c numActive loop reading.init.operands (shapes ++ [s32Scalar]) m) := by
  obtain ⟨computation, there, constant⟩ := Option.bind_eq_some_iff.mp recognized.trips_found
  obtain ⟨condRoot, foundRoot, constant⟩ := Option.bind_eq_some_iff.mp constant
  obtain ⟨direction, compares⟩ : ∃ direction, condRoot.opcode = .compare direction := by
    cases opcode : condRoot.opcode with
    | compare direction => exact ⟨direction, rfl⟩
    | _ => simp only [opcode] at constant; cases constant
  obtain rfl := recognized.while_eq
  exact rewriteLoopCondition_of_found compatible c numActive loop m
    (inside_of_instruction recognized.loop_found) recognized.loop_found recognized.loop_opcode there
    foundRoot compares recognized.init_operand recognized.init_found
    (extended_shapes recognized counts)

end Condition

def initReplaced (c numActive : ℕ) (loop : AttentionLoopMatch) (operands : List ℕ)
    (shapes : List Shape) (m : HloModule) : HloModule :=
  (modifyInstruction c loop.whileInst (fun instruction =>
    { instruction with operands := instruction.operands.set 0 (size m c) })
    (conditionReplaced c numActive loop operands shapes m)).2

section Replaced
variable {count : ℕ} {touched : Set ℕ} {m : HloModule} {c : ℕ} {loop : AttentionLoopMatch}
  (numActive : ℕ) (operands : List ℕ) (shapes : List Shape) {whileInst : Instruction}
  {condition body : ℕ} (found : m.instruction c loop.whileInst = some whileInst)
  (loops : whileInst.opcode = .while condition body) (editable : c < count) (edited : c ∈ touched)
include editable edited

theorem initExtended_framed : Framed count {(c, loop.whileInst)} touched m
    (initExtended c numActive loop operands shapes m) := by
  apply grown_framed m c _ _ editable edited
  · apply plain_of_noElement
    simp [isWhile, isDot, isParameter, isGetTupleElement]
  · simp [reindexedCondition, buildComputation, parameterInstruction, isWhile]

theorem setWhileCondition_framed (newCond : ℕ) :
    Framed count {(c, loop.whileInst)} touched m (setWhileCondition c loop.whileInst newCond m).2 := by
  refine modifyInstruction_framed m c _ _ editable edited (fun old _ => ?_)
  cases opcode : old.opcode with
  | «while» condition body =>
    simp only
    exact .loop condition newCond body old.operands rfl opcode
  | _ => exact .same

theorem conditionReplaced_framed : Framed count {(c, loop.whileInst)} touched m
    (conditionReplaced c numActive loop operands shapes m) :=
  (initExtended_framed numActive operands shapes editable edited).trans
    (setWhileCondition_framed editable edited _)

include found loops

theorem initReplaced_framed : Framed count {(c, loop.whileInst)} touched m
    (initReplaced c numActive loop operands shapes m) := by
  refine (conditionReplaced_framed numActive operands shapes editable edited).trans
    (modifyInstruction_framed _ c _ _ editable edited (fun old here => ?_))
  rw [conditionReplaced_loop c numActive loop operands shapes m whileInst condition body found
    loops] at here
  have opcode : old.opcode = .while m.computations.length body :=
    congrArg Instruction.opcode (Option.some.inj here).symm
  exact .of_operands (Set.mem_singleton _) opcode _

end Replaced

/-- The result of the condition stage: the condition is replaced in any case. -/
theorem rewriteLoopCondition_result {m : HloModule} {blockSize c whileInst numActive : ℕ}
    {loop : AttentionLoopMatch} {reading : LoopReading} {shapes : List Shape} {trips : ℤ}
    (recognized : Recognized blockSize m c whileInst loop reading shapes trips)
    (counts : (m.instruction c numActive).map Instruction.shape = some s32Scalar)
    (typed : reading.init.shape = .tuple shapes) :
    rewriteLoopCondition compatible c numActive loop m =
      if compatible (.tuple shapes) (.tuple (shapes ++ [s32Scalar])) then
        (.ok (), initReplaced c numActive loop reading.init.operands (shapes ++ [s32Scalar]) m)
      else (.error .incompatibleShapes,
        conditionReplaced c numActive loop reading.init.operands (shapes ++ [s32Scalar]) m) := by
  have inside := inside_of_instruction recognized.loop_found
  have found := recognized.matched.loop_found
  have replaced := conditionReplaced_loop c numActive loop reading.init.operands
    (shapes ++ [s32Scalar]) m _ _ _ found recognized.loop_opcode
  have kept : Framed m.computations.length {(c, loop.whileInst)} {c} m _ :=
    conditionReplaced_framed numActive reading.init.operands (shapes ++ [s32Scalar]) inside
      (Set.mem_singleton c)
  have keptNew : Framed m.computations.length {(c, loop.whileInst)} {c} _
      (conditionReplaced c numActive loop reading.init.operands (shapes ++ [s32Scalar]) m) :=
    setWhileCondition_framed inside (Set.mem_singleton c) _
  have foundInit := kept.same recognized.init_found (by rw [isMultiply, recognized.init_opcode])
    (.inr (by rw [isWhile, recognized.init_opcode]))
  have foundNew := keptNew.same (grown_instruction m c _ _ inside 0) rfl (.inr rfl)
  rw [Nat.add_zero] at foundNew
  rw [rewriteLoopCondition_eq compatible recognized counts,
    replaceOperandWith_eq compatible replaced recognized.init_operand foundInit foundNew, typed]
  rfl

section Body
variable {m : HloModule} {c : ℕ} {loop : AttentionLoopMatch} {whileInst : Instruction}
  {condition body : ℕ} {computation : Computation} (activeIndices : ℕ)
  (found : m.instruction c loop.whileInst = some whileInst)
  (loops : whileInst.opcode = .while condition body)
  (there : m.computations[body]? = some computation)
include found loops there

theorem rewriteLoopBody_none (absent : loopVarGte computation loop.loopVarIndex = none) :
    ∃ e, rewriteLoopBody compatible c activeIndices loop m = (.error e, m) := by
  unfold rewriteLoopBody
  rw [pass_get_bind, found, deref_some_bind]
  simp only [loops]
  rw [there, deref_some_bind]
  unfold loopVarGte at absent
  cases first : (positionsOf computation (isParameter 0)).head? with
  | none => exact ⟨_, rfl⟩
  | some parameter =>
    simp only [first, Option.bind_eq_bind, Option.bind_some, List.head?_eq_none_iff] at absent
    rw [deref_some_bind, absent]
    exact ⟨_, rfl⟩

theorem rewriteLoopBody_some {gte : ℕ}
    (reads : loopVarGte computation loop.loopVarIndex = some gte) :
    ∃ bodyParam, (positionsOf computation (isParameter 0)).head? = some bodyParam ∧
      rewriteLoopBody compatible c activeIndices loop m =
        redirectAll compatible body bodyParam gte (users computation gte) m := by
  unfold rewriteLoopBody
  rw [pass_get_bind, found, deref_some_bind]
  simp only [loops]
  rw [there, deref_some_bind]
  unfold loopVarGte at reads
  cases first : (positionsOf computation (isParameter 0)).head? with
  | none =>
    rw [first] at reads
    cases reads
  | some parameter =>
    simp only [first, Option.bind_eq_bind, Option.bind_some, List.head?_eq_some_iff] at reads
    obtain ⟨others, states⟩ := reads
    rw [deref_some_bind, states]
    exact ⟨parameter, rfl, rfl⟩

end Body

end Stages

/-! ### One accepted loop -/

section Outcome
variable (compatible : Shape → Shape → Bool)

/-- The loop has a new condition, which takes a tuple with one more element than its state had. -/
def ConditionSet (count : ℕ) (m' : HloModule) (c : ℕ) (loop : AttentionLoopMatch)
    (reading : LoopReading) (shapes : List Shape) : Prop :=
  ∃ newCondition operands, count ≤ newCondition ∧
    m'.instruction c loop.whileInst = some
      { reading.whileInst with
        opcode := .while newCondition reading.body
        operands := operands } ∧
    m'.computations[newCondition]? = some (reindexedCondition (.tuple (shapes ++ [s32Scalar]))
      loop.loopVarIndex reading.init.operands.length)

theorem ConditionSet.kept {count : ℕ} {sites : Set (ℕ × ℕ)} {m m' : HloModule} {c : ℕ}
    {loop : AttentionLoopMatch} {reading : LoopReading} {shapes : List Shape}
    (set : ConditionSet count m c loop reading shapes) (kept : Kept count sites m m')
    (unvisited : (c, loop.whileInst) ∉ sites) : ConditionSet count m' c loop reading shapes := by
  obtain ⟨newCondition, operands, added, found, there⟩ := set
  exact ⟨newCondition, operands, added, kept.same found rfl (.inl unvisited),
    kept.complete _ _ added there⟩

section Set
variable {m : HloModule} {c numActive : ℕ} {loop : AttentionLoopMatch} {reading : LoopReading}
  {shapes : List Shape} (matched : Matched m c loop reading)
include matched

theorem conditionReplaced_set {count : ℕ} (editable : c < count)
    (room : count ≤ m.computations.length) : ConditionSet count
      (conditionReplaced c numActive loop reading.init.operands (shapes ++ [s32Scalar]) m) c loop
      reading shapes := by
  have kept : Framed count {(c, loop.whileInst)} {c} _
      (conditionReplaced c numActive loop reading.init.operands (shapes ++ [s32Scalar]) m) :=
    setWhileCondition_framed editable (Set.mem_singleton c) _
  exact ⟨m.computations.length, reading.whileInst.operands, room,
    conditionReplaced_loop c numActive loop _ _ m _ _ _ matched.loop_found matched.loop_opcode,
    kept.complete _ _ room (grown_embedded m c _ _ 0)⟩

theorem initReplaced_set {count : ℕ} (editable : c < count) (room : count ≤ m.computations.length) :
    ConditionSet count
      (initReplaced c numActive loop reading.init.operands (shapes ++ [s32Scalar]) m) c loop
      reading shapes := by
  obtain ⟨newCondition, operands, added, found, there⟩ :=
    @conditionReplaced_set m c numActive loop reading shapes matched count editable room
  refine ⟨newCondition, operands.set 0 (size m c), added, ?_, ?_⟩
  · rw [initReplaced, modifyInstruction_instruction, if_pos ⟨rfl, rfl⟩, found]
    rfl
  · change (List.modify _ _ _)[newCondition]? = _
    rw [List.getElem?_modify_ne _ _ (by omega), there]

end Set

/-- The body stage is reached and redirects a product of the body. -/
def Redirects (M : HloModule) (loop : AttentionLoopMatch) (body : ℕ) (shapes : List Shape) : Prop :=
  compatible (.tuple shapes) (.tuple (shapes ++ [s32Scalar])) = true ∧
    ∃ computation, M.computations[body]? = some computation ∧
      multipliesLoopVar computation loop.loopVarIndex = true

/-- What one turn of the loop in `Run` makes of the module `M` if it accepts the loop. -/
structure Outcome (count : ℕ) (M : HloModule) (c : ℕ) (loop : AttentionLoopMatch)
    (reading : LoopReading) (shapes : List Shape) (M' : HloModule) : Prop where
  framed : Framed count {(c, loop.whileInst)}
    {f | f = c ∨ f = reading.body ∧ Redirects compatible M loop f shapes} M M'
  condition : ConditionSet count M' c loop reading shapes
  grows : size M c < size M' c
  bodyGrows : Redirects compatible M loop reading.body shapes →
    size M reading.body < size M' reading.body

theorem users_exist {m : HloModule} {f gte : ℕ} {computation : Computation}
    (there : m.computations[f]? = some computation) (user : ℕ)
    (member : user ∈ users computation gte) :
    ∃ instruction, m.instruction f user = some instruction ∧ gte ∈ instruction.operands := by
  obtain ⟨instruction, here, uses⟩ := mem_positionsOf.mp member
  exact ⟨instruction, (instruction_eq there user).trans here, List.contains_iff_mem.mp uses⟩

section Body
variable {m : HloModule} {c : ℕ} {loop : AttentionLoopMatch} {whileInst : Instruction}
  {condition body : ℕ} {computation : Computation} (activeIndices : ℕ)
  (found : m.instruction c loop.whileInst = some whileInst)
  (loops : whileInst.opcode = .while condition body)
  (there : m.computations[body]? = some computation)
include found loops there

theorem rewriteLoopBody_unchanged (single : multipliesLoopVar computation loop.loopVarIndex = false) :
    (rewriteLoopBody compatible c activeIndices loop m).2 = m := by
  cases reads : loopVarGte computation loop.loopVarIndex with
  | none =>
    obtain ⟨e, failed⟩ := rewriteLoopBody_none compatible activeIndices found loops there reads
    rw [failed]
  | some gte =>
    obtain ⟨bodyParam, _, step⟩ := rewriteLoopBody_some compatible activeIndices found loops there reads
    rw [step, redirectAll_of_noProduct]
    intro user member
    obtain ⟨instruction, here, _⟩ := users_exist there user member
    refine ⟨instruction, here, ?_⟩
    unfold multipliesLoopVar at single
    rw [reads, Option.any_some, List.any_eq_false] at single
    have other := single user member
    rw [← instruction_eq there, here, Option.any_some, Bool.not_eq_true] at other
    exact other

theorem rewriteLoopBody_product (product : multipliesLoopVar computation loop.loopVarIndex = true) :
    (∀ count sites (touched : Set ℕ), body < count → count ≤ m.computations.length →
        body ∈ touched →
        Framed count sites touched m (rewriteLoopBody compatible c activeIndices loop m).2) ∧
      size m body < size (rewriteLoopBody compatible c activeIndices loop m).2 body := by
  obtain ⟨gte, reads, some_product⟩ := (Option.any_eq_true _ _).mp product
  obtain ⟨bodyParam, _, step⟩ := rewriteLoopBody_some compatible activeIndices found loops there reads
  rw [step]
  constructor
  · intro count sites touched editable room edited
    exact redirectAll_framed compatible body bodyParam gte editable edited room _
  · refine size_redirectAll compatible body bodyParam gte (List.getElem?_eq_some_iff.mp there).1 _
      (fun user member => ?_) ?_
    · obtain ⟨instruction, here, _⟩ := users_exist there user member
      exact ⟨instruction, here⟩
    · obtain ⟨user, member, multiplies⟩ := List.any_eq_true.mp some_product
      obtain ⟨instruction, here, isProduct⟩ := (Option.any_eq_true _ _).mp multiplies
      exact ⟨user, member, instruction, (instruction_eq there user).trans here, isProduct⟩

/-- The body stage succeeds when it finds the induction variable. -/
theorem rewriteLoopBody_ok_iff (reflexive : ∀ shape, compatible shape shape = true)
    (scalar : ∀ gte, loopVarGte computation loop.loopVarIndex = some gte →
      (m.instruction body gte).map Instruction.shape = some s32Scalar) :
    (rewriteLoopBody compatible c activeIndices loop m).1 = .ok () ↔
      (loopVarGte computation loop.loopVarIndex).isSome = true := by
  cases reads : loopVarGte computation loop.loopVarIndex with
  | none =>
    obtain ⟨e, failed⟩ := rewriteLoopBody_none compatible activeIndices found loops there reads
    rw [failed]
    exact ⟨nofun, nofun⟩
  | some gte =>
    obtain ⟨bodyParam, _, step⟩ := rewriteLoopBody_some compatible activeIndices found loops there reads
    obtain ⟨m', ok⟩ := redirectAll_ok compatible body bodyParam gte reflexive
      (List.getElem?_eq_some_iff.mp there).1 (scalar gte reads) (users computation gte)
      (List.nodup_range.filter _) (users_exist there)
    rw [step, ok]
    exact ⟨fun _ => rfl, fun _ => rfl⟩

end Body

theorem element_shape {m : HloModule} (verified : m.Verified) {f id parameter index : ℕ}
    {shapes : List Shape} (takes : m.Takes f (.tuple shapes)) {instruction state : Instruction}
    (found : m.instruction f id = some instruction)
    (opcode : instruction.opcode = .getTupleElement index) (uses : parameter ∈ instruction.operands)
    (there : m.instruction f parameter = some state) (isParameter : state.opcode = .parameter 0) :
    shapes[index]? = some instruction.shape := by
  obtain ⟨operandShapes, typed, fit⟩ := shapes_of_operandsFit (verified.fits _ _ _ found)
  rw [opcode] at fit
  obtain ⟨elements, rfl, selected⟩ := fits_getTupleElement fit
  obtain ⟨id, others, shaped, ends, operands⟩ := List.forall₂_cons_right_iff.mp typed
  rw [operands, List.forall₂_nil_right_iff.mp ends] at uses
  obtain rfl := List.mem_singleton.mp uses
  rw [there, Option.map_some, takes.shape _ _ there isParameter, Option.some.injEq,
    Shape.tuple.injEq] at shaped
  rw [shaped, selected]

section Turn
variable {blockSize c whileInst : ℕ} {loop : AttentionLoopMatch} {reading : LoopReading}
  {shapes : List Shape} {trips : ℤ}

/-- One turn on an accepted loop is the injection, the condition stage and then, unless that fails,
the body stage. -/
theorem processLoop_stages {M M₁ : HloModule} {ids : ℕ × ℕ}
    (recognized : Recognized blockSize M c whileInst loop reading shapes trips)
    (injected : injectStreamCompaction c loop.blockMask loop.numBlocks M = (ids, M₁))
    (there : Recognized blockSize M₁ c whileInst loop reading shapes trips)
    (counts : (M₁.instruction c ids.2).map Instruction.shape = some s32Scalar)
    (typed : reading.init.shape = .tuple shapes) :
    (compatible (.tuple shapes) (.tuple (shapes ++ [s32Scalar])) = false ∧
      processLoop compatible blockSize c whileInst M = (none,
        conditionReplaced c ids.2 loop reading.init.operands (shapes ++ [s32Scalar]) M₁)) ∨
    ∃ M₃, compatible (.tuple shapes) (.tuple (shapes ++ [s32Scalar])) = true ∧
      M₃ = initReplaced c ids.2 loop reading.init.operands (shapes ++ [s32Scalar]) M₁ ∧
      (processLoop compatible blockSize c whileInst M).2 =
        (rewriteLoopBody compatible c ids.1 loop M₃).2 ∧
      ∀ other, (processLoop compatible blockSize c whileInst M).1 = some other ↔
        other = loop ∧ (rewriteLoopBody compatible c ids.1 loop M₃).1 = .ok () := by
  have accepted := recognized.accepted
  have conditioned := rewriteLoopCondition_result compatible there counts typed
  cases accepts : compatible (.tuple shapes) (.tuple (shapes ++ [s32Scalar])) with
  | false =>
    rw [accepts] at conditioned
    exact .inl ⟨rfl, processLoop_of_condition_error compatible accepted injected conditioned⟩
  | true =>
    rw [accepts] at conditioned
    refine .inr ⟨_, rfl, rfl, ?_⟩
    cases bodied : rewriteLoopBody compatible c ids.1 loop
        (initReplaced c ids.2 loop reading.init.operands (shapes ++ [s32Scalar]) M₁) with
    | mk result M₄ =>
      cases result with
      | error e =>
        rw [processLoop_of_body_error compatible accepted injected conditioned bodied]
        exact ⟨rfl, fun _ => ⟨nofun, nofun⟩⟩
      | ok _ =>
        rw [processLoop_of_ok compatible accepted injected conditioned bodied]
        refine ⟨rfl, fun other => ?_⟩
        rw [Option.some.injEq, eq_comm]
        exact (and_iff_left rfl).symm

theorem bodyStage_outcome {count : ℕ} {M M₃ : HloModule} (activeIndices : ℕ)
    (accepts : compatible (.tuple shapes) (.tuple (shapes ++ [s32Scalar])) = true)
    (framed : Framed count {(c, loop.whileInst)} {c} M M₃)
    (replaced : ConditionSet count M₃ c loop reading shapes) (grown : size M c < size M₃ c)
    (inside : reading.body < count) (room : count ≤ M.computations.length) :
    Outcome compatible count M c loop reading shapes
      (rewriteLoopBody compatible c activeIndices loop M₃).2 := by
  have bodyInside := inside.trans_le room
  have untouched (other : reading.body ≠ c) :
      M₃.computations[reading.body]? = M.computations[reading.body]? :=
    framed.unchanged bodyInside other
  have ⟨newCondition, operands, _, foundAfter, _⟩ := replaced
  obtain ⟨new, after, _⟩ := framed.computation _ _ (List.getElem?_eq_getElem bodyInside)
  cases multiplies : multipliesLoopVar new loop.loopVarIndex with
  | false =>
    rw [rewriteLoopBody_unchanged compatible activeIndices foundAfter rfl after multiplies]
    refine ⟨framed.mono subset_rfl (by simp), replaced, grown, ?_⟩
    rintro ⟨_, computation, there, product⟩
    by_cases same : reading.body = c
    · rw [same]
      exact grown
    · obtain rfl := Option.some.inj (after.symm.trans ((untouched same).trans there))
      cases multiplies.symm.trans product
  | true =>
    obtain ⟨edits, bodyLonger⟩ :=
      rewriteLoopBody_product compatible activeIndices foundAfter rfl after multiplies
    have third : Framed count ∅
        {f | f = c ∨ f = reading.body ∧ Redirects compatible M loop f shapes} M₃
        (rewriteLoopBody compatible c activeIndices loop M₃).2 := by
      refine edits _ _ _ inside (room.trans framed.length) ?_
      by_cases same : reading.body = c
      · exact .inl same
      · exact .inr ⟨rfl, accepts, new, (untouched same).symm.trans after, multiplies⟩
    exact
      { framed := (framed.mono subset_rfl (by simp)).trans
          (third.mono (Set.empty_subset _) subset_rfl)
        condition := replaced.kept third.toKept nofun
        grows := grown.trans_le (third.size_le c)
        bodyGrows := fun _ => (framed.size_le _).trans_lt bodyLonger }

variable {sites : Set (ℕ × ℕ)} {touched : Set ℕ} {m M : HloModule} (verified : m.Verified)
  (recognized : Recognized blockSize m c whileInst loop reading shapes trips)
include verified recognized

theorem init_shape : reading.init.shape = .tuple shapes := by
  obtain ⟨shapes', elements, tupled⟩ :=
    verified.wellShaped.tuple c _ _ recognized.init_found recognized.init_opcode
  rw [tupled, Option.some.inj (elements.symm.trans recognized.shaped)]

theorem state_shape : m.StateShaped c reading.whileInst reading.condition reading.body
    (.tuple shapes) := by
  have shaped := verified.wellShaped.loop c _ _ _ _ recognized.loop_found recognized.loop_opcode
  obtain ⟨id, operands, typed⟩ := shaped.init
  have first := recognized.init_operand
  rw [operands] at first
  obtain rfl := Option.some.inj first
  rw [recognized.init_found, Option.map_some, init_shape verified recognized] at typed
  rwa [← Option.some.inj typed] at shaped

theorem body_found : ∃ old, m.computations[reading.body]? = some old := by
  obtain ⟨old, before, _⟩ := (state_shape verified recognized).bodyRoot
  exact ⟨old, before⟩

theorem loopVarGte_scalar {old : Computation} {gte : ℕ}
    (before : m.computations[reading.body]? = some old)
    (reads : loopVarGte old loop.loopVarIndex = some gte) :
    (m.instruction reading.body gte).map Instruction.shape = some s32Scalar := by
  obtain ⟨parameter, first, reads⟩ := Option.bind_eq_some_iff.mp reads
  obtain ⟨member, element⟩ := List.mem_filter.mp (List.mem_of_mem_head? reads)
  obtain ⟨instruction, found, uses⟩ := users_exist before gte member
  obtain ⟨_, here, isElement⟩ := (Option.any_eq_true _ _).mp element
  rw [← instruction_eq before] at here
  obtain rfl := Option.some.inj (found.symm.trans here)
  obtain ⟨state, there, isState⟩ := mem_positionsOf.mp (List.mem_of_mem_head? first)
  rw [← instruction_eq before] at there
  have opcode : instruction.opcode = .getTupleElement loop.loopVarIndex := by
    unfold isGetTupleElement at isElement
    split at isElement
    next k reads => rw [reads, decide_eq_true_eq.mp isElement]
    next => cases isElement
  have isParameter : state.opcode = .parameter 0 := by
    unfold StreamCompactPass.isParameter at isState
    split at isState
    next k number => rw [number, decide_eq_true_eq.mp isState]
    next => cases isState
  have selected := element_shape verified (state_shape verified recognized).bodyParameter found
    opcode uses there isParameter
  rw [found, Option.map_some, ← selected, loopVarIdx_eq_some recognized.loopVar]

section Middle
variable (framed : Framed m.computations.length sites touched m M)
  (unvisited : (c, whileInst) ∉ sites)
include framed unvisited

theorem injected : ∃ ids M₁, injectStreamCompaction c loop.blockMask loop.numBlocks M = (ids, M₁) ∧
    Framed m.computations.length {(c, loop.whileInst)} {c} M M₁ ∧ size M c < size M₁ c ∧
    Recognized blockSize M c whileInst loop reading shapes trips ∧
    Recognized blockSize M₁ c whileInst loop reading shapes trips ∧
    (M₁.instruction c ids.2).map Instruction.shape = some s32Scalar := by
  have here := recognized_of_original framed verified unvisited recognized
  obtain ⟨mask, found⟩ := here.matched.mask_found
  have editable := inside_of_instruction recognized.loop_found
  have after : Framed m.computations.length sites (insert c touched) m _ :=
    (framed.mono subset_rfl (Set.subset_insert c touched)).trans
      (injectStreamCompaction_framed loop.numBlocks found editable (Set.mem_insert c touched))
  exact ⟨_, _, rfl, injectStreamCompaction_framed loop.numBlocks found editable rfl,
    size_injectStreamCompaction loop.numBlocks found, here,
    recognized_of_original after verified unvisited recognized, numActive_shape loop.numBlocks found⟩

theorem processLoop_outcome : Outcome compatible m.computations.length M c loop reading shapes
    (processLoop compatible blockSize c whileInst M).2 := by
  obtain ⟨ids, M₁, inject, first, longer, here, there, counts⟩ :=
    injected verified recognized framed unvisited
  have typed := init_shape verified recognized
  have editable := inside_of_instruction recognized.loop_found
  have room := framed.length.trans first.length
  obtain ⟨old, before⟩ := body_found verified recognized
  rcases processLoop_stages compatible here inject there counts typed with
    ⟨fails, step⟩ | ⟨M₃, accepts, rfl, step, _⟩
  · have second : Framed m.computations.length {(c, loop.whileInst)} {c} M₁ _ :=
      conditionReplaced_framed ids.2 reading.init.operands (shapes ++ [s32Scalar]) editable rfl
    rw [step]
    exact
      { framed := (first.trans second).mono subset_rfl (by simp)
        condition := conditionReplaced_set there.matched editable room
        grows := longer.trans_le (second.size_le c)
        bodyGrows := fun redirects => nomatch fails.symm.trans redirects.1 }
  · have second : Framed m.computations.length {(c, loop.whileInst)} {c} M₁
        (initReplaced c ids.2 loop reading.init.operands (shapes ++ [s32Scalar]) M₁) :=
      initReplaced_framed ids.2 reading.init.operands (shapes ++ [s32Scalar])
        there.matched.loop_found there.loop_opcode editable rfl
    rw [step]
    exact bodyStage_outcome compatible ids.1 accepts (first.trans second)
      (initReplaced_set there.matched editable room) (longer.trans_le (second.size_le c))
      (List.getElem?_eq_some_iff.mp before).1 framed.length

/-- An accepted loop is counted if its longer initial value is accepted and the body reads the
induction variable. -/
theorem processLoop_counted (reflexive : ∀ shape, compatible shape shape = true)
    (other : AttentionLoopMatch) :
    (processLoop compatible blockSize c whileInst M).1 = some other ↔
      other = loop ∧ compatible (.tuple shapes) (.tuple (shapes ++ [s32Scalar])) = true ∧
        ∃ old, m.computations[reading.body]? = some old ∧
          (loopVarGte old loop.loopVarIndex).isSome = true := by
  obtain ⟨ids, M₁, inject, first, _, here, there, counts⟩ :=
    injected verified recognized framed unvisited
  have typed := init_shape verified recognized
  have editable := inside_of_instruction recognized.loop_found
  have room := framed.length.trans first.length
  obtain ⟨old, before⟩ := body_found verified recognized
  rcases processLoop_stages compatible here inject there counts typed with
    ⟨fails, step⟩ | ⟨M₃, accepts, rfl, _, counted⟩
  · rw [step]
    exact ⟨nofun, fun ⟨_, accepts, _⟩ => nomatch fails.symm.trans accepts⟩
  · set M₃ := initReplaced c ids.2 loop reading.init.operands (shapes ++ [s32Scalar]) M₁
    have second : Framed m.computations.length {(c, loop.whileInst)} {c} M₁ M₃ :=
      initReplaced_framed ids.2 reading.init.operands (shapes ++ [s32Scalar])
        there.matched.loop_found there.loop_opcode editable rfl
    have all : Framed m.computations.length Set.univ Set.univ m M₃ :=
      (framed.mono (Set.subset_univ _) (Set.subset_univ _)).trans
        ((first.trans second).mono (Set.subset_univ _) (Set.subset_univ _))
    have replaced : ConditionSet m.computations.length M₃ c loop reading shapes :=
      initReplaced_set there.matched editable room
    obtain ⟨newCondition, operands, _, foundAfter, _⟩ := replaced
    obtain ⟨new, after, _⟩ := all.computation _ old before
    have same := loopVarGte_framed all before after loop.loopVarIndex
    rw [counted other, rewriteLoopBody_ok_iff compatible ids.1 foundAfter rfl after reflexive
      (fun gte reads => all.shape (loopVarGte_scalar verified recognized before (same ▸ reads))), same]
    refine and_congr_right (fun _ => ⟨fun reads => ⟨accepts, old, before, reads⟩, ?_⟩)
    rintro ⟨_, old', before', reads⟩
    obtain rfl := Option.some.inj (before.symm.trans before')
    exact reads

end Middle

end Turn

end Outcome

end OrthoCache.LoopOutcomes
