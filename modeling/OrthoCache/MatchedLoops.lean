import OrthoCache.StreamCompactFrame

/-!
What the matcher reads of a loop that it accepts, and what one turn of the loop in `Run` returns when
a stage fails on it and when all of them succeed.
-/

namespace OrthoCache.MatchedLoops
open Foundation.Hlo StreamCompactPass EmittedCompaction StreamCompactFrame

/-! ### Matched loops -/

structure LoopReading where
  whileInst : Instruction
  condition : ℕ
  body : ℕ
  initId : ℕ
  init : Instruction

/-- What the matcher finds in a loop that it accepts. -/
structure Recognized (blockSize : ℕ) (m : HloModule) (c whileInst : ℕ) (loop : AttentionLoopMatch)
    (reading : LoopReading) (shapes : List Shape) (trips : ℤ) : Prop where
  loop_found : m.instruction c whileInst = some reading.whileInst
  loop_opcode : reading.whileInst.opcode = .while reading.condition reading.body
  dot : ∃ computation, m.computations[reading.body]? = some computation ∧
    computation.instructions.any isDot = true
  init_operand : reading.whileInst.operands[0]? = some reading.initId
  init_found : m.instruction c reading.initId = some reading.init
  init_opcode : reading.init.opcode = .tuple
  shaped : reading.init.operands.mapM (fun id => (m.instruction c id).map Instruction.shape) =
    some shapes
  loopVar : (scanTuple shapes).loopVarIdx = some loop.loopVarIndex
  mask : (scanTuple shapes).maskIdx = some loop.maskTupleIndex
  cacheK : (scanTuple shapes).kIdx = some loop.kvTupleIndexK
  cacheV : (scanTuple shapes).vIdx = loop.kvTupleIndexV
  trips_found : tripCount m reading.condition = some trips
  positive : 0 < trips
  mask_operand : reading.init.operands[loop.maskTupleIndex]? = some loop.blockMask
  while_eq : loop.whileInst = whileInst
  blocks_eq : loop.numBlocks = trips.toNat
  size_eq : loop.blockSize = blockSize

theorem matchAttentionLoop_eq_some_iff (blockSize : ℕ) (m : HloModule) (c whileInst : ℕ)
    (loop : AttentionLoopMatch) : matchAttentionLoop blockSize m c whileInst = some loop ↔
      ∃ reading shapes trips, Recognized blockSize m c whileInst loop reading shapes trips := by
  constructor
  · intro accepted
    unfold matchAttentionLoop at accepted
    obtain ⟨instruction, found, accepted⟩ := Option.bind_eq_some_iff.mp accepted
    cases loops : instruction.opcode with
    | «while» condition body =>
      simp only [loops] at accepted
      obtain ⟨computation, there, accepted⟩ := Option.bind_eq_some_iff.mp accepted
      split_ifs at accepted with dot
      obtain ⟨initId, first, accepted⟩ := Option.bind_eq_some_iff.mp accepted
      obtain ⟨init, foundInit, accepted⟩ := Option.bind_eq_some_iff.mp accepted
      cases tuples : init.opcode with
      | tuple =>
        simp only [tuples] at accepted
        obtain ⟨shapes, shaped, accepted⟩ := Option.bind_eq_some_iff.mp accepted
        obtain ⟨loopVarIdx, loopVar, accepted⟩ := Option.bind_eq_some_iff.mp accepted
        obtain ⟨maskIdx, mask, accepted⟩ := Option.bind_eq_some_iff.mp accepted
        obtain ⟨kIdx, cacheK, accepted⟩ := Option.bind_eq_some_iff.mp accepted
        obtain ⟨trips, count, accepted⟩ := Option.bind_eq_some_iff.mp accepted
        split_ifs at accepted with positive
        obtain ⟨blockMask, operand, accepted⟩ := Option.bind_eq_some_iff.mp accepted
        obtain rfl := Option.some.inj accepted
        exact ⟨⟨instruction, condition, body, initId, init⟩, shapes, trips,
          { loop_found := found
            loop_opcode := loops
            dot := ⟨computation, there, dot⟩
            init_operand := first
            init_found := foundInit
            init_opcode := tuples
            shaped := shaped
            loopVar := loopVar
            mask := mask
            cacheK := cacheK
            cacheV := rfl
            trips_found := count
            positive := positive
            mask_operand := operand
            while_eq := rfl
            blocks_eq := rfl
            size_eq := rfl }⟩
      | _ => simp only [tuples] at accepted; cases accepted
    | _ => simp only [loops] at accepted; cases accepted
  · rintro ⟨reading, shapes, trips, recognized⟩
    obtain ⟨computation, there, dot⟩ := recognized.dot
    obtain ⟨_, _, _, _, _, _, _, _⟩ := loop
    obtain rfl := recognized.while_eq
    obtain rfl := recognized.blocks_eq
    obtain rfl := recognized.size_eq
    unfold matchAttentionLoop
    simp only [Option.bind_eq_bind, recognized.loop_found, Option.bind_some, recognized.loop_opcode,
      there, if_pos dot, recognized.init_operand, recognized.init_found, recognized.init_opcode,
      recognized.shaped, recognized.loopVar, recognized.mask, recognized.cacheK, recognized.trips_found,
      if_pos recognized.positive, recognized.mask_operand, recognized.cacheV]
    rfl

theorem Recognized.accepted {blockSize : ℕ} {m : HloModule} {c whileInst : ℕ}
    {loop : AttentionLoopMatch} {reading : LoopReading} {shapes : List Shape} {trips : ℤ}
    (recognized : Recognized blockSize m c whileInst loop reading shapes trips) :
    matchAttentionLoop blockSize m c whileInst = some loop :=
  (matchAttentionLoop_eq_some_iff blockSize m c whileInst loop).mpr
    ⟨reading, shapes, trips, recognized⟩

structure Matched (m : HloModule) (c : ℕ) (loop : AttentionLoopMatch) (reading : LoopReading) :
    Prop where
  loop_found : m.instruction c loop.whileInst = some reading.whileInst
  loop_opcode : reading.whileInst.opcode = .while reading.condition reading.body
  init_operand : reading.whileInst.operands[0]? = some reading.initId
  init_found : m.instruction c reading.initId = some reading.init
  init_opcode : reading.init.opcode = .tuple
  mask_operand : reading.init.operands[loop.maskTupleIndex]? = some loop.blockMask
  mask_found : ∃ mask, m.instruction c loop.blockMask = some mask

theorem Recognized.matched {blockSize : ℕ} {m : HloModule} {c whileInst : ℕ}
    {loop : AttentionLoopMatch} {reading : LoopReading} {shapes : List Shape} {trips : ℤ}
    (recognized : Recognized blockSize m c whileInst loop reading shapes trips) :
    Matched m c loop reading where
  loop_found := by rw [recognized.while_eq, recognized.loop_found]
  loop_opcode := recognized.loop_opcode
  init_operand := recognized.init_operand
  init_found := recognized.init_found
  init_opcode := recognized.init_opcode
  mask_operand := recognized.mask_operand
  mask_found := by
    obtain ⟨_, typed⟩ := exists_of_forall₂ (forall₂_of_mapM recognized.shaped)
      (List.mem_of_getElem? recognized.mask_operand)
    obtain ⟨mask, found, _⟩ := Option.map_eq_some_iff.mp typed
    exact ⟨mask, found⟩

theorem matched_of_match (blockSize : ℕ) (m : HloModule) (c whileInst : ℕ)
    (loop : AttentionLoopMatch) (accepted : matchAttentionLoop blockSize m c whileInst = some loop) :
    loop.whileInst = whileInst ∧ ∃ reading, Matched m c loop reading := by
  obtain ⟨reading, shapes, trips, recognized⟩ :=
    (matchAttentionLoop_eq_some_iff blockSize m c whileInst loop).mp accepted
  exact ⟨recognized.while_eq, reading, recognized.matched⟩

theorem init_original {count : ℕ} {sites : Set (ℕ × ℕ)} {m m' : HloModule}
    (kept : Kept count sites m m') (wellShaped : m.WellShaped) {c id initId condition body : ℕ}
    {loop init : Instruction} (found : m.instruction c id = some loop)
    (loops : loop.opcode = .while condition body) (first : loop.operands[0]? = some initId)
    (here : m'.instruction c initId = some init) (tuple : init.opcode = .tuple) :
    m.instruction c initId = some init := by
  obtain ⟨⟨operand, operands, shaped⟩, _⟩ := wellShaped.loop c _ _ _ _ found loops
  rw [operands] at first
  obtain rfl := Option.some.inj first
  obtain ⟨old, there, _⟩ := Option.map_eq_some_iff.mp shaped
  obtain ⟨new, here', edited⟩ := kept.instruction c operand old there
  obtain rfl := Option.some.inj (here'.symm.trans here)
  have other : isMultiply new = false := by rw [isMultiply, tuple]
  have noLoop : isWhile new = false := by rw [isWhile, tuple]
  rw [edited.isMultiply_eq] at other
  rw [edited.isWhile_eq] at noLoop
  rw [there, edited.eq_of_other other (.inr noLoop)]

/-! ### One turn -/

theorem conditionReplaced_loop (c numActive : ℕ) (loop : AttentionLoopMatch) (operands : List ℕ)
    (shapes : List Shape) (m : HloModule) (whileInst : Instruction) (condition body : ℕ)
    (found : m.instruction c loop.whileInst = some whileInst)
    (loops : whileInst.opcode = .while condition body) :
    (conditionReplaced c numActive loop operands shapes m).instruction c loop.whileInst =
      some { whileInst with opcode := .while m.computations.length body } := by
  have original : (initExtended c numActive loop operands shapes m).instruction c loop.whileInst =
      some whileInst := grown_original m c _ _ c loop.whileInst whileInst found
  unfold conditionReplaced setWhileCondition
  rw [modifyInstruction_instruction, if_pos ⟨rfl, rfl⟩, original, Option.map_some, loops]

section StageResults
variable (compatible : Shape → Shape → Bool) {blockSize c whileInst : ℕ} {m m₁ m₂ m₃ : HloModule}
  {loop : AttentionLoopMatch} {ids : ℕ × ℕ}
  (accepted : matchAttentionLoop blockSize m c whileInst = some loop)
  (injected : injectStreamCompaction c loop.blockMask loop.numBlocks m = (ids, m₁))
include accepted injected

theorem processLoop_of_condition_error {e : PassError}
    (failed : rewriteLoopCondition compatible c ids.2 loop m₁ = (.error e, m₂)) :
    processLoop compatible blockSize c whileInst m = (none, m₂) := by
  unfold processLoop
  rw [get_bind, accepted]
  simp only [bind, StateT.bind, ExceptT.run, injected, failed]
  rfl

variable (done : rewriteLoopCondition compatible c ids.2 loop m₁ = (.ok (), m₂))
include done

theorem processLoop_of_body_error {e : PassError}
    (failed : rewriteLoopBody compatible c ids.1 loop m₂ = (.error e, m₃)) :
    processLoop compatible blockSize c whileInst m = (none, m₃) := by
  unfold processLoop
  rw [get_bind, accepted]
  simp only [bind, StateT.bind, ExceptT.run, injected, done, failed]
  rfl

theorem processLoop_of_ok (rewritten : rewriteLoopBody compatible c ids.1 loop m₂ = (.ok (), m₃)) :
    processLoop compatible blockSize c whileInst m = (some loop, m₃) := by
  unfold processLoop
  rw [get_bind, accepted]
  simp only [bind, StateT.bind, ExceptT.run, injected, done, rewritten]
  rfl

end StageResults

/-! ### The run -/

def recorded (changed : List (ℕ × AttentionLoopMatch)) (c : ℕ) :
    Option AttentionLoopMatch → List (ℕ × AttentionLoopMatch)
  | none => changed
  | some loop => changed ++ [(c, loop)]

theorem foldlM_invariant {α β : Type} (f : β → α → Build β) (inv : List α → β → HloModule → Prop)
    (step : ∀ a entries b m, inv (a :: entries) b m → inv entries (f b a m).1 (f b a m).2)
    (entries : List α) (b : β) (m : HloModule) (start : inv entries b m) :
    inv [] (entries.foldlM f b m).1 (entries.foldlM f b m).2 := by
  induction entries generalizing b m with
  | nil => exact start
  | cons a entries ih => exact ih _ _ (step a entries b m start)

theorem recorded_step (stage : Build (Option AttentionLoopMatch))
    (changed : List (ℕ × AttentionLoopMatch)) (c : ℕ) (m : HloModule)
    (next : Option AttentionLoopMatch → Build (List (ℕ × AttentionLoopMatch)))
    (skipped : next none = pure changed)
    (counted : ∀ loop, next (some loop) = pure (changed ++ [(c, loop)])) :
    (stage >>= next) m = (recorded changed c (stage m).1, (stage m).2) := by
  change next (stage m).1 (stage m).2 = _
  cases (stage m).1 with
  | none => rw [skipped]; rfl
  | some loop => rw [counted]; rfl

end OrthoCache.MatchedLoops
