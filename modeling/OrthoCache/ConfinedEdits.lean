import OrthoCache.VisitedLoops

/-!
Where a run edits. Operands of products change in the bodies of accepted loops only, and every
computation keeps its thread. What each turn of the loop in `Run` preserves, a run preserves.
-/

namespace OrthoCache.ConfinedEdits
open Foundation.Hlo Arrays StreamCompactPass EmittedCompaction StreamCompactFrame MatchedLoops
open EditedComputations LoopOutcomes VisitedLoops

/-! ### Edits -/

structure Confined (bodies : Set ℕ) (m m' : HloModule) : Prop where
  thread : ∀ (f : ℕ) (old : Computation), m.computations[f]? = some old →
    ∃ new : Computation, m'.computations[f]? = some new ∧ new.executionThread = old.executionThread
  product : ∀ (f id : ℕ) (old : Instruction), f ∉ bodies → m.instruction f id = some old →
    isMultiply old = true → m'.instruction f id = some old

namespace Confined
variable {bodies : Set ℕ} {m m' m'' : HloModule}

theorem refl : Confined bodies m m where
  thread _ old found := ⟨old, found, rfl⟩
  product _ _ _ _ found _ := found

theorem trans (first : Confined bodies m m') (second : Confined bodies m' m'') :
    Confined bodies m m'' where
  thread f old found := by
    obtain ⟨mid, there, same⟩ := first.thread f old found
    obtain ⟨new, here, same'⟩ := second.thread f mid there
    exact ⟨new, here, same'.trans same⟩
  product f id old outside found multiplies :=
    second.product f id old outside (first.product f id old outside found multiplies) multiplies

end Confined

section Edits
variable {bodies : Set ℕ}

theorem grown_confined (m : HloModule) (c : ℕ) (added : List Instruction)
    (embedded : List Computation) : Confined bodies m (grown m c added embedded) where
  thread f old found := by
    have inside := (List.getElem?_eq_some_iff.mp found).1
    by_cases same : f = c
    · subst same
      have there := grown_computation m f added embedded inside
      rw [found, Option.map_some] at there
      exact ⟨_, there, rfl⟩
    · exact ⟨old, (grown_of_ne m c added embedded f same inside).trans found, rfl⟩
  product f id old _ found _ := grown_original m c added embedded f id old found

theorem modifyInstruction_confined (m : HloModule) (c id : ℕ) (edit : Instruction → Instruction)
    (edits : ∀ old, m.instruction c id = some old → isMultiply old = true →
      c ∈ bodies ∨ edit old = old) : Confined bodies m (modifyInstruction c id edit m).2 where
  thread f old found := by
    change ∃ new, (List.modify _ _ _)[f]? = _ ∧ _
    rw [List.getElem?_modify, found]
    split_ifs with same
    · exact ⟨_, rfl, rfl⟩
    · exact ⟨old, rfl, rfl⟩
  product f k old outside found multiplies := by
    rw [modifyInstruction_instruction]
    split_ifs with here
    · obtain ⟨rfl, rfl⟩ := here
      rw [found, Option.map_some, (edits old found multiplies).resolve_left outside]
    · exact found

variable (compatible : Shape → Shape → Bool)

theorem replaceOperandWith_confined (c id position newOperand : ℕ) (m : HloModule)
    (edits : ∀ old, m.instruction c id = some old → isMultiply old = true → c ∈ bodies) :
    Confined bodies m (replaceOperandWith compatible c id position newOperand m).2 := by
  rcases replaceOperandWith_cases compatible c id position newOperand m with
    ⟨e, failed⟩ | ⟨_, _, _, _, _, _, _, _, _, edit⟩
  · rw [failed]
    exact .refl
  · rw [edit]
    exact modifyInstruction_confined m c id _ (fun old found product => .inl (edits old found product))

/-! ### Stages -/

theorem injectStreamCompaction_confined {m : HloModule} {c blockMask : ℕ} {mask : Instruction} (n : ℕ)
    (found : m.instruction c blockMask = some mask) :
    Confined bodies m (injectStreamCompaction c blockMask n m).2 := by
  obtain ⟨added, embedded, module, _⟩ := injectStreamCompaction_grown m c blockMask n mask found
  rw [module]
  exact grown_confined m c added embedded

theorem conditionReplaced_confined (c numActive : ℕ) (loop : AttentionLoopMatch) (operands : List ℕ)
    (shapes : List Shape) (m : HloModule) :
    Confined bodies m (conditionReplaced c numActive loop operands shapes m) := by
  refine (grown_confined m c _ _).trans (modifyInstruction_confined _ c _ _ (fun old _ product => ?_))
  rw [opcode_of_isMultiply product]
  exact .inr rfl

theorem initReplaced_confined {m : HloModule} {c : ℕ} {loop : AttentionLoopMatch} (numActive : ℕ)
    (operands : List ℕ) (shapes : List Shape) {whileInst : Instruction} {condition body : ℕ}
    (found : m.instruction c loop.whileInst = some whileInst)
    (loops : whileInst.opcode = .while condition body) :
    Confined bodies m (initReplaced c numActive loop operands shapes m) := by
  refine (conditionReplaced_confined c numActive loop operands shapes m).trans
    (modifyInstruction_confined _ c _ _ (fun old here product => ?_))
  rw [conditionReplaced_loop c numActive loop operands shapes m whileInst condition body found
    loops] at here
  rw [← Option.some.inj here] at product
  cases product

theorem redirectUser_confined {body : ℕ} (edited : body ∈ bodies) (bodyParam gte user : ℕ)
    (m : HloModule) :
    Confined bodies m (redirectUser compatible body bodyParam gte user m).2 := by
  cases found : m.instruction body user with
  | none =>
    unfold redirectUser
    rw [pass_get_bind, found]
    exact .refl
  | some instruction =>
    cases multiplies : isMultiply instruction with
    | false =>
      rw [redirectUser_of_noProduct compatible body bodyParam gte found multiplies]
      exact .refl
    | true =>
      rw [redirectUser_product compatible body bodyParam gte user m (inside_of_instruction found)
        instruction found multiplies]
      exact (grown_confined m body _ _).trans
        (replaceOperandWith_confined compatible body user _ _ _ (fun _ _ _ => edited))

theorem redirectAll_confined {body : ℕ} (edited : body ∈ bodies) (bodyParam gte : ℕ)
    (entries : List ℕ) (m : HloModule) :
    Confined bodies m (redirectAll compatible body bodyParam gte entries m).2 := by
  induction entries generalizing m with
  | nil => exact .refl
  | cons user entries ih =>
    have first := redirectUser_confined compatible edited bodyParam gte user m
    cases step : redirectUser compatible body bodyParam gte user m with
    | mk result m' =>
      rw [step] at first
      cases result with
      | error e =>
        rw [redirectAll_cons, pass_bind_error step]
        exact first
      | ok _ =>
        rw [redirectAll_cons, pass_bind_ok step]
        exact first.trans (ih m')

theorem rewriteLoopBody_confined {m : HloModule} {c : ℕ} {loop : AttentionLoopMatch}
    {whileInst : Instruction} {condition body : ℕ} {computation : Computation} (activeIndices : ℕ)
    (found : m.instruction c loop.whileInst = some whileInst)
    (loops : whileInst.opcode = .while condition body)
    (there : m.computations[body]? = some computation) (edited : body ∈ bodies) :
    Confined bodies m (rewriteLoopBody compatible c activeIndices loop m).2 := by
  cases reads : loopVarGte computation loop.loopVarIndex with
  | none =>
    obtain ⟨e, failed⟩ := rewriteLoopBody_none compatible activeIndices found loops there reads
    rw [failed]
    exact .refl
  | some gte =>
    obtain ⟨bodyParam, _, step⟩ := rewriteLoopBody_some compatible activeIndices found loops there reads
    rw [step]
    exact redirectAll_confined compatible edited bodyParam gte _ m

theorem processLoop_confined {blockSize c whileInst : ℕ} {loop : AttentionLoopMatch}
    {reading : LoopReading} {shapes : List Shape} {trips : ℤ} {sites : Set (ℕ × ℕ)}
    {touched : Set ℕ} {m M : HloModule} (verified : m.Verified)
    (recognized : Recognized blockSize m c whileInst loop reading shapes trips)
    (framed : Framed m.computations.length sites touched m M) (unvisited : (c, whileInst) ∉ sites)
    (edited : reading.body ∈ bodies) :
    Confined bodies M (processLoop compatible blockSize c whileInst M).2 := by
  obtain ⟨ids, M₁, inject, first, _, here, there, counts⟩ :=
    injected verified recognized framed unvisited
  have editable := inside_of_instruction recognized.loop_found
  have room := framed.length.trans first.length
  obtain ⟨mask, found⟩ := here.matched.mask_found
  have injection : Confined bodies M M₁ := by
    rw [show M₁ = (injectStreamCompaction c loop.blockMask loop.numBlocks M).2 by rw [inject]]
    exact injectStreamCompaction_confined loop.numBlocks found
  rcases processLoop_stages compatible here inject there counts (init_shape verified recognized) with
    ⟨_, step⟩ | ⟨M₃, _, rfl, step, _⟩
  · rw [step]
    exact injection.trans (conditionReplaced_confined c ids.2 loop _ _ M₁)
  · have second : Framed m.computations.length {(c, loop.whileInst)} {c} M₁ _ :=
      initReplaced_framed ids.2 reading.init.operands (shapes ++ [s32Scalar])
        there.matched.loop_found there.loop_opcode editable rfl
    have replaced : ConditionSet m.computations.length
        (initReplaced c ids.2 loop reading.init.operands (shapes ++ [s32Scalar]) M₁) c loop reading
        shapes := initReplaced_set there.matched editable room
    obtain ⟨newCondition, operands, _, foundAfter, _⟩ := replaced
    obtain ⟨old, before⟩ := body_found verified recognized
    have inside := (List.getElem?_eq_some_iff.mp before).1.trans_le (room.trans second.length)
    rw [step]
    exact injection.trans ((initReplaced_confined ids.2 _ _ there.matched.loop_found
      there.loop_opcode).trans (rewriteLoopBody_confined compatible ids.1 foundAfter rfl
        (List.getElem?_eq_getElem inside) edited))

end Edits

/-! ### Runs -/

section Runs
variable {compatible : Shape → Shape → Bool} {blockSize : ℕ} {m : HloModule} (verified : m.Verified)
  (executionThreads : List String) {Q : HloModule → Prop}

def Preserved (compatible : Shape → Shape → Bool) (blockSize : ℕ) (executionThreads : List String)
    (m : HloModule) (Q : HloModule → Prop) : Prop :=
  ∀ sites changed M c whileInst, Visited compatible blockSize m sites changed M →
    (c, whileInst) ∉ sites → (c, whileInst) ∈ loopSites executionThreads m → Q M →
    Q (processLoop compatible blockSize c whileInst M).2

variable (preserved : Preserved compatible blockSize executionThreads m Q)
include verified preserved

theorem preserved_step {c whileInst : ℕ} {remaining : List (ℕ × ℕ)}
    {changed : List (ℕ × AttentionLoopMatch)} {M : HloModule}
    (before : VisitedBefore compatible blockSize m executionThreads ((c, whileInst) :: remaining)
      changed M) (holds : Q M) :
    VisitedBefore compatible blockSize m executionThreads remaining
        (recorded changed c (processLoop compatible blockSize c whileInst M).1)
        (processLoop compatible blockSize c whileInst M).2 ∧
      Q (processLoop compatible blockSize c whileInst M).2 := by
  refine ⟨before.step verified executionThreads, ?_⟩
  obtain ⟨front, sites, visited⟩ := before
  have distinct := loopSites_nodup executionThreads m
  rw [← sites] at distinct
  refine preserved _ changed M c whileInst visited
    (fun member => List.disjoint_of_nodup_append distinct member List.mem_cons_self) ?_ holds
  rw [← sites]
  exact List.mem_append_right front List.mem_cons_self

theorem preserved_computation (c : ℕ) (later : List ℕ)
    (existing : ∃ computation, m.computations[c]? = some computation)
    {changed : List (ℕ × AttentionLoopMatch)} {M : HloModule}
    (before : VisitedBefore compatible blockSize m executionThreads
      ((c :: later).flatMap (whileLoops m)) changed M) (holds : Q M) :
    Q (processComputation compatible blockSize changed c M).2 := by
  obtain ⟨old, found⟩ := existing
  have ⟨front, sites, visited⟩ := before
  obtain ⟨new, after, extended, _⟩ := visited.framed.computation c old found
  rw [List.flatMap_cons] at before
  unfold processComputation
  rw [get_bind, after]
  cases fusion : old.isFusion with
  | true =>
    simp only [extended.isFusion, fusion, if_true]
    exact holds
  | false =>
    have loops : whileLoops m c = (positionsOf old isWhile).map (Prod.mk c) := by
      simp [whileLoops, found, fusion]
    have positions : positionsOf new isWhile = positionsOf old isWhile :=
      positionsOf_framed visited.framed found after isWhile (fun _ _ _ edited => edited.isWhile_eq)
        (fun _ plain => plain.noLoop)
    rw [loops] at before
    simp only [extended.isFusion, fusion, Bool.false_eq_true, if_false, positions]
    exact (foldlM_invariant _ (fun ids changed M => VisitedBefore compatible blockSize m
        executionThreads (ids.map (Prod.mk c) ++ later.flatMap (whileLoops m)) changed M ∧ Q M)
      (fun id ids changed M inside => by
        rw [recorded_step _ changed c M _ rfl (fun _ => rfl)]
        exact preserved_step verified executionThreads preserved inside.1 inside.2)
      (positionsOf old isWhile) changed M ⟨before, holds⟩).2

theorem runLoops_preserves (start : Q m) :
    Q (runLoops compatible blockSize executionThreads m).2 := by
  have existing (c : ℕ) (member : c ∈ selectedComputations executionThreads m) :
      ∃ computation, m.computations[c]? = some computation := by
    obtain ⟨computation, there, _⟩ := mem_selectedComputations.mp member
    exact ⟨computation, there⟩
  have visited : VisitedBefore compatible blockSize m executionThreads
      ((selectedComputations executionThreads m).flatMap (whileLoops m)) [] m :=
    ⟨[], rfl, by simpa using visited_start⟩
  obtain ⟨_, _, holds⟩ := foldlM_invariant (processComputation compatible blockSize)
    (fun later changed M => (∀ c ∈ later, ∃ computation, m.computations[c]? = some computation) ∧
      VisitedBefore compatible blockSize m executionThreads (later.flatMap (whileLoops m)) changed M ∧
      Q M)
    (fun c later changed M before => ⟨fun d member => before.1 d (List.mem_cons_of_mem c member),
      processComputation_visited verified executionThreads c later (before.1 c List.mem_cons_self)
        before.2.1,
      preserved_computation verified executionThreads preserved c later
        (before.1 c List.mem_cons_self) before.2.1 before.2.2⟩)
    (selectedComputations executionThreads m) [] m ⟨existing, visited, start⟩
  exact holds

end Runs

section Bodies
variable {blockSize : ℕ} {executionThreads : List String} {m : HloModule}

def attentionBodies (blockSize : ℕ) (executionThreads : List String) (m : HloModule) : Set ℕ :=
  {f | ∃ c whileInst loop reading shapes trips, (c, whileInst) ∈ loopSites executionThreads m ∧
    Recognized blockSize m c whileInst loop reading shapes trips ∧ f = reading.body}

/-- A run edits products in the bodies of accepted loops only. -/
theorem runLoops_confined (compatible : Shape → Shape → Bool) (verified : m.Verified) :
    Confined (attentionBodies blockSize executionThreads m) m
      (runLoops compatible blockSize executionThreads m).2 := by
  refine runLoops_preserves verified executionThreads ?_ .refl
  intro sites changed M c whileInst visited unvisited member confined
  cases accepted : matchAttentionLoop blockSize m c whileInst with
  | none =>
    have unchanged : (processLoop compatible blockSize c whileInst M).2 = M := by
      unfold processLoop
      rw [get_bind, matchAttentionLoop_framed visited.framed verified (unmarked unvisited), accepted]
      rfl
    rwa [unchanged]
  | some loop =>
    obtain ⟨reading, shapes, trips, recognized⟩ :=
      (matchAttentionLoop_eq_some_iff blockSize m c whileInst loop).mp accepted
    exact confined.trans (processLoop_confined compatible verified recognized visited.framed
      (unmarked unvisited) ⟨c, whileInst, loop, reading, shapes, trips, member, recognized, rfl⟩)

end Bodies

end OrthoCache.ConfinedEdits
