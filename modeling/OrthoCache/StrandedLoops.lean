import OrthoCache.OutsideLoops

/-!
What the pass does when the shapes of operands are compared. The extended initial value has one more
element than the state of the loop, so it cannot replace the old one; but the new condition, which
takes the longer tuple, is set before that fails. So a run reports no change, and every loop that the
matcher accepts is left with a condition that cannot be called on its state.
-/

namespace OrthoCache.StrandedLoops
open Foundation.Hlo Arrays StreamCompactPass EmittedCompaction StreamCompactFrame MatchedLoops
open EditedComputations LoopOutcomes VisitedLoops ConfinedEdits PassFailures OutsideLoops
open PassValidity ActiveBlockVisits

/-! ### Operands -/

def OperandsKept (m m' : HloModule) : Prop :=
  ∀ c id old, m.instruction c id = some old →
    ∃ new, m'.instruction c id = some new ∧ new.operands = old.operands

theorem OperandsKept.refl {m : HloModule} : OperandsKept m m := fun _ _ old found => ⟨old, found, rfl⟩

theorem OperandsKept.trans {m m' m'' : HloModule} (first : OperandsKept m m')
    (second : OperandsKept m' m'') : OperandsKept m m'' := by
  intro c id old found
  obtain ⟨mid, there, same⟩ := first c id old found
  obtain ⟨new, here, same'⟩ := second c id mid there
  exact ⟨new, here, same'.trans same⟩

theorem grown_operandsKept (m : HloModule) (c : ℕ) (added : List Instruction)
    (embedded : List Computation) : OperandsKept m (grown m c added embedded) :=
  fun f id old found => ⟨old, grown_original m c added embedded f id old found, rfl⟩

theorem setWhileCondition_operandsKept (c id newCond : ℕ) (m : HloModule) :
    OperandsKept m (setWhileCondition c id newCond m).2 := by
  intro f k old found
  unfold setWhileCondition
  rw [modifyInstruction_instruction, found]
  split_ifs with here
  · refine ⟨_, rfl, ?_⟩
    dsimp only
    split <;> rfl
  · exact ⟨old, rfl, rfl⟩

/-- Tuples of different lengths do not pass the test. -/
def ComparesLengths (compatible : Shape → Shape → Bool) : Prop :=
  ∀ vs ws, compatible (.tuple vs) (.tuple ws) = true → vs.length = ws.length

theorem sameShape_comparesLengths : ComparesLengths sameShape := by
  intro vs ws same
  rw [Shape.tuple.inj (decide_eq_true_eq.mp same)]

section Run
variable {compatible : Shape → Shape → Bool} (compares : ComparesLengths compatible)
include compares

theorem longer_incompatible (shapes : List Shape) :
    compatible (.tuple shapes) (.tuple (shapes ++ [s32Scalar])) = false := by
  rw [← Bool.not_eq_true]
  intro accepted
  have equal := compares _ _ accepted
  rw [List.length_append, List.length_singleton] at equal
  exact (Nat.succ_ne_self _ equal.symm)

variable {blockSize : ℕ} {executionThreads : List String} {m : HloModule}

theorem touches_iff {f : ℕ} :
    (∃ site ∈ loopSites executionThreads m, Touches compatible blockSize m f site) ↔
      ∃ loop, Accepts blockSize executionThreads m f loop := by
  constructor
  · rintro ⟨site, member, loop, reading, shapes, trips, recognized, rfl | ⟨_, accepted, _⟩⟩
    · exact ⟨loop, (accepts_of_site member recognized.accepted).2⟩
    · cases (longer_incompatible compares shapes).symm.trans accepted
  · rintro ⟨loop, accepts⟩
    obtain ⟨member, reading, shapes, trips, recognized⟩ := accepts.recognized
    exact ⟨_, member, loop, reading, shapes, trips, recognized, .inl rfl⟩

variable (verified : m.Verified)
include verified

theorem processLoop_operandsKept {c whileInst : ℕ} {loop : AttentionLoopMatch}
    {reading : LoopReading} {shapes : List Shape} {trips : ℤ} {sites : Set (ℕ × ℕ)}
    {touched : Set ℕ} {M : HloModule}
    (recognized : Recognized blockSize m c whileInst loop reading shapes trips)
    (framed : Framed m.computations.length sites touched m M) (unvisited : (c, whileInst) ∉ sites) :
    OperandsKept M (processLoop compatible blockSize c whileInst M).2 := by
  obtain ⟨ids, M₁, inject, _, _, here, there, counts⟩ :=
    injected verified recognized framed unvisited
  obtain ⟨mask, found⟩ := here.matched.mask_found
  have injection : OperandsKept M M₁ := by
    obtain ⟨added, embedded, module, _⟩ :=
      injectStreamCompaction_grown M c loop.blockMask loop.numBlocks mask found
    rw [show M₁ = (injectStreamCompaction c loop.blockMask loop.numBlocks M).2 by rw [inject], module]
    exact grown_operandsKept M c added embedded
  rcases processLoop_stages compatible here inject there counts (init_shape verified recognized) with
    ⟨_, step⟩ | ⟨_, accepts, _⟩
  · rw [step]
    exact injection.trans ((grown_operandsKept M₁ c _ _).trans
      (setWhileCondition_operandsKept c loop.whileInst _ _))
  · cases (longer_incompatible compares shapes).symm.trans accepts

theorem runLoops_operandsKept :
    OperandsKept m (runLoops compatible blockSize executionThreads m).2 := by
  refine runLoops_preserves verified executionThreads ?_ .refl
  intro sites changed M c whileInst visited unvisited _ kept
  cases accepted : matchAttentionLoop blockSize m c whileInst with
  | none =>
    have unchanged : (processLoop compatible blockSize c whileInst M).2 = M := by
      unfold processLoop
      rw [get_bind, matchAttentionLoop_framed visited.framed verified (unmarked unvisited), accepted]
      rfl
    rwa [unchanged]
  | some loop =>
    obtain ⟨reading, shapes, trips, recognized⟩ :=
      (matchAttentionLoop_eq_some_iff blockSize m c whileInst loop).mp accepted
    exact kept.trans (processLoop_operandsKept compares verified recognized visited.framed
      (unmarked unvisited))

/-- An accepted loop has no value after a run. -/
theorem loop_undefined {c : ℕ} {loop : AttentionLoopMatch}
    (accepts : Accepts blockSize executionThreads m c loop)
    (rest : Opcode → Shape → List Value → Option Value) (args : List Value) (fuel : ℕ) :
    evaluate rest (runLoops compatible blockSize executionThreads m).2 fuel c args loop.whileInst =
      none := by
  obtain ⟨member, reading, shapes, trips, recognized⟩ := accepts.recognized
  have visited : Visited compatible blockSize m _ _ _ := runLoops_visited verified executionThreads
  obtain ⟨newCondition, operands, _, found, there⟩ :=
    visited.conditions c loop.whileInst loop reading shapes trips member recognized
  obtain ⟨new, after, same⟩ :=
    runLoops_operandsKept compares verified c loop.whileInst _ recognized.loop_found
  obtain rfl := Option.some.inj (found.symm.trans after)
  obtain ⟨initId, single, typed⟩ := (state_shape verified recognized).init
  obtain ⟨init, initFound, initShape⟩ := Option.map_eq_some_iff.mp (visited.framed.shape typed)
  cases value : evaluate rest _ fuel c args loop.whileInst with
  | none => rfl
  | some v =>
    obtain ⟨k, vs, evaluated, result⟩ := operands_of_evaluate found value
    rw [show operands = [initId] from same.trans single] at evaluated
    obtain ⟨state, _, initial, ends, rfl⟩ := List.forall₂_cons_left_iff.mp evaluated
    obtain rfl := List.forall₂_nil_left_iff.mp ends
    have shaped := shape_of_evaluate initFound initial
    cases k with
    | zero => cases result
    | succ k =>
      -- the condition takes one more element than the state has
      obtain ⟨test, called, _⟩ := Option.bind_eq_some_iff.mp result
      have equal := Option.some.inj (shape_of_callAt called ((instruction_eq there 0).trans rfl) rfl)
      rw [shaped, initShape] at equal
      exact absurd (congrArg List.length (Shape.tuple.inj equal)) (by simp)

theorem fed_undefined {c id : ℕ} {loop : AttentionLoopMatch}
    (accepts : Accepts blockSize executionThreads m c loop) (feeds : Feeds m c loop.whileInst id)
    (rest : Opcode → Shape → List Value → Option Value) (args : List Value) (fuel : ℕ) :
    evaluate rest (runLoops compatible blockSize executionThreads m).2 fuel c args id = none := by
  refine evaluate_none_of_feeds rest ?_ (loop_undefined compares verified accepts rest args) fuel
  generalize loop.whileInst = first at feeds
  induction feeds with
  | here id => exact .here id
  | step id user last instruction found operand others ih =>
    obtain ⟨new, here, same⟩ := runLoops_operandsKept compares verified c user instruction found
    exact .step id user last new here (same ▸ operand) ih

theorem runLoops_eq_nil (reflexive : ∀ shape, compatible shape shape = true) :
    (runLoops compatible blockSize executionThreads m).1 = [] := by
  rw [List.eq_nil_iff_forall_not_mem]
  rintro ⟨c, loop⟩ counted
  have visited : Visited compatible blockSize m _ _ _ := runLoops_visited verified executionThreads
  obtain ⟨_, reading, shapes, _, _, accepted, _⟩ := (visited.counted reflexive c loop).mp counted
  cases (longer_incompatible compares shapes).symm.trans accepted

end Run

/-! ### A whole run -/

/-- The accepted loops of `m` cannot be executed in `m'`, and the rest is as it was. -/
structure Stranded (blockSize : ℕ) (executionThreads : List String) (m m' : HloModule) : Prop where
  computation : ∀ f < m.computations.length, m'.computations[f]? = m.computations[f]? ↔
    ¬∃ loop, Accepts blockSize executionThreads m f loop
  instruction : ∀ c id old, m.instruction c id = some old →
    (m'.instruction c id = some old ↔
      ∀ loop, loop.whileInst = id → ¬Accepts blockSize executionThreads m c loop)
  value : ∀ c loop, Accepts blockSize executionThreads m c loop → ∀ id,
    Feeds m c loop.whileInst id → ∀ rest fuel args, evaluate rest m' fuel c args id = none

/-- With a test that compares shapes a run reports no change, and yet no accepted loop, and nothing
that one feeds, has a value in the module that it leaves. -/
theorem run_stranded (compatible : Shape → Shape → Bool)
    (reflexive : ∀ shape, compatible shape shape = true) (compares : ComparesLengths compatible)
    (blockSize : ℕ) (executionThreads : List String) (m : HloModule) (verified : m.Verified) :
    (run compatible blockSize executionThreads m).1 = false ∧
      Stranded blockSize executionThreads m (run compatible blockSize executionThreads m).2 := by
  constructor
  · change (!(runLoops compatible blockSize executionThreads m).1.isEmpty) = false
    rw [runLoops_eq_nil compares verified reflexive]
    rfl
  rw [run_module]
  refine ⟨fun f inside => ?_, fun c id old found => ⟨fun kept loop same accepts => ?_, fun rejects => ?_⟩,
    fun c loop accepts id feeds rest fuel args => fed_undefined compares verified accepts feeds rest
      args fuel⟩
  · rw [unchanged_iff verified inside, ← touches_iff compares]
    push Not
    rfl
  · obtain ⟨new, here, changed, _⟩ := leftAs_of_accepts verified found same accepts
    exact changed (Option.some.inj (here.symm.trans kept))
  · obtain ⟨new, here, _, left⟩ := leftAs_of_rejects verified found rejects
    obtain ⟨new', here', same⟩ := runLoops_operandsKept compares verified c id old found
    obtain rfl := Option.some.inj (here.symm.trans here')
    cases left with
    | same => exact here
    | product operands =>
      obtain rfl : operands = old.operands := same
      exact here
    | loop accepted _ _ _ _ at_while accepts => exact absurd accepts (rejects accepted at_while)

theorem twoBlockLoop_stranded : (run sameShape 2 [] twoBlockLoop).1 = false ∧
    ∀ rest fuel args, evaluate rest (run sameShape 2 [] twoBlockLoop).2 fuel 2 args 6 = none := by
  obtain ⟨unreported, stranded⟩ := run_stranded sameShape sameShape_self sameShape_comparesLengths 2 []
    twoBlockLoop twoBlockLoop_verified
  exact ⟨unreported, stranded.value 2 twoBlockMatch twoBlockLoop_accepts 6 (.here 6)⟩

end OrthoCache.StrandedLoops
