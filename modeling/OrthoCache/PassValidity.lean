import OrthoCache.ActiveBlockVisits
import OrthoCache.VisitedLoops

/-!
Whether the module is still valid after the pass. The new condition of an accepted loop takes a
tuple with one more element than the state that the body takes and returns, so a module in which a
loop is accepted is valid no more.
-/

namespace OrthoCache.PassValidity
open Foundation.Hlo StreamCompactPass EmittedCompaction StreamCompactFrame MatchedLoops
open EditedComputations LoopOutcomes VisitedLoops ActiveBlockVisits

/-- Every loop of `m'` has one state shape, and what `m'` has more than `m` has suitable operands. -/
structure StaysValid (m m' : HloModule) : Prop where
  loops : ∀ c id instruction condition body, m'.instruction c id = some instruction →
    instruction.opcode = .while condition body →
    ∃ state, m'.StateShaped c instruction condition body state
  added : ∀ c id instruction, m'.instruction c id = some instruction →
    m.instruction c id = none → m'.operandsFit c instruction = true

section Accepted
variable {compatible : Shape → Shape → Bool} {blockSize : ℕ} {executionThreads : List String}
  {m : HloModule} (verified : m.Verified)
include verified

/-- The state of an accepted loop has two shapes afterwards. -/
theorem not_staysValid_of_accepts {c : ℕ} {loop : AttentionLoopMatch}
    (accepts : Accepts blockSize executionThreads m c loop) :
    ¬StaysValid m (run compatible blockSize executionThreads m).2 := by
  intro valid
  rw [run_module] at valid
  obtain ⟨member, reading, shapes, trips, recognized⟩ := accepts.recognized
  have visited : Visited compatible blockSize m _ _ _ := runLoops_visited verified executionThreads
  obtain ⟨newCondition, operands, _, found, there⟩ :=
    visited.conditions c loop.whileInst loop reading shapes trips member recognized
  obtain ⟨state, _, condition, body, _⟩ := valid.loops c loop.whileInst _ _ _ found rfl
  have longer : Shape.tuple (shapes ++ [s32Scalar]) = state :=
    condition.shape 0 _ ((instruction_eq there 0).trans rfl) rfl
  have before := (state_shape verified recognized).bodyParameter
  obtain ⟨p, parameter, stands, opcode⟩ := before.parameter
  have after := visited.framed.same stands (by rw [isMultiply, opcode])
    (.inr (by rw [isWhile, opcode]))
  have same : Shape.tuple shapes = state :=
    (before.shape p parameter stands opcode).symm.trans (body.shape p parameter after opcode)
  have equal := Shape.tuple.inj (longer.trans same.symm)
  exact absurd (congrArg List.length equal) (by simp)

end Accepted

/-- A valid module is valid after the pass if and only if the matcher accepts no loop that the pass
visits. -/
theorem run_staysValid_iff (compatible : Shape → Shape → Bool) (blockSize : ℕ)
    (executionThreads : List String) (m : HloModule) (verified : m.Verified) :
    StaysValid m (run compatible blockSize executionThreads m).2 ↔
      ¬∃ c loop, Accepts blockSize executionThreads m c loop := by
  constructor
  · rintro valid ⟨c, loop, accepts⟩
    exact not_staysValid_of_accepts verified accepts valid
  · intro rejects
    rw [run_module, runLoops_idle verified rejects]
    exact
      { loops := fun c id instruction condition body found loops =>
          ⟨_, verified.wellShaped.loop c id instruction condition body found loops⟩
        added := fun c id instruction found free => nomatch free.symm.trans found }

/-! ### Samples -/

section Sample

theorem twoBlockLoop_verified : twoBlockLoop.Verified := verified_of_check _ (by decide)

theorem twoBlockLoop_accepts : Accepts 2 [] twoBlockLoop 2 twoBlockMatch where
  visits := ⟨twoBlockEntry, rfl, rfl, .inl rfl⟩
  matched := rfl

/-- After the pass the condition of the loop takes six elements, and its body five. -/
theorem twoBlockLoop_invalid : twoBlockLoop.Verified ∧
    ¬StaysValid twoBlockLoop (run sameShape 2 [] twoBlockLoop).2 :=
  ⟨twoBlockLoop_verified, not_staysValid_of_accepts twoBlockLoop_verified twoBlockLoop_accepts⟩

def countingLoop : HloModule :=
  let state := Shape.tuple [s32Scalar]
  { computations :=
      [buildComputation [parameterInstruction 0 state, element 0 s32Scalar, constantS32 2,
        { opcode := .compare .lt, shape := predScalar, operands := [1, 2] }],
      buildComputation [parameterInstruction 0 state, element 0 s32Scalar, constantS32 1,
        { opcode := .add, shape := s32Scalar, operands := [1, 2] },
        { opcode := .tuple, shape := state, operands := [3] }],
      buildComputation [constantS32 0, { opcode := .tuple, shape := state, operands := [0] },
        { opcode := .while 0 1, shape := state, operands := [1] }]] }

theorem countingLoop_rejects : ¬∃ c loop, Accepts 2 [] countingLoop c loop := by
  rintro ⟨c, loop, accepts⟩
  have sites : loopSites [] countingLoop = [(2, 2)] := rfl
  have member := accepts.recognized.1
  rw [sites, List.mem_singleton] at member
  obtain ⟨rfl, same⟩ := Prod.mk.inj member
  have matched := accepts.matched
  rw [same] at matched
  cases matched

theorem countingLoop_valid : StaysValid countingLoop (run sameShape 2 [] countingLoop).2 :=
  (run_staysValid_iff sameShape 2 [] countingLoop
    (verified_of_check _ (by decide))).mpr countingLoop_rejects

end Sample

end OrthoCache.PassValidity
