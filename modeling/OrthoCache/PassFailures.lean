import OrthoCache.PassValidity

/-!
Whether a failure leaves the module as it was. A stage that fails does not undo the stages before
it, and the condition stage sets the condition before it replaces the initial value; so the loops
that are not counted are as before only if no accepted loop fails and no accepted loop edits a
computation that a rejected loop calls.
-/

namespace OrthoCache.PassFailures
open Foundation.Hlo StreamCompactPass EmittedCompaction StreamCompactFrame MatchedLoops
open EditedComputations LoopOutcomes VisitedLoops ActiveBlockVisits PassValidity

/-! ### What a failure should leave -/

def LoopKept (m m' : HloModule) (c id : ℕ) : Prop :=
  ∀ loop condition body, m.instruction c id = some loop → loop.opcode = .while condition body →
    m'.instruction c id = some loop ∧ m'.computations[condition]? = m.computations[condition]? ∧
      m'.computations[body]? = m.computations[body]?

section Failures
variable (compatible : Shape → Shape → Bool) (blockSize : ℕ) (executionThreads : List String)
  (m : HloModule)

/-- The matcher rejects the loop, or accepts it and a later stage returns an error for it. -/
def Fails (c id : ℕ) : Prop :=
  matchAttentionLoop blockSize m c id = none ∨
    ∃ loop, loop.whileInst = id ∧ Accepts blockSize executionThreads m c loop ∧
      (c, loop) ∉ (runLoops compatible blockSize executionThreads m).1

/-- The loops that fail are kept, the result of `Run` tells whether a loop was changed, and if none
was, the module is as before. -/
structure FailuresKeep : Prop where
  failed : ∀ c id, Fails compatible blockSize executionThreads m c id →
    LoopKept m (run compatible blockSize executionThreads m).2 c id
  changed : (run compatible blockSize executionThreads m).1 = true ↔
    ∃ c id, ¬LoopKept m (run compatible blockSize executionThreads m).2 c id
  unchanged : (run compatible blockSize executionThreads m).1 = false →
    (run compatible blockSize executionThreads m).2 = m

def AllRewritable : Prop :=
  ∀ c loop, Accepts blockSize executionThreads m c loop → ∃ reading shapes trips,
    Recognized blockSize m c loop.whileInst loop reading shapes trips ∧
      Rewritable compatible m loop reading shapes

/-- No visited loop makes the pass edit the condition or the body of a rejected loop. -/
def RejectedApart : Prop :=
  ∀ c id loop condition body, m.instruction c id = some loop →
    loop.opcode = .while condition body → matchAttentionLoop blockSize m c id = none →
    ∀ site ∈ loopSites executionThreads m, ¬Touches compatible blockSize m condition site ∧
      ¬Touches compatible blockSize m body site

end Failures

section Kept
variable {compatible : Shape → Shape → Bool} {blockSize : ℕ} {executionThreads : List String}
  {m : HloModule} (verified : m.Verified)

theorem run_changed : (run compatible blockSize executionThreads m).1 = true ↔
    (runLoops compatible blockSize executionThreads m).1 ≠ [] := by
  change (!(runLoops compatible blockSize executionThreads m).1.isEmpty) = true ↔ _
  rw [Bool.not_eq_true', List.isEmpty_eq_false_iff]

theorem size_eq_of_same {m m' : HloModule} {f : ℕ}
    (same : m'.computations[f]? = m.computations[f]?) : size m' f = size m f := by
  unfold size
  rw [same]

include verified

theorem called_inside {c id : ℕ} {loop : Instruction} {condition body : ℕ}
    (found : m.instruction c id = some loop) (loops : loop.opcode = .while condition body) :
    condition < m.computations.length ∧ body < m.computations.length := by
  obtain ⟨_, ⟨⟨p, _, parameter, _⟩, _⟩, _, ⟨old, before, _⟩⟩ :=
    verified.wellShaped.loop c id _ _ _ found loops
  exact ⟨inside_of_instruction parameter, (List.getElem?_eq_some_iff.mp before).1⟩

theorem not_loopKept_of_accepts {c : ℕ} {loop : AttentionLoopMatch}
    (accepts : Accepts blockSize executionThreads m c loop) :
    ¬LoopKept m (run compatible blockSize executionThreads m).2 c loop.whileInst := by
  intro kept
  obtain ⟨member, reading, shapes, trips, recognized⟩ := accepts.recognized
  have visited : Visited compatible blockSize m _ _ _ := runLoops_visited verified executionThreads
  obtain ⟨newCondition, operands, added, found, _⟩ :=
    visited.conditions c loop.whileInst loop reading shapes trips member recognized
  obtain ⟨same, _⟩ := kept _ _ _ recognized.loop_found recognized.loop_opcode
  have inside := (called_inside verified recognized.loop_found recognized.loop_opcode).1
  have opcode : Opcode.while newCondition reading.body = .while reading.condition reading.body :=
    (congrArg Instruction.opcode (Option.some.inj (found.symm.trans same))).trans
      recognized.loop_opcode
  obtain ⟨rfl, _⟩ := Opcode.while.inj opcode
  omega

theorem loopKept_of_rejected (apart : RejectedApart compatible blockSize executionThreads m)
    {c id : ℕ} (rejected : matchAttentionLoop blockSize m c id = none) :
    LoopKept m (run compatible blockSize executionThreads m).2 c id := by
  intro loop condition body found loops
  have visited : Visited compatible blockSize m _ _ _ := runLoops_visited verified executionThreads
  obtain ⟨conditionInside, bodyInside⟩ := called_inside verified found loops
  have untouched := apart c id loop condition body found loops rejected
  refine ⟨?_, ?_, ?_⟩
  · exact visited.framed.same found (by rw [isMultiply, loops])
      (.inl (fun accepted => accepted.2 rejected))
  · refine visited.framed.unchanged conditionInside ?_
    rintro ⟨site, member, touches⟩
    exact (untouched site member).1 touches
  · refine visited.framed.unchanged bodyInside ?_
    rintro ⟨site, member, touches⟩
    exact (untouched site member).2 touches

theorem counted_of_rewritable (reflexive : ∀ shape, compatible shape shape = true)
    (rewritable : AllRewritable compatible blockSize executionThreads m) {c : ℕ}
    {loop : AttentionLoopMatch} (accepts : Accepts blockSize executionThreads m c loop) :
    (c, loop) ∈ (runLoops compatible blockSize executionThreads m).1 :=
  ((runLoops_visited verified executionThreads).counted reflexive c loop).mpr
    ⟨accepts.recognized.1, rewritable c loop accepts⟩

theorem allRewritable_of_keep (reflexive : ∀ shape, compatible shape shape = true)
    (keep : FailuresKeep compatible blockSize executionThreads m) :
    AllRewritable compatible blockSize executionThreads m := by
  intro c loop accepts
  by_cases counted : (c, loop) ∈ (runLoops compatible blockSize executionThreads m).1
  · exact (((runLoops_visited verified executionThreads).counted reflexive c loop).mp counted).2
  · exact absurd (keep.failed c loop.whileInst (.inr ⟨loop, rfl, accepts, counted⟩))
      (not_loopKept_of_accepts verified accepts)

theorem rejectedApart_of_keep (keep : FailuresKeep compatible blockSize executionThreads m) :
    RejectedApart compatible blockSize executionThreads m := by
  intro c id loop condition body found loops rejected site member
  have visited : Visited compatible blockSize m _ _ _ := runLoops_visited verified executionThreads
  obtain ⟨_, sameCondition, sameBody⟩ := keep.failed c id (.inl rejected) _ _ _ found loops
  constructor
  · intro touches
    exact (visited.grows _ site member touches).ne (size_eq_of_same sameCondition).symm
  · intro touches
    exact (visited.grows _ site member touches).ne (size_eq_of_same sameBody).symm

end Kept

/-- With a shape test that a shape passes against itself, failures leave a valid module as it was
if and only if no accepted loop fails, and accepted loops edit no computation that a rejected loop
calls. -/
theorem run_failuresKeep_iff (compatible : Shape → Shape → Bool)
    (reflexive : ∀ shape, compatible shape shape = true) (blockSize : ℕ)
    (executionThreads : List String) (m : HloModule) (verified : m.Verified) :
    FailuresKeep compatible blockSize executionThreads m ↔
      AllRewritable compatible blockSize executionThreads m ∧
        RejectedApart compatible blockSize executionThreads m := by
  constructor
  · intro keep
    exact ⟨allRewritable_of_keep verified reflexive keep, rejectedApart_of_keep verified keep⟩
  rintro ⟨rewritable, apart⟩
  have idle (none_changed : (runLoops compatible blockSize executionThreads m).1 = []) :
      (run compatible blockSize executionThreads m).2 = m := by
    refine runLoops_idle verified ?_
    rintro ⟨c, loop, accepts⟩
    have counted := counted_of_rewritable verified reflexive rewritable accepts
    rw [none_changed] at counted
    cases counted
  refine ⟨?_, ?_, ?_⟩
  · rintro c id (rejected | ⟨loop, _, accepts, uncounted⟩)
    · exact loopKept_of_rejected verified apart rejected
    · exact absurd (counted_of_rewritable verified reflexive rewritable accepts) uncounted
  · rw [run_changed]
    constructor
    · intro changed
      obtain ⟨⟨c, loop⟩, member⟩ := List.exists_mem_of_ne_nil _ changed
      obtain ⟨site, reading, shapes, trips, recognized, _⟩ :=
        ((runLoops_visited verified executionThreads).counted reflexive c loop).mp member
      exact ⟨c, loop.whileInst, not_loopKept_of_accepts verified
        ⟨(mem_loopSites.mp site).1, recognized.accepted⟩⟩
    · rintro ⟨c, id, edited⟩ none_changed
      refine edited (fun loop condition body found _ => ?_)
      rw [idle none_changed]
      exact ⟨found, rfl, rfl⟩
  · intro unchanged
    refine idle ?_
    by_contra changed
    cases unchanged.symm.trans (run_changed.mpr changed)

/-! ### Samples -/

section Sample

/-- No longer initial value passes the test. -/
theorem not_rewritable_sameShape (m : HloModule) (loop : AttentionLoopMatch) (reading : LoopReading)
    (shapes : List Shape) : ¬Rewritable sameShape m loop reading shapes := by
  rintro ⟨same, _⟩
  have equal := Shape.tuple.inj (decide_eq_true_eq.mp same)
  exact absurd (congrArg List.length equal) (by simp)

/-- The condition of the loop is replaced before its longer initial value fails the test. -/
theorem twoBlockLoop_edited : twoBlockLoop.Verified ∧
    ¬FailuresKeep sameShape 2 [] twoBlockLoop := by
  refine ⟨twoBlockLoop_verified, fun keep => ?_⟩
  obtain ⟨reading, shapes, _, _, rewritable⟩ :=
    allRewritable_of_keep twoBlockLoop_verified sameShape_self keep 2 twoBlockMatch
      twoBlockLoop_accepts
  exact not_rewritable_sameShape _ _ reading shapes rewritable

theorem countingLoop_kept : FailuresKeep sameShape 2 [] countingLoop := by
  refine (run_failuresKeep_iff sameShape sameShape_self 2 [] countingLoop
    (verified_of_check _ (by decide))).mpr ⟨fun c loop accepts => ?_, ?_⟩
  · exact absurd ⟨c, loop, accepts⟩ countingLoop_rejects
  · rintro c id loop condition body _ _ _ site member
    have untouched (f : ℕ) : ¬Touches sameShape 2 countingLoop f site := by
      rintro ⟨loop', reading, shapes, trips, recognized, _⟩
      exact countingLoop_rejects
        ⟨site.1, loop', (accepts_of_site member recognized.accepted).2⟩
    exact ⟨untouched condition, untouched body⟩

end Sample

end OrthoCache.PassFailures
