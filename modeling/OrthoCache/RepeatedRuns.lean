import OrthoCache.ConfinedEdits
import OrthoCache.PassValidity

/-!
Running the pass again. The new condition of an accepted loop compares with an element of the state
and with no constant, so the matcher finds no trip count any more; what it rejected before it still
rejects. A second run has nothing to do.
-/

namespace OrthoCache.RepeatedRuns
open Foundation.Hlo Arrays StreamCompactPass EmittedCompaction StreamCompactFrame MatchedLoops
open EditedComputations LoopOutcomes VisitedLoops ConfinedEdits PassValidity ActiveBlockVisits

/-! ### Rejected loops -/

section Idle
variable (compatible : Shape → Shape → Bool) {blockSize : ℕ} {executionThreads : List String}
  {m : HloModule}

theorem foldlM_idle {α β : Type} (f : β → α → Build β) (entries : List α) (b : β) (m : HloModule)
    (idle : ∀ a ∈ entries, f b a m = (b, m)) : entries.foldlM f b m = (b, m) := by
  induction entries with
  | nil => rfl
  | cons a entries ih =>
    have first := idle a List.mem_cons_self
    have rest := ih (fun a' member => idle a' (List.mem_cons_of_mem a member))
    change entries.foldlM f (f b a m).1 (f b a m).2 = (b, m)
    rw [first, rest]

theorem processLoop_idle {c whileInst : ℕ}
    (rejected : matchAttentionLoop blockSize m c whileInst = none) :
    processLoop compatible blockSize c whileInst m = (none, m) := by
  unfold processLoop
  rw [get_bind, rejected]
  rfl

theorem processComputation_idle {c : ℕ} (changed : List (ℕ × AttentionLoopMatch))
    (rejects : ∀ id, (c, id) ∈ whileLoops m c → matchAttentionLoop blockSize m c id = none) :
    processComputation compatible blockSize changed c m = (changed, m) := by
  unfold processComputation
  rw [get_bind]
  cases there : m.computations[c]? with
  | none => rfl
  | some computation =>
    cases fusion : computation.isFusion with
    | true =>
      simp only [fusion, if_true]
      rfl
    | false =>
      have loops : whileLoops m c = (positionsOf computation isWhile).map (Prod.mk c) := by
        simp [whileLoops, there, fusion]
      simp only [fusion, Bool.false_eq_true, if_false]
      have visits (id : ℕ) (member : id ∈ positionsOf computation isWhile) :
          (c, id) ∈ whileLoops m c := by
        rw [loops]
        exact List.mem_map_of_mem member
      exact foldlM_idle _ _ changed m (fun id member => by
        rw [recorded_step _ changed c m _ rfl (fun _ => rfl),
          processLoop_idle compatible (rejects id (visits id member))]
        rfl)

theorem runLoops_of_rejected (rejects : ∀ site ∈ loopSites executionThreads m,
    matchAttentionLoop blockSize m site.1 site.2 = none) :
    runLoops compatible blockSize executionThreads m = ([], m) := by
  refine foldlM_idle _ _ [] m (fun c member => processComputation_idle compatible [] ?_)
  exact fun id inside => rejects (c, id) (List.mem_flatMap.mpr ⟨c, member, inside⟩)

end Idle

theorem tripCount_reindexed {m : HloModule} {condition loopVarIndex numActiveIdx : ℕ}
    {loopState : Shape} (there : m.computations[condition]? =
      some (reindexedCondition loopState loopVarIndex numActiveIdx)) :
    tripCount m condition = none := by
  have root := (instruction_eq there 3).trans rfl
  have bound := (instruction_eq there 2).trans rfl
  simp [tripCount, there, reindexedCondition, buildComputation, root, bound]

/-- A loop whose condition the pass has set is no loop over blocks any more. -/
theorem conditionSet_rejected {count blockSize c : ℕ} {m : HloModule} {loop : AttentionLoopMatch}
    {reading : LoopReading} {shapes : List Shape}
    (set : ConditionSet count m c loop reading shapes) :
    matchAttentionLoop blockSize m c loop.whileInst = none := by
  obtain ⟨newCondition, operands, _, found, there⟩ := set
  cases accepted : matchAttentionLoop blockSize m c loop.whileInst with
  | none => rfl
  | some other =>
    obtain ⟨reading', shapes', trips, recognized⟩ :=
      (matchAttentionLoop_eq_some_iff blockSize m c loop.whileInst other).mp accepted
    have same := congrArg Instruction.opcode
      (Option.some.inj (found.symm.trans recognized.loop_found))
    rw [recognized.loop_opcode, Opcode.while.injEq] at same
    have counted := recognized.trips_found
    rw [← same.1, tripCount_reindexed there] at counted
    cases counted

/-! ### Two runs -/

section Runs
variable {compatible : Shape → Shape → Bool} {blockSize : ℕ} {executionThreads : List String}
  {m : HloModule} (verified : m.Verified)
include verified

theorem loopSites_subset {site : ℕ × ℕ}
    (member : site ∈
      loopSites executionThreads (runLoops compatible blockSize executionThreads m).2) :
    site ∈ loopSites executionThreads m := by
  obtain ⟨c, id⟩ := site
  have visited : Visited compatible blockSize m _ _ _ := runLoops_visited verified executionThreads
  have confined : Confined (attentionBodies blockSize executionThreads m) m _ :=
    runLoops_confined compatible verified
  obtain ⟨⟨new, after, fusion, threads⟩, instruction, here, loops⟩ := mem_loopSites.mp member
  obtain ⟨original, found⟩ := visited.framed.loop c id instruction here loops
  obtain ⟨edited, there, step⟩ := visited.framed.instruction c id original found
  obtain rfl := Option.some.inj (here.symm.trans there)
  obtain ⟨old, before, _⟩ := Option.bind_eq_some_iff.mp found
  obtain ⟨new', after', extended, _⟩ := visited.framed.computation c old before
  obtain rfl := Option.some.inj (after.symm.trans after')
  obtain ⟨new', after', thread⟩ := confined.thread c old before
  obtain rfl := Option.some.inj (after.symm.trans after')
  exact mem_loopSites.mpr ⟨⟨old, before, extended.isFusion.symm.trans fusion, thread ▸ threads⟩,
    original, found, step.isWhile_eq.symm.trans loops⟩

/-- The matcher rejects every loop that a run has visited. -/
theorem rejected_of_visited {site : ℕ × ℕ} (member : site ∈ loopSites executionThreads m) :
    matchAttentionLoop blockSize (runLoops compatible blockSize executionThreads m).2 site.1 site.2 =
      none := by
  have visited : Visited compatible blockSize m _ _ _ := runLoops_visited verified executionThreads
  cases accepted : matchAttentionLoop blockSize m site.1 site.2 with
  | none =>
    rw [matchAttentionLoop_framed visited.framed verified (fun marked => marked.2 accepted), accepted]
  | some loop =>
    obtain ⟨reading, shapes, trips, recognized⟩ :=
      (matchAttentionLoop_eq_some_iff blockSize m site.1 site.2 loop).mp accepted
    have set := visited.conditions site.1 site.2 loop reading shapes trips member recognized
    rw [← recognized.while_eq]
    exact conditionSet_rejected set

end Runs

/-- A second run of the pass reports no change and leaves the module as the first run left it. -/
theorem run_run (compatible : Shape → Shape → Bool) (blockSize : ℕ) (executionThreads : List String)
    (m : HloModule) (verified : m.Verified) :
    run compatible blockSize executionThreads (run compatible blockSize executionThreads m).2 =
      (false, (run compatible blockSize executionThreads m).2) := by
  have rejects : ∀ site ∈ loopSites executionThreads
      (runLoops compatible blockSize executionThreads m).2,
      matchAttentionLoop blockSize (runLoops compatible blockSize executionThreads m).2 site.1
        site.2 = none :=
    fun site member => rejected_of_visited verified (loopSites_subset verified member)
  have idle := runLoops_of_rejected compatible rejects
  exact congrArg (fun result : List (ℕ × AttentionLoopMatch) × HloModule =>
    (!result.1.isEmpty, result.2)) idle

theorem twoBlockLoop_run_run :
    run sameShape 2 [] (run sameShape 2 [] twoBlockLoop).2 =
      (false, (run sameShape 2 [] twoBlockLoop).2) :=
  run_run sameShape 2 [] twoBlockLoop twoBlockLoop_verified

end OrthoCache.RepeatedRuns
