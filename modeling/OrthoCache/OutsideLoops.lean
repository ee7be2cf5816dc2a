import OrthoCache.Foundation.HloSlices
import OrthoCache.ConfinedEdits
import OrthoCache.PassFailures

/-!
What the pass leaves of a module. Every instruction stays where it is, and a run changes accepted
loops and products in the bodies of accepted loops only. So an instruction whose value depends on
none of these has the same value in the module that the pass leaves.
-/

namespace OrthoCache.OutsideLoops
open Foundation.Hlo Arrays StreamCompactPass EmittedCompaction StreamCompactFrame MatchedLoops
open EditedComputations VisitedLoops ConfinedEdits PassValidity
open ActiveBlockVisits (sameShape twoBlockLoop twoBlockArguments)

section Spared
variable (blockSize : ℕ) (executionThreads : List String) (m : HloModule)

/-- A run neither rewrites this instruction nor redirects its operands. -/
structure SparedAt (site : ℕ × ℕ) : Prop where
  noLoop : ∀ loop, loop.whileInst = site.2 → ¬Accepts blockSize executionThreads m site.1 loop
  noProduct : ∀ instruction, m.instruction site.1 site.2 = some instruction →
    isMultiply instruction = true → site.1 ∉ attentionBodies blockSize executionThreads m

/-- A run spares the instruction and all that its value depends on. -/
def Spared (c id : ℕ) : Prop := ∀ site ∈ slice m (c, id), SparedAt blockSize executionThreads m site

end Spared

section Values
variable {compatible : Shape → Shape → Bool} {blockSize : ℕ} {executionThreads : List String}
  {m : HloModule} (verified : m.Verified)
include verified

theorem parameter_kept {f id number : ℕ} {old : Instruction}
    (found : m.instruction f id = some old) (opcode : old.opcode = .parameter number) :
    (runLoops compatible blockSize executionThreads m).2.instruction f id = some old :=
  (runLoops_visited verified executionThreads).framed.same found (by rw [isMultiply, opcode])
    (.inr (by rw [isWhile, opcode]))

theorem sameEntry_run {f : ℕ} {old new : Computation} (before : m.computations[f]? = some old)
    (after : (runLoops compatible blockSize executionThreads m).2.computations[f]? = some new) :
    SameEntry old new := by
  have visited : Visited compatible blockSize m _ _ _ := runLoops_visited verified executionThreads
  obtain ⟨new', after', extended, _⟩ := visited.framed.computation f old before
  obtain rfl := Option.some.inj (after.symm.trans after')
  have inside := (List.getElem?_eq_some_iff.mp before).1
  refine ⟨extended.root, fun args => ?_⟩
  unfold Computation.accepts
  rw [Bool.eq_iff_iff, List.all_eq_true, List.all_eq_true]
  constructor
  · intro accepts instruction member
    cases opcode : instruction.opcode with
    | parameter number =>
      obtain ⟨id, here⟩ := List.mem_iff_getElem?.mp member
      rw [← instruction_eq before] at here
      have kept : (runLoops compatible blockSize executionThreads m).2.instruction f id = some _ :=
        parameter_kept verified here opcode
      rw [instruction_eq after] at kept
      have accepted := accepts instruction (List.mem_of_getElem? kept)
      rwa [opcode] at accepted
    | _ => rfl
  · intro accepts instruction member
    cases opcode : instruction.opcode with
    | parameter number =>
      obtain ⟨id, here⟩ := List.mem_iff_getElem?.mp member
      rw [← instruction_eq after] at here
      cases found : m.instruction f id with
      | none =>
        have plain := (visited.framed.plain f id instruction inside here found).noParameter number
        simp [StreamCompactPass.isParameter, opcode] at plain
      | some original =>
        obtain ⟨edited, there, step⟩ := visited.framed.instruction f id original found
        obtain rfl := Option.some.inj (here.symm.trans there)
        have same : instruction = original := by
          cases step with
          | same => rfl
          | product _ multiply => cases multiply.symm.trans opcode
          | loop _ _ _ _ _ loops => cases opcode
        subst same
        rw [instruction_eq before] at found
        have accepted := accepts instruction (List.mem_of_getElem? found)
        rwa [opcode] at accepted
    | _ => rfl

/-- A run leaves a spared instruction, and what it calls is entered as before. -/
theorem agreeAt_run (resolved : Resolved m) {site : ℕ × ℕ} {instruction : Instruction}
    (found : m.instruction site.1 site.2 = some instruction)
    (spared : SparedAt blockSize executionThreads m site) :
    AgreeAt m (runLoops compatible blockSize executionThreads m).2 site := by
  have visited : Visited compatible blockSize m _ _ _ := runLoops_visited verified executionThreads
  constructor
  · obtain ⟨new, here, edited⟩ := visited.framed.instruction site.1 site.2 instruction found
    cases edited with
    | same => exact here.trans found.symm
    | product operands multiply =>
      have multiplies : isMultiply instruction = true := by rw [isMultiply, multiply]
      rw [(runLoops_confined compatible verified).product site.1 site.2 instruction
        (spared.noProduct instruction found multiplies) found multiplies, found]
    | loop condition newCondition body operands marked loops =>
      obtain ⟨member, accepted⟩ := marked
      obtain ⟨loop, matched⟩ := Option.ne_none_iff_exists'.mp accepted
      obtain ⟨same, accepts⟩ := accepts_of_site member matched
      exact absurd accepts (spared.noLoop loop same)
  · intro used here f called
    have inside := resolved site.1 site.2 used here f called
    obtain ⟨new, after, _⟩ :=
      visited.framed.computation f _ (List.getElem?_eq_getElem inside)
    exact ⟨_, new, List.getElem?_eq_getElem inside, after,
      sameEntry_run verified (List.getElem?_eq_getElem inside) after⟩

end Values

/-! ### The frame of a run -/

section Frame
variable (compatible : Shape → Shape → Bool) (blockSize : ℕ) (executionThreads : List String)
  (m m' : HloModule)

inductive LeftAs (site : ℕ × ℕ) (old : Instruction) : Instruction → Prop
  | same (noLoop : ∀ loop, loop.whileInst = site.2 →
      ¬Accepts blockSize executionThreads m site.1 loop) : LeftAs site old old
  | product (operands : List ℕ) (multiplies : isMultiply old = true)
      (inside : site.1 ∈ attentionBodies blockSize executionThreads m) :
      LeftAs site old { old with operands := operands }
  | loop (accepted : AttentionLoopMatch) (reading : LoopReading) (shapes : List Shape)
      (newCondition : ℕ) (operands : List ℕ) (here : accepted.whileInst = site.2)
      (accepts : Accepts blockSize executionThreads m site.1 accepted)
      (loops : old.opcode = .while reading.condition reading.body)
      (added : m.computations.length ≤ newCondition)
      (there : m'.computations[newCondition]? = some (reindexedCondition
        (.tuple (shapes ++ [s32Scalar])) accepted.loopVarIndex reading.init.operands.length)) :
      LeftAs site old
        { old with opcode := .while newCondition reading.body, operands := operands }

structure RunFrame : Prop where
  computation : ∀ (f : ℕ) (old : Computation), m.computations[f]? = some old →
    ∃ new, m'.computations[f]? = some new ∧ Extended old new ∧
      new.executionThread = old.executionThread ∧ SameEntry old new
  unchanged : ∀ f < m.computations.length, m'.computations[f]? = m.computations[f]? ↔
    ∀ site ∈ loopSites executionThreads m, ¬Touches compatible blockSize m f site
  instruction : ∀ c id old, m.instruction c id = some old →
    ∃ new, m'.instruction c id = some new ∧
      LeftAs blockSize executionThreads m m' (c, id) old new
  loop : ∀ c id old, m.instruction c id = some old → isWhile old = true →
    (m'.instruction c id = some old ↔
      ∀ loop, loop.whileInst = id → ¬Accepts blockSize executionThreads m c loop)
  plain : ∀ f id new, f < m.computations.length → m'.instruction f id = some new →
    m.instruction f id = none → Plain m f new

end Frame

section Runs
variable {compatible : Shape → Shape → Bool} {blockSize : ℕ} {executionThreads : List String}
  {m : HloModule} (verified : m.Verified)
include verified

/-- A run edits exactly the computations that some accepted loop touches. -/
theorem unchanged_iff {f : ℕ} (inside : f < m.computations.length) :
    (runLoops compatible blockSize executionThreads m).2.computations[f]? = m.computations[f]? ↔
      ∀ site ∈ loopSites executionThreads m, ¬Touches compatible blockSize m f site := by
  have visited : Visited compatible blockSize m _ _ _ := runLoops_visited verified executionThreads
  constructor
  · intro same site member touches
    exact (visited.grows f site member touches).ne (PassFailures.size_eq_of_same same).symm
  · intro untouched
    refine visited.framed.unchanged inside ?_
    rintro ⟨site, member, touches⟩
    exact untouched site member touches

theorem leftAs_of_accepts {c id : ℕ} {old : Instruction} {loop : AttentionLoopMatch}
    (found : m.instruction c id = some old) (here : loop.whileInst = id)
    (accepts : Accepts blockSize executionThreads m c loop) :
    ∃ new, (runLoops compatible blockSize executionThreads m).2.instruction c id = some new ∧
      new ≠ old ∧ LeftAs blockSize executionThreads m
        (runLoops compatible blockSize executionThreads m).2 (c, id) old new := by
  subst here
  obtain ⟨member, reading, shapes, trips, recognized⟩ := accepts.recognized
  have visited : Visited compatible blockSize m _ _ _ := runLoops_visited verified executionThreads
  obtain ⟨newCondition, operands, added, after, there⟩ :=
    visited.conditions c loop.whileInst loop reading shapes trips member recognized
  obtain rfl := Option.some.inj (found.symm.trans recognized.loop_found)
  refine ⟨_, after, fun same => ?_, .loop loop reading shapes newCondition operands rfl accepts
    recognized.loop_opcode added there⟩
  have opcode : Opcode.while newCondition reading.body = .while reading.condition reading.body :=
    (congrArg Instruction.opcode same).trans recognized.loop_opcode
  have inside := (PassFailures.called_inside verified found recognized.loop_opcode).1
  exact absurd (Opcode.while.inj opcode).1 (inside.trans_le added).ne'

theorem leftAs_of_rejects {c id : ℕ} {old : Instruction} (found : m.instruction c id = some old)
    (rejects : ∀ loop, loop.whileInst = id → ¬Accepts blockSize executionThreads m c loop) :
    ∃ new, (runLoops compatible blockSize executionThreads m).2.instruction c id = some new ∧
      (isWhile old = true → new = old) ∧ LeftAs blockSize executionThreads m
        (runLoops compatible blockSize executionThreads m).2 (c, id) old new := by
  have visited : Visited compatible blockSize m _ _ _ := runLoops_visited verified executionThreads
  obtain ⟨new, here, edited⟩ := visited.framed.instruction c id old found
  cases edited with
  | same => exact ⟨old, here, fun _ => rfl, .same rejects⟩
  | product operands multiply =>
    have multiplies : isMultiply old = true := by rw [isMultiply, multiply]
    have noLoop : isWhile old ≠ true := by
      rw [isWhile, multiply]
      exact Bool.false_ne_true
    by_cases inside : c ∈ attentionBodies blockSize executionThreads m
    · exact ⟨_, here, fun loops => absurd loops noLoop, .product operands multiplies inside⟩
    · have kept := (runLoops_confined compatible verified).product c id old inside found multiplies
      exact ⟨old, kept, fun _ => rfl, .same rejects⟩
  | loop condition newCondition body operands marked loops =>
    obtain ⟨member, accepted⟩ := marked
    obtain ⟨loop, matched⟩ := Option.ne_none_iff_exists'.mp accepted
    obtain ⟨same, accepts⟩ := accepts_of_site member matched
    exact absurd accepts (rejects loop same)

end Runs

/-- Over a whole run every computation of the module keeps its root, its kind, its thread and the
arguments it accepts, and is unchanged exactly if no accepted loop touches it; every instruction
stays where it is, and only accepted loops, all of them, and products in their bodies change. -/
theorem run_frame (compatible : Shape → Shape → Bool) (blockSize : ℕ)
    (executionThreads : List String) (m : HloModule) (verified : m.Verified) :
    RunFrame compatible blockSize executionThreads m
      (run compatible blockSize executionThreads m).2 := by
  have visited : Visited compatible blockSize m _ _ _ := runLoops_visited verified executionThreads
  rw [run_module]
  refine ⟨fun f old before => ?_, fun f inside => unchanged_iff verified inside,
    fun c id old found => ?_, fun c id old found loops => ?_, visited.framed.plain⟩
  · obtain ⟨new, after, extended, _⟩ := visited.framed.computation f old before
    obtain ⟨new', after', thread⟩ := (runLoops_confined compatible verified).thread f old before
    obtain rfl := Option.some.inj (after.symm.trans after')
    exact ⟨new, after, extended, thread, sameEntry_run verified before after⟩
  · by_cases rejects : ∀ loop, loop.whileInst = id → ¬Accepts blockSize executionThreads m c loop
    · obtain ⟨new, here, _, left⟩ := leftAs_of_rejects verified found rejects
      exact ⟨new, here, left⟩
    · push Not at rejects
      obtain ⟨loop, same, accepts⟩ := rejects
      obtain ⟨new, here, _, left⟩ := leftAs_of_accepts verified found same accepts
      exact ⟨new, here, left⟩
  · constructor
    · intro kept loop same accepts
      obtain ⟨new, here, changed, _⟩ := leftAs_of_accepts verified found same accepts
      exact changed (Option.some.inj (here.symm.trans kept))
    · intro rejects
      obtain ⟨new, here, same, _⟩ := leftAs_of_rejects verified found rejects
      rw [here, same loops]

/-- The pass keeps the value of every instruction that depends on no accepted loop and on no product
in the body of one, on all arguments and whatever the other operations compute. -/
theorem run_evaluate (compatible : Shape → Shape → Bool) (blockSize : ℕ)
    (executionThreads : List String) (m : HloModule) (verified : m.Verified) (resolved : Resolved m)
    (c id : ℕ) (instruction : Instruction) (found : m.instruction c id = some instruction)
    (spared : Spared blockSize executionThreads m c id)
    (rest : Opcode → Shape → List Value → Option Value) (fuel : ℕ) (args : List Value) :
    evaluate rest (run compatible blockSize executionThreads m).2 fuel c args id =
      evaluate rest m fuel c args id := by
  refine evaluate_eq_of_agree rest (fun site member => ?_) fuel args
  obtain ⟨used, here⟩ := slice_found verified found member
  exact agreeAt_run verified resolved here (spared site member)

/-! ### Samples -/

section Sample

theorem slice_twoBlockInit {site : ℕ × ℕ} (member : site ∈ slice twoBlockLoop (2, 5)) :
    site.1 = 2 ∧ site.2 < 6 := by
  induction member with
  | refl => exact ⟨rfl, by decide⟩
  | @tail b d _ needs ih =>
    obtain ⟨c, id⟩ := b
    obtain ⟨rfl, below⟩ := ih
    have entry : ∀ k : Fin 6, ∀ instruction, twoBlockLoop.instruction 2 k = some instruction →
        (∀ operand ∈ instruction.operands, operand < 6) ∧ instruction.opcode.called = [] := by
      decide
    cases needs with
    | operand found uses => exact ⟨rfl, (entry ⟨id, below⟩ _ found).1 _ uses⟩
    | root found called _ =>
      rw [(entry ⟨id, below⟩ _ found).2] at called
      cases called

theorem twoBlockInit_spared : Spared 2 [] twoBlockLoop 2 5 := by
  rintro ⟨c, id⟩ member
  obtain ⟨rfl, below⟩ := slice_twoBlockInit member
  constructor
  · rintro loop same accepts
    have sites : loopSites [] twoBlockLoop = [(2, 6)] := rfl
    have site := accepts.recognized.1
    rw [sites, List.mem_singleton, same] at site
    exact below.ne (Prod.mk.inj site).2
  · intro instruction found multiplies
    have noProduct : ∀ k : Fin 6, ∀ instruction, twoBlockLoop.instruction 2 k = some instruction →
        isMultiply instruction = false := by decide
    cases (noProduct ⟨id, below⟩ instruction found).symm.trans multiplies

theorem twoBlockLoop_frame : RunFrame sameShape 2 [] twoBlockLoop
    (run sameShape 2 [] twoBlockLoop).2 :=
  run_frame sameShape 2 [] twoBlockLoop twoBlockLoop_verified

theorem twoBlockInit_kept :
    evaluate (fun _ _ _ => none) (run sameShape 2 [] twoBlockLoop).2 3 2
        (twoBlockArguments ![true, false]) 5 =
      evaluate (fun _ _ _ => none) twoBlockLoop 3 2 (twoBlockArguments ![true, false]) 5 :=
  run_evaluate sameShape 2 [] twoBlockLoop twoBlockLoop_verified
    (resolved_of_calledInside (by decide)) 2 5 _ rfl twoBlockInit_spared (fun _ _ _ => none) 3
    (twoBlockArguments ![true, false])

end Sample

end OrthoCache.OutsideLoops
