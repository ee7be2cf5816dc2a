import OrthoCache.Foundation.HloVerifier
import OrthoCache.MatchedLoops

/-!
What the pass can do to a computation that the module has at the start. Its root and its kind
stay, and an instruction that is new in it is no product of matrices and no parameter and reads an
element of new tuples only. So the matcher finds in the middle of a run what it would have found
before it, and the loops that a run visits are known from the start.
-/

namespace OrthoCache.EditedComputations
open Foundation.Hlo Arrays StreamCompactPass EmittedCompaction StreamCompactFrame MatchedLoops

/-! ### Frames -/

/-- What edits leave of a computation. -/
structure Extended (old new : Computation) : Prop where
  root : new.root = old.root
  isFusion : new.isFusion = old.isFusion
  length : old.instructions.length ≤ new.instructions.length

theorem Extended.refl {computation : Computation} : Extended computation computation :=
  ⟨rfl, rfl, le_rfl⟩

theorem Extended.trans {old mid new : Computation} (first : Extended old mid)
    (second : Extended mid new) : Extended old new :=
  ⟨second.root.trans first.root, second.isFusion.trans first.isFusion,
    first.length.trans second.length⟩

structure Plain (m : HloModule) (f : ℕ) (new : Instruction) : Prop where
  noLoop : isWhile new = false
  noDot : isDot new = false
  noParameter : ∀ number, isParameter number new = false
  element : ∀ k, isGetTupleElement k new = true → ∀ id ∈ new.operands, m.instruction f id = none

theorem Plain.edited {sites : Set (ℕ × ℕ)} {m : HloModule} {f id : ℕ} {old new : Instruction}
    (plain : Plain m f old) (edited : Edited sites (f, id) old new) : Plain m f new := by
  cases edited with
  | same => exact plain
  | product operands multiply =>
    constructor
    · simp only [isWhile, multiply]
    · simp only [isDot, multiply]
    · intro number
      simp only [isParameter, multiply]
    · intro k reads
      simp only [isGetTupleElement, multiply] at reads
      cases reads
  | loop condition newCondition body operands visited loops =>
    have noLoop := plain.noLoop
    simp only [isWhile, loops] at noLoop
    cases noLoop

/-- The frame of a run over the loops at `sites` that edits the computations in `touched`. -/
structure Framed (count : ℕ) (sites : Set (ℕ × ℕ)) (touched : Set ℕ) (m m' : HloModule) : Prop
    extends Kept count sites m m' where
  computation : ∀ (f : ℕ) (old : Computation), m.computations[f]? = some old →
    ∃ new, m'.computations[f]? = some new ∧ Extended old new ∧ (f ∉ touched → new = old)
  plain : ∀ f id new, f < m.computations.length → m'.instruction f id = some new →
    m.instruction f id = none → Plain m f new

namespace Framed
variable {count : ℕ} {sites : Set (ℕ × ℕ)} {touched : Set ℕ} {m m' m'' : HloModule}

theorem refl : Framed count sites touched m m where
  toKept := .refl
  computation _ old found := ⟨old, found, .refl, fun _ => rfl⟩
  plain _ _ _ _ found free := nomatch free.symm.trans found

theorem mono {more : Set (ℕ × ℕ)} {further : Set ℕ} (subset : sites ⊆ more)
    (subset' : touched ⊆ further) (framed : Framed count sites touched m m') :
    Framed count more further m m' where
  toKept := framed.toKept.mono subset
  computation f old found := by
    obtain ⟨new, here, extended, same⟩ := framed.computation f old found
    exact ⟨new, here, extended, fun outside => same (fun member => outside (subset' member))⟩
  plain := framed.plain

theorem free (framed : Framed count sites touched m m') {f id : ℕ}
    (after : m'.instruction f id = none) : m.instruction f id = none := by
  cases found : m.instruction f id with
  | none => rfl
  | some old =>
    obtain ⟨new, here, _⟩ := framed.instruction f id old found
    cases after.symm.trans here

theorem trans (first : Framed count sites touched m m') (second : Framed count sites touched m' m'') :
    Framed count sites touched m m'' where
  toKept := first.toKept.trans second.toKept
  computation f old found := by
    obtain ⟨mid, there, extended, same⟩ := first.computation f old found
    obtain ⟨new, here, again, same'⟩ := second.computation f mid there
    exact ⟨new, here, extended.trans again, fun outside => (same' outside).trans (same outside)⟩
  plain f id new inside found free := by
    cases there : m'.instruction f id with
    | none =>
      have plain := second.plain f id new (inside.trans_le first.length) found there
      exact
        { noLoop := plain.noLoop
          noDot := plain.noDot
          noParameter := plain.noParameter
          element := fun k reads operand member =>
            first.free (plain.element k reads operand member) }
    | some mid =>
      obtain ⟨new', here, edited⟩ := second.instruction f id mid there
      obtain rfl := Option.some.inj (found.symm.trans here)
      exact (first.plain f id mid inside there free).edited edited

theorem unchanged (framed : Framed count sites touched m m') {f : ℕ}
    (inside : f < m.computations.length) (outside : f ∉ touched) :
    m'.computations[f]? = m.computations[f]? := by
  obtain ⟨new, here, _, same⟩ := framed.computation f _ (List.getElem?_eq_getElem inside)
  rw [here, same outside, List.getElem?_eq_getElem inside]

theorem size_le (framed : Framed count sites touched m m') (f : ℕ) : size m f ≤ size m' f := by
  unfold size
  cases found : m.computations[f]? with
  | none => exact Nat.zero_le _
  | some old =>
    obtain ⟨new, here, extended, _⟩ := framed.computation f old found
    rw [here]
    exact extended.length

end Framed

/-! ### Edits -/

theorem instruction_of_size_le {m : HloModule} {c id : ℕ} (beyond : size m c ≤ id) :
    m.instruction c id = none := by
  unfold size at beyond
  cases found : m.computations[c]? with
  | none => rw [HloModule.instruction, found]; rfl
  | some computation =>
    rw [found] at beyond
    rw [instruction_eq found, List.getElem?_eq_none_iff]
    exact beyond

section Edits
variable {count : ℕ} {sites : Set (ℕ × ℕ)} {touched : Set ℕ}

theorem grown_added {m : HloModule} {c : ℕ} {added : List Instruction}
    {embedded : List Computation} {f id : ℕ} {new : Instruction}
    (inside : f < m.computations.length)
    (found : (grown m c added embedded).instruction f id = some new)
    (free : m.instruction f id = none) : f = c ∧ new ∈ added := by
  by_cases same : f = c
  · subst same
    have there := grown_computation m f added embedded inside
    rw [List.getElem?_eq_getElem inside, Option.map_some] at there
    rw [instruction_eq there] at found
    rw [instruction_eq (List.getElem?_eq_getElem inside), List.getElem?_eq_none_iff] at free
    rw [List.getElem?_append_right free] at found
    exact ⟨rfl, List.mem_of_getElem? found⟩
  · have there := grown_of_ne m c added embedded f same inside
    rw [HloModule.instruction, there] at found
    cases free.symm.trans found

theorem grown_framed (m : HloModule) (c : ℕ) (added : List Instruction)
    (embedded : List Computation) (editable : c < count) (edited : c ∈ touched)
    (plain : ∀ instruction ∈ added, Plain m c instruction)
    (noLoops : ∀ computation ∈ embedded, ∀ instruction ∈ computation.instructions,
      isWhile instruction = false) :
    Framed count sites touched m (grown m c added embedded) where
  toKept := grown_kept m c added embedded editable (fun new member => (plain new member).noLoop)
    noLoops
  computation f old found := by
    have inside := (List.getElem?_eq_some_iff.mp found).1
    by_cases same : f = c
    · subst same
      have there := grown_computation m f added embedded inside
      rw [found, Option.map_some] at there
      refine ⟨_, there, ⟨rfl, rfl, ?_⟩, fun outside => absurd edited outside⟩
      rw [List.length_append]
      exact Nat.le_add_right _ _
    · exact ⟨old, (grown_of_ne m c added embedded f same inside).trans found, .refl, fun _ => rfl⟩
  plain f id new inside found free := by
    obtain ⟨rfl, member⟩ := grown_added inside found free
    exact plain new member

theorem modifyInstruction_framed (m : HloModule) (c id : ℕ) (edit : Instruction → Instruction)
    (editable : c < count) (edited : c ∈ touched)
    (edits : ∀ old, m.instruction c id = some old → Edited sites (c, id) old (edit old)) :
    Framed count sites touched m (modifyInstruction c id edit m).2 where
  toKept := modifyInstruction_kept m c id edit editable edits
  computation f old found := by
    change ∃ new, (List.modify _ _ _)[f]? = _ ∧ _
    rw [List.getElem?_modify, found]
    split_ifs with same
    · subst same
      exact ⟨_, rfl, ⟨rfl, rfl, (List.length_modify _ _ _).ge⟩, fun outside => absurd edited outside⟩
    · exact ⟨old, rfl, .refl, fun _ => rfl⟩
  plain f k new _ found free := by
    rw [modifyInstruction_instruction, free] at found
    split_ifs at found
    cases found

variable (compatible : Shape → Shape → Bool)

theorem replaceOperandWith_framed (c id position newOperand : ℕ) (m : HloModule)
    (editable : c < count) (edited : c ∈ touched)
    (edits : ∀ old operands, m.instruction c id = some old →
      Edited sites (c, id) old { old with operands := operands }) :
    Framed count sites touched m (replaceOperandWith compatible c id position newOperand m).2 := by
  rcases replaceOperandWith_cases compatible c id position newOperand m with
    ⟨e, failed⟩ | ⟨_, _, _, _, _, _, _, _, _, edit⟩
  · rw [failed]
    exact .refl
  · rw [edit]
    exact modifyInstruction_framed m c id _ editable edited (fun old here => edits old _ here)

end Edits

/-! ### Stages -/

section Stages
variable (compatible : Shape → Shape → Bool) {count : ℕ} {sites : Set (ℕ × ℕ)} {touched : Set ℕ}

theorem tableInstructions_plain (m : HloModule) (c mask1d base addComp cmpComp n : ℕ)
    (beyond : size m c ≤ base) :
    ∀ instruction ∈ tableInstructions mask1d base addComp cmpComp n, Plain m c instruction := by
  have listed : ∀ instruction ∈ tableInstructions mask1d base addComp cmpComp n,
      isWhile instruction = false ∧ isDot instruction = false ∧
        (∀ number, isParameter number instruction = false) ∧
        ∀ k, isGetTupleElement k instruction = true → instruction.operands = [base + 13] := by
    simp [tableInstructions, constantS32, isWhile, isDot, isParameter, isGetTupleElement]
  intro instruction member
  obtain ⟨noLoop, noDot, noParameter, element⟩ := listed instruction member
  refine ⟨noLoop, noDot, noParameter, fun k reads id operand => ?_⟩
  rw [element k reads] at operand
  rw [List.mem_singleton.mp operand]
  exact instruction_of_size_le (by omega)

theorem plain_of_noElement (m : HloModule) (c : ℕ) {added : List Instruction}
    (listed : ∀ instruction ∈ added, isWhile instruction = false ∧ isDot instruction = false ∧
      (∀ number, isParameter number instruction = false) ∧
      ∀ k, isGetTupleElement k instruction = false) :
    ∀ instruction ∈ added, Plain m c instruction := by
  intro instruction member
  obtain ⟨noLoop, noDot, noParameter, noElement⟩ := listed instruction member
  exact ⟨noLoop, noDot, noParameter, fun k reads => nomatch (noElement k).symm.trans reads⟩

theorem injectStreamCompaction_grown (m : HloModule) (c blockMask n : ℕ) (mask : Instruction)
    (found : m.instruction c blockMask = some mask) : ∃ added embedded,
      (injectStreamCompaction c blockMask n m).2 = grown m c added embedded ∧ added ≠ [] ∧
      (∀ instruction ∈ added, Plain m c instruction) ∧
      ∀ computation ∈ embedded, ∀ instruction ∈ computation.instructions,
        isWhile instruction = false := by
  have inside := inside_of_instruction found
  have noLoops : ∀ computation ∈ [orReduce, addReduce, sortComparator],
      ∀ instruction ∈ computation.instructions, isWhile instruction = false := by
    simp [orReduce, addReduce, sortComparator, buildComputation, parameterInstruction, isWhile]
  by_cases rows : mask.shape.rank = 2
  · have module := injectStreamCompaction_rows m c inside blockMask n mask found rows
    refine ⟨_, _, congrArg Prod.snd module, by simp [reduceInstructions], ?_, noLoops⟩
    intro instruction member
    rcases List.mem_append.mp member with front | back
    · refine plain_of_noElement m c ?_ instruction front
      simp [reduceInstructions, isWhile, isDot, isParameter, isGetTupleElement]
    · exact tableInstructions_plain m c _ _ _ _ _ (by omega) instruction back
  · have module := injectStreamCompaction_flat m c inside blockMask n mask found rows
    exact ⟨_, _, congrArg Prod.snd module, by simp [tableInstructions],
      tableInstructions_plain m c _ _ _ _ _ le_rfl,
      fun computation member => noLoops computation (List.mem_cons_of_mem _ member)⟩

end Stages

/-! ### The matcher in the middle of a run -/

section Matcher
variable {count : ℕ} {sites : Set (ℕ × ℕ)} {touched : Set ℕ} {m m' : HloModule}
  (framed : Framed count sites touched m m')
include framed

theorem any_isDot {f : ℕ} {old new : Computation} (before : m.computations[f]? = some old)
    (after : m'.computations[f]? = some new) :
    new.instructions.any isDot = old.instructions.any isDot := by
  rw [Bool.eq_iff_iff, List.any_eq_true, List.any_eq_true]
  constructor
  · rintro ⟨instruction, member, dot⟩
    obtain ⟨id, here⟩ := List.mem_iff_getElem?.mp member
    rw [← instruction_eq after] at here
    cases found : m.instruction f id with
    | none =>
      have inside := (List.getElem?_eq_some_iff.mp before).1
      cases (framed.plain f id instruction inside here found).noDot.symm.trans dot
    | some original =>
      obtain ⟨edited, there, step⟩ := framed.instruction f id original found
      obtain rfl := Option.some.inj (here.symm.trans there)
      rw [instruction_eq before] at found
      exact ⟨original, List.mem_of_getElem? found, step.isDot_eq.symm.trans dot⟩
  · rintro ⟨instruction, member, dot⟩
    obtain ⟨id, here⟩ := List.mem_iff_getElem?.mp member
    rw [← instruction_eq before] at here
    obtain ⟨edited, there, step⟩ := framed.instruction f id instruction here
    rw [instruction_eq after] at there
    exact ⟨edited, List.mem_of_getElem? there, step.isDot_eq.trans dot⟩

theorem tripCount_eq (verified : m.Verified) {condition : ℕ} {old : Computation}
    (before : m.computations[condition]? = some old) :
    tripCount m' condition = tripCount m condition := by
  obtain ⟨new, after, extended, _⟩ := framed.computation condition old before
  obtain ⟨root, found⟩ := verified.root condition old before
  obtain ⟨root', found', edited⟩ := framed.instruction condition old.root root found
  simp only [tripCount, before, after, extended.root, found, found', Option.bind_eq_bind,
    Option.bind_some]
  cases edited with
  | product _ multiply => simp only [multiply]
  | loop _ _ _ _ _ loops => simp only [loops]
  | same =>
    cases compares : root.opcode with
    | compare direction =>
      simp only
      cases second : root.operands[1]? with
      | none => rfl
      | some rhs =>
        obtain ⟨constant, there⟩ :=
          operand_of_operandsFit (verified.fits condition _ _ found) second
        obtain ⟨constant', here, edited⟩ := framed.instruction condition rhs constant there
        simp only [Option.bind_some, there, here]
        cases edited with
        | same => rfl
        | product _ multiply => simp only [multiply]
        | loop _ _ _ _ _ loops => simp only [loops]
    | _ => rfl

theorem shapes_mapM {c : ℕ} {ids : List ℕ} {shapes : List Shape}
    (shaped : ids.mapM (fun id => (m.instruction c id).map Instruction.shape) = some shapes) :
    ids.mapM (fun id => (m'.instruction c id).map Instruction.shape) = some shapes := by
  induction ids generalizing shapes with
  | nil => exact shaped
  | cons id ids ih =>
    rw [List.mapM_cons] at shaped ⊢
    obtain ⟨shape, first, shaped⟩ := Option.bind_eq_some_iff.mp shaped
    obtain ⟨others, remaining, shaped⟩ := Option.bind_eq_some_iff.mp shaped
    rw [framed.shape first, ih remaining]
    exact shaped

variable {blockSize c whileInst : ℕ} {loop : AttentionLoopMatch} {reading : LoopReading}
  {shapes : List Shape} {trips : ℤ}

theorem recognized_of_original (verified : m.Verified) (unvisited : (c, whileInst) ∉ sites)
    (recognized : Recognized blockSize m c whileInst loop reading shapes trips) :
    Recognized blockSize m' c whileInst loop reading shapes trips where
  loop_found := framed.same recognized.loop_found (by rw [isMultiply, recognized.loop_opcode])
    (.inl unvisited)
  loop_opcode := recognized.loop_opcode
  dot := by
    obtain ⟨old, before, dot⟩ := recognized.dot
    obtain ⟨new, after, _⟩ := framed.computation _ old before
    exact ⟨new, after, (any_isDot framed before after).trans dot⟩
  init_operand := recognized.init_operand
  init_found := framed.same recognized.init_found (by rw [isMultiply, recognized.init_opcode])
    (.inr (by rw [isWhile, recognized.init_opcode]))
  init_opcode := recognized.init_opcode
  shaped := shapes_mapM framed recognized.shaped
  loopVar := recognized.loopVar
  mask := recognized.mask
  cacheK := recognized.cacheK
  cacheV := recognized.cacheV
  trips_found := by
    obtain ⟨old, before, _⟩ := Option.bind_eq_some_iff.mp recognized.trips_found
    rw [tripCount_eq framed verified before, recognized.trips_found]
  positive := recognized.positive
  mask_operand := recognized.mask_operand
  while_eq := recognized.while_eq
  blocks_eq := recognized.blocks_eq
  size_eq := recognized.size_eq

theorem recognized_original (verified : m.Verified) (unvisited : (c, whileInst) ∉ sites)
    (recognized : Recognized blockSize m' c whileInst loop reading shapes trips) :
    Recognized blockSize m c whileInst loop reading shapes trips := by
  have loop_found : m.instruction c whileInst = some reading.whileInst :=
    framed.loop_of_unvisited recognized.loop_found (by rw [isWhile, recognized.loop_opcode])
      unvisited
  obtain ⟨_, ⟨⟨p, _, parameter, _⟩, _⟩, _, ⟨old, before, _⟩⟩ :=
    verified.wellShaped.loop c _ _ _ _ loop_found recognized.loop_opcode
  obtain ⟨condition, conditionFound, _⟩ := Option.bind_eq_some_iff.mp parameter
  have init_found : m.instruction c reading.initId = some reading.init :=
    init_original framed.toKept verified.wellShaped loop_found recognized.loop_opcode
      recognized.init_operand recognized.init_found recognized.init_opcode
  obtain ⟨shapes', elements, _⟩ :=
    verified.wellShaped.tuple c _ _ init_found recognized.init_opcode
  obtain rfl := Option.some.inj ((shapes_mapM framed elements).symm.trans recognized.shaped)
  exact
    { loop_found := loop_found
      loop_opcode := recognized.loop_opcode
      dot := by
        obtain ⟨new, after, _⟩ := framed.computation _ old before
        obtain ⟨new', after', dot⟩ := recognized.dot
        obtain rfl := Option.some.inj (after.symm.trans after')
        exact ⟨old, before, (any_isDot framed before after).symm.trans dot⟩
      init_operand := recognized.init_operand
      init_found := init_found
      init_opcode := recognized.init_opcode
      shaped := elements
      loopVar := recognized.loopVar
      mask := recognized.mask
      cacheK := recognized.cacheK
      cacheV := recognized.cacheV
      trips_found := by rw [← tripCount_eq framed verified conditionFound, recognized.trips_found]
      positive := recognized.positive
      mask_operand := recognized.mask_operand
      while_eq := recognized.while_eq
      blocks_eq := recognized.blocks_eq
      size_eq := recognized.size_eq }

/-- The matcher gives the same answer in the middle of a run as before it. -/
theorem matchAttentionLoop_framed (verified : m.Verified) (unvisited : (c, whileInst) ∉ sites) :
    matchAttentionLoop blockSize m' c whileInst = matchAttentionLoop blockSize m c whileInst := by
  apply Option.ext
  intro loop
  rw [matchAttentionLoop_eq_some_iff, matchAttentionLoop_eq_some_iff]
  constructor
  · rintro ⟨reading, shapes, trips, recognized⟩
    exact ⟨reading, shapes, trips, recognized_original framed verified unvisited recognized⟩
  · rintro ⟨reading, shapes, trips, recognized⟩
    exact ⟨reading, shapes, trips, recognized_of_original framed verified unvisited recognized⟩

end Matcher

end OrthoCache.EditedComputations
