import OrthoCache.Foundation.HloSlices
import OrthoCache.LoopOutcomes

/-!
Which blocks the body of a loop visits once its products are redirected. The body stage lets every
product of the induction variable read a slice of the whole loop state, not of the indirection
table, and a state that is a tuple has no slices. So an instruction of the body keeps its value or,
if a redirected product feeds it, has none any more: an iteration slices the caches at the block
at which it did before, or nowhere.
-/

namespace OrthoCache.ActiveBlockVisits
open Foundation.Hlo Foundation.StablePartition XlaBridge StreamCompactPass EmittedCompaction
open StreamCompactFrame EditedComputations LoopOutcomes

/-! ### What the body stage emits -/

section Redirect

/-- The slice of the loop state that a redirected product gets its factor from. -/
def sliceOfState (bodyParam gte : ℕ) : Instruction :=
  { opcode := .dynamicSlice [1], shape := .array .s32 [1], operands := [bodyParam, gte] }

def entryOf (lookup : ℕ) : Instruction :=
  { opcode := .reshape, shape := s32Scalar, operands := [lookup] }

def LooksUp (m : HloModule) (body bodyParam gte scalar : ℕ) : Prop :=
  ∃ lookup, m.instruction body scalar = some (entryOf lookup) ∧
    m.instruction body lookup = some (sliceOfState bodyParam gte)

/-- The body after the products among some users of the induction variable are redirected. -/
structure Redirected (body bodyParam gte : ℕ) (entries : List ℕ) (m m' : HloModule) : Prop where
  others : ∀ f, f ≠ body → m'.computations[f]? = m.computations[f]?
  kept : ∀ id instruction, m.instruction body id = some instruction →
    (isMultiply instruction = true → id ∉ entries) → m'.instruction body id = some instruction
  product : ∀ id ∈ entries, ∀ instruction, m.instruction body id = some instruction →
    isMultiply instruction = true → ∃ scalar, LooksUp m' body bodyParam gte scalar ∧
      m'.instruction body id = some { instruction with
        operands := instruction.operands.set (instruction.operands.idxOf gte) scalar }
  added : ∀ id instruction, m'.instruction body id = some instruction →
    m.instruction body id = none →
    instruction = sliceOfState bodyParam gte ∨ ∃ lookup, instruction = entryOf lookup ∧
      m'.instruction body lookup = some (sliceOfState bodyParam gte)

variable {compatible : Shape → Shape → Bool} {body bodyParam gte : ℕ} {entries : List ℕ}
  {m m' m'' : HloModule}

theorem Redirected.kept_other (redirected : Redirected body bodyParam gte entries m m') {id : ℕ}
    {instruction : Instruction} (found : m.instruction body id = some instruction)
    (other : isMultiply instruction = false) : m'.instruction body id = some instruction := by
  refine redirected.kept id instruction found (fun multiplies => ?_)
  cases other.symm.trans multiplies

theorem LooksUp.kept {scalar : ℕ} (redirected : Redirected body bodyParam gte entries m m')
    (looks : LooksUp m body bodyParam gte scalar) : LooksUp m' body bodyParam gte scalar := by
  obtain ⟨lookup, entry, slice⟩ := looks
  exact ⟨lookup, redirected.kept_other entry rfl, redirected.kept_other slice rfl⟩

theorem Redirected.refl : Redirected body bodyParam gte [] m m where
  others _ _ := rfl
  kept _ _ found _ := found
  product _ member := absurd member List.not_mem_nil
  added _ _ found free := nomatch free.symm.trans found

theorem Redirected.cons {user : ℕ} (notAgain : user ∉ entries)
    (first : Redirected body bodyParam gte [user] m m')
    (second : Redirected body bodyParam gte entries m' m'') :
    Redirected body bodyParam gte (user :: entries) m m'' where
  others f elsewhere := (second.others f elsewhere).trans (first.others f elsewhere)
  kept id instruction found spared := by
    refine second.kept id instruction (first.kept id instruction found ?_) ?_
    · intro multiplies same
      exact spared multiplies (List.mem_cons.mpr (.inl (List.mem_singleton.mp same)))
    · intro multiplies member
      exact spared multiplies (List.mem_cons_of_mem user member)
  product id member instruction found multiplies := by
    rcases List.mem_cons.mp member with rfl | later
    · obtain ⟨scalar, looks, edited⟩ :=
        first.product id (List.mem_singleton_self id) instruction found multiplies
      exact ⟨scalar, looks.kept second, second.kept id _ edited (fun _ => notAgain)⟩
    · refine second.product id later instruction (first.kept id instruction found ?_) multiplies
      rintro _ same
      exact notAgain (List.mem_singleton.mp same ▸ later)
  added id instruction found free := by
    cases there : m'.instruction body id with
    | none => exact second.added id instruction found there
    | some mid =>
      have later (noProduct : isMultiply mid = false) : instruction = mid :=
        Option.some.inj (found.symm.trans (second.kept_other there noProduct))
      rcases first.added id mid there free with rfl | ⟨lookup, rfl, slice⟩
      · exact .inl (later rfl)
      · exact .inr ⟨lookup, later rfl, second.kept_other slice rfl⟩

theorem grown_elsewhere (m : HloModule) (c : ℕ) (added : List Instruction) {f : ℕ} (other : f ≠ c) :
    (grown m c added []).computations[f]? = m.computations[f]? := by
  unfold grown
  rw [List.append_nil, List.getElem?_modify_ne _ _ other.symm]

theorem redirectProduct_redirected {user : ℕ} {instruction : Instruction}
    (inside : body < m.computations.length) (found : m.instruction body user = some instruction)
    (multiplies : isMultiply instruction = true)
    (ok : replaceOperandWith compatible body user (instruction.operands.idxOf gte) (size m body + 1)
      (grown m body (lookupInstructions bodyParam gte (size m body)) []) = (.ok (), m')) :
    Redirected body bodyParam gte [user] m m' := by
  rcases replaceOperandWith_cases compatible body user (instruction.operands.idxOf gte)
    (size m body + 1) (grown m body (lookupInstructions bodyParam gte (size m body)) []) with
    ⟨e, failed⟩ | ⟨_, _, _, _, _, _, _, _, _, edit⟩
  · cases failed.symm.trans ok
  obtain rfl := (Prod.mk.inj (edit.symm.trans ok)).2
  have before : user < size m body := by
    by_contra beyond
    cases found.symm.trans (instruction_of_size_le (not_lt.mp beyond))
  have original := grown_original m body (lookupInstructions bodyParam gte (size m body)) [] body
  have emitted := grown_instruction m body (lookupInstructions bodyParam gte (size m body)) [] inside
  constructor
  · intro f elsewhere
    exact (List.getElem?_modify_ne _ _ elsewhere.symm).trans (grown_elsewhere m body _ elsewhere)
  · intro id other there spared
    rw [modifyInstruction_instruction, if_neg, original id other there]
    rintro ⟨-, rfl⟩
    obtain rfl := Option.some.inj (found.symm.trans there)
    exact spared multiplies (List.mem_singleton_self user)
  · intro id member other there _
    obtain rfl := List.mem_singleton.mp member
    obtain rfl := Option.some.inj (found.symm.trans there)
    refine ⟨size m body + 1, ⟨size m body, ?_, ?_⟩, ?_⟩
    · rw [modifyInstruction_instruction, if_neg (fun same => by omega), emitted 1]
      rfl
    · rw [modifyInstruction_instruction, if_neg (fun same => by omega)]
      exact (emitted 0).trans rfl
    · rw [modifyInstruction_instruction, if_pos ⟨rfl, rfl⟩, original id _ found]
      rfl
  · intro id new there free
    have notUser : user ≠ id := by
      rintro rfl
      cases found.symm.trans free
    rw [modifyInstruction_instruction, if_neg (fun same => notUser same.2)] at there
    rcases grown_cases m body _ [] body id new there with old | member | ⟨_, member, _⟩
    · cases free.symm.trans old
    · simp only [lookupInstructions, List.mem_cons, List.not_mem_nil, or_false] at member
      rcases member with rfl | rfl
      · exact .inl rfl
      · refine .inr ⟨_, rfl, ?_⟩
        rw [modifyInstruction_instruction, if_neg (fun same => by omega)]
        exact (emitted 0).trans rfl
    · cases member

theorem redirectUser_redirected {user : ℕ} (inside : body < m.computations.length)
    (ok : redirectUser compatible body bodyParam gte user m = (.ok (), m')) :
    Redirected body bodyParam gte [user] m m' := by
  cases found : m.instruction body user with
  | none =>
    unfold redirectUser at ok
    rw [pass_get_bind, found] at ok
    cases ok
  | some instruction =>
    cases multiplies : isMultiply instruction with
    | false =>
      rw [redirectUser_of_noProduct compatible body bodyParam gte found multiplies] at ok
      cases ok
      refine ⟨fun _ _ => rfl, fun _ _ there _ => there, ?_, fun _ _ there free =>
        nomatch free.symm.trans there⟩
      intro id member other there product
      obtain rfl := List.mem_singleton.mp member
      obtain rfl := Option.some.inj (found.symm.trans there)
      cases multiplies.symm.trans product
    | true =>
      rw [redirectUser_product compatible body bodyParam gte user m inside instruction found
        multiplies] at ok
      exact redirectProduct_redirected inside found multiplies ok

theorem redirectAll_redirected (inside : body < m.computations.length) (distinct : entries.Nodup)
    (ok : redirectAll compatible body bodyParam gte entries m = (.ok (), m')) :
    Redirected body bodyParam gte entries m m' := by
  induction entries generalizing m with
  | nil =>
    cases ok
    exact .refl
  | cons user entries ih =>
    obtain ⟨notAgain, distinct⟩ := List.nodup_cons.mp distinct
    rw [redirectAll_cons] at ok
    cases step : redirectUser compatible body bodyParam gte user m with
    | mk result m₁ =>
      cases result with
      | error e =>
        rw [pass_bind_error step] at ok
        cases ok
      | ok _ =>
        rw [pass_bind_ok step] at ok
        have first := redirectUser_redirected inside step
        have framed : Framed m.computations.length ∅ {body} m _ :=
          redirectUser_framed compatible body bodyParam gte inside (Set.mem_singleton body) le_rfl
            user
        rw [step] at framed
        exact first.cons notAgain (ih (inside.trans_le framed.length) distinct ok)

end Redirect

theorem rewriteLoopBody_redirected {compatible : Shape → Shape → Bool} {c activeIndices : ℕ}
    {loop : AttentionLoopMatch} {m m' : HloModule} {whileInst : Instruction} {condition body : ℕ}
    {computation : Computation} (found : m.instruction c loop.whileInst = some whileInst)
    (loops : whileInst.opcode = .while condition body)
    (there : m.computations[body]? = some computation)
    (ok : rewriteLoopBody compatible c activeIndices loop m = (.ok (), m')) :
    ∃ bodyParam gte, (positionsOf computation (isParameter 0)).head? = some bodyParam ∧
      loopVarGte computation loop.loopVarIndex = some gte ∧
      Redirected body bodyParam gte (users computation gte) m m' := by
  cases reads : loopVarGte computation loop.loopVarIndex with
  | none =>
    obtain ⟨e, failed⟩ := rewriteLoopBody_none compatible activeIndices found loops there reads
    cases failed.symm.trans ok
  | some gte =>
    obtain ⟨bodyParam, first, step⟩ :=
      rewriteLoopBody_some compatible activeIndices found loops there reads
    exact ⟨bodyParam, gte, first, rfl, redirectAll_redirected (List.getElem?_eq_some_iff.mp there).1
      (List.nodup_range.filter _) (step.symm.trans ok)⟩

/-! ### Values after the body stage -/

def NoTupleSlices (rest : Opcode → Shape → List Value → Option Value) : Prop :=
  ∀ sizes shape elements starts, rest (.dynamicSlice sizes) shape (.tuple elements :: starts) = none

def redirectedProducts (computation : Computation) (gte : ℕ) : List ℕ :=
  (users computation gte).filter fun user => computation.instructions[user]?.any isMultiply

/-- No redirected product is used, directly or not, by instruction `id`. -/
def Unfed (m : HloModule) (body : ℕ) (computation : Computation) (gte id : ℕ) : Prop :=
  ∀ product ∈ redirectedProducts computation gte, ¬Feeds m body product id

section Values
variable {rest : Opcode → Shape → List Value → Option Value} {m m' : HloModule}
  {body bodyParam gte : ℕ} {computation : Computation}

theorem mem_redirectedProducts (there : m.computations[body]? = some computation) {id : ℕ} :
    id ∈ redirectedProducts computation gte ↔ id ∈ users computation gte ∧
      ∃ instruction, m.instruction body id = some instruction ∧ isMultiply instruction = true := by
  rw [redirectedProducts, List.mem_filter, Option.any_eq_true, instruction_eq there]

theorem bodyParam_found (there : m.computations[body]? = some computation)
    (state : (positionsOf computation (isParameter 0)).head? = some bodyParam) :
    ∃ parameter, m.instruction body bodyParam = some parameter ∧
      parameter.opcode = .parameter 0 := by
  obtain ⟨parameter, here, test⟩ := mem_positionsOf.mp (List.mem_of_mem_head? state)
  refine ⟨parameter, (instruction_eq there bodyParam).trans here, ?_⟩
  unfold isParameter at test
  split at test
  next number same => rw [same, decide_eq_true_eq.mp test]
  next => cases test

section Lookup
variable (noSlices : NoTupleSlices rest) {parameter : Instruction}
  (found : m.instruction body bodyParam = some parameter) (opcode : parameter.opcode = .parameter 0)
  (elements : List Value) (fuel : ℕ)
include noSlices found opcode

theorem sliceOfState_undefined {lookup : ℕ}
    (slice : m.instruction body lookup = some (sliceOfState bodyParam gte)) :
    evaluate rest m fuel body [.tuple elements] lookup = none := by
  cases value : evaluate rest m fuel body [.tuple elements] lookup with
  | none => rfl
  | some v =>
    obtain ⟨_, vs, operands, sliced⟩ := operands_of_evaluate slice value
    obtain ⟨state, starts, first, _, rfl⟩ := List.forall₂_cons_left_iff.mp operands
    obtain ⟨_, _, _, argument⟩ := operands_of_evaluate found first
    rw [opcode] at argument
    obtain rfl : Value.tuple elements = state := Option.some.inj argument
    cases (noSlices _ _ elements starts).symm.trans sliced

theorem LooksUp.undefined {scalar : ℕ} (looks : LooksUp m body bodyParam gte scalar) :
    evaluate rest m fuel body [.tuple elements] scalar = none := by
  obtain ⟨lookup, entry, slice⟩ := looks
  exact evaluate_none_of_operand rest entry (List.mem_singleton_self lookup)
    (fun fuel => sliceOfState_undefined noSlices found opcode elements fuel slice) fuel

end Lookup

section Body
variable (there : m.computations[body]? = some computation)
  (redirected : Redirected body bodyParam gte (users computation gte) m m')
include there redirected

theorem instruction_of_unfed
    (fits : ∀ id instruction, m.instruction body id = some instruction →
      m.operandsFit body instruction = true) {id : ℕ} {instruction : Instruction}
    (found : m.instruction body id = some instruction) (unfed : Unfed m body computation gte id)
    {k : ℕ} (feeds : Feeds m body k id) : m'.instruction body k = m.instruction body k := by
  have exists_k : ∃ used, m.instruction body k = some used := by
    cases feeds with
    | here => exact ⟨instruction, found⟩
    | step _ user _ other stands operand =>
      obtain ⟨position, at_position⟩ := List.mem_iff_getElem?.mp operand
      exact operand_of_operandsFit (fits user other stands) at_position
  obtain ⟨used, here⟩ := exists_k
  rw [here]
  exact redirected.kept k used here (fun multiplies uses =>
    unfed k ((mem_redirectedProducts there).mpr ⟨uses, used, here, multiplies⟩) feeds)

variable (state : (positionsOf computation (isParameter 0)).head? = some bodyParam)
include state

theorem bodyParam_kept : ∃ parameter, m'.instruction body bodyParam = some parameter ∧
    parameter.opcode = .parameter 0 := by
  obtain ⟨parameter, here, opcode⟩ := bodyParam_found there state
  exact ⟨parameter, redirected.kept_other here (by rw [isMultiply, opcode]), opcode⟩

theorem product_undefined (noSlices : NoTupleSlices rest) {product : ℕ}
    (member : product ∈ redirectedProducts computation gte) (elements : List Value) (fuel : ℕ) :
    evaluate rest m' fuel body [.tuple elements] product = none := by
  obtain ⟨uses, instruction, found, multiplies⟩ := (mem_redirectedProducts there).mp member
  obtain ⟨original, here, operand⟩ := users_exist there product uses
  obtain rfl := Option.some.inj (found.symm.trans here)
  obtain ⟨scalar, looks, edited⟩ := redirected.product product uses instruction found multiplies
  obtain ⟨parameter, parameterFound, opcode⟩ := bodyParam_kept there redirected state
  have factor : scalar ∈ instruction.operands.set (instruction.operands.idxOf gte) scalar :=
    List.mem_set (List.idxOf_lt_length_of_mem operand) scalar
  exact evaluate_none_of_operand rest edited factor
    (fun fuel => looks.undefined noSlices parameterFound opcode elements fuel) fuel

theorem undefined_of_fed (noSlices : NoTupleSlices rest) {product id : ℕ}
    (member : product ∈ redirectedProducts computation gte) (feeds : Feeds m body product id)
    (elements : List Value) (fuel : ℕ) :
    evaluate rest m' fuel body [.tuple elements] id = none := by
  have start := product_undefined there redirected state noSlices member elements
  generalize product = first at start feeds
  induction feeds generalizing fuel with
  | here id => exact start fuel
  | step id user last instruction found operand others ih =>
    refine ih fuel (fun fuel => ?_)
    by_cases isProduct : user ∈ redirectedProducts computation gte
    · exact product_undefined there redirected state noSlices isProduct elements fuel
    · have kept := redirected.kept user instruction found (fun multiplies uses =>
        isProduct ((mem_redirectedProducts there).mpr ⟨uses, instruction, found, multiplies⟩))
      exact evaluate_none_of_operand rest kept operand start fuel

theorem added_undefined (noSlices : NoTupleSlices rest) {id : ℕ}
    (free : m.instruction body id = none) (elements : List Value) (fuel : ℕ) :
    evaluate rest m' fuel body [.tuple elements] id = none := by
  obtain ⟨parameter, parameterFound, opcode⟩ := bodyParam_kept there redirected state
  cases found : m'.instruction body id with
  | none =>
    cases fuel with
    | zero => rfl
    | succ fuel => exact evaluate_of_none rest fuel body _ id found
  | some new =>
    rcases redirected.added id new found free with rfl | ⟨lookup, rfl, slice⟩
    · exact sliceOfState_undefined noSlices parameterFound opcode elements fuel found
    · exact LooksUp.undefined noSlices parameterFound opcode elements fuel ⟨lookup, found, slice⟩

/-- An instruction keeps its value, or a redirected product feeds it and it has none. -/
theorem evaluates_redirected_iff (noSlices : NoTupleSlices rest) (nonRecursive : NonRecursive m)
    (resolved : Resolved m) (fits : ∀ id instruction, m.instruction body id = some instruction →
      m.operandsFit body instruction = true) (elements : List Value) (id : ℕ) (v : Value) :
    Evaluates rest m' body [.tuple elements] id v ↔
      Evaluates rest m body [.tuple elements] id v ∧ Unfed m body computation gte id := by
  have same (unfed : Unfed m body computation gte id) {instruction : Instruction}
      (found : m.instruction body id = some instruction) (fuel : ℕ) :
      evaluate rest m' fuel body [.tuple elements] id =
        evaluate rest m fuel body [.tuple elements] id :=
    evaluate_eq_of_feeders rest nonRecursive resolved redirected.others
      (fun _ feeds => instruction_of_unfed there redirected fits found unfed feeds) fuel _
  constructor
  · intro value
    obtain ⟨fuel, defined⟩ := value.exists
    have unfed : Unfed m body computation gte id := fun product member feeds =>
      nomatch (undefined_of_fed there redirected state noSlices member feeds elements fuel).symm.trans
        defined
    cases found : m.instruction body id with
    | none =>
      cases (added_undefined there redirected state noSlices found elements fuel).symm.trans defined
    | some instruction =>
      exact ⟨value.mono (fun fuel here => (same unfed found fuel).symm.trans here), unfed⟩
  · rintro ⟨value, unfed⟩
    obtain ⟨fuel, defined⟩ := value.exists
    cases found : m.instruction body id with
    | none =>
      cases fuel with
      | zero => cases defined
      | succ fuel => cases (evaluate_of_none rest fuel body _ id found).symm.trans defined
    | some instruction =>
      exact value.mono (fun fuel here => (same unfed found fuel).trans here)

end Body

end Values

/-! ### Visited blocks -/

section Visits
variable (m : HloModule) (body : ℕ) (loop : AttentionLoopMatch)

def ReadsElement (index id : ℕ) : Prop :=
  ∃ instruction parameter state, m.instruction body id = some instruction ∧
    instruction.opcode = .getTupleElement index ∧ instruction.operands = [parameter] ∧
    m.instruction body parameter = some state ∧ state.opcode = .parameter 0

/-- Instruction `id` of the body slices the K or the V cache, with leading index `start`. -/
def SlicesCache (id start : ℕ) : Prop :=
  ∃ instruction sizes cache others, m.instruction body id = some instruction ∧
    instruction.opcode = .dynamicSlice sizes ∧ instruction.operands = cache :: start :: others ∧
    (ReadsElement m body loop.kvTupleIndexK cache ∨
      ∃ index, loop.kvTupleIndexV = some index ∧ ReadsElement m body index cache)

variable (rest : Opcode → Shape → List Value → Option Value)

/-- In the iteration that starts in a state the caches are sliced, and only at this block. -/
def SlicesBlock (state : Value) (block : ℕ) : Prop :=
  (∃ id start, SlicesCache m body loop id start) ∧
    ∀ id start, SlicesCache m body loop id start → Evaluates rest m body [state] start
      (.scalar .s32 (BitVec.ofNat 32 (block * loop.blockSize)))

def VisitsBlocks (states : List (List Value)) (blocks : List ℕ) : Prop :=
  List.Forall₂ (fun elements => SlicesBlock m body loop rest (.tuple elements)) states blocks

/-- No redirected product is used for the leading index of a slice of a cache. -/
def StartsUnfed (computation : Computation) (gte : ℕ) : Prop :=
  ∀ id start, SlicesCache m body loop id start → Unfed m body computation gte start

end Visits

def activeBlocks {rows heads : ℕ} (mask : BlockMask rows heads) : List ℕ :=
  (selected mask.mask1d).map Fin.val

theorem activeBlocks_length_le {rows heads : ℕ} (mask : BlockMask rows heads) :
    (activeBlocks mask).length ≤ rows := by
  rw [activeBlocks, List.length_map]
  exact (List.length_filter_le _ _).trans_eq (List.length_finRange)

theorem lt_of_mem_activeBlocks {rows heads : ℕ} {mask : BlockMask rows heads} {b : ℕ}
    (member : b ∈ activeBlocks mask) : b < rows := by
  obtain ⟨block, _, rfl⟩ := List.mem_map.mp member
  exact block.isLt

/-- What the body stage makes of the body of a loop: what it emits, the values before and after, and
the blocks that iterations visit before and after. -/
structure BodyRewritten (rest : Opcode → Shape → List Value → Option Value) (m m' : HloModule)
    (body : ℕ) (computation : Computation) (loop : AttentionLoopMatch) (bodyParam gte : ℕ) :
    Prop where
  redirected : Redirected body bodyParam gte (users computation gte) m m'
  values : ∀ elements id v, Evaluates rest m' body [.tuple elements] id v ↔
    Evaluates rest m body [.tuple elements] id v ∧ Unfed m body computation gte id
  visits : ∀ states blocks, VisitsBlocks m' body loop rest states blocks ↔
    VisitsBlocks m body loop rest states blocks ∧
      (states = [] ∨ StartsUnfed m body loop computation gte)
  active : ∀ {rows heads : ℕ} (mask : BlockMask rows heads) (states : List (List Value)),
    rows * loop.blockSize ≤ 2 ^ 32 → 0 < loop.blockSize →
    VisitsBlocks m body loop rest states (.range states.length) →
    (VisitsBlocks m' body loop rest states (activeBlocks mask) ↔
      activeBlocks mask = List.range states.length ∧
        (states = [] ∨ StartsUnfed m body loop computation gte))

section Stage
variable {rest : Opcode → Shape → List Value → Option Value} {m m' : HloModule}
  {body bodyParam gte : ℕ} {computation : Computation} {loop : AttentionLoopMatch}

theorem block_unique {rows : ℕ} (offsets : rows * loop.blockSize ≤ 2 ^ 32)
    (positive : 0 < loop.blockSize) {state : Value} {b b' : ℕ} (inside : b < rows)
    (inside' : b' < rows) (first : SlicesBlock m body loop rest state b)
    (second : SlicesBlock m body loop rest state b') : b = b' := by
  obtain ⟨⟨id, start, slices⟩, values⟩ := first
  have same := congrArg (Value.read .s32 [])
    ((values id start slices).unique (second.2 id start slices))
  rw [Value.read_scalar, Value.read_scalar] at same
  have equal := congrArg BitVec.toNat (congrFun (Option.some.inj same) ())
  have small (k : ℕ) (below : k < rows) : k * loop.blockSize < 2 ^ 32 :=
    (Nat.mul_lt_mul_of_pos_right below positive).trans_le offsets
  simp only [BitVec.toNat_ofNat, Nat.mod_eq_of_lt (small b inside), Nat.mod_eq_of_lt (small b' inside')]
    at equal
  exact Nat.eq_of_mul_eq_mul_right positive equal

section Body
variable (there : m.computations[body]? = some computation)
  (redirected : Redirected body bodyParam gte (users computation gte) m m')
include redirected

theorem instruction_original {id : ℕ} {instruction : Instruction}
    (found : m'.instruction body id = some instruction) (noProduct : isMultiply instruction = false)
    (noSlice : instruction ≠ sliceOfState bodyParam gte) (noEntry : ∀ k, instruction ≠ entryOf k) :
    m.instruction body id = some instruction := by
  cases here : m.instruction body id with
  | none =>
    rcases redirected.added id instruction found here with slice | ⟨lookup, entry, _⟩
    · exact absurd slice noSlice
    · exact absurd entry (noEntry lookup)
  | some old =>
    cases multiplies : isMultiply old with
    | false => exact (redirected.kept_other here multiplies).symm.trans found
    | true =>
      by_cases uses : id ∈ users computation gte
      · obtain ⟨scalar, _, edited⟩ := redirected.product id uses old here multiplies
        obtain rfl := Option.some.inj (edited.symm.trans found)
        cases noProduct.symm.trans multiplies
      · exact (redirected.kept id old here (fun _ => uses)).symm.trans found

theorem readsElement_iff (index id : ℕ) :
    ReadsElement m' body index id ↔ ReadsElement m body index id := by
  constructor
  · rintro ⟨instruction, parameter, state, found, opcode, operands, there, argument⟩
    refine ⟨instruction, parameter, state, instruction_original redirected found ?_ ?_ ?_, opcode,
      operands, instruction_original redirected there ?_ ?_ ?_, argument⟩
    · rw [isMultiply, opcode]
    · rintro rfl
      cases opcode
    · rintro k rfl
      cases opcode
    · rw [isMultiply, argument]
    · rintro rfl
      cases argument
    · rintro k rfl
      cases argument
  · rintro ⟨instruction, parameter, state, found, opcode, operands, there, argument⟩
    exact ⟨instruction, parameter, state, redirected.kept_other found (by rw [isMultiply, opcode]),
      opcode, operands, redirected.kept_other there (by rw [isMultiply, argument]), argument⟩

variable (state : (positionsOf computation (isParameter 0)).head? = some bodyParam)
include there state

theorem slicesCache_iff (id start : ℕ) :
    SlicesCache m' body loop id start ↔ SlicesCache m body loop id start := by
  simp only [SlicesCache, readsElement_iff redirected]
  constructor
  · rintro ⟨instruction, sizes, cache, others, found, opcode, operands, reads⟩
    refine ⟨instruction, sizes, cache, others, instruction_original redirected found ?_ ?_ ?_, opcode,
      operands, reads⟩
    · rw [isMultiply, opcode]
    · -- the added slice is one of the state, which is no element of itself
      rintro rfl
      obtain ⟨rfl, _⟩ := List.cons.inj operands
      obtain ⟨parameter, argument, isState⟩ := bodyParam_found there state
      have element {index : ℕ} (read : ReadsElement m body index bodyParam) : False := by
        obtain ⟨_, _, _, same, reads, _⟩ := read
        obtain rfl := Option.some.inj (argument.symm.trans same)
        cases isState.symm.trans reads
      rcases reads with read | ⟨_, _, read⟩
      · exact element read
      · exact element read
    · rintro k rfl
      cases opcode
  · rintro ⟨instruction, sizes, cache, others, found, opcode, operands, reads⟩
    exact ⟨instruction, sizes, cache, others, redirected.kept_other found (by rw [isMultiply, opcode]),
      opcode, operands, reads⟩

variable (noSlices : NoTupleSlices rest) (nonRecursive : NonRecursive m) (resolved : Resolved m)
  (fits : ∀ id instruction, m.instruction body id = some instruction →
    m.operandsFit body instruction = true)
include noSlices nonRecursive resolved fits

theorem slicesBlock_iff (elements : List Value) (block : ℕ) :
    SlicesBlock m' body loop rest (.tuple elements) block ↔
      SlicesBlock m body loop rest (.tuple elements) block ∧
        StartsUnfed m body loop computation gte := by
  simp only [SlicesBlock, StartsUnfed, slicesCache_iff there redirected state,
    evaluates_redirected_iff there redirected state noSlices nonRecursive resolved fits]
  constructor
  · rintro ⟨exist, values⟩
    exact ⟨⟨exist, fun id start slices => (values id start slices).1⟩,
      fun id start slices => (values id start slices).2⟩
  · rintro ⟨⟨exist, values⟩, unfed⟩
    exact ⟨exist, fun id start slices => ⟨values id start slices, unfed id start slices⟩⟩

theorem visits_iff (states : List (List Value)) (blocks : List ℕ) :
    VisitsBlocks m' body loop rest states blocks ↔ VisitsBlocks m body loop rest states blocks ∧
      (states = [] ∨ StartsUnfed m body loop computation gte) := by
  have each (elements : List Value) (block : ℕ) :
      SlicesBlock m' body loop rest (.tuple elements) block ↔
        SlicesBlock m body loop rest (.tuple elements) block ∧
          StartsUnfed m body loop computation gte :=
    slicesBlock_iff there redirected state noSlices nonRecursive resolved fits elements block
  constructor
  · intro visits
    refine ⟨visits.imp (fun elements block slices => ((each elements block).mp slices).1), ?_⟩
    cases visits with
    | nil => exact .inl rfl
    | cons first _ => exact .inr ((each _ _).mp first).2
  · rintro ⟨visits, rfl | unfed⟩
    · obtain rfl := List.forall₂_nil_left_iff.mp visits
      exact .nil
    · exact visits.imp (fun elements block slices => (each elements block).mpr ⟨slices, unfed⟩)

/-- If the old iterations slice the blocks in order, the new ones slice exactly the active blocks
when these come first and no redirected product feeds an index. -/
theorem visits_active_iff {rows heads : ℕ} (mask : BlockMask rows heads)
    (offsets : rows * loop.blockSize ≤ 2 ^ 32) (positive : 0 < loop.blockSize)
    {states : List (List Value)} (inOrder : VisitsBlocks m body loop rest states (.range states.length)) :
    VisitsBlocks m' body loop rest states (activeBlocks mask) ↔
      activeBlocks mask = List.range states.length ∧
        (states = [] ∨ StartsUnfed m body loop computation gte) := by
  rw [visits_iff there redirected state noSlices nonRecursive resolved fits]
  refine and_congr_left (fun _ => ⟨fun visits => ?_, fun first => first ▸ inOrder⟩)
  have count := visits.length_eq
  refine List.ext_get (by rw [← count, List.length_range]) (fun k inside inside' => ?_)
  have small := inside.trans_le (activeBlocks_length_le mask)
  rw [List.get_eq_getElem, List.get_eq_getElem, List.getElem_range]
  have here := count.symm ▸ inside
  have before := inOrder.get here inside'
  rw [List.get_eq_getElem, List.get_eq_getElem, List.getElem_range] at before
  exact block_unique offsets positive (lt_of_mem_activeBlocks (List.getElem_mem inside)) small
    (visits.get here inside) before

end Body

end Stage

/-- When the body stage succeeds, every product of the induction variable that it finds reads a
slice of the loop state, which has no value, and nothing else in the body changes. So the iterations
visit the active blocks if they visited them before and no redirected product feeds an index. -/
theorem rewriteLoopBody_account (compatible : Shape → Shape → Bool) (c activeIndices : ℕ)
    (loop : AttentionLoopMatch) (m m' : HloModule) (whileInst : Instruction) (condition body : ℕ)
    (computation : Computation) (found : m.instruction c loop.whileInst = some whileInst)
    (loops : whileInst.opcode = .while condition body)
    (there : m.computations[body]? = some computation)
    (fits : ∀ id instruction, m.instruction body id = some instruction →
      m.operandsFit body instruction = true)
    (resolved : Resolved m) (nonRecursive : NonRecursive m)
    (rest : Opcode → Shape → List Value → Option Value) (noSlices : NoTupleSlices rest)
    (ok : rewriteLoopBody compatible c activeIndices loop m = (.ok (), m')) :
    ∃ bodyParam gte, (positionsOf computation (isParameter 0)).head? = some bodyParam ∧
      loopVarGte computation loop.loopVarIndex = some gte ∧
      BodyRewritten rest m m' body computation loop bodyParam gte := by
  obtain ⟨bodyParam, gte, state, reads, redirected⟩ :=
    rewriteLoopBody_redirected found loops there ok
  exact ⟨bodyParam, gte, state, reads,
    { redirected := redirected
      values := evaluates_redirected_iff there redirected state noSlices nonRecursive resolved fits
      visits := visits_iff there redirected state noSlices nonRecursive resolved fits
      active := fun mask states offsets positive inOrder => visits_active_iff there redirected state
        noSlices nonRecursive resolved fits mask offsets positive inOrder }⟩

/-! ### A loop over two blocks -/

section Sample

def twoBlockState : Shape :=
  .tuple [s32Scalar, .array .f32 [1], .array .f32 [4, 1, 1], .array .f32 [4, 1, 1], .array .pred [2]]

def element (index : ℕ) (shape : Shape) : Instruction :=
  { opcode := .getTupleElement index, shape := shape, operands := [0] }

def slice (cache start first : ℕ) : Instruction :=
  { opcode := .dynamicSlice [2, 1, 1]
    shape := .array .f32 [2, 1, 1]
    operands := [cache, start, first, first] }

def twoBlockCondition : Computation := buildComputation
  [parameterInstruction 0 twoBlockState, element 0 s32Scalar, constantS32 2,
    { opcode := .compare .lt, shape := predScalar, operands := [1, 2] }]

def twoBlockBody : Computation := buildComputation
  [parameterInstruction 0 twoBlockState, element 0 s32Scalar, element 1 (.array .f32 [1]),
    element 2 (.array .f32 [4, 1, 1]), element 3 (.array .f32 [4, 1, 1]),
    element 4 (.array .pred [2]), constantS32 2,
    { opcode := .multiply, shape := s32Scalar, operands := [1, 6] }, constantS32 0,
    slice 3 7 8, slice 4 7 8, { opcode := .dot, shape := .array .f32 [1], operands := [9, 10] },
    constantS32 1, { opcode := .add, shape := s32Scalar, operands := [1, 12] },
    { opcode := .tuple, shape := twoBlockState, operands := [13, 11, 3, 4, 5] }]

def twoBlockEntry : Computation := buildComputation
  [constantS32 0, parameterInstruction 0 (.array .f32 [1]),
    parameterInstruction 1 (.array .f32 [4, 1, 1]), parameterInstruction 2 (.array .f32 [4, 1, 1]),
    parameterInstruction 3 (.array .pred [2]),
    { opcode := .tuple, shape := twoBlockState, operands := [0, 1, 2, 3, 4] },
    { opcode := .while 0 1, shape := twoBlockState, operands := [5] }]

def twoBlockLoop : HloModule := { computations := [twoBlockCondition, twoBlockBody, twoBlockEntry] }

def twoBlockMatch : AttentionLoopMatch :=
  { whileInst := 6
    blockMask := 4
    maskTupleIndex := 4
    kvTupleIndexK := 2
    kvTupleIndexV := some 3
    loopVarIndex := 0
    numBlocks := 2
    blockSize := 2 }

def twoBlockArguments (mask : Fin 2 → Bool) : List Value :=
  [.array .f32 [1] (fun _ => (0 : ℕ)), .array .f32 [4, 1, 1] (fun _ => (0 : ℕ)),
    .array .f32 [4, 1, 1] (fun _ => (0 : ℕ)), .array .pred [2] (fun i => mask i.leading)]

def sameShape (old new : Shape) : Bool := old = new

theorem sameShape_self (shape : Shape) : sameShape shape shape = true := decide_eq_true rfl

def twoBlockRedirected : HloModule := (rewriteLoopBody sameShape 2 0 twoBlockMatch twoBlockLoop).2

theorem twoBlockLoop_start {id start : ℕ}
    (slices : SlicesCache twoBlockLoop 1 twoBlockMatch id start) : start = 7 := by
  obtain ⟨instruction, sizes, cache, others, found, opcode, operands, _⟩ := slices
  have listed : ∀ used ∈ twoBlockBody.instructions, used.operands[1]? = some 7 ∨
      (match used.opcode with | .dynamicSlice _ => False | _ => True) := by
    simp [twoBlockBody, buildComputation, slice, element, parameterInstruction, constantS32]
  rcases listed instruction (List.mem_of_getElem? found) with second | other
  · rw [operands] at second
    exact Option.some.inj second
  · rw [opcode] at other
    exact other.elim

theorem twoBlockLoop_slice : SlicesCache twoBlockLoop 1 twoBlockMatch 9 7 :=
  ⟨slice 3 7 8, _, 3, [8, 8], rfl, rfl, rfl, .inl ⟨_, 0, _, rfl, rfl, rfl, rfl, rfl⟩⟩

theorem twoBlockLoop_first (mask : Fin 2 → Bool) : SlicesBlock twoBlockLoop 1 twoBlockMatch
    (fun _ _ _ => none) (.tuple (.scalar .s32 0#32 :: twoBlockArguments mask)) 0 := by
  have state : Evaluates (fun _ _ _ => none) twoBlockLoop 1
      [.tuple (.scalar .s32 0#32 :: twoBlockArguments mask)] 0
      (.tuple (.scalar .s32 0#32 :: twoBlockArguments mask)) := evaluates_parameter rfl rfl
  have loopVar : Evaluates (fun _ _ _ => none) twoBlockLoop 1
      [.tuple (.scalar .s32 0#32 :: twoBlockArguments mask)] 1 (.scalar .s32 0#32) :=
    evaluates_getTupleElement rfl state rfl
  refine ⟨⟨9, 7, twoBlockLoop_slice⟩, fun id start slices => ?_⟩
  obtain rfl := twoBlockLoop_start slices
  exact evaluates_of_operation rfl (.cons loopVar (.cons (evaluates_constant rfl) .nil))
    (fun _ _ => rfl) rfl

theorem twoBlockRedirected_unvisited :
    VisitsBlocks twoBlockLoop 1 twoBlockMatch (fun _ _ _ => none)
        [.scalar .s32 0#32 :: twoBlockArguments ![true, false]]
        (activeBlocks (.blocks ![true, false] : BlockMask 2 1)) ∧
      ¬VisitsBlocks twoBlockRedirected 1 twoBlockMatch (fun _ _ _ => none)
        [.scalar .s32 0#32 :: twoBlockArguments ![true, false]]
        (activeBlocks (.blocks ![true, false] : BlockMask 2 1)) := by
  have first : activeBlocks (.blocks ![true, false] : BlockMask 2 1) = [0] := by decide
  have verified : twoBlockLoop.Verified := verified_of_check _ (by decide)
  obtain ⟨bodyParam, gte, _, reads, account⟩ := rewriteLoopBody_account sameShape 2 0 twoBlockMatch
    twoBlockLoop twoBlockRedirected _ 0 1 twoBlockBody rfl rfl rfl (verified.fits 1)
    (resolved_of_calledInside (by decide)) (nonRecursive_of_calledBefore (by decide))
    (fun _ _ _ => none) (fun _ _ _ _ => rfl) rfl
  obtain rfl : 1 = gte := Option.some.inj reads
  rw [first]
  refine ⟨.cons (twoBlockLoop_first _) .nil, fun visits => ?_⟩
  rcases ((account.visits _ _).mp visits).2 with none_visited | unfed
  · cases none_visited
  · exact unfed 9 7 twoBlockLoop_slice 7 (by decide) (.here 7)

end Sample

end OrthoCache.ActiveBlockVisits
