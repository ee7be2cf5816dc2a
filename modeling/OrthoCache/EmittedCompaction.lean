import OrthoCache.StreamCompactPass
import OrthoCache.XlaBridge

/-!
What the instructions that the pass injects compute. The builder only ever adds instructions to
one computation and computations to the module, so what it emits can be read off as two lists;
then the emitted instructions are evaluated one after the other.
-/

namespace OrthoCache.EmittedCompaction
open Finset Foundation.Hlo Foundation.StablePartition Arrays StreamCompactPass XlaBridge

section Growth

def grown (m : HloModule) (c : ℕ) (added : List Instruction) (embedded : List Computation) :
    HloModule :=
  { computations := m.computations.modify c (fun computation =>
      { computation with instructions := computation.instructions ++ added }) ++ embedded }

def size (m : HloModule) (c : ℕ) : ℕ :=
  m.computations[c]?.elim 0 (fun computation => computation.instructions.length)

theorem modify_append_left {α : Type} (f : α → α) (i : ℕ) (front back : List α)
    (inside : i < front.length) : (front ++ back).modify i f = front.modify i f ++ back := by
  apply List.ext_getElem?
  intro k
  rw [List.getElem?_modify]
  by_cases left : k < front.length
  · rw [List.getElem?_append_left left, List.getElem?_append_left (by rwa [List.length_modify]),
      List.getElem?_modify]
  · have other : i ≠ k := by omega
    rw [List.getElem?_append_right (by omega),
      List.getElem?_append_right (by rw [List.length_modify]; omega), List.length_modify,
      Option.map_eq_map]
    simp only [other, if_false, Option.map_id']

variable (m : HloModule) (c : ℕ) (added : List Instruction) (embedded : List Computation)

theorem grown_nil : grown m c [] [] = m := by
  unfold grown
  simp only [List.append_nil]
  exact congrArg HloModule.mk (List.modify_id c m.computations)

theorem grown_length : (grown m c added embedded).computations.length =
    m.computations.length + embedded.length := by
  unfold grown
  rw [List.length_append, List.length_modify]

theorem addEmbeddedComputation_grown (computation : Computation) :
    addEmbeddedComputation computation (grown m c added embedded) =
      (m.computations.length + embedded.length, grown m c added (embedded ++ [computation])) := by
  change ((grown m c added embedded).computations.length, _) = _
  rw [grown_length]
  unfold grown
  simp only [List.append_assoc]

theorem grown_of_ne (f : ℕ) (other : f ≠ c) (existing : f < m.computations.length) :
    (grown m c added embedded).computations[f]? = m.computations[f]? := by
  unfold grown
  rw [List.getElem?_append_left (by rwa [List.length_modify]),
    List.getElem?_modify_ne _ _ (Ne.symm other)]

theorem grown_embedded (k : ℕ) :
    (grown m c added embedded).computations[m.computations.length + k]? = embedded[k]? := by
  unfold grown
  rw [List.getElem?_append_right (by rw [List.length_modify]; omega), List.length_modify,
    Nat.add_sub_cancel_left]

theorem grown_original (f id : ℕ) (old : Instruction)
    (found : m.instruction f id = some old) :
    (grown m c added embedded).instruction f id = some old := by
  obtain ⟨computation, there, here⟩ := Option.bind_eq_some_iff.mp found
  have inside := (List.getElem?_eq_some_iff.mp there).1
  unfold HloModule.instruction grown
  rw [List.getElem?_append_left (by rwa [List.length_modify]), List.getElem?_modify, there]
  by_cases same : c = f
  · have before := (List.getElem?_eq_some_iff.mp here).1
    simp only [same, if_true]
    exact (List.getElem?_append_left before).trans here
  · simp only [same, if_false]
    exact here

theorem grown_cases (f id : ℕ) (new : Instruction)
    (found : (grown m c added embedded).instruction f id = some new) :
    m.instruction f id = some new ∨ new ∈ added ∨
      ∃ computation ∈ embedded, new ∈ computation.instructions := by
  obtain ⟨computation, there, here⟩ := Option.bind_eq_some_iff.mp found
  unfold grown at there
  rcases lt_or_ge f m.computations.length with inside | outside
  · rw [List.getElem?_append_left (by rwa [List.length_modify]), List.getElem?_modify,
      List.getElem?_eq_getElem inside] at there
    have original (before : m.computations[f].instructions[id]? = some new) :
        m.instruction f id = some new :=
      (instruction_eq (List.getElem?_eq_getElem inside) id).trans before
    by_cases same : c = f
    · simp only [same, if_true, Option.map_eq_map, Option.map_some, Option.some.injEq] at there
      rw [← there] at here
      rcases lt_or_ge id m.computations[f].instructions.length with before | behind
      · rw [List.getElem?_append_left before] at here
        exact .inl (original here)
      · rw [List.getElem?_append_right behind] at here
        exact .inr (.inl (List.mem_of_getElem? here))
    · simp only [same, if_false, Option.map_eq_map, Option.map_some, Option.some.injEq] at there
      rw [← there] at here
      exact .inl (original here)
  · rw [List.getElem?_append_right (by rwa [List.length_modify])] at there
    exact .inr (.inr ⟨computation, List.mem_of_getElem? there, List.mem_of_getElem? here⟩)

variable (inside : c < m.computations.length)
include inside

theorem grown_computation : (grown m c added embedded).computations[c]? =
    m.computations[c]?.map (fun computation =>
      { computation with instructions := computation.instructions ++ added }) := by
  unfold grown
  rw [List.getElem?_append_left (by rwa [List.length_modify]), List.getElem?_modify_eq]
  rfl

theorem size_grown : size (grown m c added embedded) c = size m c + added.length := by
  unfold size
  rw [grown_computation m c added embedded inside, List.getElem?_eq_getElem inside]
  exact List.length_append

theorem grown_instruction (k : ℕ) :
    (grown m c added embedded).instruction c (size m c + k) = added[k]? := by
  unfold HloModule.instruction size
  rw [grown_computation m c added embedded inside, List.getElem?_eq_getElem inside]
  change (m.computations[c].instructions ++ added)[m.computations[c].instructions.length + k]? = _
  rw [List.getElem?_append_right (Nat.le_add_right _ _), Nat.add_sub_cancel_left]

theorem addInstruction_grown (instruction : Instruction) :
    addInstruction c instruction (grown m c added embedded) =
      (size m c + added.length, grown m c (added ++ [instruction]) embedded) := by
  change (size (grown m c added embedded) c, HloModule.mk _) = _
  rw [size_grown m c added embedded inside]
  unfold grown
  rw [modify_append_left _ _ _ _ (by rwa [List.length_modify]), List.modify_modify_eq]
  simp only [Function.comp_def, List.append_assoc]

end Growth

section Emission

theorem get_bind {α : Type} (next : HloModule → Build α) (m : HloModule) :
    (get >>= next : Build α) m = next m m := rfl

def tableInstructions (mask1d base addComp cmpComp n : ℕ) : List Instruction :=
  let i32Shape := Shape.array .s32 [n]
  [constantS32 1,
    { opcode := .broadcast [], shape := i32Shape, operands := [base] },
    constantS32 0,
    { opcode := .broadcast [], shape := i32Shape, operands := [base + 2] },
    { opcode := .select, shape := i32Shape, operands := [mask1d, base + 1, base + 3] },
    constantS32 0,
    { opcode := .reduce [0] addComp, shape := s32Scalar, operands := [base + 4, base + 5] },
    { opcode := .reduceWindow [causalWindow n] addComp
      shape := i32Shape
      operands := [base + 4, base + 5] },
    { opcode := .iota 0, shape := i32Shape, operands := [] },
    constantS32 n,
    { opcode := .broadcast [], shape := i32Shape, operands := [base + 9] },
    { opcode := .add, shape := i32Shape, operands := [base + 8, base + 10] },
    { opcode := .select, shape := i32Shape, operands := [mask1d, base + 8, base + 11] },
    { opcode := .sort 0 cmpComp true
      shape := .tuple [i32Shape, i32Shape]
      operands := [base + 12, base + 8] },
    { opcode := .getTupleElement 1, shape := i32Shape, operands := [base + 13] }]

def reduceInstructions (blockMask base orComp n : ℕ) : List Instruction :=
  [{ opcode := .constant (.scalar .pred false), shape := predScalar, operands := [] },
    { opcode := .reduce [1] orComp, shape := .array .pred [n], operands := [blockMask, base] }]

variable (m : HloModule) (c : ℕ) (inside : c < m.computations.length)
include inside

theorem buildTable_grown (added : List Instruction) (embedded : List Computation) (mask1d n : ℕ) :
    let base := size m c + added.length
    let called := m.computations.length + embedded.length
    buildTable c mask1d n (grown m c added embedded) = ((base + 14, base + 6),
      grown m c (added ++ tableInstructions mask1d base called (called + 1) n)
        (embedded ++ [addReduce, sortComparator])) := by
  intro base called
  unfold buildTable
  simp only [bind, StateT.bind, addInstruction_grown m c _ _ inside, addEmbeddedComputation_grown,
    List.length_append, List.length_cons, List.length_nil, List.append_assoc, List.cons_append,
    List.nil_append, Nat.zero_add, Nat.reduceAdd]
  rfl

theorem injectStreamCompaction_flat (blockMask n : ℕ) (mask : Instruction)
    (found : m.instruction c blockMask = some mask) (flat : mask.shape.rank ≠ 2) :
    let called := m.computations.length
    injectStreamCompaction c blockMask n m = ((size m c + 14, size m c + 6),
      grown m c (tableInstructions blockMask (size m c) called (called + 1) n)
        [addReduce, sortComparator]) := by
  intro called
  have table := buildTable_grown m c inside [] [] blockMask n
  have reduced : reduceMask c blockMask n m = (blockMask, m) := by
    unfold reduceMask
    rw [get_bind, found, Option.elim_some, if_neg flat]
    rfl
  rw [grown_nil] at table
  unfold injectStreamCompaction
  simp only [bind, StateT.bind, reduced]
  exact table

theorem injectStreamCompaction_rows (blockMask n : ℕ) (mask : Instruction)
    (found : m.instruction c blockMask = some mask) (rows : mask.shape.rank = 2) :
    let called := m.computations.length
    injectStreamCompaction c blockMask n m = ((size m c + 16, size m c + 8),
      grown m c (reduceInstructions blockMask (size m c) called n ++
          tableInstructions (size m c + 1) (size m c + 2) (called + 1) (called + 2) n)
        [orReduce, addReduce, sortComparator]) := by
  intro called
  have table := buildTable_grown m c inside (reduceInstructions blockMask (size m c) called n)
    [orReduce] (size m c + 1) n
  have embedding := addEmbeddedComputation_grown m c [] [] orReduce
  have reduced : reduceMask c blockMask n m = (size m c + 1,
      grown m c (reduceInstructions blockMask (size m c) called n) [orReduce]) := by
    rw [grown_nil] at embedding
    unfold reduceMask
    rw [get_bind, found, Option.elim_some, if_pos rows]
    simp only [embedding, bind, StateT.bind, addInstruction_grown m c _ _ inside, List.nil_append,
      List.length_nil, List.length_cons, List.cons_append, Nat.zero_add, Nat.add_zero]
    rfl
  unfold injectStreamCompaction
  simp only [bind, StateT.bind, reduced]
  exact table

end Emission

section Called
variable (rest : Opcode → Shape → List Value → Option Value) {m : HloModule}

theorem addReduce_combines (f : ℕ) (found : m.computations[f]? = some addReduce) :
    Combines rest m f .s32 BitVec.add := by
  refine combines_of_computation found rfl rfl (fun _ => nofun) (fun call fuel x y args => ?_)
  simp only [evaluateOperation, binary, Value.read_scalar]
  rfl

theorem orReduce_combines (f : ℕ) (found : m.computations[f]? = some orReduce) :
    Combines rest m f .pred or := by
  refine combines_of_computation found rfl rfl (fun _ => nofun) (fun call fuel x y args => ?_)
  simp only [evaluateOperation, binary, Value.read_scalar]
  rfl

theorem sortComparator_calls (f : ℕ) (found : m.computations[f]? = some sortComparator)
    (x x' y y' : BitVec 32) : Calls rest m f
      [.scalar .s32 x, .scalar .s32 x', .scalar .s32 y, .scalar .s32 y']
      (.scalar .pred (decide (x.toInt < x'.toInt))) := by
  have here := instruction_eq found
  let args : List Value := [.scalar .s32 x, .scalar .s32 x', .scalar .s32 y, .scalar .s32 y']
  have first : Evaluates rest m f args 0 (.scalar .s32 x) := evaluates_parameter (here 0) rfl
  have second : Evaluates rest m f args 1 (.scalar .s32 x') := evaluates_parameter (here 1) rfl
  refine calls_of_root found rfl (evaluates_of_operation (here 4) (.cons first (.cons second .nil))
    (fun call fuel => ?_) rfl)
  simp only [evaluateOperation]
  rfl

end Called

section Words

theorem word_toInt (x : ℕ) (small : x < 2 ^ 31) : (BitVec.ofNat 32 x).toInt = x := by
  have value : (BitVec.ofNat 32 x).toNat = x := by
    rw [BitVec.toNat_ofNat, Nat.mod_eq_of_lt (by omega)]
  rw [BitVec.toInt_eq_toNat_of_lt (by omega), value]

theorem foldl_add {ι : Type} (step : BitVec 32 → ι → BitVec 32) (f : ι → ℕ)
    (adds : ∀ acc a, step acc a = acc + BitVec.ofNat 32 (f a)) (entries : List ι) (start : ℕ) :
    entries.foldl step (BitVec.ofNat 32 start) = BitVec.ofNat 32 (start + (entries.map f).sum) := by
  induction entries generalizing start with
  | nil => rfl
  | cons a entries ih =>
    rw [List.foldl_cons, adds, ← BitVec.ofNat_add, ih, List.map_cons, List.sum_cons, Nat.add_assoc]

theorem foldl_or (entries : List Bool) (start : Bool) :
    entries.foldl or start = (start || entries.any id) := by
  induction entries generalizing start with
  | nil => rw [List.foldl_nil, List.any_nil, Bool.or_false]
  | cons b entries ih => rw [List.foldl_cons, ih, List.any_cons, Bool.or_assoc]; rfl

theorem word_of_mask (b : Bool) : (if b then 1#32 else 0#32) = BitVec.ofNat 32 (if b then 1 else 0) := by
  cases b <;> rfl

theorem count_causalWindow (n : ℕ) : (causalWindow n).count n = n := by
  unfold WindowDimension.count causalWindow
  simp only [Nat.cast_one, Int.ediv_one, add_zero]
  split_ifs with empty
  · omega
  · push_cast
    omega

theorem source_causalWindow (n i w : ℕ) (inside : i < n) (offset : w < n) :
    (causalWindow n).source n i w =
      if late : n ≤ i + w + 1 then some ⟨i + w + 1 - n, by omega⟩ else none := by
  unfold WindowDimension.source causalWindow
  simp only [Nat.cast_one, mul_one, Int.ediv_one, Int.emod_one, and_true]
  by_cases late : n ≤ i + w + 1
  · have place : ((i : ℤ) + w - (n - 1)).toNat = i + w + 1 - n := by omega
    rw [if_pos (by omega), dif_pos (by omega), dif_pos late]
    simp only [place]
  · rw [if_neg (by omega), dif_neg late]

theorem sum_upTo {n : ℕ} (i : Fin n) (f : ℕ → ℕ) :
    ∑ j ∈ range n, (if j ≤ i.val then f j else 0) = ∑ j ∈ range (i.val + 1), f j := by
  rw [← sum_filter]
  congr 1
  ext j
  have inside := i.isLt
  simp only [mem_filter, mem_range]
  omega

theorem sum_causalWindow {n : ℕ} (i : Fin n) (f : Fin n → ℕ) :
    ∑ w ∈ range n, ((causalWindow n).source n i w).elim 0 f = ∑ k ∈ Iic i, f k := by
  let entry := fun k => if inside : k < n then f ⟨k, inside⟩ else 0
  have inside := i.isLt
  have backwards (j : ℕ) (member : j ∈ range n) :
      ((causalWindow n).source n i (n - 1 - j)).elim 0 f =
        if j ≤ i.val then entry (i.val - j) else 0 := by
    have offset := mem_range.mp member
    rw [source_causalWindow n i _ inside (by omega)]
    by_cases late : j ≤ i.val
    · have place : i.val + (n - 1 - j) + 1 - n = i.val - j := by omega
      rw [dif_pos (by omega), if_pos late, Option.elim_some]
      simp only [entry, place, dif_pos (show i.val - j < n by omega)]
    · rw [dif_neg (by omega), if_neg late, Option.elim_none]
  have forwards : ∑ k ∈ Iic i, f k = ∑ j ∈ range n, if j ≤ i.val then entry j else 0 := by
    rw [sum_range, ← sum_filter]
    apply sum_congr
    · ext k
      simp only [mem_Iic, mem_filter, mem_univ, true_and, Fin.le_def]
    · intro k _
      simp only [entry, dif_pos k.isLt]
  calc
    _ = ∑ j ∈ range n, ((causalWindow n).source n i (n - 1 - j)).elim 0 f :=
      (sum_range_reflect _ n).symm
    _ = ∑ j ∈ range n, if j ≤ i.val then entry (i.val - j) else 0 := sum_congr rfl backwards
    _ = ∑ j ∈ range (i.val + 1), entry (i.val - j) := sum_upTo i (fun j => entry (i.val - j))
    _ = ∑ j ∈ range (i.val + 1), entry j := sum_range_reflect entry (i.val + 1)
    _ = ∑ k ∈ Iic i, f k := by rw [forwards, sum_upTo i entry]

/-- The window sums are the inclusive prefix sums. -/
theorem foldl_causalWindow {n : ℕ} (mask : Fin n → Bool) (i : Fin n) :
    (List.range n).foldl (fun acc w => match (causalWindow n).source n i w with
      | some k => BitVec.add acc (if mask k then 1#32 else 0#32)
      | none => acc) 0#32 = BitVec.ofNat 32 (selectedUpTo mask i) := by
  let below := fun w => ((causalWindow n).source n i w).elim 0 (fun k => if mask k then 1 else 0)
  have steps (acc : BitVec 32) (w : ℕ) : (match (causalWindow n).source n i w with
      | some k => BitVec.add acc (if mask k then 1#32 else 0#32)
      | none => acc) = acc + BitVec.ofNat 32 (below w) := by
    simp only [below]
    cases (causalWindow n).source n i w with
    | none => exact (BitVec.add_zero acc).symm
    | some k =>
      change acc + (if mask k then 1#32 else 0#32) = acc + BitVec.ofNat 32 (if mask k then 1 else 0)
      rw [word_of_mask]
  have total : ((List.range n).map below).sum = ∑ w ∈ range n, below w := by
    rw [← List.toFinset_range, List.sum_toFinset _ List.nodup_range]
  refine (foldl_add _ below steps (List.range n) 0).trans ?_
  rw [Nat.zero_add, total, sum_causalWindow, selectedUpTo]

theorem sortOrder_eq_argsort {n : ℕ} {α : Type} [LinearOrder α] (key : Fin n → α) :
    sortOrder (fun i j => decide (key i < key j)) = argsort key := by
  funext i
  have le : (fun a b => !decide (key b < key a)) = fun a b => decide (key a ≤ key b) := by
    funext a b
    rw [← decide_not, decide_eq_decide.mpr not_lt]
  unfold sortOrder
  rw [le, mergeSort_eq_sort, List.getD_eq_getElem _ _ (by simp)]
  simp [argsort]

end Words

/-! ### Values of the emitted instructions -/

def EmittedAt (m : HloModule) (c base : ℕ) (listing : List Instruction) : Prop :=
  ∀ k instruction, listing[k]? = some instruction →
    m.instruction c (base + k) = some instruction

namespace EmittedAt
variable {m : HloModule} {c base : ℕ} {front back : List Instruction}
  (emitted : EmittedAt m c base (front ++ back))
include emitted

theorem of_append_left : EmittedAt m c base front := by
  intro k instruction here
  have before := (List.getElem?_eq_some_iff.mp here).1
  exact emitted k instruction (by rwa [List.getElem?_append_left before])

theorem of_append_right : EmittedAt m c (base + front.length) back := by
  intro k instruction here
  rw [Nat.add_assoc]
  apply emitted (front.length + k) instruction
  rwa [List.getElem?_append_right (Nat.le_add_right _ _), Nat.add_sub_cancel_left]

end EmittedAt

theorem emittedAt_grown (m : HloModule) (c : ℕ) (inside : c < m.computations.length)
    (added : List Instruction) (embedded : List Computation) :
    EmittedAt (grown m c added embedded) c (size m c) added := by
  intro k instruction here
  rw [grown_instruction m c _ _ inside, here]

theorem reducedMask_evaluates {rest : Opcode → Shape → List Value → Option Value} {m : HloModule}
    {c : ℕ} {args : List Value} {n heads blockMask base orComp : ℕ}
    (emitted : EmittedAt m c base (reduceInstructions blockMask base orComp n))
    (ors : m.computations[orComp]? = some orReduce) {mask : Fin n → Fin heads → Bool}
    (masked : Evaluates rest m c args blockMask
      (.array .pred [n, heads] (fun i => mask i.leading (Index.leading i.2)))) :
    Evaluates rest m c args (base + 1) (.array .pred [n] (fun i => anyHead mask i.leading)) := by
  have start : Evaluates rest m c args base (.scalar .pred false) :=
    evaluates_constant (emitted 0 _ rfl)
  have rows := eventually_reduceRows (orReduce_combines rest orComp ors) n heads
    (fun i => mask i.leading (Index.leading i.2)) false
  have reduced (i : Fin n) :
      (List.finRange heads).foldl (fun acc h => acc || mask i h) false = anyHead mask i := by
    have any := foldl_or ((List.finRange heads).map (mask i)) false
    rw [List.foldl_map] at any
    rw [any, Bool.false_or, Bool.eq_iff_iff, anyHead_iff]
    simp
  simp only [← reduced]
  exact evaluates_of_instruction (emitted 1 _ rfl) (.cons masked (.cons start .nil)) rows rfl

section Table
variable {rest : Opcode → Shape → List Value → Option Value} {m : HloModule} {c : ℕ}
  {args : List Value} {n mask1d base addComp cmpComp : ℕ}
  (emitted : EmittedAt m c base (tableInstructions mask1d base addComp cmpComp n))
include emitted

theorem constant_evaluates (k : ℕ) (value : ℤ)
    (here : (tableInstructions mask1d base addComp cmpComp n)[k]? = some (constantS32 value)) :
    Evaluates rest m c args (base + k) (.scalar .s32 (BitVec.ofInt 32 value)) :=
  evaluates_constant (emitted k _ here)

theorem iota_evaluates :
    Evaluates rest m c args (base + 8) (.array .s32 [n] (fun i => BitVec.ofNat 32 i.leading)) :=
  evaluates_of_operation (emitted 8 _ rfl) .nil (fun _ _ => rfl) rfl

variable {mask : Fin n → Bool}
  (masked : Evaluates rest m c args mask1d (.array .pred [n] (fun i => mask i.leading)))
include masked

theorem maskI32_evaluates : Evaluates rest m c args (base + 4)
    (.array .s32 [n] (fun i => if mask i.leading then 1#32 else 0#32)) := by
  have ones : Evaluates rest m c args (base + 1) (.array .s32 [n] (fun _ => 1#32)) :=
    evaluates_broadcast (emitted 1 _ rfl) (constant_evaluates emitted 0 1 rfl)
  have zeros : Evaluates rest m c args (base + 3) (.array .s32 [n] (fun _ => 0#32)) :=
    evaluates_broadcast (emitted 3 _ rfl) (constant_evaluates emitted 2 0 rfl)
  exact evaluates_select (emitted 4 _ rfl) masked ones zeros

section Sums
variable (adds : m.computations[addComp]? = some addReduce)
include adds

theorem numActive_evaluates : Evaluates rest m c args (base + 6)
    (.scalar .s32 (BitVec.ofNat 32 (countActive mask))) := by
  have counted : (List.finRange n).foldl
      (fun acc i => BitVec.add acc (if mask i then 1#32 else 0#32)) 0#32 =
        BitVec.ofNat 32 (countActive mask) := by
    have steps (acc : BitVec 32) (i : Fin n) : BitVec.add acc (if mask i then 1#32 else 0#32) =
        acc + BitVec.ofNat 32 (if mask i then 1 else 0) := by
      rw [← word_of_mask]
      rfl
    refine (foldl_add _ (fun i => if mask i then 1 else 0) steps (List.finRange n) 0).trans ?_
    rw [Nat.zero_add, ← List.ofFn_eq_map, List.sum_ofFn, countActive]
  have zero : Evaluates rest m c args (base + 5) (.scalar .s32 0#32) :=
    constant_evaluates emitted 5 0 rfl
  have total := eventually_reduceAll (addReduce_combines rest addComp adds) n
    (fun i => if mask i.leading then 1#32 else 0#32) 0#32
  rw [← counted]
  exact evaluates_of_instruction (emitted 6 _ rfl)
    (.cons (maskI32_evaluates emitted masked) (.cons zero .nil)) total rfl

theorem prefixSum_evaluates : Evaluates rest m c args (base + 7)
    (.array .s32 [n] (fun i => BitVec.ofNat 32 (selectedUpTo mask i.leading))) := by
  have zero : Evaluates rest m c args (base + 5) (.scalar .s32 0#32) :=
    constant_evaluates emitted 5 0 rfl
  have sums := eventually_reduceWindows (addReduce_combines rest addComp adds)
    (causalWindow n) n n (count_causalWindow n)
    (fun i => if mask i.leading then 1#32 else 0#32) 0#32
  refine evaluates_of_instruction (emitted 7 _ rfl)
    (.cons (maskI32_evaluates emitted masked) (.cons zero .nil)) ?_ rfl
  simp only [← foldl_causalWindow]
  exact sums

end Sums

theorem sortKeys_evaluates : Evaluates rest m c args (base + 12)
    (.array .s32 [n] (fun i => BitVec.ofNat 32 (offsetKey mask i.leading))) := by
  have bound : Evaluates rest m c args (base + 9) (.scalar .s32 (BitVec.ofInt 32 n)) :=
    constant_evaluates emitted 9 n rfl
  have shift := evaluates_broadcast (emitted 10 _ rfl) bound
  have inactiveKeys : Evaluates rest m c args (base + 11)
      (.array .s32 [n] (fun i => BitVec.ofNat 32 (n + i.leading))) := by
    refine evaluates_of_operation (emitted 11 _ rfl)
      (.cons (iota_evaluates emitted) (.cons shift .nil)) (fun _ _ => ?_) rfl
    have added (i : Fin n) :
        BitVec.add (BitVec.ofNat 32 i) (BitVec.ofInt 32 n) = BitVec.ofNat 32 (n + i) := by
      rw [BitVec.ofInt_natCast, Nat.add_comm, BitVec.ofNat_add]
      rfl
    simp only [evaluateOperation, binary, Value.read_array, Option.bind_eq_bind, Option.bind_some,
      added]
    rfl
  have keys := evaluates_select (emitted 12 _ rfl) masked (iota_evaluates emitted) inactiveKeys
  have entries (i : Fin n) : (if mask i then BitVec.ofNat 32 i else BitVec.ofNat 32 (n + i)) =
      BitVec.ofNat 32 (offsetKey mask i) := by
    unfold offsetKey
    rw [apply_ite (BitVec.ofNat 32)]
  simpa only [entries] using keys

variable (compares : m.computations[cmpComp]? = some sortComparator) (small : 2 * n < 2 ^ 31)
include compares small

theorem activeIndices_evaluates : Evaluates rest m c args (base + 14)
    (.array .s32 [n] (fun i => BitVec.ofNat 32 (argsort (offsetKey mask) i.leading))) := by
  have sorting := eventually_sortPair cmpComp n .s32 .s32 (fun x y => decide (x.toInt < y.toInt))
    (sortComparator_calls rest cmpComp compares)
    (fun i => BitVec.ofNat 32 (offsetKey mask i.leading)) (fun i => BitVec.ofNat 32 i.leading)
  have below (i : Fin n) : offsetKey mask i < 2 ^ 31 := by
    have inside := i.isLt
    unfold offsetKey
    split_ifs <;> omega
  have order : sortOrder (fun i j : Fin n => decide ((BitVec.ofNat 32 (offsetKey mask i)).toInt <
      (BitVec.ofNat 32 (offsetKey mask j)).toInt)) = argsort (offsetKey mask) := by
    simp only [word_toInt _ (below _), Nat.cast_lt]
    exact sortOrder_eq_argsort (offsetKey mask)
  have sorted := evaluates_of_instruction (emitted 13 _ rfl)
    (.cons (sortKeys_evaluates emitted masked) (.cons (iota_evaluates emitted) .nil)) sorting rfl
  apply evaluates_getTupleElement (emitted 14 _ rfl) sorted
  rw [← order]
  rfl

end Table

/-! ### The whole emission -/

def maskValue {n heads : ℕ} : BlockMask n heads → Value
  | .blocks mask => .array .pred [n] (fun i => mask i.leading)
  | .blocksAndHeads mask => .array .pred [n, heads] (fun i => mask i.leading (Index.leading i.2))

/-- The one-dimensional mask: the matched one, or its reduction over heads. Computations that the
pass adds come behind the first `count`. -/
inductive ReducedMask (count : ℕ) (m : HloModule) (c blockMask n : ℕ) : ℕ → Prop
  | flat (mask : Instruction) (found : m.instruction c blockMask = some mask)
    (flat : mask.shape.rank ≠ 2) : ReducedMask count m c blockMask n blockMask
  | rows (base orComp : ℕ) (mask : Instruction) (found : m.instruction c blockMask = some mask)
    (rows : mask.shape.rank = 2)
    (emitted : EmittedAt m c base (reduceInstructions blockMask base orComp n))
    (added : count ≤ orComp) (ors : m.computations[orComp]? = some orReduce) :
    ReducedMask count m c blockMask n (base + 1)

/-- What the pass emits for a mask of `n` blocks. -/
structure EmittedTable (count : ℕ) (m : HloModule) (c blockMask n : ℕ) (ids : ℕ × ℕ)
    (mask1d base addComp cmpComp : ℕ) : Prop where
  reduced : ReducedMask count m c blockMask n mask1d
  emitted : EmittedAt m c base (tableInstructions mask1d base addComp cmpComp n)
  ids_eq : ids = (base + 14, base + 6)
  called : count ≤ addComp ∧ count ≤ cmpComp
  adds : m.computations[addComp]? = some addReduce
  compares : m.computations[cmpComp]? = some sortComparator

theorem inside_of_instruction {m : HloModule} {c id : ℕ} {instruction : Instruction}
    (found : m.instruction c id = some instruction) : c < m.computations.length := by
  obtain ⟨computation, here, _⟩ := Option.bind_eq_some_iff.mp found
  exact (List.getElem?_eq_some_iff.mp here).1

/-- The injection only adds, and what it adds is a table. -/
theorem injectStreamCompaction_emits (m : HloModule) (c blockMask n count : ℕ) (mask : Instruction)
    (found : m.instruction c blockMask = some mask) (room : count ≤ m.computations.length) :
    ∃ added embedded, (injectStreamCompaction c blockMask n m).2 = grown m c added embedded ∧
      (∀ instruction ∈ added, isWhile instruction = false) ∧
      (∀ computation ∈ embedded, ∀ instruction ∈ computation.instructions,
        isWhile instruction = false) ∧
      ∃ mask1d base addComp cmpComp,
        EmittedTable count (grown m c added embedded) c blockMask n
          (injectStreamCompaction c blockMask n m).1 mask1d base addComp cmpComp := by
  have inside := inside_of_instruction found
  let called := m.computations.length
  by_cases rank : mask.shape.rank = 2
  · let reduces := reduceInstructions blockMask (size m c) called n
    let table := tableInstructions (size m c + 1) (size m c + 2) (called + 1) (called + 2) n
    let embedded := [orReduce, addReduce, sortComparator]
    have emission := injectStreamCompaction_rows m c inside blockMask n mask found rank
    have emitted := emittedAt_grown m c inside (reduces ++ table) embedded
    have original := grown_original m c (reduces ++ table) embedded c blockMask mask found
    refine ⟨reduces ++ table, embedded, congrArg Prod.snd emission, ?_, ?_, size m c + 1,
      size m c + 2, called + 1, called + 2, ?_⟩
    · simp [reduces, table, reduceInstructions, tableInstructions, constantS32, isWhile]
    · simp [embedded, orReduce, addReduce, sortComparator, buildComputation, parameterInstruction,
        isWhile]
    exact
      { reduced := .rows _ called mask original rank emitted.of_append_left room
          (grown_embedded m c _ _ 0)
        emitted := emitted.of_append_right
        ids_eq := congrArg Prod.fst emission
        called := by omega
        adds := grown_embedded m c _ _ 1
        compares := grown_embedded m c _ _ 2 }
  · let table := tableInstructions blockMask (size m c) called (called + 1) n
    have emission := injectStreamCompaction_flat m c inside blockMask n mask found rank
    have original := grown_original m c table [addReduce, sortComparator] c blockMask mask found
    refine ⟨table, [addReduce, sortComparator], congrArg Prod.snd emission, ?_, ?_, blockMask,
      size m c, called, called + 1, ?_⟩
    · simp [table, tableInstructions, constantS32, isWhile]
    · simp [addReduce, sortComparator, buildComputation, parameterInstruction, isWhile]
    exact
      { reduced := .flat mask original rank
        emitted := emittedAt_grown m c inside table _
        ids_eq := congrArg Prod.fst emission
        called := by omega
        adds := grown_embedded m c _ _ 0
        compares := grown_embedded m c _ _ 1 }

namespace EmittedTable
variable {rest : Opcode → Shape → List Value → Option Value} {count : ℕ} {m : HloModule}
  {c blockMask n : ℕ} {ids : ℕ × ℕ} {mask1d base addComp cmpComp : ℕ} {args : List Value}
  (table : EmittedTable count m c blockMask n ids mask1d base addComp cmpComp)
include table

theorem mask1d_evaluates {heads : ℕ} {mask : BlockMask n heads}
    (masked : Evaluates rest m c args blockMask (maskValue mask)) :
    Evaluates rest m c args mask1d (.array .pred [n] (fun i => mask.mask1d i.leading)) := by
  cases table.reduced with
  | flat _ found flat =>
    cases mask with
    | blocks mask => exact masked
    | blocksAndHeads mask =>
      rw [← masked.shape found] at flat
      exact absurd rfl flat
  | rows base _ _ found rows emitted _ ors =>
    cases mask with
    | blocks mask =>
      rw [← masked.shape found] at rows
      exact absurd rows (by decide : 1 ≠ 2)
    | blocksAndHeads mask => exact reducedMask_evaluates emitted ors masked

end EmittedTable

end OrthoCache.EmittedCompaction
