import OrthoCache.Foundation.Hlo

/-!
Evaluation of dataflow modules. An instruction is evaluated from its operands, whatever the order
in which the computation lists them, and its value must have the declared shape; a call checks the
shapes of its arguments. Statements about evaluation hold from some amount of fuel on.
-/

namespace OrthoCache.Foundation.Hlo
open Filter

/-! ### Operations -/

def collect {α : Type} {n : ℕ} (f : Fin n → Option α) : Option (Fin n → α) :=
  if all : ∀ i, (f i).isSome then some (fun i => (f i).get (all i)) else none

theorem collect_some {α : Type} {n : ℕ} (f : Fin n → Option α) (x : Fin n → α)
    (defined : ∀ i, f i = some (x i)) : collect f = some x := by
  have all (i : Fin n) : (f i).isSome := by rw [defined i]; rfl
  unfold collect
  rw [dif_pos all]
  simp only [defined, Option.get_some]

section Operations
variable (call : ℕ → List Value → Option Value)

def combine (f : ℕ) (et : ElementType) (x y : et.Carrier) : Option et.Carrier := do
  let v ← call f [.scalar et x, .scalar et y]
  let z ← v.read et []
  pure (z ())

def binary (et : ElementType) (op : et.Carrier → et.Carrier → et.Carrier) (dims : List ℕ)
    (a b : Value) : Option Value := do
  let x ← a.read et dims
  let y ← b.read et dims
  pure (.array et dims (fun i => op (x i) (y i)))

def compareSigned (direction : ComparisonDirection) (dims : List ℕ) (a b : Value) :
    Option Value := do
  let x ← a.read .s32 dims
  let y ← b.read .s32 dims
  pure (.array .pred dims (fun i => direction.holds (BitVec.toInt (x i)) (BitVec.toInt (y i))))

def selectEntries (et : ElementType) (dims : List ℕ) (p a b : Value) : Option Value := do
  let chosen ← p.read .pred dims
  let x ← a.read et dims
  let y ← b.read et dims
  pure (.array et dims (fun i => if chosen i then x i else y i))

def reduceAll (f : ℕ) (et : ElementType) (n : ℕ) (a initial : Value) : Option Value := do
  let x ← a.read et [n]
  let start ← initial.read et []
  let total ← (List.finRange n).foldlM (fun acc i => combine call f et acc (x (index1 i))) (start ())
  pure (.scalar et total)

def reduceRows (f : ℕ) (et : ElementType) (n m : ℕ) (a initial : Value) : Option Value := do
  let x ← a.read et [n, m]
  let start ← initial.read et []
  let rows ← collect (fun i : Fin n =>
    (List.finRange m).foldlM (fun acc j => combine call f et acc (x (index2 i j))) (start ()))
  pure (.array et [n] (fun i => rows i.leading))

def WindowDimension.count (window : WindowDimension) (n : ℕ) : ℤ :=
  let extent := fun size dilation : ℕ => if size = 0 then 0 else (size - 1) * dilation + 1
  (extent n window.baseDilation + window.paddingLow + window.paddingHigh -
    extent window.size window.windowDilation) / window.stride + 1

/-- The entry below offset `w` of a window position, unless that is padding. -/
def WindowDimension.source (window : WindowDimension) (n position w : ℕ) : Option (Fin n) :=
  let place : ℤ := position * window.stride + w * window.windowDilation - window.paddingLow
  if 0 ≤ place ∧ place % window.baseDilation = 0 then
    if inside : (place / window.baseDilation).toNat < n then some ⟨_, inside⟩ else none
  else none

def reduceWindows (window : WindowDimension) (f : ℕ) (et : ElementType) (count n : ℕ)
    (a initial : Value) : Option Value :=
  if window.count n = count then do
    let x ← a.read et [n]
    let start ← initial.read et []
    let sums ← collect (fun i : Fin count => (List.range window.size).foldlM (fun acc w =>
      match window.source n i w with
      | some k => combine call f et acc (x (index1 k))
      | none => pure acc) (start ()))
    pure (.array et [count] (fun i => sums i.leading))
  else none

def sortOrder {n : ℕ} (less : Fin n → Fin n → Bool) (i : Fin n) : Fin n :=
  ((List.finRange n).mergeSort (fun a b => !less b a)).getD i i

/-- Two arrays sorted together; the comparator sees the entries of both. -/
def sortPair (comparator n : ℕ) (first second : ElementType) (a b : Value) : Option Value := do
  let x ← a.read first [n]
  let y ← b.read second [n]
  let less ← collect (fun i : Fin n => collect (fun j : Fin n => do
    let v ← call comparator [.scalar first (x (index1 i)), .scalar first (x (index1 j)),
      .scalar second (y (index1 i)), .scalar second (y (index1 j))]
    v.truth))
  pure (.tuple [.array first [n] (fun i => x (index1 (sortOrder less i.leading))),
    .array second [n] (fun i => y (index1 (sortOrder less i.leading)))])

def whileLoop (condition body : ℕ) : ℕ → Value → Option Value
  | 0, _ => none
  | iterations + 1, state => do
    let test ← call condition [state]
    let continues ← test.truth
    if continues then
      let next ← call body [state]
      whileLoop condition body iterations next
    else pure state

end Operations

/-- Meaning of an operation on evaluated operands. Forms that are not listed are `rest`. -/
def evaluateOperation (rest : Opcode → Shape → List Value → Option Value)
    (call : ℕ → List Value → Option Value) (fuel : ℕ) (opcode : Opcode) (shape : Shape)
    (operands args : List Value) : Option Value :=
  match opcode with
  | .parameter number => args[number]?
  | .constant literal => some literal
  | .tuple => some (.tuple operands)
  | .getTupleElement index =>
    match operands with
    | [.tuple elements] => elements[index]?
    | _ => none
  | .while condition body =>
    match operands with
    | [state] => whileLoop call condition body fuel state
    | _ => none
  | .multiply =>
    match shape, operands with
    | .array .s32 dims, [a, b] => binary .s32 (fun x y => BitVec.mul x y) dims a b
    | _, _ => rest opcode shape operands
  | .add =>
    match shape, operands with
    | .array .s32 dims, [a, b] => binary .s32 (fun x y => BitVec.add x y) dims a b
    | _, _ => rest opcode shape operands
  | .or =>
    match shape, operands with
    | .array .pred dims, [a, b] => binary .pred or dims a b
    | _, _ => rest opcode shape operands
  | .compare direction =>
    match shape, operands with
    | .array .pred dims, [.array .s32 dims' x, b] =>
      compareSigned direction dims (.array .s32 dims' x) b
    | _, _ => rest opcode shape operands
  | .select =>
    match shape, operands with
    | .array et dims, [p, a, b] => selectEntries et dims p a b
    | _, _ => none
  | .broadcast dims =>
    match dims, shape, operands with
    | [], .array et dims, [a] => do
      let x ← a.read et []
      pure (.array et dims (fun _ => x ()))
    | _, _, _ => rest opcode shape operands
  | .reshape =>
    match shape, operands with
    | .array et [], [.array et' [1] x] => do
      let x ← (Value.array et' [1] x).read et [1]
      pure (.scalar et (x (index1 ⟨0, Nat.one_pos⟩)))
    | _, _ => rest opcode shape operands
  | .iota dim =>
    match dim, shape with
    | 0, .array .s32 [n] => some (.array .s32 [n] (fun i => BitVec.ofNat 32 i.leading))
    | _, _ => rest opcode shape operands
  | .reduce dims toApply =>
    match dims, shape, operands with
    | [0], .array et [], [.array et' [n] x, initial] =>
      reduceAll call toApply et n (.array et' [n] x) initial
    | [1], .array et [n], [.array et' [n', m] x, initial] =>
      reduceRows call toApply et n m (.array et' [n', m] x) initial
    | _, _, _ => rest opcode shape operands
  | .reduceWindow window toApply =>
    match window, shape, operands with
    | [window], .array et [count], [.array et' [n] x, initial] =>
      reduceWindows call window toApply et count n (.array et' [n] x) initial
    | _, _, _ => rest opcode shape operands
  | .sort dim comparator isStable =>
    match dim, isStable, operands with
    | 0, true, [.array et [n] x, .array et' [n'] y] =>
      sortPair call comparator n et et' (.array et [n] x) (.array et' [n'] y)
    | _, _, _ => rest opcode shape operands
  | _ => rest opcode shape operands

/-! ### Graphs -/

section Evaluation
variable (rest : Opcode → Shape → List Value → Option Value) (m : HloModule)

def evaluate : ℕ → ℕ → List Value → ℕ → Option Value
  | 0, _, _, _ => none
  | fuel + 1, c, args, id => do
    let instruction ← m.instruction c id
    let operands ← instruction.operands.mapM (evaluate fuel c args)
    let value ← evaluateOperation rest (fun f xs => do
        let computation ← m.computations[f]?
        if computation.accepts xs then evaluate fuel f xs computation.root else none)
      fuel instruction.opcode instruction.shape operands args
    if value.shape = instruction.shape then some value else none

def callAt (fuel f : ℕ) (args : List Value) : Option Value := do
  let computation ← m.computations[f]?
  if computation.accepts args then evaluate rest m fuel f args computation.root else none

theorem evaluate_succ (fuel c : ℕ) (args : List Value) (id : ℕ) (instruction : Instruction)
    (found : m.instruction c id = some instruction) : evaluate rest m (fuel + 1) c args id = (do
      let operands ← instruction.operands.mapM (evaluate rest m fuel c args)
      let value ← evaluateOperation rest (callAt rest m fuel) fuel instruction.opcode
        instruction.shape operands args
      if value.shape = instruction.shape then some value else none) := by
  unfold evaluate
  rw [found]
  rfl

/-- With enough fuel the instruction has this value. -/
def Evaluates (c : ℕ) (args : List Value) (id : ℕ) (v : Value) : Prop :=
  ∀ᶠ fuel in atTop, evaluate rest m fuel c args id = some v

def Calls (f : ℕ) (args : List Value) (v : Value) : Prop :=
  ∀ᶠ fuel in atTop, callAt rest m fuel f args = some v

end Evaluation

section Rules
variable {rest : Opcode → Shape → List Value → Option Value} {m : HloModule}

theorem Evaluates.unique {c : ℕ} {args : List Value} {id : ℕ} {v w : Value}
    (first : Evaluates rest m c args id v) (second : Evaluates rest m c args id w) : v = w := by
  obtain ⟨fuel, left, right⟩ := (first.and second).exists
  exact Option.some.inj (left.symm.trans right)

theorem Calls.unique {f : ℕ} {args : List Value} {v w : Value}
    (first : Calls rest m f args v) (second : Calls rest m f args w) : v = w := by
  obtain ⟨fuel, left, right⟩ := (first.and second).exists
  exact Option.some.inj (left.symm.trans right)

theorem eventually_mapM {c : ℕ} {args : List Value} {ids : List ℕ} {vs : List Value}
    (operands : List.Forall₂ (Evaluates rest m c args) ids vs) :
    ∀ᶠ fuel in atTop, ids.mapM (evaluate rest m fuel c args) = some vs := by
  induction operands with
  | nil => exact .of_forall (fun _ => rfl)
  | cons head _ ih =>
    filter_upwards [head, ih] with fuel first others
    rw [List.mapM_cons, first, others]
    rfl

theorem evaluates_of_instruction {c : ℕ} {args : List Value} {id : ℕ} {v : Value} {vs : List Value}
    {instruction : Instruction} (found : m.instruction c id = some instruction)
    (operands : List.Forall₂ (Evaluates rest m c args) instruction.operands vs)
    (operation : ∀ᶠ fuel in atTop, evaluateOperation rest (callAt rest m fuel) fuel
      instruction.opcode instruction.shape vs args = some v)
    (shaped : v.shape = instruction.shape) : Evaluates rest m c args id v := by
  unfold Evaluates
  rw [← map_add_atTop_eq_nat 1, eventually_map]
  filter_upwards [eventually_mapM operands, operation] with fuel values result
  rw [evaluate_succ rest m fuel c args id instruction found, values]
  simp only [Option.bind_eq_bind, Option.bind_some, result, if_pos shaped]

theorem calls_of_root {f : ℕ} {args : List Value} {v : Value} {computation : Computation}
    (found : m.computations[f]? = some computation) (accepted : computation.accepts args = true)
    (root : Evaluates rest m f args computation.root v) : Calls rest m f args v := by
  filter_upwards [root] with fuel value
  unfold callAt
  rw [found]
  simp only [Option.bind_eq_bind, Option.bind_some, if_pos accepted, value]

/-- Operations that call no computation need no fuel. -/
theorem evaluates_of_operation {c : ℕ} {args : List Value} {id : ℕ} {v : Value} {vs : List Value}
    {instruction : Instruction} (found : m.instruction c id = some instruction)
    (operands : List.Forall₂ (Evaluates rest m c args) instruction.operands vs)
    (operation : ∀ call fuel, evaluateOperation rest call fuel instruction.opcode instruction.shape
      vs args = some v) (shaped : v.shape = instruction.shape) : Evaluates rest m c args id v :=
  evaluates_of_instruction found operands (.of_forall (fun _ => operation _ _)) shaped

theorem evaluates_constant {c : ℕ} {args : List Value} {id : ℕ} {literal : Value}
    (found : m.instruction c id =
      some { opcode := .constant literal, shape := literal.shape, operands := [] }) :
    Evaluates rest m c args id literal :=
  evaluates_of_operation found .nil (fun _ _ => rfl) rfl

theorem evaluates_parameter {c : ℕ} {args : List Value} {id number : ℕ} {v : Value}
    (found : m.instruction c id =
      some { opcode := .parameter number, shape := v.shape, operands := [] })
    (argument : args[number]? = some v) : Evaluates rest m c args id v :=
  evaluates_of_operation found .nil (fun _ _ => argument) rfl

theorem evaluates_broadcast {c : ℕ} {args : List Value} {id operand : ℕ} {et : ElementType}
    {dims : List ℕ} {x : et.Carrier}
    (found : m.instruction c id =
      some { opcode := .broadcast [], shape := .array et dims, operands := [operand] })
    (value : Evaluates rest m c args operand (.scalar et x)) :
    Evaluates rest m c args id (.array et dims (fun _ => x)) := by
  refine evaluates_of_operation found (.cons value .nil) (fun _ _ => ?_) rfl
  simp only [evaluateOperation, Value.read_scalar]
  rfl

theorem evaluates_select {c : ℕ} {args : List Value} {id p a b : ℕ} {et : ElementType}
    {dims : List ℕ} {chosen : Index dims → Bool} {x y : Index dims → et.Carrier}
    (found : m.instruction c id =
      some { opcode := .select, shape := .array et dims, operands := [p, a, b] })
    (choice : Evaluates rest m c args p (.array .pred dims chosen))
    (first : Evaluates rest m c args a (.array et dims x))
    (second : Evaluates rest m c args b (.array et dims y)) :
    Evaluates rest m c args id (.array et dims (fun i => if chosen i then x i else y i)) := by
  refine evaluates_of_operation found (.cons choice (.cons first (.cons second .nil)))
    (fun _ _ => ?_) rfl
  simp only [evaluateOperation, selectEntries, Value.read_array]
  rfl

theorem evaluates_getTupleElement {c : ℕ} {args : List Value} {id operand index : ℕ}
    {elements : List Value} {v : Value} (found : m.instruction c id =
      some { opcode := .getTupleElement index, shape := v.shape, operands := [operand] })
    (state : Evaluates rest m c args operand (.tuple elements)) (here : elements[index]? = some v) :
    Evaluates rest m c args id v :=
  evaluates_of_operation found (.cons state .nil) (fun _ _ => here) rfl

theorem exists_of_evaluate {fuel c : ℕ} {args : List Value} {id : ℕ} {v : Value}
    (value : evaluate rest m (fuel + 1) c args id = some v) :
    ∃ instruction vs, m.instruction c id = some instruction ∧
      instruction.operands.mapM (evaluate rest m fuel c args) = some vs ∧
      evaluateOperation rest (callAt rest m fuel) fuel instruction.opcode instruction.shape vs args =
        some v ∧ v.shape = instruction.shape := by
  cases found : m.instruction c id with
  | none =>
    unfold evaluate at value
    rw [found] at value
    cases value
  | some instruction =>
    rw [evaluate_succ rest m fuel c args id instruction found] at value
    obtain ⟨vs, operands, value⟩ := Option.bind_eq_some_iff.mp value
    obtain ⟨w, operation, value⟩ := Option.bind_eq_some_iff.mp value
    split_ifs at value with shaped
    obtain rfl := Option.some.inj value
    exact ⟨instruction, vs, rfl, operands, operation, shaped⟩

theorem forall₂_of_mapM {α β : Type} {f : α → Option β} {xs : List α} {ys : List β}
    (values : xs.mapM f = some ys) : List.Forall₂ (fun x y => f x = some y) xs ys := by
  induction xs generalizing ys with
  | nil =>
    cases values
    exact .nil
  | cons x xs ih =>
    rw [List.mapM_cons] at values
    obtain ⟨y, first, values⟩ := Option.bind_eq_some_iff.mp values
    obtain ⟨others, remaining, values⟩ := Option.bind_eq_some_iff.mp values
    cases values
    exact .cons first (ih remaining)

theorem forall₂_getElem? {α β : Type} {R : α → β → Prop} {xs : List α} {ys : List β}
    (related : List.Forall₂ R xs ys) {k : ℕ} {x : α} {y : β} (left : xs[k]? = some x)
    (right : ys[k]? = some y) : R x y := by
  obtain ⟨inside, rfl⟩ := List.getElem?_eq_some_iff.mp left
  obtain ⟨inside', rfl⟩ := List.getElem?_eq_some_iff.mp right
  exact related.get inside inside'

theorem exists_of_forall₂ {α β : Type} {R : α → β → Prop} {xs : List α} {ys : List β}
    (related : List.Forall₂ R xs ys) {x : α} (member : x ∈ xs) : ∃ y, R x y := by
  obtain ⟨k, inside, rfl⟩ := List.getElem_of_mem member
  exact ⟨_, related.get inside (related.length_eq ▸ inside)⟩

theorem operands_of_evaluate {fuel c : ℕ} {args : List Value} {id : ℕ} {v : Value}
    {instruction : Instruction} (found : m.instruction c id = some instruction)
    (value : evaluate rest m fuel c args id = some v) : ∃ k vs,
      List.Forall₂ (fun operand w => evaluate rest m k c args operand = some w)
        instruction.operands vs ∧
      evaluateOperation rest (callAt rest m k) k instruction.opcode instruction.shape vs args =
        some v := by
  cases fuel with
  | zero => cases value
  | succ k =>
    obtain ⟨other, vs, same, operands, operation, _⟩ := exists_of_evaluate value
    obtain rfl := Option.some.inj (found.symm.trans same)
    exact ⟨k, vs, forall₂_of_mapM operands, operation⟩

theorem shape_of_evaluate {fuel c : ℕ} {args : List Value} {id : ℕ} {v : Value}
    {instruction : Instruction} (found : m.instruction c id = some instruction)
    (value : evaluate rest m fuel c args id = some v) : v.shape = instruction.shape := by
  cases fuel with
  | zero => cases value
  | succ fuel =>
    obtain ⟨other, _, same, _, _, shaped⟩ := exists_of_evaluate value
    rw [found] at same
    rw [shaped, Option.some.inj same]

theorem Evaluates.shape {c : ℕ} {args : List Value} {id : ℕ} {v : Value}
    {instruction : Instruction} (found : m.instruction c id = some instruction)
    (value : Evaluates rest m c args id v) : v.shape = instruction.shape := by
  obtain ⟨fuel, defined⟩ := value.exists
  exact shape_of_evaluate found defined

theorem shape_of_callAt {fuel f : ℕ} {args : List Value} {v : Value} {id number : ℕ}
    {instruction : Instruction} (value : callAt rest m fuel f args = some v)
    (found : m.instruction f id = some instruction)
    (parameter : instruction.opcode = .parameter number) :
    args[number]?.map Value.shape = some instruction.shape := by
  obtain ⟨computation, here, value⟩ := Option.bind_eq_some_iff.mp value
  rw [instruction_eq here] at found
  split_ifs at value with accepted
  have check := List.all_eq_true.mp accepted instruction (List.mem_of_getElem? found)
  simp only [parameter, decide_eq_true_eq] at check
  exact check

end Rules

section Folds
variable {rest : Opcode → Shape → List Value → Option Value} {m : HloModule}

theorem eventually_foldlM {α β : Type} {step : ℕ → β → α → Option β} {op : β → α → β}
    (steps : ∀ acc a, ∀ᶠ fuel in atTop, step fuel acc a = some (op acc a)) (entries : List α)
    (start : β) : ∀ᶠ fuel in atTop, entries.foldlM (step fuel) start = some (entries.foldl op start) := by
  induction entries generalizing start with
  | nil => exact .of_forall (fun _ => rfl)
  | cons a entries ih =>
    filter_upwards [steps start a, ih (op start a)] with fuel first others
    rw [List.foldlM_cons, first, List.foldl_cons]
    exact others

theorem eventually_collect {α : Type} {n : ℕ} {f : ℕ → Fin n → Option α} {x : Fin n → α}
    (entries : ∀ i, ∀ᶠ fuel in atTop, f fuel i = some (x i)) :
    ∀ᶠ fuel in atTop, collect (f fuel) = some x := by
  filter_upwards [eventually_all.mpr entries] with fuel defined
  exact collect_some _ _ defined

def Combines (rest : Opcode → Shape → List Value → Option Value) (m : HloModule) (f : ℕ)
    (et : ElementType) (op : et.Carrier → et.Carrier → et.Carrier) : Prop :=
  ∀ x y, Calls rest m f [.scalar et x, .scalar et y] (.scalar et (op x y))

theorem Combines.eventually {f : ℕ} {et : ElementType} {op : et.Carrier → et.Carrier → et.Carrier}
    (combines : Combines rest m f et op) (x y : et.Carrier) :
    ∀ᶠ fuel in atTop, combine (callAt rest m fuel) f et x y = some (op x y) := by
  filter_upwards [combines x y] with fuel value
  unfold combine
  rw [value]
  simp only [Option.bind_eq_bind, Option.bind_some, Value.read_scalar]
  rfl

theorem combines_of_computation {f : ℕ} {et : ElementType} {opcode : Opcode}
    {op : et.Carrier → et.Carrier → et.Carrier} {computation : Computation}
    (found : m.computations[f]? = some computation)
    (listing : computation.instructions =
      [{ opcode := .parameter 0, shape := .array et [], operands := [] },
        { opcode := .parameter 1, shape := .array et [], operands := [] },
        { opcode := opcode, shape := .array et [], operands := [0, 1] }])
    (root : computation.root = 2) (other : ∀ number, opcode ≠ .parameter number)
    (operation : ∀ call fuel x y args, evaluateOperation rest call fuel opcode (.array et [])
      [.scalar et x, .scalar et y] args = some (.scalar et (op x y))) :
    Combines rest m f et op := by
  intro x y
  have here (id : ℕ) : m.instruction f id = computation.instructions[id]? := instruction_eq found id
  have first : Evaluates rest m f [.scalar et x, .scalar et y] 0 (.scalar et x) :=
    evaluates_parameter ((here 0).trans (by rw [listing]; rfl)) rfl
  have second : Evaluates rest m f [.scalar et x, .scalar et y] 1 (.scalar et y) :=
    evaluates_parameter ((here 1).trans (by rw [listing]; rfl)) rfl
  have accepted : computation.accepts [.scalar et x, .scalar et y] = true := by
    unfold Computation.accepts
    rw [listing]
    cases opcode with
    | parameter number => exact absurd rfl (other number)
    | _ => simp [Value.scalar, Value.shape]
  apply calls_of_root found accepted
  rw [root]
  exact evaluates_of_operation ((here 2).trans (by rw [listing]; rfl))
    (.cons first (.cons second .nil)) (fun call fuel => operation call fuel x y _) rfl

variable {f : ℕ} {et : ElementType} {op : et.Carrier → et.Carrier → et.Carrier}
  (combines : Combines rest m f et op)
include combines

theorem eventually_reduceAll (n : ℕ) (x : Index [n] → et.Carrier) (start : et.Carrier) :
    ∀ᶠ fuel in atTop, reduceAll (callAt rest m fuel) f et n (.array et [n] x) (.scalar et start) =
      some (.scalar et ((List.finRange n).foldl (fun acc i => op acc (x (index1 i))) start)) := by
  filter_upwards [eventually_foldlM (fun acc i => combines.eventually acc (x (index1 i)))
    (List.finRange n) start] with fuel total
  unfold reduceAll
  simp only [Value.read_array, Value.read_scalar, Option.bind_eq_bind, Option.bind_some, total]
  rfl

theorem eventually_reduceRows (n m' : ℕ) (x : Index [n, m'] → et.Carrier) (start : et.Carrier) :
    ∀ᶠ fuel in atTop,
      reduceRows (callAt rest m fuel) f et n m' (.array et [n, m'] x) (.scalar et start) =
        some (.array et [n] (fun i =>
          (List.finRange m').foldl (fun acc j => op acc (x (index2 i.leading j))) start)) := by
  filter_upwards [eventually_collect (fun i : Fin n => eventually_foldlM
    (fun acc j => combines.eventually acc (x (index2 i j))) (List.finRange m') start)] with fuel rows
  unfold reduceRows
  simp only [Value.read_array, Value.read_scalar, Option.bind_eq_bind, Option.bind_some, rows]
  rfl

theorem eventually_reduceWindows (window : WindowDimension) (count n : ℕ)
    (positions : window.count n = count) (x : Index [n] → et.Carrier) (start : et.Carrier) :
    ∀ᶠ fuel in atTop, reduceWindows (callAt rest m fuel) window f et count n (.array et [n] x)
        (.scalar et start) = some (.array et [count] (fun i => (List.range window.size).foldl
          (fun acc w => match window.source n i.leading w with
            | some k => op acc (x (index1 k))
            | none => acc) start)) := by
  have steps (i : Fin count) (acc : et.Carrier) (w : ℕ) : ∀ᶠ fuel in atTop,
      (match window.source n i w with
        | some k => combine (callAt rest m fuel) f et acc (x (index1 k))
        | none => pure acc) = some (match window.source n i w with
        | some k => op acc (x (index1 k))
        | none => acc) := by
    cases window.source n i w with
    | none => exact .of_forall (fun _ => rfl)
    | some k => exact combines.eventually acc (x (index1 k))
  filter_upwards [eventually_collect (fun i : Fin count =>
    eventually_foldlM (steps i) (List.range window.size) start)] with fuel sums
  unfold reduceWindows
  rw [if_pos positions]
  simp only [Value.read_array, Value.read_scalar, Option.bind_eq_bind, Option.bind_some]
  rw [sums]
  rfl

end Folds

section Sorting
variable {rest : Opcode → Shape → List Value → Option Value} {m : HloModule}

theorem eventually_sortPair (comparator n : ℕ) (first second : ElementType)
    (less : first.Carrier → first.Carrier → Bool)
    (compares : ∀ x x' y y', Calls rest m comparator [.scalar first x, .scalar first x',
      .scalar second y, .scalar second y'] (.scalar .pred (less x x')))
    (x : Index [n] → first.Carrier) (y : Index [n] → second.Carrier) :
    let order := sortOrder (fun i j : Fin n => less (x (index1 i)) (x (index1 j)))
    ∀ᶠ fuel in atTop, sortPair (callAt rest m fuel) comparator n first second (.array first [n] x)
        (.array second [n] y) = some (.tuple [.array first [n] (fun i => x (index1 (order i.leading))),
          .array second [n] (fun i => y (index1 (order i.leading)))]) := by
  intro order
  have tests (i j : Fin n) : ∀ᶠ fuel in atTop, (do
      let v ← callAt rest m fuel comparator [.scalar first (x (index1 i)),
        .scalar first (x (index1 j)), .scalar second (y (index1 i)), .scalar second (y (index1 j))]
      v.truth) = some (less (x (index1 i)) (x (index1 j))) := by
    filter_upwards [compares (x (index1 i)) (x (index1 j)) (y (index1 i)) (y (index1 j))]
      with fuel value
    rw [value]
    exact Value.truth_scalar _
  filter_upwards [eventually_collect (fun i => eventually_collect (tests i))] with fuel table
  unfold sortPair
  simp only [Value.read_array, Option.bind_eq_bind, Option.bind_some] at table ⊢
  rw [table]
  rfl

end Sorting

/-! ### Loops -/

section Loops
variable (rest : Opcode → Shape → List Value → Option Value) (m : HloModule)

/-- A loop that ends, with the states in which its body is called. -/
inductive LoopRun (condition body : ℕ) : Value → List Value → Prop
  | stop (state : Value) (test : Calls rest m condition [state] (.scalar .pred false)) :
    LoopRun condition body state []
  | step (state next : Value) (states : List Value)
    (test : Calls rest m condition [state] (.scalar .pred true))
    (iteration : Calls rest m body [state] next) (others : LoopRun condition body next states) :
    LoopRun condition body state (state :: states)

end Loops

section Counted
variable {rest : Opcode → Shape → List Value → Option Value} {m : HloModule} {condition body : ℕ}
  {remains : ℕ → Value → Prop}
  (test : ∀ k state v, remains k state → Calls rest m condition [state] v →
    v = .scalar .pred (decide (0 < k)))
  (iteration : ∀ k state next, remains (k + 1) state → Calls rest m body [state] next →
    remains k next)
include test iteration

theorem LoopRun.length_eq {k : ℕ} {state : Value} {states : List Value} (start : remains k state)
    (run : LoopRun rest m condition body state states) : states.length = k := by
  induction run generalizing k with
  | stop state ended =>
    have same := congrArg Value.truth (test k state _ start ended)
    rw [Value.truth_scalar, Value.truth_scalar] at same
    exact (Nat.eq_zero_of_not_pos (decide_eq_false_iff_not.mp (Option.some.inj same).symm)).symm
  | step state next states continues called _ ih =>
    have same := congrArg Value.truth (test k state _ start continues)
    rw [Value.truth_scalar, Value.truth_scalar] at same
    obtain ⟨k, rfl⟩ := Nat.exists_eq_succ_of_ne_zero
      (decide_eq_true_eq.mp (Option.some.inj same).symm).ne'
    rw [List.length_cons, ih (iteration k state next start called)]

theorem LoopRun.exists_of_returns
    (returns : ∀ k state, remains k state → (∃ v, Calls rest m condition [state] v) ∧
      ∃ next, Calls rest m body [state] next) {k : ℕ} {state : Value} (start : remains k state) :
    ∃ states, LoopRun rest m condition body state states := by
  induction k generalizing state with
  | zero =>
    obtain ⟨⟨v, tested⟩, _⟩ := returns 0 state start
    obtain rfl := test 0 state v start tested
    exact ⟨[], .stop state tested⟩
  | succ k ih =>
    obtain ⟨⟨v, tested⟩, next, called⟩ := returns (k + 1) state start
    rw [test (k + 1) state v start tested, decide_eq_true k.succ_pos] at tested
    obtain ⟨states, others⟩ := ih (iteration k state next start called)
    exact ⟨state :: states, .step state next states tested called others⟩

end Counted

end OrthoCache.Foundation.Hlo
