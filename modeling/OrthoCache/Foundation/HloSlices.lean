import OrthoCache.Foundation.HloVerifier

/-!
What the value of an instruction depends on: its operands, the roots of the computations that it
calls, and what these depend on in turn. Two modules that agree on this slice give the instruction
the same value with the same fuel. An edit of one computation changes the values that the edited
instructions feed, and no others.
-/

namespace OrthoCache.Foundation.Hlo

/-! ### Called computations -/

def Opcode.called : Opcode → List ℕ
  | .while condition body => [condition, body]
  | .reduce _ toApply => [toApply]
  | .reduceWindow _ toApply => [toApply]
  | .sort _ comparator _ => [comparator]
  | _ => []

section Operations
variable {call call' : ℕ → List Value → Option Value}

theorem combine_congr {f : ℕ} (same : call f = call' f) (et : ElementType) :
    combine call f et = combine call' f et := by
  funext x y
  simp only [combine, same]

theorem whileLoop_congr {condition body : ℕ} (tests : call condition = call' condition)
    (iterations : call body = call' body) (fuel : ℕ) (state : Value) :
    whileLoop call condition body fuel state = whileLoop call' condition body fuel state := by
  induction fuel generalizing state with
  | zero => rfl
  | succ fuel ih => simp only [whileLoop, tests, iterations, ih]

theorem reduceAll_congr {f : ℕ} (same : call f = call' f) (et : ElementType) (n : ℕ) :
    reduceAll call f et n = reduceAll call' f et n := by
  funext a initial
  simp only [reduceAll, combine_congr same]

theorem reduceRows_congr {f : ℕ} (same : call f = call' f) (et : ElementType) (n k : ℕ) :
    reduceRows call f et n k = reduceRows call' f et n k := by
  funext a initial
  simp only [reduceRows, combine_congr same]

theorem reduceWindows_congr {f : ℕ} (same : call f = call' f) (window : WindowDimension)
    (et : ElementType) (count n : ℕ) :
    reduceWindows call window f et count n = reduceWindows call' window f et count n := by
  funext a initial
  simp only [reduceWindows, combine_congr same]

theorem sortPair_congr {comparator : ℕ} (same : call comparator = call' comparator) (n : ℕ)
    (first second : ElementType) :
    sortPair call comparator n first second = sortPair call' comparator n first second := by
  funext a b
  simp only [sortPair, same]

theorem evaluateOperation_congr (rest : Opcode → Shape → List Value → Option Value) (fuel : ℕ)
    {opcode : Opcode} (same : ∀ f ∈ opcode.called, call f = call' f) (shape : Shape)
    (operands args : List Value) :
    evaluateOperation rest call fuel opcode shape operands args =
      evaluateOperation rest call' fuel opcode shape operands args := by
  cases opcode with
  | «while» condition body =>
    have tests := same condition (by simp [Opcode.called])
    have iterations := same body (by simp [Opcode.called])
    simp only [evaluateOperation, whileLoop_congr tests iterations]
  | reduce dims toApply =>
    have applied := same toApply (by simp [Opcode.called])
    simp only [evaluateOperation, reduceAll_congr applied, reduceRows_congr applied]
  | reduceWindow window toApply =>
    have applied := same toApply (by simp [Opcode.called])
    simp only [evaluateOperation, reduceWindows_congr applied]
  | sort dim comparator isStable =>
    have applied := same comparator (by simp [Opcode.called])
    simp only [evaluateOperation, sortPair_congr applied]
  | _ => simp only [evaluateOperation]

end Operations

/-! ### Slices -/

/-- The first instruction reads the second one, or calls a computation with that root. -/
inductive Needs (m : HloModule) : ℕ × ℕ → ℕ × ℕ → Prop
  | operand {c id operand : ℕ} {instruction : Instruction}
      (found : m.instruction c id = some instruction) (member : operand ∈ instruction.operands) :
      Needs m (c, id) (c, operand)
  | root {c id f : ℕ} {instruction : Instruction} {computation : Computation}
      (found : m.instruction c id = some instruction) (called : f ∈ instruction.opcode.called)
      (there : m.computations[f]? = some computation) : Needs m (c, id) (f, computation.root)

/-- All instructions that the value of an instruction depends on. -/
def slice (m : HloModule) (site : ℕ × ℕ) : Set (ℕ × ℕ) := {s | Relation.ReflTransGen (Needs m) site s}

theorem mem_slice_self (m : HloModule) (site : ℕ × ℕ) : site ∈ slice m site := .refl

theorem slice_subset {m : HloModule} {site s : ℕ × ℕ} (needs : Needs m site s) :
    slice m s ⊆ slice m site := fun _ reached => .head needs reached

structure SameEntry (old new : Computation) : Prop where
  root : new.root = old.root
  accepts : ∀ args, new.accepts args = old.accepts args

/-- The modules agree on an instruction and on how the computations that it calls are entered. -/
structure AgreeAt (m m' : HloModule) (site : ℕ × ℕ) : Prop where
  instruction : m'.instruction site.1 site.2 = m.instruction site.1 site.2
  entry : ∀ instruction, m.instruction site.1 site.2 = some instruction →
    ∀ f ∈ instruction.opcode.called, ∃ old new, m.computations[f]? = some old ∧
      m'.computations[f]? = some new ∧ SameEntry old new

theorem mapM_congr {α β : Type} {g h : α → Option β} (entries : List α)
    (same : ∀ a ∈ entries, g a = h a) : entries.mapM g = entries.mapM h := by
  induction entries with
  | nil => rfl
  | cons a entries ih =>
    rw [List.mapM_cons, List.mapM_cons, same a List.mem_cons_self,
      ih (fun b member => same b (List.mem_cons_of_mem a member))]

section Evaluation
variable (rest : Opcode → Shape → List Value → Option Value) {m m' : HloModule}

theorem evaluate_of_none (fuel c : ℕ) (args : List Value) (id : ℕ)
    (missing : m.instruction c id = none) : evaluate rest m (fuel + 1) c args id = none := by
  unfold evaluate
  rw [missing]
  rfl

theorem callAt_eq_of_entry {fuel f : ℕ} {old new : Computation}
    (before : m.computations[f]? = some old) (after : m'.computations[f]? = some new)
    (entry : SameEntry old new) (root : ∀ args,
      evaluate rest m' fuel f args old.root = evaluate rest m fuel f args old.root) :
    callAt rest m' fuel f = callAt rest m fuel f := by
  funext args
  simp only [callAt, before, after, Option.bind_eq_bind, Option.bind_some, entry.accepts, entry.root,
    root]

/-- An instruction has the same value in modules that agree on its slice. -/
theorem evaluate_eq_of_agree {c id : ℕ} (agree : ∀ site ∈ slice m (c, id), AgreeAt m m' site)
    (fuel : ℕ) (args : List Value) :
    evaluate rest m' fuel c args id = evaluate rest m fuel c args id := by
  induction fuel generalizing c id args with
  | zero => rfl
  | succ fuel ih =>
    have here := agree _ (mem_slice_self m (c, id))
    cases found : m.instruction c id with
    | none =>
      have gone : m'.instruction c id = none := here.instruction.trans found
      rw [evaluate_of_none rest fuel c args id found, evaluate_of_none rest fuel c args id gone]
    | some instruction =>
      have found' : m'.instruction c id = some instruction := here.instruction.trans found
      rw [evaluate_succ rest m fuel c args id instruction found,
        evaluate_succ rest m' fuel c args id instruction found',
        mapM_congr instruction.operands (fun operand member => ih (fun site inside =>
          agree site (slice_subset (.operand found member) inside)) args)]
      have calls : ∀ f ∈ instruction.opcode.called, callAt rest m' fuel f = callAt rest m fuel f := by
        intro f called
        obtain ⟨old, new, before, after, entry⟩ := here.entry instruction found f called
        exact callAt_eq_of_entry rest before after entry (fun args => ih (fun site inside =>
          agree site (slice_subset (.root found called before) inside)) args)
      simp only [evaluateOperation_congr rest fuel calls]

end Evaluation

theorem slice_found {m : HloModule} (verified : m.Verified) {c id : ℕ} {instruction : Instruction}
    (found : m.instruction c id = some instruction) {site : ℕ × ℕ} (member : site ∈ slice m (c, id)) :
    ∃ used, m.instruction site.1 site.2 = some used := by
  induction member with
  | refl => exact ⟨instruction, found⟩
  | tail _ needs _ =>
    cases needs with
    | operand here member =>
      obtain ⟨k, at_k⟩ := List.mem_iff_getElem?.mp member
      exact operand_of_operandsFit (verified.fits _ _ _ here) at_k
    | root _ _ there => exact verified.root _ _ there

/-! ### Call graphs -/

def Resolved (m : HloModule) : Prop :=
  ∀ c id instruction, m.instruction c id = some instruction →
    ∀ f ∈ instruction.opcode.called, f < m.computations.length

def NonRecursive (m : HloModule) : Prop :=
  ∃ level : ℕ → ℕ, ∀ c id instruction, m.instruction c id = some instruction →
    ∀ f ∈ instruction.opcode.called, level f < level c

def calledInside (m : HloModule) : Bool :=
  m.computations.all fun computation => computation.instructions.all fun instruction =>
    instruction.opcode.called.all fun f => f < m.computations.length

def calledBefore (m : HloModule) : Bool :=
  m.computations.zipIdx.all fun entry => entry.1.instructions.all fun instruction =>
    instruction.opcode.called.all fun f => f < entry.2

theorem resolved_of_calledInside {m : HloModule} (checked : calledInside m = true) : Resolved m := by
  intro c id instruction found f called
  obtain ⟨computation, there, here⟩ := Option.bind_eq_some_iff.mp found
  have all := List.all_eq_true.mp checked computation (List.mem_of_getElem? there)
  have inside := List.all_eq_true.mp all instruction (List.mem_of_getElem? here)
  exact decide_eq_true_eq.mp (List.all_eq_true.mp inside f called)

theorem nonRecursive_of_calledBefore {m : HloModule} (checked : calledBefore m = true) :
    NonRecursive m := by
  refine ⟨id, fun c k instruction found f called => ?_⟩
  obtain ⟨computation, there, here⟩ := Option.bind_eq_some_iff.mp found
  have all := List.all_eq_true.mp checked _ (List.mk_mem_zipIdx_iff_getElem?.mpr there)
  have before := List.all_eq_true.mp all instruction (List.mem_of_getElem? here)
  exact decide_eq_true_eq.mp (List.all_eq_true.mp before f called)

/-! ### Edits of one computation -/

/-- The first instruction is used, directly or not, by the second one. -/
inductive Feeds (m : HloModule) (c : ℕ) : ℕ → ℕ → Prop
  | here (id : ℕ) : Feeds m c id id
  | step (id user last : ℕ) (instruction : Instruction)
    (found : m.instruction c user = some instruction) (operand : id ∈ instruction.operands)
    (others : Feeds m c user last) : Feeds m c id last

/-- Without recursion a slice returns to the computation that it starts in by operands only. -/
theorem slice_cases {m : HloModule} {level : ℕ → ℕ}
    (descends : ∀ c id instruction, m.instruction c id = some instruction →
      ∀ f ∈ instruction.opcode.called, level f < level c)
    {c id : ℕ} {s : ℕ × ℕ} (member : s ∈ slice m (c, id)) :
    s.1 = c ∧ Feeds m c s.2 id ∨ level s.1 < level c := by
  induction member with
  | refl => exact .inl ⟨rfl, .here id⟩
  | tail _ needs ih =>
    cases needs with
    | operand found member =>
      rcases ih with ⟨rfl, feeds⟩ | below
      · exact .inl ⟨rfl, .step _ _ _ _ found member feeds⟩
      · exact .inr below
    | root found called _ =>
      have lower := descends _ _ _ found _ called
      rcases ih with ⟨same, _⟩ | below
      · exact .inr (same ▸ lower)
      · exact .inr (lower.trans below)

section Values
variable (rest : Opcode → Shape → List Value → Option Value) {m m' : HloModule}

/-- An instruction keeps its value when one computation is edited, if what feeds it is kept. -/
theorem evaluate_eq_of_feeders (nonRecursive : NonRecursive m) (resolved : Resolved m) {c id : ℕ}
    (others : ∀ f, f ≠ c → m'.computations[f]? = m.computations[f]?)
    (same : ∀ k, Feeds m c k id → m'.instruction c k = m.instruction c k) (fuel : ℕ)
    (args : List Value) : evaluate rest m' fuel c args id = evaluate rest m fuel c args id := by
  obtain ⟨level, descends⟩ := nonRecursive
  refine evaluate_eq_of_agree rest (fun site member => ?_) fuel args
  have cases := slice_cases descends member
  constructor
  · rcases cases with ⟨here, feeds⟩ | below
    · rw [here]
      exact same site.2 feeds
    · have elsewhere : site.1 ≠ c := fun here => below.ne (congrArg level here)
      simp only [HloModule.instruction, others site.1 elsewhere]
  · intro instruction found f called
    have lower := descends _ _ _ found f called
    have elsewhere : f ≠ c := by
      rintro rfl
      rcases cases with ⟨here, _⟩ | below
      · rw [here] at lower
        exact lower.false
      · exact (lower.trans below).false
    have inside := List.getElem?_eq_getElem (resolved _ _ _ found f called)
    exact ⟨_, _, inside, (others f elsewhere).trans inside, rfl, fun _ => rfl⟩

theorem evaluate_none_of_operand {c id operand : ℕ} {args : List Value} {instruction : Instruction}
    (found : m.instruction c id = some instruction) (member : operand ∈ instruction.operands)
    (undefined : ∀ fuel, evaluate rest m fuel c args operand = none) (fuel : ℕ) :
    evaluate rest m fuel c args id = none := by
  cases value : evaluate rest m fuel c args id with
  | none => rfl
  | some v =>
    obtain ⟨k, vs, operands, _⟩ := operands_of_evaluate found value
    obtain ⟨w, defined⟩ := exists_of_forall₂ operands member
    cases (undefined k).symm.trans defined

theorem evaluate_none_of_feeds {c id last : ℕ} {args : List Value} (feeds : Feeds m c id last)
    (undefined : ∀ fuel, evaluate rest m fuel c args id = none) (fuel : ℕ) :
    evaluate rest m fuel c args last = none := by
  induction feeds generalizing fuel with
  | here id => exact undefined fuel
  | step id user last instruction found operand others ih =>
    exact ih (fun fuel => evaluate_none_of_operand rest found operand undefined fuel) fuel

end Values

end OrthoCache.Foundation.Hlo
