import Mathlib

/-!
Device programs that meet in collective operations. In every round a device contributes an operand
and waits until all devices have contributed to that round. Devices take their steps in any order,
and one device may be a round ahead of another. If the devices agree on the operation of every
round, no order of their steps gets stuck or changes a result.
-/

namespace OrthoCache.Foundation.Spmd
open Finset

universe u

/-- Collective operations of `P` devices: what a device contributes and what it receives. -/
structure Collectives (P : ℕ) where
  Op : Type u
  Operand : Op → Type
  Result : Op → Type
  deliver : (op : Op) → (Fin P → Operand op) → Fin P → Result op

variable {P : ℕ} {C : Collectives.{u} P} {α β : Type}

/-! ### Programs -/

/-- The program of one device: local computation between collective operations. -/
inductive Program (C : Collectives.{u} P) (α : Type) : Type u
  | done (value : α)
  | collective (op : C.Op) (operand : C.Operand op) (next : C.Result op → Program C α)

def Program.bind : Program C α → (α → Program C β) → Program C β
  | .done value, rest => rest value
  | .collective op operand next, rest =>
    .collective op operand (fun result => (next result).bind rest)

instance : Monad (Program C) where
  pure := .done
  bind := .bind

def call (op : C.Op) (operand : C.Operand op) : Program C (C.Result op) :=
  .collective op operand .done

structure Contribution (C : Collectives.{u} P) where
  op : C.Op
  operand : C.Operand op

def Program.contribution : Program C α → Option (Contribution C)
  | .done _ => none
  | .collective op operand _ => some ⟨op, operand⟩

/-! ### Runs -/

/-- The rest of every device's program, what it contributed so far, oldest first, and the number of
rounds whose result it has received. -/
structure State (C : Collectives.{u} P) (α : Type) where
  program : Fin P → Program C α
  posted : Fin P → List (Contribution C)
  received : Fin P → ℕ

namespace State

def initial (programs : Fin P → Program C α) : State C α :=
  { program := programs, posted := fun _ => [], received := fun _ => 0 }

def contribute (s : State C α) (p : Fin P) (x : Contribution C) : State C α :=
  { s with posted := Function.update s.posted p (s.posted p ++ [x]) }

def receive (s : State C α) (p : Fin P) (rest : Program C α) : State C α :=
  { s with
    program := Function.update s.program p rest
    received := Function.update s.received p (s.received p + 1) }

section Updates
variable (s : State C α) (p : Fin P) (x : Contribution C) (rest : Program C α)

@[simp] theorem contribute_posted : (s.contribute p x).posted p = s.posted p ++ [x] :=
  Function.update_self p _ _

theorem contribute_posted_of_ne {q : Fin P} (other : q ≠ p) :
    (s.contribute p x).posted q = s.posted q := Function.update_of_ne other _ _

@[simp] theorem contribute_program : (s.contribute p x).program = s.program := rfl

@[simp] theorem contribute_received : (s.contribute p x).received = s.received := rfl

@[simp] theorem receive_program : (s.receive p rest).program p = rest := Function.update_self p _ _

theorem receive_program_of_ne {q : Fin P} (other : q ≠ p) :
    (s.receive p rest).program q = s.program q := Function.update_of_ne other _ _

@[simp] theorem receive_received : (s.receive p rest).received p = s.received p + 1 :=
  Function.update_self p _ _

theorem receive_received_of_ne {q : Fin P} (other : q ≠ p) :
    (s.receive p rest).received q = s.received q := Function.update_of_ne other _ _

@[simp] theorem receive_posted : (s.receive p rest).posted = s.posted := rfl

end Updates

end State

/-- One device contributes to its next round, or receives the result of the round it waits in once
every device has contributed to that round. -/
inductive Step (s : State C α) : State C α → Prop
  | contribute (p : Fin P) (op : C.Op) (operand : C.Operand op) (next : C.Result op → Program C α)
      (here : s.program p = .collective op operand next)
      (running : (s.posted p).length = s.received p) : Step s (s.contribute p ⟨op, operand⟩)
  | receive (p : Fin P) (op : C.Op) (operand : C.Operand op) (next : C.Result op → Program C α)
      (here : s.program p = .collective op operand next)
      (waiting : (s.posted p).length = s.received p + 1) (operands : Fin P → C.Operand op)
      (complete : ∀ q, (s.posted q)[s.received p]? = some ⟨op, operands q⟩) :
      Step s (s.receive p (next (C.deliver op operands p)))

inductive Run (first : State C α) : ℕ → State C α → Prop
  | start : Run first 0 first
  | step {n : ℕ} {s s' : State C α} (run : Run first n s) (next : Step s s') : Run first (n + 1) s'

namespace State

def Matched (s : State C α) : Prop :=
  ∀ (p q : Fin P) (r : ℕ) (x y : Contribution C), (s.posted p)[r]? = some x →
    (s.posted q)[r]? = some y → x.op = y.op

def Finished (s : State C α) : Prop := ∀ p, ∃ value, s.program p = .done value

end State

/-! ### Lockstep -/

/-- Round by round, all devices call the same operation; at the end they hold `values`. -/
inductive Lockstep : (Fin P → Program C α) → List C.Op → (Fin P → α) → Prop
  | done (values : Fin P → α) : Lockstep (fun p => .done (values p)) [] values
  | round (op : C.Op) (operands : Fin P → C.Operand op) (next : Fin P → C.Result op → Program C α)
      {ops : List C.Op} {values : Fin P → α}
      (rest : Lockstep (fun p => next p (C.deliver op operands p)) ops values) :
      Lockstep (fun p => .collective op (operands p) (next p)) (op :: ops) values

theorem Lockstep.ended {programs : Fin P → Program C α} {values : Fin P → α}
    (done : ∀ p, programs p = .done (values p)) : Lockstep programs [] values := by
  rw [funext done]
  exact .done values

structure Schedule (programs : Fin P → Program C α) (ops : List C.Op) (values : Fin P → α)
    (before : ℕ → Fin P → Program C α) : Prop where
  first : before 0 = programs
  round : ∀ r op, ops[r]? = some op → ∃ (operands : Fin P → C.Operand op)
    (next : Fin P → C.Result op → Program C α), ∀ p,
      before r p = .collective op (operands p) (next p) ∧
        before (r + 1) p = next p (C.deliver op operands p)
  last : ∀ p, before ops.length p = .done (values p)

theorem Lockstep.schedule {programs : Fin P → Program C α} {ops : List C.Op} {values : Fin P → α}
    (lockstep : Lockstep programs ops values) : ∃ before, Schedule programs ops values before := by
  induction lockstep with
  | done values => exact ⟨fun _ p => .done (values p), rfl, by simp, fun _ => rfl⟩
  | round op operands next _ ih =>
    obtain ⟨later, schedule⟩ := ih
    refine ⟨fun r => r.casesOn (fun p => .collective op (operands p) (next p)) later, rfl, ?_,
      schedule.last⟩
    intro r op' there
    cases r with
    | zero =>
      obtain rfl := Option.some.inj there
      exact ⟨operands, next, fun p => ⟨rfl, congrFun schedule.first p⟩⟩
    | succ r => exact schedule.round r op' there

/-! ### Any order of steps -/

/-- A state that devices reach in some order when they would follow `before` in lockstep. -/
structure Consistent (ops : List C.Op) (before : ℕ → Fin P → Program C α) (s : State C α) : Prop where
  program : ∀ p, s.program p = before (s.received p) p
  posted : ∀ p r, r < (s.posted p).length → (s.posted p)[r]? = (before r p).contribution
  phase : ∀ p, (s.posted p).length = s.received p ∨ (s.posted p).length = s.received p + 1
  length : ∀ p, (s.posted p).length ≤ ops.length
  together : ∀ p q, s.received p ≤ (s.posted q).length

section Orders
variable {programs : Fin P → Program C α} {ops : List C.Op} {values : Fin P → α}
  {before : ℕ → Fin P → Program C α} (schedule : Schedule programs ops values before)
  {s s' : State C α}
include schedule

theorem Schedule.collective {r : ℕ} {p : Fin P} {op : C.Op} {operand : C.Operand op}
    {next : C.Result op → Program C α} (within : r ≤ ops.length)
    (here : before r p = .collective op operand next) : ops[r]? = some op := by
  rcases within.eq_or_lt with rfl | inside
  · cases (schedule.last p).symm.trans here
  · have there := List.getElem?_eq_getElem inside
    obtain ⟨operands, _, together⟩ := schedule.round r _ there
    cases (together p).1.symm.trans here
    exact there

theorem consistent_initial : Consistent ops before (.initial programs) where
  program p := by rw [← schedule.first]; rfl
  posted _ r inside := absurd inside (Nat.not_lt_zero r)
  phase _ := .inl rfl
  length _ := Nat.zero_le _
  together _ _ := Nat.zero_le _

theorem Consistent.contribute (consistent : Consistent ops before s) {p : Fin P} {op : C.Op}
    {operand : C.Operand op} {next : C.Result op → Program C α}
    (here : s.program p = .collective op operand next)
    (running : (s.posted p).length = s.received p) :
    Consistent ops before (s.contribute p ⟨op, operand⟩) where
  program := consistent.program
  posted q r inside := by
    by_cases same : q = p
    · subst same
      rw [State.contribute_posted, List.length_append, List.length_singleton] at inside
      rw [State.contribute_posted]
      rcases (Nat.lt_succ_iff.mp inside).eq_or_lt with rfl | earlier
      · rw [List.getElem?_concat_length, running, ← consistent.program, here]
        rfl
      · rw [List.getElem?_append_left earlier]
        exact consistent.posted q r earlier
    · rw [State.contribute_posted_of_ne _ _ _ same] at inside ⊢
      exact consistent.posted q r inside
  phase q := by
    by_cases same : q = p
    · subst same
      rw [State.contribute_posted, List.length_append, running]
      exact .inr rfl
    · rw [State.contribute_posted_of_ne _ _ _ same]
      exact consistent.phase q
  length q := by
    by_cases same : q = p
    · subst same
      have within := consistent.length q
      rw [running] at within
      have round := schedule.collective within ((consistent.program q).symm.trans here)
      rw [State.contribute_posted, List.length_append, running]
      exact (List.getElem?_eq_some_iff.mp round).1
    · rw [State.contribute_posted_of_ne _ _ _ same]
      exact consistent.length q
  together j q := by
    have before := consistent.together j q
    by_cases same : q = p
    · subst same
      rw [State.contribute_posted, List.length_append]
      exact Nat.le_add_right_of_le before
    · rwa [State.contribute_posted_of_ne _ _ _ same]

theorem Consistent.receive (consistent : Consistent ops before s) {p : Fin P} {op : C.Op}
    {operand : C.Operand op} {next : C.Result op → Program C α}
    (here : s.program p = .collective op operand next)
    (waiting : (s.posted p).length = s.received p + 1) {operands : Fin P → C.Operand op}
    (complete : ∀ q, (s.posted q)[s.received p]? = some ⟨op, operands q⟩) :
    Consistent ops before (s.receive p (next (C.deliver op operands p))) where
  program q := by
    by_cases same : q = p
    · subst same
      have within := consistent.length q
      have round := schedule.collective (by omega) ((consistent.program q).symm.trans here)
      obtain ⟨operands', next', together⟩ := schedule.round _ op round
      have agree : operands = operands' := by
        funext j
        have there := consistent.posted j _ (List.getElem?_eq_some_iff.mp (complete j)).1
        rw [complete j, (together j).1] at there
        exact eq_of_heq (Contribution.mk.inj (Option.some.inj there)).2
      cases ((together q).1.symm.trans (consistent.program q).symm).trans here
      rw [State.receive_program, State.receive_received, (together q).2, agree]
    · rw [State.receive_program_of_ne _ _ _ same, State.receive_received_of_ne _ _ _ same]
      exact consistent.program q
  posted := consistent.posted
  phase q := by
    by_cases same : q = p
    · subst same
      rw [State.receive_received]
      exact .inl waiting
    · rw [State.receive_received_of_ne _ _ _ same]
      exact consistent.phase q
  length := consistent.length
  together j q := by
    by_cases same : j = p
    · subst same
      rw [State.receive_received]
      exact (List.getElem?_eq_some_iff.mp (complete q)).1
    · rw [State.receive_received_of_ne _ _ _ same]
      exact consistent.together j q

theorem Consistent.step (consistent : Consistent ops before s) (step : Step s s') :
    Consistent ops before s' := by
  cases step with
  | contribute p op operand next here running => exact consistent.contribute schedule here running
  | receive p op operand next here waiting operands complete =>
    exact consistent.receive schedule here waiting complete

theorem Run.consistent {n : ℕ} (run : Run (.initial programs) n s) : Consistent ops before s := by
  induction run with
  | start => exact consistent_initial schedule
  | step _ next ih => exact ih.step schedule next

theorem Consistent.operations (consistent : Consistent ops before s) (p : Fin P) :
    (s.posted p).map Contribution.op = ops.take (s.posted p).length := by
  refine List.ext_getElem? (fun r => ?_)
  rw [List.getElem?_map, List.getElem?_take]
  split_ifs with inside
  · have there := List.getElem?_eq_getElem (inside.trans_le (consistent.length p))
    obtain ⟨operands, next, together⟩ := schedule.round r _ there
    rw [consistent.posted p r inside, (together p).1, there]
    rfl
  · rw [List.getElem?_eq_none_iff.mpr (not_lt.mp inside)]
    rfl

theorem Consistent.matched (consistent : Consistent ops before s) : s.Matched := by
  intro p q r x y left right
  have called (p : Fin P) (x : Contribution C) (there : (s.posted p)[r]? = some x) :
      ops[r]? = some x.op := by
    have listed := congrArg (fun ops => ops[r]?) (consistent.operations schedule p)
    simp only [List.getElem?_map, there, Option.map_some] at listed
    exact (List.getElem?_take_of_lt (List.getElem?_eq_some_iff.mp there).1).symm.trans listed.symm
  exact Option.some.inj ((called p x left).symm.trans (called q y right))

theorem Consistent.done (consistent : Consistent ops before s) {p : Fin P} {value : α}
    (here : s.program p = .done value) : s.received p = ops.length ∧ value = values p := by
  have phase := consistent.phase p
  have within := consistent.length p
  rcases (show s.received p ≤ ops.length by omega).eq_or_lt with last | inside
  · refine ⟨last, ?_⟩
    rw [consistent.program, last, schedule.last] at here
    exact (Program.done.inj here).symm
  · obtain ⟨operands, next, together⟩ := schedule.round _ _ (List.getElem?_eq_getElem inside)
    rw [consistent.program, (together p).1] at here
    cases here

theorem Consistent.finishes (consistent : Consistent ops before s) {p : Fin P}
    (last : s.received p = ops.length) : s.program p = .done (values p) := by
  rw [consistent.program, last, schedule.last]

/-- The devices are done, or one of them can take a step. -/
theorem Consistent.progress (consistent : Consistent ops before s) :
    s.Finished ∨ ∃ s', Step s s' := by
  rcases isEmpty_or_nonempty (Fin P) with empty | nonempty
  · exact .inl (fun p => (empty.false p).elim)
  obtain ⟨p, _, least⟩ := exists_min_image univ s.received univ_nonempty
  have phase := consistent.phase p
  have within := consistent.length p
  rcases (show s.received p ≤ ops.length by omega).eq_or_lt with last | inside
  · refine .inl (fun q => ⟨values q, consistent.finishes schedule ?_⟩)
    have phase' := consistent.phase q
    have within' := consistent.length q
    have least' := least q (mem_univ q)
    omega
  -- the device that is furthest behind can go on, unless another one has yet to contribute
  obtain ⟨operands, next, together⟩ := schedule.round _ _ (List.getElem?_eq_getElem inside)
  by_cases missing : ∃ q, (s.posted q).length = s.received p
  · obtain ⟨q, running⟩ := missing
    have phase' := consistent.phase q
    have least' := least q (mem_univ q)
    have same : s.received q = s.received p := by omega
    refine .inr ⟨_, .contribute q _ (operands q) (next q) ?_ (running.trans same.symm)⟩
    rw [consistent.program, same, (together q).1]
  · push Not at missing
    have contributed (q : Fin P) : s.received p < (s.posted q).length := by
      have phase' := consistent.phase q
      have least' := least q (mem_univ q)
      have other := missing q
      omega
    refine .inr ⟨_, .receive p _ (operands p) (next p) ?_ ?_ operands (fun q => ?_)⟩
    · rw [consistent.program, (together p).1]
    · have own := contributed p
      omega
    · rw [consistent.posted q _ (contributed q), (together q).1]
      rfl

end Orders

/-! ### Counting steps -/

section Steps

theorem sum_succ_of_single {f g : Fin P → ℕ} (p : Fin P) (single : f p = g p + 1)
    (others : ∀ q, q ≠ p → f q = g q) : ∑ q, f q = ∑ q, g q + 1 := by
  rw [← add_sum_erase univ f (mem_univ p), ← add_sum_erase univ g (mem_univ p), single,
    sum_congr rfl (fun q member => others q (ne_of_mem_erase member))]
  exact Nat.add_right_comm _ _ _

def State.taken (s : State C α) : ℕ := ∑ p, ((s.posted p).length + s.received p)

theorem Step.taken {s s' : State C α} (step : Step s s') : s'.taken = s.taken + 1 := by
  cases step with
  | contribute p op operand next here running =>
    refine sum_succ_of_single p ?_ (fun q other => ?_)
    · rw [State.contribute_posted, State.contribute_received, List.length_append,
        List.length_singleton]
      omega
    · rw [State.contribute_posted_of_ne _ _ _ other, State.contribute_received]
  | receive p op operand next here waiting operands complete =>
    refine sum_succ_of_single p ?_ (fun q other => ?_)
    · rw [State.receive_received, State.receive_posted]
      omega
    · rw [State.receive_received_of_ne _ _ _ other, State.receive_posted]

theorem Run.taken {programs : Fin P → Program C α} {n : ℕ} {s : State C α}
    (run : Run (.initial programs) n s) : s.taken = n := by
  induction run with
  | start => exact sum_eq_zero (fun p _ => rfl)
  | step _ next ih => rw [next.taken, ih]

end Steps

/-! ### What every run does -/

/-- Whatever the order of their steps, the devices call the operations `ops` and end with `values`. -/
structure Computes (programs : Fin P → Program C α) (ops : List C.Op) (values : Fin P → α) :
    Prop where
  matched : ∀ n s, Run (.initial programs) n s → s.Matched
  operations : ∀ n s, Run (.initial programs) n s → ∀ p,
    (s.posted p).map Contribution.op = ops.take (s.posted p).length
  complete : ∀ n s, Run (.initial programs) n s → s.Finished → ∀ p,
    (s.posted p).map Contribution.op = ops
  close : ∀ n s, Run (.initial programs) n s → ∀ p q, s.received p ≤ s.received q + 1
  agrees : ∀ n s, Run (.initial programs) n s → ∀ p value, s.program p = .done value →
    value = values p
  progress : ∀ n s, Run (.initial programs) n s → s.Finished ∨ ∃ s', Step s s'
  bounded : ∀ n s, Run (.initial programs) n s → n ≤ 2 * P * ops.length
  finished : ∀ n s, Run (.initial programs) n s → (s.Finished ↔ n = 2 * P * ops.length)

section Computes
variable {programs : Fin P → Program C α} {ops : List C.Op} {values : Fin P → α}
  {before : ℕ → Fin P → Program C α} (schedule : Schedule programs ops values before)
  {s : State C α} (consistent : Consistent ops before s)
include consistent

theorem Consistent.taken_le (p : Fin P) : (s.posted p).length + s.received p ≤ 2 * ops.length := by
  have phase := consistent.phase p
  have within := consistent.length p
  omega

theorem Consistent.bounded : s.taken ≤ 2 * P * ops.length := by
  have total := sum_le_card_nsmul univ _ _ (fun p _ => consistent.taken_le p)
  rw [card_univ, Fintype.card_fin, smul_eq_mul] at total
  calc s.taken ≤ P * (2 * ops.length) := total
    _ = 2 * P * ops.length := by ring

include schedule

theorem Consistent.finished_iff : s.Finished ↔ s.taken = 2 * P * ops.length := by
  have all : s.taken = 2 * P * ops.length ↔
      ∀ p ∈ univ, (s.posted p).length + s.received p = 2 * ops.length := by
    rw [← sum_eq_sum_iff_of_le (fun p _ => consistent.taken_le p), sum_const, card_univ,
      Fintype.card_fin, smul_eq_mul, State.taken,
      show 2 * P * ops.length = P * (2 * ops.length) by ring]
  rw [all]
  constructor
  · intro finished p _
    obtain ⟨value, here⟩ := finished p
    have last := (consistent.done schedule here).1
    have phase := consistent.phase p
    have within := consistent.length p
    omega
  · intro total p
    have phase := consistent.phase p
    have within := consistent.length p
    have own := total p (mem_univ p)
    exact ⟨values p, consistent.finishes schedule (by omega)⟩

end Computes

/-- Programs that agree in lockstep agree in every order of steps. -/
theorem Lockstep.computes {programs : Fin P → Program C α} {ops : List C.Op} {values : Fin P → α}
    (lockstep : Lockstep programs ops values) : Computes programs ops values := by
  obtain ⟨before, schedule⟩ := lockstep.schedule
  have reached {n : ℕ} {s : State C α} (run : Run (.initial programs) n s) :
      Consistent ops before s := run.consistent schedule
  exact
    { matched := fun n s run => (reached run).matched schedule
      operations := fun n s run => (reached run).operations schedule
      complete := fun n s run finished p => by
        obtain ⟨value, here⟩ := finished p
        have last := ((reached run).done schedule here).1
        rw [(reached run).operations schedule, List.take_of_length_le]
        exact last ▸ (reached run).together p p
      close := fun n s run p q => by
        have behind := (reached run).together p q
        have phase := (reached run).phase q
        omega
      agrees := fun n s run p value here => ((reached run).done schedule here).2
      progress := fun n s run => (reached run).progress schedule
      bounded := fun n s run => run.taken ▸ (reached run).bounded
      finished := fun n s run => run.taken ▸ (reached run).finished_iff schedule }

end OrthoCache.Foundation.Spmd
