import Mathlib

/-!
A memo table under keys that may leave out part of what a value depends on. A request brings its
key and the value a fresh computation would return, and is answered from the table where the key
is known. Requests that never disagree under one key cannot tell the table from recomputation.
-/

namespace OrthoCache.Foundation.TraceCache

variable {K : Type*} {V : K → Type*}

abbrev Table (V : K → Type*) := (key : K) → Option (V key)

def Table.empty : Table V := fun _ => none

/-- The remembered value under the key of a request, or the fresh one. -/
def Table.answer (table : Table V) (request : Sigma V) : V request.1 :=
  (table request.1).getD request.2

@[simp] theorem answer_empty (request : Sigma V) :
    (Table.empty : Table V).answer request = request.2 := rfl

variable [DecidableEq K]

/-- The answer to a request is remembered under its key. -/
def Table.serve (table : Table V) (request : Sigma V) : Table V :=
  Function.update table request.1 (some (table.answer request))

theorem answer_serve (table : Table V) (key : K) (served fresh : V key) :
    (table.serve ⟨key, served⟩).answer ⟨key, fresh⟩ = table.answer ⟨key, served⟩ := by
  rw [Table.serve, Table.answer, Function.update_self, Option.getD_some]

def Table.serveAll (table : Table V) (requests : List (Sigma V)) : Table V :=
  requests.foldl Table.serve table

theorem serve_origin (table : Table V) (request : Sigma V) (key : K) (value : V key)
    (found : table.serve request key = some value) :
    table key = some value ∨ (⟨key, value⟩ : Sigma V) = request := by
  obtain ⟨requested, fresh⟩ := request
  by_cases same : key = requested
  · subst same
    simp only [Table.serve, Table.answer, Function.update_self, Option.some.injEq] at found
    cases known : table key with
    | none =>
      rw [known, Option.getD_none] at found
      exact .inr (by rw [found])
    | some old =>
      rw [known, Option.getD_some] at found
      exact .inl (by rw [found])
  · rw [Table.serve, Function.update_of_ne same] at found
    exact .inl found

theorem serveAll_origin (table : Table V) (requests : List (Sigma V)) (key : K) (value : V key)
    (found : table.serveAll requests key = some value) :
    table key = some value ∨ (⟨key, value⟩ : Sigma V) ∈ requests := by
  induction requests generalizing table with
  | nil => exact .inl found
  | cons request requests ih =>
    rcases ih (table.serve request) found with before | later
    · rcases serve_origin table request key value before with old | new
      · exact .inl old
      · exact .inr (new ▸ List.mem_cons_self)
    · exact .inr (List.mem_cons_of_mem request later)

/-- After consistent requests, a request that agrees with them is answered with its fresh value. -/
theorem answer_serveAll (requests : List (Sigma V)) (request : Sigma V)
    (agrees : ∀ other ∈ requests, other.1 = request.1 → other = request) :
    (Table.empty.serveAll requests).answer request = request.2 := by
  unfold Table.answer
  cases known : (Table.empty : Table V).serveAll requests request.1 with
  | none => rfl
  | some value =>
    rcases serveAll_origin Table.empty requests request.1 value known with impossible | member
    · cases impossible
    · have same := agrees _ member rfl
      rw [Option.getD_some]
      exact eq_of_heq (Sigma.mk.inj same).2

end OrthoCache.Foundation.TraceCache
