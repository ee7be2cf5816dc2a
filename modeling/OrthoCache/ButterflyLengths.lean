import OrthoCache.Reference

/-!
The lengths on which the butterfly loops of the golden model return. A pass at a stride that
divides the length stays inside the array exactly when twice the stride divides it too, so the odd
part of the length decides which pass overruns, if any.
-/

namespace OrthoCache.ButterflyLengths
open Arrays Reference

section Step
variable {R : Type} [Field R] {n h : ℕ}

theorem readAt_of_le {α : Type} (x : Fin n → α) (j : ℕ) (outside : n ≤ j) :
    readAt x j = .error .indexError := dif_neg (not_lt.mpr outside)

theorem butterflyStep_ok (y : Fin n → R) (j : ℕ) (inside : j + h < n) :
    ∃ z, butterflyStep h y j = .ok z := by
  have here : j < n := by omega
  unfold butterflyStep
  rw [readAt_of_lt y j here, readAt_of_lt y (j + h) inside]
  simp only [bind, Except.bind, writeAt_of_lt _ _ _ here, writeAt_of_lt _ _ _ inside]
  exact ⟨_, rfl⟩

theorem butterflyStep_error (y : Fin n → R) (j : ℕ) (outside : n ≤ j + h) :
    butterflyStep h y j = .error .indexError := by
  unfold butterflyStep
  rw [readAt_of_le y (j + h) outside]
  by_cases here : j < n
  · rw [readAt_of_lt y j here]
    rfl
  · rw [readAt_of_le y j (not_lt.mp here)]
    rfl

theorem foldlM_butterflyStep_ok (visited : List ℕ) (y : Fin n → R)
    (inside : ∀ j ∈ visited, j + h < n) : ∃ z, visited.foldlM (butterflyStep h) y = .ok z := by
  induction visited generalizing y with
  | nil => exact ⟨y, rfl⟩
  | cons j visited ih =>
    obtain ⟨next, step⟩ := butterflyStep_ok y j (inside j List.mem_cons_self)
    obtain ⟨z, rest⟩ := ih next (fun i member => inside i (List.mem_cons_of_mem j member))
    refine ⟨z, ?_⟩
    rw [List.foldlM_cons, step]
    exact rest

theorem foldlM_butterflyStep_error (visited : List ℕ) (y : Fin n → R)
    (overruns : ∃ j ∈ visited, n ≤ j + h) :
    visited.foldlM (butterflyStep h) y = .error .indexError := by
  induction visited generalizing y with
  | nil =>
    obtain ⟨j, member, -⟩ := overruns
    cases member
  | cons i visited ih =>
    rw [List.foldlM_cons]
    by_cases outside : n ≤ i + h
    · rw [butterflyStep_error y i outside]
      rfl
    · obtain ⟨next, step⟩ := butterflyStep_ok y i (not_le.mp outside)
      obtain ⟨j, member, past⟩ := overruns
      have later : j ∈ visited := by
        cases member with
        | head => exact absurd past outside
        | tail _ member => exact member
      rw [step]
      exact ih next ⟨j, later, past⟩

end Step

section Pass
variable {R : Type} [Field R] {n h : ℕ}

theorem butterflyPass_eq (y : Fin n → R) :
    butterflyPass h y = (positions n h).foldlM (butterflyStep h) y := by
  rw [butterflyPass, positions, foldlM_flatMap]

/-- A stride that divides the length an odd number of times leaves a last run without partners. -/
theorem positions_overrun (positive : 0 < h) (length : 0 < n) (divides : h ∣ n)
    (unpaired : ¬h * 2 ∣ n) : ∃ j ∈ positions n h, n ≤ j + h := by
  obtain ⟨runs, rfl⟩ := divides
  have odd : runs % 2 = 1 := by
    by_contra even
    exact unpaired (Nat.mul_dvd_mul_left h (Nat.dvd_of_mod_eq_zero (by omega)))
  obtain ⟨before, rfl⟩ : ∃ before, runs = before + 1 := ⟨runs - 1, by omega⟩
  rw [Nat.mul_succ]
  refine ⟨h * before, mem_positions_of_lower positive _ ?_ (by omega), le_rfl⟩
  rw [Nat.mul_div_cancel_left before positive]
  omega

/-- At a stride that divides the length, a pass returns exactly when it can pair all runs. -/
theorem butterflyPass_outcome (positive : 0 < h) (length : 0 < n) (divides : h ∣ n)
    (y : Fin n → R) : if h * 2 ∣ n then ∃ z, butterflyPass h y = .ok z
      else butterflyPass h y = .error .indexError := by
  rw [butterflyPass_eq]
  split_ifs with pairs
  · exact foldlM_butterflyStep_ok _ y (fun j member => (positions_inside positive pairs j member).2)
  · exact foldlM_butterflyStep_error _ y (positions_overrun positive length divides pairs)

theorem positions_partners_nodup (positive : 0 < h) (pairs : h * 2 ∣ n) :
    (positions n h ++ (positions n h).map (· + h)).Nodup := by
  have inside := positions_inside positive pairs
  refine (positions_nodup positive).append
    ((positions_nodup positive).map (add_left_injective h)) ?_
  intro s lower upper
  obtain ⟨j, member, rfl⟩ := List.mem_map.mp upper
  have even := (inside _ lower).1
  rw [partner_upper positive j (inside j member).1] at even
  cases even

theorem exists_partner_of_upper (positive : 0 < h) (s : ℕ) (upper : s / h % 2 = 1) (below : s < n) :
    ∃ j ∈ positions n h, j + h = s := by
  have far : h ≤ s := by
    by_contra near
    rw [Nat.div_eq_of_lt (not_le.mp near)] at upper
    cases upper
  have quotient := Nat.div_eq_sub_div positive far
  refine ⟨s - h, mem_positions_of_lower positive _ ?_ ?_, ?_⟩
  · omega
  · omega
  · exact Nat.sub_add_cancel far

/-- A pass that can pair all runs visits every entry once, as a lower entry or as a partner. -/
theorem positions_perm (positive : 0 < h) (pairs : h * 2 ∣ n) :
    (positions n h ++ (positions n h).map (· + h)).Perm (List.range n) := by
  have inside := positions_inside positive pairs
  rw [List.perm_ext_iff_of_nodup (positions_partners_nodup positive pairs) List.nodup_range]
  intro s
  rw [List.mem_append, List.mem_map, List.mem_range]
  constructor
  · rintro (lower | ⟨j, member, rfl⟩)
    · have partner := (inside s lower).2
      omega
    · exact (inside j member).2
  · intro below
    obtain lower | upper := Nat.mod_two_eq_zero_or_one (s / h)
    · exact .inl (mem_positions_of_lower positive s lower below)
    · exact .inr (exists_partner_of_upper positive s upper below)

end Pass

section Loop
variable {R : Type} [Field R] {n : ℕ}

theorem butterflyPasses_error (h : ℕ) (positive : 0 < h) (length : 0 < n) (divides : h ∣ n)
    (other : ¬∃ m, n = h * 2 ^ m) (y : Fin n → R) :
    butterflyPasses h positive y = .error .indexError := by
  -- induction on what the stride leaves of the length, as in the termination of the loop
  induction left : n - h using Nat.strong_induction_on generalizing h y with
  | _ left ih =>
    have different : n ≠ h := fun same => other ⟨0, by rw [pow_zero, mul_one, same]⟩
    have below : h < n := lt_of_le_of_ne (Nat.le_of_dvd length divides) different.symm
    have outcome := butterflyPass_outcome positive length divides y
    unfold butterflyPasses
    rw [if_pos below]
    by_cases pairs : h * 2 ∣ n
    · rw [if_pos pairs] at outcome
      obtain ⟨next, pass⟩ := outcome
      have other' : ¬∃ m, n = h * 2 * 2 ^ m := by
        rintro ⟨m, same⟩
        exact other ⟨m + 1, by rw [same, pow_succ']; ring⟩
      rw [pass]
      exact ih (n - h * 2) (by omega) (h * 2) (twice_pos positive) pairs other' next rfl
    · rw [if_neg pairs] at outcome
      rw [outcome]
      rfl

theorem numpyFwht1d_ok (A : Arith R) (power : ∃ m, n = 2 ^ m) (a : Fin n → R) :
    ∃ y, numpyFwht1d A a = .ok y := by
  obtain ⟨m, rfl⟩ := power
  have agree (s : Fin (2 ^ m)) : a s = Function.extend Fin.val a 0 s :=
    (Fin.val_injective.extend_apply a 0 s).symm
  exact ⟨_, numpyFwht1d_walshSum A m _ a agree⟩

theorem numpyFwht1d_error (A : Arith R) (length : 0 < n) (other : ¬∃ m, n = 2 ^ m)
    (a : Fin n → R) : numpyFwht1d A a = .error .indexError := by
  unfold numpyFwht1d
  rw [butterflyPasses_error 1 Nat.one_pos length (one_dvd n) (by simpa only [one_mul] using other)]
  rfl

/-- Every call ends, by returning or by an index error; it raises exactly on lengths that are not
a power of two, and when it returns every stage has visited each entry once. -/
theorem numpyFwht1d_outcome (A : Arith R) (length : 0 < n) (a : Fin n → R) :
    ((∃ y, numpyFwht1d A a = .ok y) ∨ numpyFwht1d A a = .error .indexError) ∧
      (numpyFwht1d A a = .error .indexError ↔ ¬∃ m, n = 2 ^ m) ∧
      ((∃ y, numpyFwht1d A a = .ok y) → ∀ k, 2 ^ k < n →
        (positions n (2 ^ k) ++ (positions n (2 ^ k)).map (· + 2 ^ k)).Perm (List.range n)) := by
  by_cases power : ∃ m, n = 2 ^ m
  · obtain ⟨y, returned⟩ := numpyFwht1d_ok A power a
    refine ⟨.inl ⟨y, returned⟩, ?_, ?_⟩
    · rw [returned]
      simpa using power
    · rintro - k stage
      obtain ⟨m, rfl⟩ := power
      have less : k < m := (Nat.pow_lt_pow_iff_right Nat.one_lt_two).mp stage
      apply positions_perm (Nat.two_pow_pos k)
      rw [← pow_succ]
      exact pow_dvd_pow 2 less
  · have raised := numpyFwht1d_error A length power a
    refine ⟨.inr raised, iff_of_true raised power, ?_⟩
    rintro ⟨y, returned⟩
    rw [raised] at returned
    cases returned

theorem numpyFwht1d_outcome_six :
    numpyFwht1d ⟨id, id⟩ (fun s : Fin 6 => (s.val : ℚ)) = .error .indexError := by
  have other : ¬∃ m, 6 = 2 ^ m := by
    rintro ⟨m, same⟩
    have divides : 3 ∣ 2 ^ m := same ▸ (by decide : 3 ∣ 6)
    exact absurd (Nat.prime_three.dvd_of_dvd_pow divides) (by decide)
  exact (numpyFwht1d_outcome ⟨id, id⟩ (by decide) (fun s : Fin 6 => (s.val : ℚ))).2.1.mpr other

end Loop

end OrthoCache.ButterflyLengths
