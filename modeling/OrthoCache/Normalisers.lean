import OrthoCache.DistributedAttention

/-!
The softmax normalisers by which the entry points of the online-softmax loops divide. No division
is guarded, so an entry point has to keep out the loop that visits no block. The single-device
entry points do; the distributed one does not.
-/

namespace OrthoCache.Normalisers
open Finset Foundation.OnlineSoftmax Foundation.StablePartition Foundation.RowMajor Arrays
open AdaptiveAttention
open DistributedAttention hiding streamCompact

section Model
variable {R : Type} [Field R] [LinearOrder R] {B P Q n nb heads dim : ℕ} (bs : ℕ) [NeZero bs]

/-- The carry that `orthocache_attention` divides, if it gets as far as a division. -/
def orthocacheCarry (A : Arith R) (q : Tensor R Q heads dim) (kCache vCache : Tensor R n heads dim)
    (blockMask : Fin nb → Bool) : Option (Fin Q → Fin heads → Acc R (Fin dim)) :=
  let activeIndices := (streamCompact blockMask).1
  let numActive := (streamCompact blockMask).2
  if idle : numActive = 0 then none
  else if fits : bs ≤ n then
    haveI := neZero_of_active blockMask idle
    if n ≤ seqThreshold then
      some (vmapHeadsCarry bs A fits q kCache vCache activeIndices numActive)
    else some (multiheadCarry bs A fits q kCache vCache activeIndices numActive)
  else none

def batchedCarry (A : Arith R) (q : Fin B → Tensor R Q heads dim)
    (kCache vCache : Fin B → Tensor R n heads dim) (blockMask : Fin nb → Bool) :
    Option (Fin B → Fin Q → Fin heads → Acc R (Fin dim)) :=
  let activeIndices := (streamCompact blockMask).1
  let numActive := (streamCompact blockMask).2
  if idle : numActive = 0 then none
  else if fits : bs ≤ n then
    haveI := neZero_of_active blockMask idle
    if n ≤ seqThreshold then
      some (fun b =>
        vmapHeadsCarry bs A fits (q b) (kCache b) (vCache b) activeIndices numActive)
    else
      some (fun b =>
        multiheadCarry bs A fits (q b) (kCache b) (vCache b) activeIndices numActive)
  else none

/-- The carry that every device divides; there is no early return. -/
def distributedCarry [NeZero P] [NeZero nb] (A : Arith R) (qShard : Fin P → Tensor R Q heads dim)
    (kShard vShard : Fin P → Tensor R (nb * 512) heads dim) (blockMask : Fin P → Fin nb → Bool) :
    Fin P → Fin Q → Fin heads → Acc R (Fin dim) :=
  let activeIndices := fun p => (streamCompact (blockMask p)).1
  let numActive := fun p => (streamCompact (blockMask p)).2
  let kPacked := fun p => packActiveBlocks (kShard p) (activeIndices p) (numActive p)
  let vPacked := fun p => packActiveBlocks (vShard p) (activeIndices p) (numActive p)
  let totalActive := ∑ p, numActive p
  let kAll := allGatherTiled kPacked
  let vAll := allGatherTiled vPacked
  let validMask := fun c : Fin (P * nb) => decide (c.modNat.val < numActive c.divNat)
  let sortedIndices := argsort (offsetKey validMask)
  fun p => multiheadCarry 512 A gathered_fits (qShard p) kAll vAll sortedIndices totalActive

end Model

section Division
variable {R : Type} [Field R] [LinearOrder R] {B P Q n nb heads dim bs : ℕ} [NeZero bs]
  (A : Arith R)

/-- A call that divides returns its carry divided; the others return zeros or raise. -/
theorem orthocacheAttention_eq_carry (q : Tensor R Q heads dim)
    (kCache vCache : Tensor R n heads dim) (blockMask : Fin nb → Bool) :
    (orthocacheAttention bs A q kCache vCache blockMask).map Prod.fst =
      (orthocacheCarry bs A q kCache vCache blockMask).elim
        (if (streamCompact blockMask).2 = 0 then .ok zeros else .error .zeroDivision)
        (fun carry => .ok (normalised carry)) := by
  unfold orthocacheAttention orthocacheCarry
  by_cases idle : (streamCompact blockMask).2 = 0
  · simp only [dif_pos idle, if_pos idle]
    rfl
  · simp only [dif_neg idle, if_neg idle]
    by_cases fits : bs ≤ n
    · simp only [dif_pos fits]
      split_ifs <;> rfl
    · simp only [dif_neg fits]
      rfl

theorem batchedCarry_apply (q : Fin B → Tensor R Q heads dim)
    (kCache vCache : Fin B → Tensor R n heads dim) (blockMask : Fin nb → Bool) (b : Fin B) :
    (batchedCarry bs A q kCache vCache blockMask).map (fun carry => carry b) =
      orthocacheCarry bs A (q b) (kCache b) (vCache b) blockMask := by
  unfold batchedCarry orthocacheCarry
  by_cases idle : (streamCompact blockMask).2 = 0
  · simp only [dif_pos idle]
    rfl
  · simp only [dif_neg idle]
    by_cases fits : bs ≤ n
    · simp only [dif_pos fits]
      split_ifs <;> rfl
    · simp only [dif_neg fits]
      rfl

theorem orthocacheAttentionBatched_eq_carry (q : Fin B → Tensor R Q heads dim)
    (kCache vCache : Fin B → Tensor R n heads dim) (blockMask : Fin nb → Bool) (b : Fin B) :
    (orthocacheAttentionBatched bs A q kCache vCache blockMask).map (fun result => result.1 b) =
      (batchedCarry bs A q kCache vCache blockMask).elim
        (if (streamCompact blockMask).2 = 0 then .ok zeros else .error .zeroDivision)
        (fun carry => .ok (normalised (carry b))) := by
  rw [orthocacheAttentionBatched_apply, orthocacheAttention_eq_carry, ← batchedCarry_apply]
  cases batchedCarry bs A q kCache vCache blockMask <;> rfl

theorem distributedOrthocacheAttention_eq_carry [NeZero P] [NeZero nb]
    (qShard : Fin P → Tensor R Q heads dim) (kShard vShard : Fin P → Tensor R (nb * 512) heads dim)
    (blockMask : Fin P → Fin nb → Bool) (p : Fin P) :
    distributedOrthocacheAttention A qShard kShard vShard blockMask p =
      normalised (distributedCarry A qShard kShard vShard blockMask p) := rfl

end Division

section Positive
variable {P Q n nb heads dim bs : ℕ} [NeZero bs]

theorem headRun_sum_pos_iff [NeZero nb] (fits : bs ≤ n) (q : Tensor ℝ Q heads dim)
    (kCache vCache : Tensor ℝ n heads dim) (activeIndices : Fin nb → Fin nb) (numActive : ℕ)
    (i : Fin Q) (h : Fin heads) :
    0 < (headRun .exact fits q kCache vCache activeIndices numActive i h).sum ↔ numActive ≠ 0 := by
  have visited : (List.range numActive).map (getClamped activeIndices) ≠ [] ↔ numActive ≠ 0 := by
    rw [ne_eq, List.map_eq_nil_iff, List.range_eq_nil]
  exact (run_sum_pos_iff _ _ _ _).trans visited

theorem orthocacheCarry_sum_pos (q : Tensor ℝ Q heads dim) (kCache vCache : Tensor ℝ n heads dim)
    (blockMask : Fin nb → Bool) (carry : Fin Q → Fin heads → Acc ℝ (Fin dim))
    (divided : orthocacheCarry bs .exact q kCache vCache blockMask = some carry) (i : Fin Q)
    (h : Fin heads) : 0 < (carry i h).sum := by
  simp only [orthocacheCarry] at divided
  split_ifs at divided with idle
  · obtain rfl := Option.some.inj divided
    have := neZero_of_active blockMask idle
    rw [vmapHeadsCarry_eq, headRun_sum_pos_iff]
    exact idle
  · obtain rfl := Option.some.inj divided
    have := neZero_of_active blockMask idle
    rw [multiheadCarry_eq, headRun_sum_pos_iff]
    exact idle

theorem distributedCarry_sum_pos_iff [NeZero P] [NeZero nb] (qShard : Fin P → Tensor ℝ Q heads dim)
    (kShard vShard : Fin P → Tensor ℝ (nb * 512) heads dim) (blockMask : Fin P → Fin nb → Bool)
    (p : Fin P) (i : Fin Q) (h : Fin heads) :
    0 < (distributedCarry .exact qShard kShard vShard blockMask p i h).sum ↔
      ∃ p b, blockMask p b = true := by
  have total : ∑ p, (streamCompact (blockMask p)).2 ≠ 0 ↔ ∃ p b, blockMask p b = true := by
    simp only [ne_eq, sum_eq_zero_iff, mem_univ, true_implies, not_forall, ← Nat.pos_iff_ne_zero]
    exact exists_congr (fun p => countActive_pos_iff (blockMask p))
  simp only [distributedCarry]
  rw [← total, multiheadCarry_eq, headRun_sum_pos_iff]

end Positive

section Calls

inductive EntryCall
  | single {Q n nb heads dim : ℕ} (bs : ℕ) [NeZero bs] (q : Tensor ℝ Q heads dim)
    (kCache vCache : Tensor ℝ n heads dim) (blockMask : Fin nb → Bool)
  | batched {B Q n nb heads dim : ℕ} (bs : ℕ) [NeZero bs] (q : Fin B → Tensor ℝ Q heads dim)
    (kCache vCache : Fin B → Tensor ℝ n heads dim) (blockMask : Fin nb → Bool)
  | distributed {P Q nb heads dim : ℕ} [NeZero P] [NeZero nb]
    (qShard : Fin P → Tensor ℝ Q heads dim)
    (kShard vShard : Fin P → Tensor ℝ (nb * 512) heads dim) (blockMask : Fin P → Fin nb → Bool)

def EntryCall.NormalisersPositive : EntryCall → Prop
  | single bs q kCache vCache blockMask =>
    ∀ carry ∈ orthocacheCarry bs .exact q kCache vCache blockMask, ∀ i h, 0 < (carry i h).sum
  | batched bs q kCache vCache blockMask =>
    ∀ carry ∈ batchedCarry bs .exact q kCache vCache blockMask, ∀ b i h, 0 < (carry b i h).sum
  | distributed qShard kShard vShard blockMask =>
    ∀ p i h, 0 < (distributedCarry .exact qShard kShard vShard blockMask p i h).sum

/-- In a distributed call some device keeps a block, or there is no row to normalise; of the other
entry points nothing is asked. -/
def EntryCall.DistributedKeepsBlock : EntryCall → Prop
  | single .. => True
  | batched .. => True
  | @distributed _ Q _ heads _ _ _ _ _ _ blockMask =>
    (∃ p b, blockMask p b = true) ∨ Q = 0 ∨ heads = 0

/-- A call divides by positive normalisers only, exactly when it is not a distributed call whose
devices all evict everything. -/
theorem normalisersPositive_iff (call : EntryCall) :
    call.NormalisersPositive ↔ call.DistributedKeepsBlock := by
  cases call with
  | single bs q kCache vCache blockMask =>
    refine iff_of_true (fun carry divided i h => ?_) trivial
    exact orthocacheCarry_sum_pos q kCache vCache blockMask carry divided i h
  | batched bs q kCache vCache blockMask =>
    refine iff_of_true (fun carry divided b i h => ?_) trivial
    have element : (batchedCarry bs .exact q kCache vCache blockMask).map (fun carry => carry b) =
        orthocacheCarry bs .exact (q b) (kCache b) (vCache b) blockMask :=
      batchedCarry_apply .exact q kCache vCache blockMask b
    rw [divided, Option.map_some] at element
    exact orthocacheCarry_sum_pos (q b) (kCache b) (vCache b) blockMask (carry b) element.symm i h
  | @distributed P Q nb heads dim _ _ qShard kShard vShard blockMask =>
    simp only [EntryCall.NormalisersPositive, EntryCall.DistributedKeepsBlock, distributedCarry_sum_pos_iff]
    constructor
    · intro positive
      by_cases rows : Q = 0
      · exact .inr (.inl rows)
      by_cases columns : heads = 0
      · exact .inr (.inr columns)
      exact .inl (positive 0 ⟨0, Nat.pos_of_ne_zero rows⟩ ⟨0, Nat.pos_of_ne_zero columns⟩)
    · rintro (kept | rows | columns) p i h
      · exact kept
      · exact (i.cast rows).elim0
      · exact (h.cast columns).elim0

/-- One device with one evicted block: the divisor is zero. -/
theorem normaliser_evicted_device :
    (distributedCarry .exact (fun _ : Fin 1 => (ones : Tensor ℝ 1 1 1))
        (fun _ => (ones : Tensor ℝ (1 * 512) 1 1)) (fun _ => ones) (fun _ _ => false) 0 0 0).sum =
        0 ∧
      ¬(EntryCall.distributed (fun _ : Fin 1 => (ones : Tensor ℝ 1 1 1))
        (fun _ => (ones : Tensor ℝ (1 * 512) 1 1)) (fun _ => ones)
        (fun _ _ => false)).NormalisersPositive := by
  have empty : ∑ _p : Fin 1, (streamCompact (fun _ : Fin 1 => false)).2 = 0 := by decide
  have zero : (distributedCarry .exact (fun _ : Fin 1 => (ones : Tensor ℝ 1 1 1))
      (fun _ => (ones : Tensor ℝ (1 * 512) 1 1)) (fun _ => ones) (fun _ _ => false) 0 0 0).sum =
      0 := by
    simp only [distributedCarry]
    rw [multiheadCarry_eq, empty]
    rfl
  refine ⟨zero, fun positive => ?_⟩
  exact absurd (positive 0 0 0) (not_lt.mpr zero.le)

end Calls

end OrthoCache.Normalisers
