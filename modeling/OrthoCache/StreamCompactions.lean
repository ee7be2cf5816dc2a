import OrthoCache.Alltoallv
import OrthoCache.Compaction
import OrthoCache.DistributedAttention
import OrthoCache.EmittedCompaction
import OrthoCache.XlaBridge

/-!
All stream compactions compute one permutation: the stable partition of the blocks by the mask,
whether a stable sort of the negated mask or a sort of distinct keys computes it, in array
operations or in the instructions that the compiler pass emits.
-/

namespace OrthoCache.StreamCompactions
open Finset Foundation.Hlo Foundation.StablePartition Arrays EmittedCompaction StreamCompactPass

section Functions
variable {n : ℕ} (mask : Fin n → Bool) (order : Equiv.Perm (Fin n))

/-- What the functions on arrays return. A mask with heads stands for the blocks that some head
retains. -/
structure Returned : Prop where
  alltoallv : Alltoallv.streamCompact mask = (order, countActive mask)
  adaptive : AdaptiveAttention.streamCompact mask = (order, countActive mask)
  distributed : DistributedAttention.streamCompact mask = (order, countActive mask)
  xlaBridge : ∀ heads (blockMask : XlaBridge.BlockMask n heads), blockMask.mask1d = mask →
    XlaBridge.streamCompact blockMask = (order, countActive mask)
  compaction : ∀ (R : Type) [Field R] bs heads dim (keys values : Tensor R (n * bs) heads dim)
    (blockMask : Fin n → Fin heads → Bool), anyHead blockMask = mask →
    (Compaction.streamCompact keys values blockMask).activeIndices = order ∧
      (Compaction.streamCompact keys values blockMask).numActive = countActive mask

theorem argsort_negatedKey_eq : argsort (negatedKey mask) = argsort (offsetKey mask) :=
  (argsort_negatedKey mask).unique (argsort_offsetKey mask)

theorem returned : Returned mask (argsort (offsetKey mask)) where
  alltoallv := by rw [Alltoallv.streamCompact, argsort_negatedKey_eq]
  adaptive := rfl
  distributed := rfl
  xlaBridge := by
    rintro heads blockMask rfl
    rfl
  compaction := by
    rintro R _ bs heads dim keys values blockMask rfl
    exact ⟨argsort_negatedKey_eq _, rfl⟩

end Functions

section Emitted
variable {n : ℕ}

/-- What the injected instructions compute: the table, the count and the window sums. -/
structure Computed (rest : Opcode → Shape → List Value → Option Value) (m : HloModule) (c : ℕ)
    (args : List Value) (ids : ℕ × ℕ) (mask : Fin n → Bool) (order : Equiv.Perm (Fin n)) : Prop where
  activeIndices : Evaluates rest m c args ids.1
    (.array .s32 [n] (fun i => BitVec.ofNat 32 (order i.leading)))
  numActive : Evaluates rest m c args ids.2 (.scalar .s32 (BitVec.ofNat 32 (countActive mask)))
  prefixSum : ∃ id addComp operands, m.instruction c id =
      some { opcode := .reduceWindow [causalWindow n] addComp
             shape := .array .s32 [n]
             operands := operands } ∧
    Evaluates rest m c args id (.array .s32 [n] (fun i => BitVec.ofNat 32 (selectedUpTo mask i.leading)))

theorem computed (small : 2 * n < 2 ^ 31) {heads : ℕ} (blockMask : XlaBridge.BlockMask n heads)
    (m : HloModule) (c id : ℕ) (maskInst : Instruction) (found : m.instruction c id = some maskInst)
    (rest : Opcode → Shape → List Value → Option Value) (args : List Value) :
    Evaluates rest (injectStreamCompaction c id n m).2 c args id (maskValue blockMask) →
      Computed rest (injectStreamCompaction c id n m).2 c args (injectStreamCompaction c id n m).1
        blockMask.mask1d (argsort (offsetKey blockMask.mask1d)) := by
  intro masked
  obtain ⟨added, embedded, module, _, _, mask1d, base, addComp, cmpComp, table⟩ :=
    injectStreamCompaction_emits m c id n 0 maskInst found (Nat.zero_le _)
  have emitted := table.emitted
  rw [module] at masked ⊢
  have reduced := table.mask1d_evaluates masked
  rw [table.ids_eq]
  exact
    { activeIndices := activeIndices_evaluates emitted reduced table.compares small
      numActive := numActive_evaluates emitted reduced table.adds
      prefixSum := ⟨_, _, _, emitted 7 _ rfl, prefixSum_evaluates emitted reduced table.adds⟩ }

end Emitted

/-- All compactions return the stable partition of the blocks and the number of active ones. -/
theorem streamCompactions_agree {n : ℕ} (small : 2 * n < 2 ^ 31) (mask : Fin n → Bool) :
    ∃ order : Equiv.Perm (Fin n), IsStablePartition mask order ∧
      countActive mask = #{b | mask b = true} ∧
      (∀ i, mask i = true → ∃ p, order p = i ∧ p.val + 1 = selectedUpTo mask i) ∧
      Returned mask order ∧
      ∀ heads (blockMask : XlaBridge.BlockMask n heads) m c id maskInst, blockMask.mask1d = mask →
        m.instruction c id = some maskInst → ∀ rest args,
        Evaluates rest (injectStreamCompaction c id n m).2 c args id (maskValue blockMask) →
        Computed rest (injectStreamCompaction c id n m).2 c args (injectStreamCompaction c id n m).1
          mask order := by
  refine ⟨argsort (offsetKey mask), argsort_offsetKey mask, ?_, ?_, returned mask, ?_⟩
  · rw [countActive, card_filter]
  · exact fun i chosen => (argsort_offsetKey mask).exists_position i chosen
  · rintro heads blockMask m c id maskInst rfl found rest args
    exact computed small blockMask m c id maskInst found rest args

def fourBlocks : XlaBridge.BlockMask 4 2 :=
  .blocksAndHeads ![![false, false], ![true, false], ![false, false], ![true, true]]

def maskProgram : HloModule :=
  { computations := [buildComputation [parameterInstruction 0 (maskValue fourBlocks).shape]] }

theorem streamCompactions_agree_fourBlocks :
    ∃ order : Equiv.Perm (Fin 4), IsStablePartition ![false, true, false, true] order ∧
      Returned ![false, true, false, true] order ∧
      Computed (fun _ _ _ => none) (injectStreamCompaction 0 0 4 maskProgram).2 0
        [maskValue fourBlocks] (injectStreamCompaction 0 0 4 maskProgram).1
        ![false, true, false, true] order := by
  obtain ⟨order, partition, _, _, functions, instructions⟩ :=
    streamCompactions_agree (by decide) ![false, true, false, true]
  have reduced : fourBlocks.mask1d = ![false, true, false, true] := by decide
  have masked : Evaluates (fun _ _ _ => none) (injectStreamCompaction 0 0 4 maskProgram).2 0
      [maskValue fourBlocks] 0 (maskValue fourBlocks) := evaluates_parameter rfl rfl
  exact ⟨order, partition, functions,
    instructions 2 fourBlocks maskProgram 0 0 _ reduced rfl _ _ masked⟩

end OrthoCache.StreamCompactions
