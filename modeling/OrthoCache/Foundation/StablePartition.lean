import Mathlib

/-!
Stable partition of `0, ..., n - 1` by a boolean mask: the selected indices in increasing
order, then the others in increasing order. Any stable sort whose keys put selected indices
before the others, and never reverse two indices of one side, computes it.
-/

namespace OrthoCache.Foundation.StablePartition
open Finset

variable {n : ℕ}

def selected (mask : Fin n → Bool) : List (Fin n) := (List.finRange n).filter mask

def selectedCount (mask : Fin n → Bool) : ℕ := (selected mask).length

theorem mem_selected (mask : Fin n → Bool) (i : Fin n) : i ∈ selected mask ↔ mask i = true := by
  simp [selected]

theorem selected_nodup (mask : Fin n → Bool) : (selected mask).Nodup :=
  (List.nodup_finRange n).filter _

theorem selectedCount_le (mask : Fin n → Bool) : selectedCount mask ≤ n := by
  have bound := List.length_filter_le mask (List.finRange n)
  rwa [List.length_finRange] at bound

theorem sum_map_selected {M : Type*} [AddCommMonoid M] (mask : Fin n → Bool) (f : Fin n → M) :
    ((selected mask).map f).sum = ∑ i with mask i = true, f i := by
  rw [← List.sum_toFinset f (selected_nodup mask)]
  congr 1
  ext i
  simp [mem_selected]

theorem selectedCount_eq_sum (mask : Fin n → Bool) :
    selectedCount mask = ∑ i, if mask i then 1 else 0 := by
  have count := sum_map_selected mask (fun _ => 1)
  rw [List.map_const', List.sum_replicate, smul_eq_mul, mul_one] at count
  rw [selectedCount, count, sum_filter]

theorem selectedCount_pos_iff (mask : Fin n → Bool) :
    0 < selectedCount mask ↔ ∃ i, mask i = true := by
  simp [selectedCount, List.length_pos_iff_exists_mem, mem_selected]

theorem forall_getD_map_selected_iff {β : Type*} (mask : Fin n → Bool) (f g : Fin n → β)
    (default : β) : (∀ i : Fin n, ((selected mask).map f).getD i.val default =
        ((selected mask).map g).getD i.val default) ↔ ∀ i, mask i = true → f i = g i := by
  constructor
  · intro agree i chosen
    obtain ⟨k, inside, entry⟩ := List.getElem_of_mem ((mem_selected mask i).mpr chosen)
    have same := agree ⟨k, inside.trans_le (selectedCount_le mask)⟩
    rw [List.getD_eq_getElem _ _ (by rwa [List.length_map]),
      List.getD_eq_getElem _ _ (by rwa [List.length_map]), List.getElem_map, List.getElem_map,
      entry] at same
    exact same
  · intro agree i
    rw [List.map_congr_left (fun j member => agree j ((mem_selected mask j).mp member))]

def selectedUpTo (mask : Fin n → Bool) (i : Fin n) : ℕ := ∑ j ∈ Iic i, if mask j then 1 else 0

/-- The permutation lists the selected indices first and keeps the order on both sides. -/
def IsStablePartition (mask : Fin n → Bool) (order : Equiv.Perm (Fin n)) : Prop :=
  (List.finRange n).map order = selected mask ++ selected (fun i => !mask i)

theorem IsStablePartition.unique {mask : Fin n → Bool} {first second : Equiv.Perm (Fin n)}
    (left : IsStablePartition mask first) (right : IsStablePartition mask second) :
    first = second := by
  ext i
  have same := left.trans right.symm
  rw [List.map_inj_left] at same
  rw [same i (List.mem_finRange i)]

section Sorting
variable {α : Type*} [LinearOrder α]

/-- Keys that a stable sort turns into the partition. -/
structure PartitionKey (mask : Fin n → Bool) (key : Fin n → α) : Prop where
  before : ∀ i j, mask i = true → mask j = false → key i < key j
  along : ∀ i j, mask i = mask j → i < j → key i ≤ key j

def Precedes (key : Fin n → α) (i j : Fin n) : Prop := key i < key j ∨ key i = key j ∧ i < j

theorem Precedes.asymm {key : Fin n → α} {i j : Fin n} (forward : Precedes key i j)
    (backward : Precedes key j i) : i = j := by
  rcases forward with less | ⟨tie, less⟩ <;> rcases backward with less' | ⟨tie', less'⟩
  · exact absurd less less'.not_gt
  · exact absurd tie' less.ne'
  · exact absurd tie less'.ne'
  · exact absurd less less'.not_gt

theorem sort_pairwise (key : Fin n → α) :
    ((List.finRange n).map (Tuple.sort key)).Pairwise (Precedes key) := by
  obtain ⟨monotone, ties⟩ := Tuple.eq_sort_iff.mp (rfl : Tuple.sort key = Tuple.sort key)
  rw [List.pairwise_map]
  apply (List.pairwise_lt_finRange n).imp
  intro i j less
  rcases (monotone less.le).lt_or_eq with smaller | tie
  · exact .inl smaller
  · exact .inr ⟨tie, ties i j less tie⟩

theorem not_both_sublist {β : Type*} (a b : β) (entries : List β) (nodup : entries.Nodup)
    (forward : [a, b].Sublist entries) : ¬[b, a].Sublist entries := by
  induction entries with
  | nil => cases forward
  | cons c entries ih =>
    intro backward
    rw [List.nodup_cons] at nodup
    cases forward with
    | cons _ forward =>
      cases backward with
      | cons _ backward => exact ih nodup.2 forward backward
      | cons_cons _ _ => exact nodup.1 (forward.subset (by simp))
    | cons_cons _ forward =>
      have later : b ∈ entries := List.singleton_sublist.mp forward
      cases backward with
      | cons _ backward => exact nodup.1 (backward.subset (by simp))
      | cons_cons _ _ => exact nodup.1 later

theorem mergeSort_eq_sort (key : Fin n → α) :
    (List.finRange n).mergeSort (fun i j => decide (key i ≤ key j)) =
      (List.finRange n).map (Tuple.sort key) := by
  set le := fun i j : Fin n => decide (key i ≤ key j)
  have transitive (i j k : Fin n) (first : le i j = true) (second : le j k = true) :
      le i k = true := by
    simp only [le, decide_eq_true_eq] at first second ⊢
    exact first.trans second
  have total (i j : Fin n) : (le i j || le j i) = true := by
    simp only [le, Bool.or_eq_true, decide_eq_true_eq]
    exact le_total _ _
  have permutation := List.mergeSort_perm (List.finRange n) le
  have nodup := permutation.nodup_iff.mpr (List.nodup_finRange n)
  have sorted := List.pairwise_mergeSort transitive total (List.finRange n)
  have order : ((List.finRange n).mergeSort le).Pairwise (Precedes key) := by
    rw [List.pairwise_iff_forall_sublist] at sorted ⊢
    intro i j inside
    have weak := sorted inside
    simp only [le, decide_eq_true_eq] at weak
    rcases weak.lt_or_eq with less | tie
    · exact .inl less
    · refine .inr ⟨tie, ?_⟩
      by_contra back
      rcases (not_lt.mp back).lt_or_eq with less | same
      · have listed : [j, i].Sublist (List.finRange n) := by
          let place := fun k : Fin n => k.cast (List.length_finRange).symm
          have pair : [place j, place i].Pairwise (· < ·) := List.pairwise_pair.mpr less
          simpa [place] using List.map_getElem_sublist pair
        have kept := List.pair_sublist_mergeSort transitive total
          (show le j i = true by simp [le, tie]) listed
        exact not_both_sublist i j _ nodup inside kept
      · subst same
        have twice := nodup.sublist inside
        simp at twice
  have sorting : ((List.finRange n).map (Tuple.sort key)).Perm (List.finRange n) := by
    rw [← List.ofFn_eq_map, ← List.ofFn_id n]
    exact (Tuple.sort key).ofFn_comp_perm id
  exact (permutation.trans sorting.symm).eq_of_pairwise (fun _ _ _ _ => Precedes.asymm) order
    (sort_pairwise key)

theorem PartitionKey.pairwise {mask : Fin n → Bool} {key : Fin n → α}
    (partitions : PartitionKey mask key) :
    (selected mask ++ selected (fun i => !mask i)).Pairwise (Precedes key) := by
  have side (gate : Fin n → Bool) (same : ∀ i j, gate i = true → gate j = true →
      mask i = mask j) : (selected gate).Pairwise (Precedes key) := by
    apply ((List.pairwise_lt_finRange n).filter gate).imp_of_mem
    intro i j hi hj less
    have hi := (mem_selected gate i).mp hi
    have hj := (mem_selected gate j).mp hj
    rcases (partitions.along i j (same i j hi hj) less).lt_or_eq with smaller | tie
    · exact .inl smaller
    · exact .inr ⟨tie, less⟩
  rw [List.pairwise_append]
  refine ⟨side _ (fun i j hi hj => hi.trans hj.symm), side _ (fun i j hi hj => ?_), ?_⟩
  · simp_all
  · intro i hi j hj
    rw [mem_selected] at hi hj
    exact .inl (partitions.before i j hi (by simpa using hj))

/-- A stable sort by a partition key is the stable partition. -/
theorem PartitionKey.sort_isStablePartition {mask : Fin n → Bool} {key : Fin n → α}
    (partitions : PartitionKey mask key) : IsStablePartition mask (Tuple.sort key) := by
  have sorted : ((List.finRange n).map (Tuple.sort key)).Perm (List.finRange n) := by
    rw [← List.ofFn_eq_map, ← List.ofFn_id n]
    exact (Tuple.sort key).ofFn_comp_perm id
  have split : (selected mask ++ selected (fun i => !mask i)).Perm (List.finRange n) :=
    List.filter_append_perm mask (List.finRange n)
  exact (sorted.trans split.symm).eq_of_pairwise (fun _ _ _ _ => Precedes.asymm)
    (sort_pairwise key) partitions.pairwise

end Sorting

namespace IsStablePartition
variable {mask : Fin n → Bool} {order : Equiv.Perm (Fin n)}

theorem apply_eq_getElem (partition : IsStablePartition mask order) (i : Fin n)
    (front : i.val < (selected mask).length) : order i = (selected mask)[i.val] := by
  have bound : i.val < ((List.finRange n).map order).length := by simp
  have entry : ((List.finRange n).map order)[i.val] = order i := by simp
  rw [← entry]
  simp only [show (List.finRange n).map order = _ from partition]
  exact List.getElem_append_left front

theorem mask_apply_iff (partition : IsStablePartition mask order) (i : Fin n) :
    mask (order i) = true ↔ i.val < selectedCount mask := by
  constructor
  · intro chosen
    by_contra back
    have bound : i.val < (selected mask ++ selected (fun i => !mask i)).length := by
      rw [← partition]
      simp
    have entry : order i = (selected mask ++ selected (fun i => !mask i))[i.val] := by
      simp only [← show (List.finRange n).map order = _ from partition]
      simp
    rw [List.getElem_append_right (by simpa [selectedCount] using back)] at entry
    have member : order i ∈ selected (fun i => !mask i) := entry ▸ List.getElem_mem _
    rw [mem_selected, chosen] at member
    simp at member
  · intro front
    rw [partition.apply_eq_getElem i front]
    exact (mem_selected mask _).mp (List.getElem_mem _)

theorem lt_of_front (partition : IsStablePartition mask order) (p q : Fin n) (less : p < q)
    (front : q.val < selectedCount mask) : order p < order q := by
  have sorted := (List.pairwise_lt_finRange n).filter mask
  rw [partition.apply_eq_getElem q front,
    partition.apply_eq_getElem p ((Fin.lt_def.mp less).trans front)]
  exact List.pairwise_iff_getElem.mp sorted p.val q.val _ _ less

theorem exists_position (partition : IsStablePartition mask order) (i : Fin n)
    (chosen : mask i = true) : ∃ p : Fin n, order p = i ∧ p.val + 1 = selectedUpTo mask i := by
  obtain ⟨p, rfl⟩ := order.surjective i
  have front := (partition.mask_apply_iff p).mp chosen
  refine ⟨p, rfl, ?_⟩
  have image : {j ∈ Iic (order p) | mask j = true} = (Iic p).map order.toEmbedding := by
    ext j
    obtain ⟨q, rfl⟩ := order.surjective j
    simp only [mem_filter, mem_Iic, mem_map_equiv, Equiv.symm_apply_apply, partition.mask_apply_iff]
    constructor
    · rintro ⟨below, inside⟩
      by_contra later
      exact absurd below (partition.lt_of_front p q (not_le.mp later) inside).not_ge
    · intro before
      refine ⟨?_, (Fin.le_def.mp before).trans_lt front⟩
      rcases before.lt_or_eq with less | same
      · exact (partition.lt_of_front q p less front).le
      · rw [same]
  rw [selectedUpTo, ← card_filter, image, card_map, Fin.card_Iic]

theorem sum_front {M : Type*} [AddCommMonoid M] (partition : IsStablePartition mask order)
    (f : Fin n → M) :
    ∑ i with i.val < selectedCount mask, f (order i) = ∑ i with mask i = true, f i := by
  rw [sum_filter, sum_filter, ← Equiv.sum_comp order (fun i => if mask i = true then f i else 0)]
  apply sum_congr rfl
  intro i _
  simp only [partition.mask_apply_iff]

theorem map_range_eq (partition : IsStablePartition mask order) (index : ℕ → Fin n)
    (reads : ∀ i (bound : i < n), index i = order ⟨i, bound⟩) :
    (List.range (selectedCount mask)).map index = selected mask := by
  apply List.ext_getElem (by simp [selectedCount])
  intro i left right
  have bound : i < n := right.trans_le (selectedCount_le mask)
  rw [List.getElem_map, List.getElem_range, reads i bound]
  exact partition.apply_eq_getElem ⟨i, bound⟩ right

theorem getD_map_selected {β : Type*} (partition : IsStablePartition mask order) (f : Fin n → β)
    (default : β) (i : Fin n) :
    ((selected mask).map f).getD i.val default =
      if i.val < selectedCount mask then f (order i) else default := by
  have length : ((selected mask).map f).length = selectedCount mask := List.length_map f
  split_ifs with front
  · rw [List.getD_eq_getElem _ _ (length ▸ front), List.getElem_map,
      partition.apply_eq_getElem i front]
    rfl
  · exact List.getD_eq_default _ _ (length ▸ not_lt.mp front)

end IsStablePartition

end OrthoCache.Foundation.StablePartition
