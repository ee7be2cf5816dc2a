import OrthoCache.StreamCompactPass

/-!
What the scan of the initial tuple finds: the first scalar integer and the last mask, wherever in
the tuple they stand.
-/

namespace OrthoCache.TupleScan
open Foundation.Hlo StreamCompactPass

def isMask : Shape → Bool
  | .array .pred [_] => true
  | .array .pred [_, _] => true
  | _ => false

theorem isMask_iff (shape : Shape) : isMask shape = true ↔
    (shape.rank = 1 ∨ shape.rank = 2) ∧ elementType shape = some .pred := by
  cases shape with
  | tuple elements => simp [isMask, elementType]
  | array et dims =>
    rcases dims with _ | ⟨n, _ | ⟨k, _ | ⟨j, dims⟩⟩⟩ <;> cases et <;>
      simp [isMask, elementType, Shape.rank]

theorem isScalar_iff (shape : Shape) :
    shape = s32Scalar ↔ shape.rank = 0 ∧ elementType shape = some .s32 := by
  cases shape with
  | tuple elements => simp [s32Scalar, elementType]
  | array et dims => cases dims <;> simp [s32Scalar, elementType, Shape.rank]

theorem scanElement_loopVarIdx (found : TupleIndices) (i : ℕ) (shape : Shape) :
    (scanElement found i shape).loopVarIdx =
      if shape = s32Scalar ∧ found.loopVarIdx = none then some i else found.loopVarIdx := by
  simp only [isScalar_iff, and_assoc, scanElement]
  split_ifs <;> rfl

theorem scanElement_maskIdx (found : TupleIndices) (i : ℕ) (shape : Shape) :
    (scanElement found i shape).maskIdx = if isMask shape = true then some i else found.maskIdx := by
  simp only [isMask_iff, scanElement]
  split_ifs <;> first | rfl | tauto

theorem scanTuple_append (shapes : List Shape) (shape : Shape) :
    scanTuple (shapes ++ [shape]) = scanElement (scanTuple shapes) shapes.length shape := by
  unfold scanTuple
  rw [List.zipIdx_append, List.foldl_append, Nat.zero_add]
  rfl

theorem getElem?_snoc {shapes : List Shape} {last shape : Shape} {i : ℕ}
    (here : (shapes ++ [last])[i]? = some shape) :
    shapes[i]? = some shape ∨ i = shapes.length ∧ shape = last := by
  rcases lt_trichotomy i shapes.length with before | same | after
  · rw [List.getElem?_append_left before] at here
    exact .inl here
  · subst same
    rw [List.getElem?_concat_length] at here
    exact .inr ⟨rfl, (Option.some.inj here).symm⟩
  · rw [List.getElem?_eq_none (by rw [List.length_append]; exact after)] at here
    cases here

theorem scanTuple_loopVarIdx (shapes : List Shape) :
    (scanTuple shapes).loopVarIdx = shapes.findIdx? (fun shape => shape = s32Scalar) := by
  induction shapes using List.reverseRecOn with
  | nil => rfl
  | append_singleton shapes last ih =>
    rw [scanTuple_append, scanElement_loopVarIdx, ih, List.findIdx?_append]
    cases shapes.findIdx? (fun shape => shape = s32Scalar) with
    | none => by_cases scalar : last = s32Scalar <;> simp [scalar, List.findIdx?_cons]
    | some first => simp

theorem loopVarIdx_eq_some {shapes : List Shape} {i : ℕ}
    (first : (scanTuple shapes).loopVarIdx = some i) : shapes[i]? = some s32Scalar := by
  rw [scanTuple_loopVarIdx, List.findIdx?_eq_some_iff_getElem] at first
  obtain ⟨inside, scalar, _⟩ := first
  rw [List.getElem?_eq_getElem inside, decide_eq_true_eq.mp scalar]

theorem maskIdx_eq_some {shapes : List Shape} {i : ℕ} (found : (scanTuple shapes).maskIdx = some i) :
    (∃ mask, shapes[i]? = some mask ∧ isMask mask = true) ∧
      ∀ j shape, i < j → shapes[j]? = some shape → isMask shape = false := by
  induction shapes using List.reverseRecOn with
  | nil => cases found
  | append_singleton shapes last ih =>
    rw [scanTuple_append, scanElement_maskIdx] at found
    split_ifs at found with mask
    · obtain rfl := Option.some.inj found
      refine ⟨⟨last, List.getElem?_concat_length, mask⟩, fun j shape after here => ?_⟩
      rw [List.getElem?_eq_none (by rw [List.length_append]; exact after)] at here
      cases here
    · obtain ⟨⟨shape, here, isMask⟩, later⟩ := ih found
      have inside := (List.getElem?_eq_some_iff.mp here).1
      refine ⟨⟨shape, by rw [List.getElem?_append_left inside, here], isMask⟩, ?_⟩
      intro j other after there
      rcases getElem?_snoc there with before | ⟨_, rfl⟩
      · exact later j other after before
      · exact Bool.eq_false_of_not_eq_true mask

end OrthoCache.TupleScan
