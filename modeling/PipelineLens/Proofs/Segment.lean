/-!
# Segments of a list

Trees are laid out in one list, subtree by subtree. `SegmentAt whole base part` says that `part`
stands in `whole` from the index `base` on; what is appended stands side by side.
-/
namespace PipelineLens

/-- The list `whole` has the entries `part` from index `base` on. -/
def SegmentAt {α : Type} (whole : List α) (base : Nat) (part : List α) : Prop :=
  part <+: whole.drop base

variable {α : Type} {whole xs ys : List α} {x : α} {base : Nat}

theorem SegmentAt.left (h : SegmentAt whole base (xs ++ ys)) : SegmentAt whole base xs :=
  (List.prefix_append xs ys).trans h

theorem SegmentAt.right (h : SegmentAt whole base (xs ++ ys)) :
    SegmentAt whole (base + xs.length) ys := by
  obtain ⟨zs, h⟩ := h
  refine ⟨zs, ?_⟩
  rw [← List.drop_drop, ← h, List.append_assoc, List.drop_left]

theorem SegmentAt.head (h : SegmentAt whole base (x :: xs)) : whole[base]? = some x := by
  obtain ⟨ys, h⟩ := h
  have h0 : (whole.drop base)[0]? = some x := by
    rw [← h]
    rfl
  rwa [List.getElem?_drop, Nat.add_zero] at h0

theorem SegmentAt.tail (h : SegmentAt whole base (x :: xs)) : SegmentAt whole (base + 1) xs := by
  have hsplit : SegmentAt whole base ([x] ++ xs) := h
  exact hsplit.right

theorem segmentAt_self (xs : List α) : SegmentAt xs 0 xs := List.prefix_rfl

end PipelineLens
