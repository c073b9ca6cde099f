import Mathlib.Data.List.Nodup
/-!
# Entries told apart by a value

Where no value that a partial function has on the entries of a list comes twice, a value stands for
one entry: it has one place, and looking for the value finds it.
-/
namespace PipelineLens

variable {α β : Type} {f : α → Option β} {xs : List α}

/-- What occurs once in a list stands in one place. -/
theorem index_eq_of_nodup_filterMap (h : (xs.filterMap f).Nodup) {i j : Nat} {x y : α} {b : β}
    (hi : xs[i]? = some x) (hj : xs[j]? = some y) (hx : f x = some b) (hy : f y = some b) :
    i = j := by
  rw [List.Nodup, List.pairwise_filterMap, List.pairwise_iff_getElem] at h
  obtain ⟨hilt, rfl⟩ := List.getElem?_eq_some_iff.1 hi
  obtain ⟨hjlt, rfl⟩ := List.getElem?_eq_some_iff.1 hj
  rcases Nat.lt_trichotomy i j with hlt | heq | hlt
  · exact absurd rfl (h i j hilt hjlt hlt b hx b hy)
  · exact heq
  · exact absurd rfl (h j i hjlt hilt hlt b hy b hx)

theorem eq_of_nodup_filterMap (h : (xs.filterMap f).Nodup) {x y : α} {b : β} (hx : x ∈ xs)
    (hy : y ∈ xs) (hxb : f x = some b) (hyb : f y = some b) : x = y := by
  obtain ⟨i, hi⟩ := List.mem_iff_getElem?.1 hx
  obtain ⟨j, hj⟩ := List.mem_iff_getElem?.1 hy
  obtain rfl := index_eq_of_nodup_filterMap h hi hj hxb hyb
  exact Option.some.inj (hi.symm.trans hj)

theorem find?_of_nodup_filterMap [DecidableEq β] (h : (xs.filterMap f).Nodup) {x : α} {b : β}
    (hx : x ∈ xs) (hb : f x = some b) : xs.find? (fun y => f y = some b) = some x := by
  obtain ⟨y, hy⟩ : ∃ y, xs.find? (fun y => f y = some b) = some y :=
    Option.isSome_iff_exists.1 (List.find?_isSome.2 ⟨x, hx, decide_eq_true hb⟩)
  have hyb : f y = some b := by simpa using List.find?_some hy
  rw [hy, eq_of_nodup_filterMap h (List.mem_of_find?_eq_some hy) hx hyb hb]

end PipelineLens
