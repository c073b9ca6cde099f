import Mathlib.Data.List.Basic
/-!
# Splitting a list where a property ends

The longest start of a list whose entries all have a property is determined by the list. Two ways to
write a list as such a start and a rest are therefore the same.
-/
namespace PipelineLens

theorem takeWhile_append_of_head? {α : Type} {p : α → Bool} {xs as : List α}
    (hx : ∀ x ∈ xs, p x = true) (ha : ∀ a ∈ as.head?, p a = false) :
    (xs ++ as).takeWhile p = xs := by
  rw [List.takeWhile_append_of_pos hx]
  cases as with
  | nil => simp
  | cons a as => simp [ha a rfl]

theorem append_inj_of_all {α : Type} {p : α → Bool} {xs ys as bs : List α}
    (hx : ∀ x ∈ xs, p x = true) (hy : ∀ y ∈ ys, p y = true) (ha : ∀ a ∈ as.head?, p a = false)
    (hb : ∀ b ∈ bs.head?, p b = false) (h : xs ++ as = ys ++ bs) : xs = ys ∧ as = bs := by
  have hsame : xs = ys := by
    rw [← takeWhile_append_of_head? hx ha, h, takeWhile_append_of_head? hy hb]
  subst hsame
  exact ⟨rfl, List.append_cancel_left h⟩

end PipelineLens
