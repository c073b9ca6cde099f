import PipelineLens.Distinct
/-!
# Collecting without repeats

A collection grows by one element after the other and takes each only once (`push`). What is
collected in this way is the `distinct` list of all that was offered (`foldl_push_nil`). Repeats may
be left out early, among the elements or in what each of them leads to: it makes no difference.
-/
namespace PipelineLens

/-- The collection with one element more, at its end, unless it has it already. -/
def push (collected : List String) (x : String) : List String :=
  if x ∈ collected then collected else collected ++ [x]

theorem mem_push {collected : List String} {x y : String} :
    y ∈ push collected x ↔ y ∈ collected ∨ y = x := by
  unfold push
  split
  · rename_i hx
    constructor
    · exact .inl
    · rintro (hy | rfl)
      · exact hy
      · exact hx
  · simp

theorem mem_foldl_push {collected xs : List String} {y : String} :
    y ∈ xs.foldl push collected ↔ y ∈ collected ∨ y ∈ xs := by
  induction xs generalizing collected with
  | nil => simp
  | cons x xs ih => rw [List.foldl_cons, ih, mem_push, List.mem_cons, or_assoc]

/-- What is known already adds nothing. -/
theorem foldl_push_of_subset {collected xs : List String} (h : ∀ x ∈ xs, x ∈ collected) :
    xs.foldl push collected = collected := by
  induction xs with
  | nil => rfl
  | cons x xs ih =>
    rw [List.foldl_cons, push, if_pos (h x List.mem_cons_self)]
    exact ih fun y hy => h y (List.mem_cons_of_mem x hy)

theorem foldl_push_eq {collected : List String} {seen : Std.TreeSet String}
    (h : ∀ x, seen.contains x = true ↔ x ∈ collected) (xs : List String) :
    xs.foldl push collected = collected ++ distinctBut seen xs := by
  induction xs generalizing collected seen with
  | nil => simp [distinctBut]
  | cons x xs ih =>
    rw [List.foldl_cons, push, distinctBut]
    by_cases hx : x ∈ collected
    · rw [if_pos hx, if_pos ((h x).2 hx), ih h]
    · have hseen : ∀ y, (seen.insert x).contains y = true ↔ y ∈ collected ++ [x] := by
        intro y
        rw [Std.TreeSet.contains_insert]
        simp [h y, or_comm, eq_comm (a := y)]
      rw [if_neg hx, if_neg (fun hs => hx ((h x).1 hs)), ih hseen]
      simp

/-- Collecting from nothing leaves the first occurrence of each element. -/
theorem foldl_push_nil (xs : List String) : xs.foldl push [] = distinct xs :=
  foldl_push_eq (by simp) xs

/-- Of what is found in a list, all is collected from the first occurrences of its elements. -/
theorem foldl_push_flatMap_distinctBut (f : String → List String) {collected : List String}
    {seen : Std.TreeSet String} (h : ∀ x, seen.contains x = true → ∀ y ∈ f x, y ∈ collected)
    (xs : List String) :
    ((distinctBut seen xs).flatMap f).foldl push collected
      = (xs.flatMap f).foldl push collected := by
  induction xs generalizing collected seen with
  | nil => rfl
  | cons x xs ih =>
    rw [distinctBut, List.flatMap_cons, List.foldl_append]
    by_cases hx : seen.contains x = true
    · rw [if_pos hx, ih h, foldl_push_of_subset (h x hx)]
    · rw [if_neg hx, List.flatMap_cons, List.foldl_append]
      refine ih fun z hz y hy => mem_foldl_push.2 ?_
      rw [Std.TreeSet.contains_insert] at hz
      rcases Bool.or_eq_true_iff.1 hz with hz | hz
      · obtain rfl : x = z := by simpa using hz
        exact .inr hy
      · exact .inl (h z hz y hy)

/-! ## What makes no difference -/

theorem foldl_push_flatMap_distinct (f : String → List String) (xs collected : List String) :
    ((distinct xs).flatMap f).foldl push collected = (xs.flatMap f).foldl push collected :=
  foldl_push_flatMap_distinctBut f (by simp) xs

theorem foldl_push_distinct (xs collected : List String) :
    (distinct xs).foldl push collected = xs.foldl push collected := by
  have h := foldl_push_flatMap_distinct (fun x => [x]) xs collected
  simpa using h

theorem foldl_push_flatMap_congr {α : Type} (f : α → List String) (as : List α)
    (collected : List String) : (as.flatMap fun a => distinct (f a)).foldl push collected
      = (as.flatMap f).foldl push collected := by
  induction as generalizing collected with
  | nil => rfl
  | cons a as ih =>
    rw [List.flatMap_cons, List.flatMap_cons, List.foldl_append, List.foldl_append,
      foldl_push_distinct, ih]

/-- Lists that add the same to every collection can stand for each other. -/
theorem distinct_append_congr {as bs : List String}
    (h : ∀ collected, as.foldl push collected = bs.foldl push collected) (xs : List String) :
    distinct (xs ++ as) = distinct (xs ++ bs) := by
  rw [← foldl_push_nil (xs ++ as), ← foldl_push_nil (xs ++ bs), List.foldl_append,
    List.foldl_append, h]

theorem distinct_distinct_append (xs ys : List String) :
    distinct (distinct xs ++ ys) = distinct (xs ++ ys) := by
  rw [← foldl_push_nil (distinct xs ++ ys), ← foldl_push_nil (xs ++ ys), List.foldl_append,
    List.foldl_append, foldl_push_distinct]

end PipelineLens
