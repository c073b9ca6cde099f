import Std.Data.TreeSet.Lemmas
/-!
# Lists without repeats

`distinct` keeps the first occurrence of every element and the order of those first occurrences, so
it is the library's `eraseDups`. Its members are those of the list, and no element occurs twice.
-/
namespace PipelineLens

/-- The elements of a list that are not among some others, without repeats. -/
def distinctBut (seen : Std.TreeSet String) : List String → List String
  | [] => []
  | x :: xs =>
    if seen.contains x then distinctBut seen xs else x :: distinctBut (seen.insert x) xs

/-- The first occurrence of each element, in order. -/
def distinct (xs : List String) : List String := distinctBut ∅ xs

theorem distinctBut_eq (seen : Std.TreeSet String) (xs : List String) :
    distinctBut seen xs = (xs.filter fun x => !seen.contains x).eraseDups := by
  induction xs generalizing seen with
  | nil => rfl
  | cons y ys ih =>
    unfold distinctBut
    by_cases hs : seen.contains y = true
    · rw [if_pos hs, ih, List.filter_cons_of_neg (by simp [hs])]
    · have hinsert : (fun x => !(seen.insert y).contains x)
          = fun x => (!x == y) && !seen.contains x := by
        funext x
        rw [Bool.eq_iff_iff]
        simp [Std.TreeSet.contains_insert, eq_comm (a := x)]
      rw [if_neg hs, ih, List.filter_cons_of_pos (by simp [hs]), List.eraseDups_cons,
        List.filter_filter, hinsert]

theorem distinct_eq_eraseDups (xs : List String) : distinct xs = xs.eraseDups := by
  have : (xs.filter fun x => !(∅ : Std.TreeSet String).contains x) = xs := by simp
  rw [distinct, distinctBut_eq, this]

theorem mem_distinct {x : String} {xs : List String} : x ∈ distinct xs ↔ x ∈ xs := by
  rw [distinct_eq_eraseDups, List.mem_eraseDups]

theorem nodup_distinctBut (seen : Std.TreeSet String) (xs : List String) :
    (distinctBut seen xs).Nodup := by
  induction xs generalizing seen with
  | nil => exact List.nodup_nil
  | cons y ys ih =>
    unfold distinctBut
    split
    · exact ih seen
    · refine List.nodup_cons.2 ⟨?_, ih _⟩
      rw [distinctBut_eq, List.mem_eraseDups]
      simp

theorem nodup_distinct (xs : List String) : (distinct xs).Nodup := nodup_distinctBut ∅ xs

end PipelineLens
