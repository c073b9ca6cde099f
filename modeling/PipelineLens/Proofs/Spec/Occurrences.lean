import PipelineLens.Proofs.Splitting
import PipelineLens.Spec.Reference
/-!
# Every reference in a text

`Occurs cs i r` says that the reference `r` is written at the position `i` of the text `cs`. A
written reference is four runs of name characters, the first three of which end at a point and the
last at a closing parenthesis. Where two of them overlap their runs must be the same, and so none
starts inside another (`not_prefix_inside`). Reading on behind each reference therefore misses
nothing: what is read is all that occurs, in its order (`references_eq_occurrences`).
-/
namespace PipelineLens

namespace Reference

/-- What a task or a result may be called. -/
structure IsName (cs : List Char) : Prop where
  ne_nil : cs ≠ []
  chars : ∀ c ∈ cs, c ≠ '.' ∧ c ≠ ')' ∧ Text.isBlank c = false

/-- The reference as it stands in a text. -/
def written (r : Reference) : String := "$(tasks." ++ r.task ++ ".results." ++ r.result ++ ")"

/-- Both names of the reference are names. -/
structure WellFormed (r : Reference) : Prop where
  task : IsName r.task.toList
  result : IsName r.result.toList

/-- A reference is written at a position of a text. -/
structure Occurs (cs : List Char) (i : Nat) (r : Reference) : Prop extends WellFormed r where
  here : r.written.toList <+: cs.drop i

theorem isNameChar_iff {c : Char} :
    isNameChar c = true ↔ c ≠ '.' ∧ c ≠ ')' ∧ Text.isBlank c = false := by
  simp [isNameChar, and_assoc]

theorem isName_iff {cs : List Char} : IsName cs ↔ cs ≠ [] ∧ ∀ c ∈ cs, isNameChar c = true := by
  constructor
  · intro h
    exact ⟨h.ne_nil, fun c hc => isNameChar_iff.2 (h.chars c hc)⟩
  · rintro ⟨hne, hchars⟩
    exact ⟨hne, fun c hc => isNameChar_iff.1 (hchars c hc)⟩

/-! ## Reading one reference -/

theorem after?_eq_some_iff {mark cs rest : List Char} :
    after? mark cs = some rest ↔ cs = mark ++ rest := by
  induction mark generalizing cs with
  | nil => simp [after?]
  | cons m ms ih =>
    cases cs with
    | nil => simp [after?]
    | cons c cs =>
      by_cases hm : m = c
      · subst hm
        simp [after?, ih]
      · have hne : c :: cs ≠ m :: (ms ++ rest) := fun h => hm (List.cons.inj h).1.symm
        simp [after?, hm, hne]

/-- A name is read up to the first character that no name has. -/
theorem name?_append {name : List Char} {c : Char} {rest : List Char} (h : IsName name)
    (hc : isNameChar c = false) : name? (name ++ c :: rest) = some (name, c :: rest) := by
  obtain ⟨hne, hchars⟩ := isName_iff.1 h
  have htake : (name ++ c :: rest).takeWhile isNameChar = name :=
    takeWhile_append_of_head? hchars (by simpa using hc)
  have hdrop : (name ++ c :: rest).dropWhile isNameChar = c :: rest := by
    rw [List.dropWhile_append_of_pos hchars]
    simp [hc]
  simp [name?, htake, hdrop, hne]

theorem name?_eq_some {cs name rest : List Char} (h : name? cs = some (name, rest)) :
    IsName name ∧ cs = name ++ rest := by
  unfold name? at h
  split at h
  · cases h
  · rename_i hne
    cases h
    refine ⟨isName_iff.2 ⟨by simpa using hne, fun c hc => ?_⟩, ?_⟩
    · exact List.all_eq_true.1 List.all_takeWhile c hc
    · exact List.takeWhile_append_dropWhile.symm

/-- **Reading and writing agree.** A reference is read where it is written, and nowhere else. -/
theorem at?_eq_some_iff {cs rest : List Char} {r : Reference} :
    at? cs = some (r, rest) ↔ r.WellFormed ∧ cs = r.written.toList ++ rest := by
  constructor
  · intro h
    simp only [at?, Option.bind_eq_bind, Option.bind_eq_some_iff] at h
    obtain ⟨c₁, h₁, ⟨task, c₂⟩, h₂, c₃, h₃, ⟨result, c₄⟩, h₄, c₅, h₅, h⟩ := h
    cases h
    obtain ⟨htask, rfl⟩ := name?_eq_some h₂
    obtain ⟨hresult, rfl⟩ := name?_eq_some h₄
    rw [after?_eq_some_iff] at h₁ h₃ h₅
    subst h₁ h₃ h₅
    exact ⟨⟨by simpa using htask, by simpa using hresult⟩, by simp [written]⟩
  · rintro ⟨hr, rfl⟩
    have hpoint : isNameChar '.' = false := by decide
    have hclose : isNameChar ')' = false := by decide
    have hopen : after? "$(tasks.".toList (r.written.toList ++ rest)
        = some (r.task.toList ++ '.' :: ("results.".toList ++ r.result.toList ++ ')' :: rest)) :=
      after?_eq_some_iff.2 (by simp [written])
    have hmiddle : after? ".results.".toList
        ('.' :: ("results.".toList ++ r.result.toList ++ ')' :: rest))
        = some (r.result.toList ++ ')' :: rest) := after?_eq_some_iff.2 (by simp)
    have hend : after? [')'] (')' :: rest) = some rest := after?_eq_some_iff.2 rfl
    simp only [at?, hopen, Option.bind_eq_bind, Option.bind_some, name?_append hr.task hpoint,
      hmiddle, name?_append hr.result hclose, hend, String.ofList_toList]

/-! ## No reference inside another -/

/-- Where a run of name characters ends, it ends in every reading of the text. -/
theorem run_inj {xs ys as bs : List Char} {a b : Char} (hx : ∀ c ∈ xs, isNameChar c = true)
    (hy : ∀ c ∈ ys, isNameChar c = true) (ha : isNameChar a = false) (hb : isNameChar b = false)
    (h : xs ++ a :: as = ys ++ b :: bs) : xs = ys ∧ a = b ∧ as = bs := by
  obtain ⟨hsame, hrest⟩ := append_inj_of_all hx hy (by simpa using ha) (by simpa using hb) h
  exact ⟨hsame, List.cons.inj hrest⟩

/-- What is left of a run and what follows it, from some position on. -/
theorem drop_run (xs as : List Char) (a : Char) (k : Nat) :
    (xs ++ a :: as).drop k
      = if k ≤ xs.length then xs.drop k ++ a :: as else as.drop (k - xs.length - 1) := by
  split
  · rename_i hk
    rw [List.drop_append_of_le_length hk]
  · rename_i hk
    obtain ⟨j, rfl⟩ : ∃ j, k = xs.length + 1 + j := ⟨k - xs.length - 1, by omega⟩
    have hj : xs.length + 1 + j - xs.length - 1 = j := by omega
    rw [hj, List.drop_append, List.drop_of_length_le (by omega)]
    have hj' : xs.length + 1 + j - xs.length = j + 1 := by omega
    simp [hj']

/-- The four runs of a reference. -/
theorem written_append (r : Reference) (rest : List Char) :
    r.written.toList ++ rest = "$(tasks".toList ++ '.' :: (r.task.toList
      ++ '.' :: ("results".toList ++ '.' :: (r.result.toList ++ ')' :: rest))) := by
  simp [written]

theorem length_written (r : Reference) :
    r.written.length = r.task.toList.length + r.result.toList.length + 18 := by
  rw [← String.length_toList]
  simp [written]
  omega

theorem not_prefix_inside {r s : Reference} (hr : r.WellFormed) (hs : s.WellFormed) {k : Nat}
    (h₀ : 0 < k) (hk : k < r.written.length) (rest : List Char) :
    ¬ s.written.toList <+: (r.written.toList ++ rest).drop k := by
  rintro ⟨after, h⟩
  have hpoint : isNameChar '.' = false := by decide
  have hclose : isNameChar ')' = false := by decide
  have hopening : ∀ c ∈ "$(tasks".toList, isNameChar c = true := List.all_eq_true.1 (by decide)
  have hresults : ∀ c ∈ "results".toList, isNameChar c = true := List.all_eq_true.1 (by decide)
  have hpart : ∀ {xs : List Char} {j : Nat}, (∀ c ∈ xs, isNameChar c = true) →
      ∀ c ∈ xs.drop j, isNameChar c = true := fun h c hc => h c (List.mem_of_mem_drop hc)
  have htask := (isName_iff.1 hr.task).2
  have hresult := (isName_iff.1 hr.result).2
  rw [length_written] at hk
  rw [written_append, written_append, drop_run] at h
  split at h
  · -- the start of `r`: nothing may be left out of the opening
    obtain ⟨hsame, -⟩ := run_inj hopening (hpart hopening) hpoint hpoint h
    have := congrArg List.length hsame
    simp at this
    omega
  rw [drop_run] at h
  split at h
  · -- the task of `r` ends in an opening: then the next point of `r` lies in the result of `r`
    obtain ⟨-, -, h⟩ := run_inj hopening (hpart htask) hpoint hpoint h
    obtain ⟨-, -, h⟩ := run_inj (isName_iff.1 hs.task).2 hresults hpoint hpoint h
    obtain ⟨-, habsurd, -⟩ := run_inj hresults hresult hpoint hclose h
    cases habsurd
  rw [drop_run] at h
  split at h
  · -- the middle of `r` is shorter than an opening, or another word
    obtain ⟨hsame, -⟩ := run_inj hopening (hpart hresults) hpoint hpoint h
    have hmem : '$' ∈ "$(tasks".toList := by decide
    rw [hsame] at hmem
    exact absurd (List.mem_of_mem_drop hmem) (by decide)
  rw [drop_run] at h
  split at h
  · -- the result of `r` ends at a parenthesis, an opening at a point
    obtain ⟨-, habsurd, -⟩ := run_inj hopening (hpart hresult) hpoint hclose h
    cases habsurd
  · rename_i h₁ h₂ h₃ h₄
    simp at h₁ h₂ h₃ h₄
    omega

/-! ## Reading a whole text -/

theorem occurs_iff_at? {cs : List Char} {i : Nat} {r : Reference} :
    Occurs cs i r ↔ ∃ rest, at? (cs.drop i) = some (r, rest) := by
  simp only [at?_eq_some_iff]
  constructor
  · rintro ⟨hr, rest, h⟩
    exact ⟨rest, hr, h.symm⟩
  · rintro ⟨rest, hr, h⟩
    exact ⟨hr, rest, h.symm⟩

/-- A position has one reference at most. -/
theorem Occurs.unique {cs : List Char} {i : Nat} {r s : Reference} (hr : Occurs cs i r)
    (hs : Occurs cs i s) : r = s := by
  obtain ⟨_, hr⟩ := occurs_iff_at?.1 hr
  obtain ⟨_, hs⟩ := occurs_iff_at?.1 hs
  rw [hr] at hs
  cases hs
  rfl

theorem not_occurs_nil {i : Nat} {r : Reference} : ¬ Occurs [] i r := by
  intro h
  have := h.here.length_le
  rw [String.length_toList, length_written] at this
  simp at this

theorem occurs_append_iff {xs cs : List Char} {i : Nat} {r : Reference} :
    Occurs (xs ++ cs) (i + xs.length) r ↔ Occurs cs i r := by
  have hdrop : (xs ++ cs).drop (i + xs.length) = cs.drop i := by
    rw [Nat.add_comm, ← List.drop_drop, List.drop_left]
  rw [occurs_iff_at?, occurs_iff_at?, hdrop]

/-- Before the end of a reference only that reference occurs. -/
theorem occurs_written_iff {r s : Reference} (hr : r.WellFormed) {rest : List Char} {i : Nat}
    (hi : i < r.written.length) :
    Occurs (r.written.toList ++ rest) i s ↔ i = 0 ∧ s = r := by
  constructor
  · intro h
    rcases Nat.eq_zero_or_pos i with rfl | hpos
    · have hself : Occurs (r.written.toList ++ rest) 0 r := ⟨hr, List.prefix_append _ _⟩
      exact ⟨rfl, h.unique hself⟩
    · exact absurd h.here (not_prefix_inside hr h.toWellFormed hpos hi rest)
  · rintro ⟨rfl, rfl⟩
    exact ⟨hr, rest, rfl⟩

/-- In a text that starts with a reference, the others occur in the rest. -/
theorem occurs_written_append_iff {r s : Reference} (hr : r.WellFormed) {rest : List Char}
    {i : Nat} : Occurs (r.written.toList ++ rest) i s ↔
      (i = 0 ∧ s = r) ∨ ∃ j, Occurs rest j s ∧ i = j + r.written.length := by
  by_cases hi : i < r.written.length
  · have hnone : ¬ ∃ j, Occurs rest j s ∧ i = j + r.written.length := by
      rintro ⟨j, -, rfl⟩
      omega
    rw [occurs_written_iff hr hi]
    simp only [hnone, or_false]
  · obtain ⟨j, rfl⟩ : ∃ j, i = j + r.written.length := ⟨i - r.written.length, by omega⟩
    have hpos : r.written.length ≠ 0 := by
      rw [length_written]
      omega
    have hbehind :
        Occurs (r.written.toList ++ rest) (j + r.written.length) s ↔ Occurs rest j s := by
      rw [← String.length_toList]
      exact occurs_append_iff
    rw [hbehind]
    simp [hpos]

/-- In a text that starts with no reference, all of them occur behind the first character. -/
theorem occurs_cons_iff {c : Char} {cs : List Char} (h : at? (c :: cs) = none) {i : Nat}
    {r : Reference} : Occurs (c :: cs) i r ↔ ∃ j, Occurs cs j r ∧ i = j + 1 := by
  cases i with
  | zero =>
    rw [occurs_iff_at?, List.drop_zero, h]
    simp
  | succ i =>
    have hbehind : Occurs (c :: cs) (i + 1) r ↔ Occurs cs i r := @occurs_append_iff [c] cs i r
    rw [hbehind]
    simp

/-- The references found in the rest of a text, at their positions in the whole. -/
def shift (n : Nat) (found : List (Nat × Reference)) : List (Nat × Reference) :=
  found.map fun p => (p.1 + n, p.2)

theorem map_snd_shift (n : Nat) (found : List (Nat × Reference)) :
    (shift n found).map (·.2) = found.map (·.2) := by
  rw [shift, List.map_map]
  rfl

theorem mem_shift {n i : Nat} {r : Reference} {found : List (Nat × Reference)} :
    (i, r) ∈ shift n found ↔ ∃ j, (j, r) ∈ found ∧ i = j + n := by
  simp [shift, eq_comm]

/-- One behind the other, without overlap. -/
def Apart (found : List (Nat × Reference)) : Prop :=
  found.Pairwise fun p q => p.1 + p.2.written.length ≤ q.1

theorem Apart.shift {found : List (Nat × Reference)} (h : Apart found) (n : Nat) :
    Apart (shift n found) := by
  rw [Apart, Reference.shift, List.pairwise_map]
  refine h.imp fun {p q} hpq => ?_
  simp only
  omega

/-- Reading finds all references that occur in a text. -/
theorem scan_eq_occurrences (cs : List Char) : ∃ found : List (Nat × Reference),
    scan cs = found.map (·.2) ∧ (∀ i r, (i, r) ∈ found ↔ Occurs cs i r) ∧ Apart found := by
  fun_induction scan cs with
  | case1 =>
    refine ⟨[], rfl, fun i r => ?_, .nil⟩
    simp [not_occurs_nil]
  | case2 c cs r rest hat ih =>
    obtain ⟨found, hscan, hmem, hapart⟩ := ih
    obtain ⟨hr, hcs⟩ := at?_eq_some_iff.1 hat
    refine ⟨(0, r) :: shift r.written.length found, ?_, fun i s => ?_, ?_⟩
    · rw [List.map_cons, map_snd_shift, hscan]
    · rw [hcs, occurs_written_append_iff hr, List.mem_cons, Prod.mk.injEq, mem_shift]
      simp only [hmem]
    · refine List.pairwise_cons.2 ⟨?_, hapart.shift _⟩
      rintro ⟨i, s⟩ hs
      obtain ⟨j, -, rfl⟩ := mem_shift.1 hs
      simp
  | case3 c cs hat ih =>
    obtain ⟨found, hscan, hmem, hapart⟩ := ih
    refine ⟨shift 1 found, ?_, fun i r => ?_, hapart.shift 1⟩
    · rw [map_snd_shift, hscan]
    · rw [occurs_cons_iff hat, mem_shift]
      simp only [hmem]

end Reference

open Reference

/-- **What is read is what occurs.** The references of a text are those written at some position of
it, one for each such position and in the order of the positions; none of them overlaps another, so
that none is missed. The tasks that a text refers to are the tasks of its references, each at its
first place. -/
theorem references_eq_occurrences (text : String) :
    (∃ found : List (Nat × Reference), references text = found.map (·.2) ∧
      (∀ i r, (i, r) ∈ found ↔ Occurs text.toList i r) ∧
      found.Pairwise fun p q => p.1 + p.2.written.length ≤ q.1) ∧
    (∀ i r s, Occurs text.toList i r → Occurs text.toList i s → r = s) ∧
    referencedTasks text = ((references text).map (·.task)).eraseDups := by
  refine ⟨scan_eq_occurrences text.toList, fun i r s => Occurs.unique, ?_⟩
  rw [referencedTasks, distinct_eq_eraseDups]

end PipelineLens
