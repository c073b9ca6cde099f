import PipelineLens.Distinct
import PipelineLens.Text.Blank
/-!
# References to results

A text refers to a result of a task by `$(tasks.<task>.results.<result>)`. Neither name is empty or
has a point, a closing parenthesis or white space in it, so a reference is determined by where it
starts. `references` reads a text from left to right and goes on behind each reference it finds.
-/
namespace PipelineLens

structure Reference where
  task : String
  result : String
deriving DecidableEq, Repr

namespace Reference

/-- A character that a name may have. -/
def isNameChar (c : Char) : Bool := c ≠ '.' && c ≠ ')' && !Text.isBlank c

/-- What follows `mark` at the start of the text. -/
def after? : List Char → List Char → Option (List Char)
  | [], cs => some cs
  | _ :: _, [] => none
  | m :: ms, c :: cs => if m = c then after? ms cs else none

/-- The name at the start of the text, and what follows it. -/
def name? (cs : List Char) : Option (List Char × List Char) :=
  if (cs.takeWhile isNameChar).isEmpty then none
  else some (cs.takeWhile isNameChar, cs.dropWhile isNameChar)

/-- The reference at the start of the text, and what follows it. -/
def at? (cs : List Char) : Option (Reference × List Char) := do
  let (task, rest) ← name? (← after? "$(tasks.".toList cs)
  let (result, rest) ← name? (← after? ".results.".toList rest)
  let rest ← after? [')'] rest
  some (⟨String.ofList task, String.ofList result⟩, rest)

theorem length_after? {mark cs rest : List Char} (h : after? mark cs = some rest) :
    rest.length + mark.length = cs.length := by
  induction mark generalizing cs with
  | nil =>
    cases h
    rfl
  | cons m ms ih =>
    cases cs with
    | nil => simp [after?] at h
    | cons c cs =>
      by_cases hm : m = c
      · have := ih (by simpa [after?, hm] using h)
        simp only [List.length_cons]
        omega
      · simp [after?, hm] at h

theorem length_name? {cs name rest : List Char} (h : name? cs = some (name, rest)) :
    rest.length ≤ cs.length := by
  unfold name? at h
  split at h
  · cases h
  · cases h
    exact (List.dropWhile_sublist _).length_le

theorem length_at? {cs rest : List Char} {r : Reference} (h : at? cs = some (r, rest)) :
    rest.length < cs.length := by
  simp only [at?, Option.bind_eq_bind, Option.bind_eq_some_iff] at h
  obtain ⟨c₁, h₁, ⟨_, c₂⟩, h₂, c₃, h₃, ⟨_, c₄⟩, h₄, c₅, h₅, h⟩ := h
  cases h
  have := length_after? h₁
  have := length_name? h₂
  have := length_after? h₃
  have := length_name? h₄
  have := length_after? h₅
  simp at *
  omega

/-- All references in a text, in their order. -/
def scan : List Char → List Reference
  | [] => []
  | c :: cs =>
    match _h : at? (c :: cs) with
    | some (r, rest) => r :: scan rest
    | none => scan cs
termination_by cs => cs.length
decreasing_by
  · exact length_at? _h
  · simp

end Reference

/-- All references in a text, in their order. -/
def references (text : String) : List Reference := Reference.scan text.toList

/-- The tasks whose results a text refers to. -/
def referencedTasks (text : String) : List String := distinct ((references text).map (·.task))

end PipelineLens
