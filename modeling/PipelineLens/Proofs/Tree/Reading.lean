import PipelineLens.Proofs.Tree.ReadBack
/-!
# Trees that have been read

Whatever tree is accepted as JSON text has been placed by a layout, so its nodes are linked both
ways (`Parsed.linked_of_read`).
-/
namespace PipelineLens

namespace Parsed

/-- A tree that is accepted is that of some documents. -/
theorem exists_drafts_of_read {text : String} {p : Parsed} (h : read text = .ok p) :
    ∃ drafts, ofDrafts drafts = p := by
  unfold read at h
  split at h
  · cases h
  · rename_i documents _
    cases hhost : ofHost documents with
    | error fault =>
      rw [hhost] at h
      cases h
    | ok p' =>
      rw [hhost] at h
      obtain rfl : p' = p := by simpa [Except.mapError] using h
      obtain ⟨drafts, -, hdrafts⟩ := ofHost_eq_ok.1 hhost
      exact ⟨drafts, hdrafts⟩

theorem linked_of_read {text : String} {p : Parsed} (h : read text = .ok p) : p.Linked := by
  obtain ⟨drafts, rfl⟩ := exists_drafts_of_read h
  exact linked_ofDrafts drafts

/-! ## A run as the host sends it -/

/-- A run with a name and one parameter, of a pipeline that it refers to. Each record is a list of
its fields. -/
def runText : String := r#"[[[[["MAPPING", "", 0, 133, [
  ["PAIR", "", 0, 17, [], [], ["SCALAR", "kind", 0, 4], ["SCALAR", "PipelineRun", 6, 17]],
  ["PAIR", "", 18, 43, [], [],
    ["SCALAR", "apiVersion", 18, 28], ["SCALAR", "tekton.dev/v1", 30, 43]],
  ["PAIR", "", 44, 63, [], [], ["SCALAR", "metadata", 44, 52], ["MAPPING", "", 56, 63, [
    ["PAIR", "", 56, 63, [], [], ["SCALAR", "name", 56, 60], ["SCALAR", "r", 62, 63]]]]],
  ["PAIR", "", 64, 133, [], [], ["SCALAR", "spec", 64, 68], ["MAPPING", "", 72, 133, [
    ["PAIR", "", 72, 96, [], [], ["SCALAR", "pipelineRef", 72, 83], ["MAPPING", "", 89, 96, [
      ["PAIR", "", 89, 96, [], [], ["SCALAR", "name", 89, 93], ["SCALAR", "p", 95, 96]]]]],
    ["PAIR", "", 99, 133, [], [], ["SCALAR", "params", 99, 105], ["SEQ", "", 109, 133, [], [
      ["MAPPING", "", 111, 133, [
        ["PAIR", "", 111, 118, [], [], ["SCALAR", "name", 111, 115], ["SCALAR", "a", 117, 118]],
        ["PAIR", "", 123, 133, [], [], ["SCALAR", "value", 123, 128],
          ["SEQ", "", 130, 133, [], [["SCALAR", "x", 131, 132]]]]]]]]]]]]]]], [], 0, 134]]]"#

/-- The layout of the run. -/
def runLayout : Layout :=
  .mapping "" 0 133 [
    .pair 0 17 (.scalar "kind" 0 4) (.scalar "PipelineRun" 6 17),
    .pair 18 43 (.scalar "apiVersion" 18 28) (.scalar "tekton.dev/v1" 30 43),
    .pair 44 63 (.scalar "metadata" 44 52) (.mapping "" 56 63 [
      .pair 56 63 (.scalar "name" 56 60) (.scalar "r" 62 63)]),
    .pair 64 133 (.scalar "spec" 64 68) (.mapping "" 72 133 [
      .pair 72 96 (.scalar "pipelineRef" 72 83) (.mapping "" 89 96 [
        .pair 89 96 (.scalar "name" 89 93) (.scalar "p" 95 96)]),
      .pair 99 133 (.scalar "params" 99 105) (.sequence "" 109 133 [
        .mapping "" 111 133 [
          .pair 111 118 (.scalar "name" 111 115) (.scalar "a" 117 118),
          .pair 123 133 (.scalar "value" 123 128)
            (.sequence "" 130 133 [.scalar "x" 131 132])]])])]

/-- The tree of the run. -/
def runParsed : Parsed := .ofDrafts [⟨[runLayout], [], 0, 134⟩]

/-- How a text reads, from its characters instead of its bytes. -/
theorem written_eq {text : String} {cs : List Char} (h : text.toList = cs) :
    Json.Written.read? text = (Json.tokens? cs).bind fun tokens =>
      (tokens.foldlM Json.Progress.step? Json.Progress.start).bind Json.Progress.result? := by
  subst h
  rfl

theorem read_of_toOption {text : String} {p : Parsed} (h : (read text).toOption = some p) :
    read text = .ok p := by
  cases hread : read text with
  | error e =>
    rw [hread] at h
    cases h
  | ok p' =>
    rw [hread] at h
    rw [Option.some.inj h]

set_option maxRecDepth 8000 in
theorem read_runText : read runText = .ok runParsed := by
  have hchars : runText.toList = _ := String.toList_ofList
  refine read_of_toOption ?_
  rw [read, written_eq hchars]
  decide +kernel

end Parsed

end PipelineLens
