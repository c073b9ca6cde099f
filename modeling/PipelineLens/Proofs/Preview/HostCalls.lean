import PipelineLens.Host
import PipelineLens.Proofs.Preview.Protocol
import PipelineLens.Proofs.Time.Clock
import PipelineLens.Proofs.Tree.Reading
/-!
# Previews and calls of the editor

A preview fetches what it needs, while a call of the editor is handed texts that have been fetched
before. Whoever hands over the texts that a preview asked for gets the graph of this preview
(`Host.runGraph_eq_preview`): the texts belong to the requests of the first run of the document, and
from them both sides take the same tasks (`Host.runTasks_eq`) and the same status
(`Host.status_eq`).
-/
namespace PipelineLens

/-! ## The texts that were fetched -/

namespace Request

def isPipeline : Request → Bool
  | pipeline _ => true
  | run _ => false

end Request

namespace Client

/-- The text of the pipeline that was fetched by some requests, if there was one among them. -/
def pipelineText? (client : Client) (rs : List Request) : Option String :=
  (rs.find? (·.isPipeline)).bind client.text?

/-- The text of the run that was fetched by some requests, if there was one among them. -/
def runText? (client : Client) (rs : List Request) : Option String :=
  (rs.find? (!·.isPipeline)).bind client.text?

end Client

namespace Document
variable (d : Document) (t : Tree)

theorem find?_pipeline_requests :
    (d.requests t).find? (·.isPipeline) = (d.pipelineRequest t).head? := by
  unfold requests pipelineRequest runRequest
  cases d.taskSpec? t <;> cases d.pipelineRefName? t <;> cases d.runName? t <;> rfl

theorem find?_run_requests :
    (d.requests t).find? (!·.isPipeline) = (d.runRequest t).head? := by
  unfold requests pipelineRequest runRequest
  cases d.taskSpec? t <;> cases d.pipelineRefName? t <;> cases d.runName? t <;> rfl

end Document

namespace Host

/-- The tasks of the first run, from the pipeline that was fetched for it. -/
theorem runTasks_eq {p : Parsed} {run : Document} (h : (p.ofKind .pipelineRun).head? = some run)
    (client : Client) :
    runTasks p (client.pipelineText? (run.requests p.tree)) = run.runTasks p.tree client := by
  unfold runTasks Document.runTasks Client.pipelineText?
  rw [h, Option.bind_some, Document.find?_pipeline_requests]
  unfold Document.pipelineRequest
  cases run.taskSpec? p.tree with
  | some spec => rfl
  | none =>
    cases run.pipelineRefName? p.tree with
    | none => rfl
    | some name =>
      simp only [Option.map_none, Option.toList_some, List.map_cons, List.map_nil,
        List.head?_cons, Option.bind_some]
      cases client.text? (.pipeline name) <;> rfl

/-- The status of a run, from its text that was fetched. -/
theorem status_eq (run : Document) (t : Tree) (client : Client) :
    (client.runText? (run.requests t)).bind fetchedStatus? = run.runStatus? t client := by
  unfold Document.runStatus? Client.runText?
  rw [Document.find?_run_requests]
  unfold Document.runRequest
  cases run.runName? t <;> rfl

end Host

/-! ## Previews that end in a graph -/

namespace Preview
variable {κ : Type} [DecidableEq κ] {v : Preview κ} {key : κ} {d : VersionedText}
  {client : Client} {now : Instant} {items : List Graph.Item}

/-- A preview ends in a graph when there is no run, or when all requests of the run gave a text. -/
theorem runGraph_cases (h : (v.runGraph key d client now).result = .ok (.graph items)) :
    ((((v.ensure key d).1.parsed.ofKind .pipelineRun).head? = none ∧ items = [] ∧
      (v.runGraph key d client now).requests = []) ∨
    ∃ run, ((v.ensure key d).1.parsed.ofKind .pipelineRun).head? = some run ∧
      (v.runGraph key d client now).requests = run.requests (v.ensure key d).1.parsed.tree ∧
      items = Graph.ofRun (run.runTasks (v.ensure key d).1.parsed.tree client)
        (run.runStatus? (v.ensure key d).1.parsed.tree client) now v.options) := by
  unfold runGraph RunPlan.of? at h ⊢
  simp only at h ⊢
  cases hrun : ((v.ensure key d).1.parsed.ofKind .pipelineRun).head? with
  | none =>
    rw [hrun] at h
    cases h
    exact .inl ⟨rfl, rfl, rfl⟩
  | some run =>
    rw [hrun, Option.map_some] at h
    simp only at h
    rw [Option.map_some]
    simp only
    rw [RunPlan.run_preview] at h ⊢
    cases hfail : client.failure? (run.requests (v.ensure key d).1.parsed.tree) with
    | some e =>
      rw [hfail] at h
      cases h
    | none =>
      rw [hfail] at h
      simp only at h
      split at h
      · cases h
      · cases h
        refine .inr ⟨run, rfl, ?_, rfl⟩
        unfold Session.after
        rw [Client.asked_eq hfail]
        rfl

end Preview

namespace Host
variable {κ : Type} [DecidableEq κ] {v : Preview κ} {key : κ} {d : VersionedText}
  {client : Client} {p : Parsed} {tree options : String} {ms : Int}

/-- **Calls of the editor draw what previews draw.** For a document whose entry holds the tree that
the editor sends, the graphs of the pipeline are the same. When the preview of the run ends in a
graph, the editor gets it as well if it hands over the text of the pipeline and that of the run just
when the preview fetched them, and the whole number of milliseconds as a double, which there always
is. -/
theorem runGraph_eq_preview (hread : Parsed.read tree = .ok p)
    (hentry : (v.ensure key d).1.parsed = p) (hoptions : v.options = .ofText options)
    (hms : Instant.inCalendar ms = true) (client : Client) :
    pipelineGraph tree options = .ok (v.pipelineGraph key d).1 ∧
    (∃ reading : Binary64, reading.IsWhole ms) ∧
    ∀ items, (v.runGraph key d client (.ofMillis ms)).result = .ok (.graph items) →
      ∀ reading : Binary64, reading.IsWhole ms →
        runGraph tree
          (client.pipelineText? (v.runGraph key d client (.ofMillis ms)).requests)
          (client.runText? (v.runGraph key d client (.ofMillis ms)).requests)
          reading options = .ok items := by
  refine ⟨?_, Instant.exists_isWhole_of_inCalendar hms, ?_⟩
  · unfold pipelineGraph Preview.pipelineGraph
    rw [hread, ← hentry, ← hoptions]
    rfl
  · intro items hitems reading hreading
    unfold runGraph
    rw [hread, ← hoptions, Instant.ofClock_eq hreading hms]
    obtain ⟨hrun, rfl, hrequests⟩ | ⟨run, hrun, hrequests, rfl⟩ := Preview.runGraph_cases hitems
    · -- without a run nothing was fetched, and there are no tasks to draw
      have htasks : runTasks p none = [] := by
        unfold runTasks
        rw [← hentry, hrun]
        rfl
      rw [hrequests]
      change Except.ok (Graph.ofRun (runTasks p none) none _ _) = _
      rw [htasks]
      rfl
    · rw [hrequests, hentry, ← status_eq, ← runTasks_eq (hentry ▸ hrun)]
      rfl

/-- A cluster that knows every pipeline and every run. -/
def knowingClient : Client
  | .pipeline _ => ⟨.ok "spec:\n  tasks:\n  - name: build", none⟩
  | .run _ => ⟨.ok "taskRuns: []", none⟩

/-- A preview of documents that all read as the same run. -/
def runPreview : Preview Unit := .empty (fun _ => .runParsed) (.ofText "")

theorem runGraph_eq_preview_runText :
    (runPreview.runGraph () ⟨1, ""⟩ knowingClient (.ofMillis 1500)).requests
      = [.pipeline "p", .run "r"] ∧
    ∃ items,
      (runPreview.runGraph () ⟨1, ""⟩ knowingClient (.ofMillis 1500)).result = .ok (.graph items) ∧
      runGraph Parsed.runText (some "spec:\n  tasks:\n  - name: build") (some "taskRuns: []")
        ⟨0x4097700000000000⟩ "" = .ok items := by
  have hrequests : (runPreview.runGraph () ⟨1, ""⟩ knowingClient (.ofMillis 1500)).requests
      = [.pipeline "p", .run "r"] := by
    decide +kernel
  obtain ⟨items, hitems⟩ : ∃ items,
      (runPreview.runGraph () ⟨1, ""⟩ knowingClient (.ofMillis 1500)).result
        = .ok (.graph items) := ⟨_, rfl⟩
  have hentry : (runPreview.ensure () ⟨1, ""⟩).1.parsed = .runParsed := rfl
  have hoptions : runPreview.options = .ofText "" := rfl
  have hms : Instant.inCalendar 1500 = true := by decide
  obtain ⟨-, -, hgraph⟩ :=
    runGraph_eq_preview Parsed.read_runText hentry hoptions hms knowingClient
  refine ⟨hrequests, items, hitems, ?_⟩
  have hsame := hgraph items hitems ⟨0x4097700000000000⟩ (by decide)
  rw [hrequests] at hsame
  exact hsame

end Host

end PipelineLens
