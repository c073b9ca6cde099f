import PipelineLens.Graph.Draw
import PipelineLens.Preview.Cache
import PipelineLens.Preview.Fetched
/-!
# Previews

A preview draws the graph of an open document. The graph of a pipeline comes from the document
alone. That of a run may take two requests to the cluster, one after the other: for the pipeline
that the run refers to, unless the run spells out its tasks, and for the run itself. If the document
has been edited by then, there is nothing to show.
-/
namespace PipelineLens

/-! ## The cluster -/

inductive Request where
  | pipeline (name : String)
  | run (name : String)
deriving DecidableEq, Repr

structure Reply where
  text : Except Error String
  /-- the version of the document after the wait, if it was edited meanwhile -/
  edited : Option Int

abbrev Client := Request → Reply

/-- What has happened since a preview was asked for. -/
structure Session where
  /-- the requests made, the first one first -/
  requests : List Request
  /-- the version of the document -/
  version : Int
deriving DecidableEq, Repr

/-- A part of a preview that may make requests. -/
abbrev Fetch := ExceptT Error (StateM Session)

def Client.ask (client : Client) (r : Request) : Fetch String := do
  modify fun s => ⟨s.requests ++ [r], (client r).edited.getD s.version⟩
  match (client r).text with
  | .ok text => return text
  | .error e => throw e

/-! ## Runs -/

/-- What a document says about a run before anything is fetched. -/
structure RunPlan where
  /-- the name of the run, if it has been given one -/
  name : Option String
  /-- the tasks, if the document spells them out -/
  inline : Option (List TaskNode)
  /-- the pipeline that the run refers to -/
  pipeline : Option String
deriving DecidableEq, Repr

namespace RunPlan

def ofDocument (d : Document) (t : Tree) : RunPlan where
  name := d.runName? t
  inline := (d.taskSpec? t).map extract
  pipeline := d.pipelineRefName? t

/-- The plan for the first run of a text. -/
def of? (p : Parsed) : Option RunPlan :=
  (p.ofKind .pipelineRun).head?.map fun d => ofDocument d p.tree

/-- The tasks of the run. -/
def tasks (plan : RunPlan) (client : Client) : Fetch (List TaskNode) :=
  match plan.inline, plan.pipeline with
  | some tasks, _ => return tasks
  | none, some name => do
    return fetchedTasks (← client.ask (.pipeline name))
  | none, none => return []

/-- The status of the run. -/
def status (plan : RunPlan) (client : Client) : Fetch (Option RunStatus) :=
  match plan.name with
  | some name => do
    return fetchedStatus? (← client.ask (.run name))
  | none => return none

end RunPlan

inductive RunPreview where
  | graph (items : List Graph.Item)
  /-- the document was edited while something was fetched -/
  | stale
deriving DecidableEq, Repr

namespace RunPlan

/-- The preview of a run of the document at `version`. -/
def preview (plan : RunPlan) (client : Client) (version : Int) (now : Instant) (options : Options) :
    Fetch RunPreview := do
  let tasks ← plan.tasks client
  let status ← plan.status client
  if (← get).version ≠ version then return .stale
  else return .graph (Graph.ofRun tasks status now options)

end RunPlan

/-! ## Open documents -/

structure Preview (κ : Type) where
  parse : String → Parsed
  options : Options
  cache : Cache κ

/-- What came of asking for the preview of a run. -/
structure RunAnswer (κ : Type) where
  result : Except Error RunPreview
  /-- the requests made, the first one first -/
  requests : List Request
  preview : Preview κ

namespace Parsed

/-- The tasks of the first pipeline of a text. -/
def pipelineTasks (p : Parsed) : List TaskNode :=
  match (p.ofKind .pipeline).head? with
  | some d => d.tasks p.tree
  | none => []

end Parsed

namespace Preview

variable {κ : Type} [DecidableEq κ]

def empty (parse : String → Parsed) (options : Options) : Preview κ := ⟨parse, options, .empty⟩

/-- The entry for a version of a document, and the preview that has it. -/
def ensure (p : Preview κ) (key : κ) (d : VersionedText) : CacheEntry × Preview κ :=
  let (entry, cache) := p.cache.ensure p.parse key d
  (entry, { p with cache := cache })

/-- Forgets a document, and says whether there was something to forget. -/
def invalidate (p : Preview κ) (key : κ) : Bool × Preview κ :=
  let (found, cache) := p.cache.invalidate key
  (found, { p with cache := cache })

/-- The graph of the first pipeline in a document. -/
def pipelineGraph (p : Preview κ) (key : κ) (d : VersionedText) :
    List Graph.Item × Preview κ :=
  let (entry, p) := p.ensure key d
  (Graph.ofPipeline entry.parsed.pipelineTasks p.options, p)

/-- The graph of the first run in a document, as it stands at `now`. -/
def runGraph (p : Preview κ) (key : κ) (d : VersionedText) (client : Client) (now : Instant) :
    RunAnswer κ :=
  let (entry, p) := p.ensure key d
  match RunPlan.of? entry.parsed with
  | none => ⟨.ok (.graph []), [], p⟩
  | some plan =>
    let (result, session) := ((plan.preview client d.version now p.options).run).run ⟨[], d.version⟩
    ⟨result, session.requests, p⟩

end Preview

end PipelineLens
