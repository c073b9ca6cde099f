import PipelineLens.Preview.Basic
/-!
# The protocol of run previews

What a preview of a run asks the cluster is settled before the first request: `Document.requests`
lists it. The requests are made in this order and up to the first that fails (`Client.asked`).
`Asks` states this of a part of a preview and composes along its steps, so that the answer of
`runGraph` can be read off the list: the failure, or that the document has been edited meanwhile, or
the graph (`Preview.runGraph_eq`).
-/
namespace PipelineLens

/-! ## Lists of requests -/

namespace Client

/-- The text that a request gives, unless it fails. -/
def text? (client : Client) (r : Request) : Option String := (client r).text.toOption

/-- The requests that are made of a list: none after one that fails. -/
def asked (client : Client) : List Request → List Request
  | [] => []
  | r :: rs =>
    match (client r).text with
    | .ok _ => r :: client.asked rs
    | .error _ => [r]

/-- The first failure among requests. -/
def failure? (client : Client) : List Request → Option Error
  | [] => none
  | r :: rs =>
    match (client r).text with
    | .ok _ => client.failure? rs
    | .error e => some e

/-- The version of the document after some requests: that of the last edit, if there was one. -/
def versionAfter (client : Client) (version : Int) (rs : List Request) : Int :=
  rs.foldl (fun version r => (client r).edited.getD version) version

variable {client : Client} {rs : List Request}

theorem asked_append (client : Client) (rs rs' : List Request) :
    client.asked (rs ++ rs')
      = client.asked rs ++ if client.failure? rs = none then client.asked rs' else [] := by
  induction rs with
  | nil => rfl
  | cons r rs ih =>
    rw [List.cons_append, asked, asked, failure?]
    cases (client r).text with
    | ok text => simp only [ih, List.cons_append]
    | error e => rfl

theorem failure?_append (client : Client) (rs rs' : List Request) :
    client.failure? (rs ++ rs') = (client.failure? rs).or (client.failure? rs') := by
  induction rs with
  | nil => rfl
  | cons r rs ih =>
    rw [List.cons_append, failure?, failure?]
    cases (client r).text with
    | ok text => exact ih
    | error e => rfl

/-- As long as nothing fails, all requests are made. -/
theorem asked_eq (h : client.failure? rs = none) : client.asked rs = rs := by
  induction rs with
  | nil => rfl
  | cons r rs ih =>
    rw [failure?] at h
    rw [asked]
    cases ht : (client r).text with
    | ok text =>
      rw [ht] at h
      rw [ih h]
    | error e =>
      rw [ht] at h
      cases h

end Client

/-! ## What a run asks for -/

namespace Document

/-- The request for the pipeline that a run refers to, unless the run spells out its tasks. -/
def pipelineRequest (d : Document) (t : Tree) : List Request :=
  match d.taskSpec? t with
  | some _ => []
  | none => (d.pipelineRefName? t).toList.map .pipeline

/-- The request for the run itself, if it has been given a name. -/
def runRequest (d : Document) (t : Tree) : List Request := (d.runName? t).toList.map .run

/-- What the preview of a run asks the cluster, the first request first. -/
def requests (d : Document) (t : Tree) : List Request := d.pipelineRequest t ++ d.runRequest t

/-- The tasks of a run: its own, those of the pipeline that it refers to, or none. -/
def runTasks (d : Document) (t : Tree) (client : Client) : List TaskNode :=
  match d.taskSpec? t with
  | some spec => extract spec
  | none =>
    match (d.pipelineRefName? t).bind fun name => client.text? (.pipeline name) with
    | some text => fetchedTasks text
    | none => []

/-- The status of a run, if it has been given a name and its text can be read. -/
def runStatus? (d : Document) (t : Tree) (client : Client) : Option RunStatus :=
  ((d.runName? t).bind fun name => client.text? (.run name)).bind fetchedStatus?

end Document

/-! ## Parts of a preview -/

/-- The session after those of the requests that are made. -/
def Session.after (s : Session) (client : Client) (rs : List Request) : Session :=
  ⟨s.requests ++ client.asked rs, client.versionAfter s.version (client.asked rs)⟩

theorem Session.after_append {client : Client} {rs : List Request} (h : client.failure? rs = none)
    (s : Session) (rs' : List Request) :
    s.after client (rs ++ rs') = (s.after client rs).after client rs' := by
  unfold Session.after Client.versionAfter
  rw [Client.asked_append, if_pos h, List.foldl_append, List.append_assoc]

/-- After a failure nothing more is asked for. -/
theorem Session.after_append_of_failure {client : Client} {rs : List Request} {e : Error}
    (h : client.failure? rs = some e) (s : Session) (rs' : List Request) :
    s.after client (rs ++ rs') = s.after client rs := by
  have hne : client.failure? rs ≠ none := by
    rw [h]
    exact Option.some_ne_none e
  unfold Session.after
  rw [Client.asked_append, if_neg hne, List.append_nil]

/-- `m` makes the requests `rs` and, unless one fails, gives `a`. -/
def Asks {α : Type} (client : Client) (m : Fetch α) (rs : List Request) (a : α) : Prop :=
  ∀ s, m.run.run s = (match client.failure? rs with | some e => .error e | none => .ok a,
    s.after client rs)

namespace Asks
variable {α β : Type} {client : Client} {m : Fetch α} {rs : List Request} {a : α}

theorem pure (client : Client) (a : α) : Asks client (Pure.pure a : Fetch α) [] a := by
  intro s
  unfold Session.after
  rw [Client.asked, List.append_nil]
  rfl

/-- One request, whose text `f` reads; what `f` gives does not matter if the request fails. -/
theorem ask (client : Client) (r : Request) (f : String → α)
    (h : ∀ text, client.text? r = some text → f text = a) :
    Asks client (do return f (← client.ask r)) [r] a := by
  intro s
  unfold Session.after Client.ask
  rw [Client.asked, Client.failure?]
  cases ht : (client r).text with
  | ok text =>
    have htext : client.text? r = some text := by
      unfold Client.text?
      rw [ht]
      rfl
    rw [← h text htext]
    rfl
  | error e => rfl

/-- What comes after a part starts from its session, and is left out if the part fails. -/
theorem run_bind (h : Asks client m rs a) (f : α → Fetch β) (s : Session) :
    (m >>= f).run.run s =
      match client.failure? rs with
      | some e => (.error e, s.after client rs)
      | none => (f a).run.run (s.after client rs) := by
  rw [ExceptT.run_bind, StateT.run_bind, h s]
  cases client.failure? rs <;> rfl

end Asks

namespace RunPlan

theorem asks_tasks (d : Document) (t : Tree) (client : Client) :
    Asks client ((ofDocument d t).tasks client) (d.pipelineRequest t) (d.runTasks t client) := by
  unfold tasks ofDocument Document.pipelineRequest Document.runTasks
  cases d.taskSpec? t with
  | some spec => exact Asks.pure client _
  | none =>
    cases d.pipelineRefName? t with
    | none => exact Asks.pure client _
    | some name =>
      apply Asks.ask client (.pipeline name) fetchedTasks
      intro text htext
      rw [Option.bind_some, htext]

theorem asks_status (d : Document) (t : Tree) (client : Client) :
    Asks client ((ofDocument d t).status client) (d.runRequest t) (d.runStatus? t client) := by
  unfold status ofDocument Document.runRequest Document.runStatus?
  cases d.runName? t with
  | none => exact Asks.pure client _
  | some name =>
    apply Asks.ask client (.run name) fetchedStatus?
    intro text htext
    rw [Option.bind_some, htext, Option.bind_some]

/-- At the end of a preview the document must have the version that it had at the start. -/
theorem run_guard (version : Int) (items : List Graph.Item) (s : Session) :
    (do if (← get).version ≠ version then return RunPreview.stale
        else return .graph items : Fetch RunPreview).run.run s
      = (if s.version ≠ version then .ok .stale else .ok (.graph items), s) := by
  change (if s.version ≠ version then pure RunPreview.stale
    else pure (.graph items) : Fetch RunPreview).run.run s = _
  by_cases h : s.version ≠ version
  · rw [if_pos h, if_pos h]
    rfl
  · rw [if_neg h, if_neg h]
    rfl

/-- A preview makes the requests of the run. It looks at the version of the document when it is
past them. -/
theorem run_preview (d : Document) (t : Tree) (client : Client) (version : Int) (now : Instant)
    (options : Options) (s : Session) :
    ((ofDocument d t).preview client version now options).run.run s =
      (match client.failure? (d.requests t) with
        | some e => .error e
        | none =>
          if (s.after client (d.requests t)).version ≠ version then .ok .stale
          else .ok (.graph (Graph.ofRun (d.runTasks t client) (d.runStatus? t client) now options)),
        s.after client (d.requests t)) := by
  unfold preview
  rw [(asks_tasks d t client).run_bind, Document.requests, Client.failure?_append]
  cases htasks : client.failure? (d.pipelineRequest t) with
  | some e => rw [Session.after_append_of_failure htasks, Option.some_or]
  | none =>
    rw [Session.after_append htasks, Option.none_or]
    simp only
    rw [(asks_status d t client).run_bind]
    cases client.failure? (d.runRequest t) with
    | some e => rfl
    | none => exact run_guard version _ _

end RunPlan

/-! ## The answer -/

namespace Preview

variable {κ : Type} [DecidableEq κ]

/-- **The protocol of run previews.** All that a preview reads of a document is in one entry: the
one that the cache has for the version at the start or, if it has none for that version, what the
text reads as. The cache keeps it, and its other entries. Without a run the graph is empty, and
nothing is asked for. Otherwise the requests of the run are made up to the first that fails, whose
error is the result. If none fails, the preview is stale when the version after the requests is
another one, and else the graph of the tasks with the status. -/
theorem runGraph_eq (p : Preview κ) (key : κ) (d : VersionedText) (client : Client)
    (now : Instant) :
    (p.ensure key d).1.version = d.version ∧
    (p.cache.get? key = some (p.ensure key d).1 ∨
      p.cache.version? key ≠ some d.version ∧ (p.ensure key d).1.parsed = p.parse d.text ∧
        (p.ensure key d).1.lines = LineTable.ofText .char d.text) ∧
    (∀ other, (p.ensure key d).2.cache.get? other
      = if key = other then some (p.ensure key d).1 else p.cache.get? other) ∧
    p.runGraph key d client now =
      match ((p.ensure key d).1.parsed.ofKind .pipelineRun).head? with
      | none => ⟨.ok (.graph []), [], (p.ensure key d).2⟩
      | some run =>
        let t := (p.ensure key d).1.parsed.tree
        { result :=
            match client.failure? (run.requests t) with
            | some e => .error e
            | none =>
              if client.versionAfter d.version (run.requests t) ≠ d.version then .ok .stale
              else .ok (.graph
                (Graph.ofRun (run.runTasks t client) (run.runStatus? t client) now p.options))
          requests := client.asked (run.requests t)
          preview := (p.ensure key d).2 } := by
  refine ⟨Cache.version_ensure p.parse p.cache key d, Cache.entry_ensure p.parse p.cache key d,
    fun other => Cache.get?_ensure p.parse p.cache key other d, ?_⟩
  unfold runGraph RunPlan.of?
  simp only
  cases ((p.ensure key d).1.parsed.ofKind .pipelineRun).head? with
  | none => rfl
  | some run =>
    rw [Option.map_some]
    simp only
    rw [RunPlan.run_preview]
    cases hfail : client.failure? (run.requests (p.ensure key d).1.parsed.tree) with
    | some e => rfl
    | none =>
      unfold Session.after
      rw [Client.asked_eq hfail]
      rfl

end Preview

end PipelineLens
