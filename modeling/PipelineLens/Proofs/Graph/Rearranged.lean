import PipelineLens.Proofs.Graph.Shape
import PipelineLens.Proofs.Spec.Rearranged
import PipelineLens.Proofs.Unrepeated
/-!
# Drawing tasks declared in another order

A drawing lists what its tasks look like, each by itself, but for one thing: an edge has the state
of the first task with the id of its source. Where tasks that share an id are in one state, as they
are without run data and wherever no id is shared, a drawing in another order has the same items
(`perm_draw`), and so the order in which a spec declares its tasks does not matter (`perm_graph`).
-/
namespace PipelineLens

open SpecView

namespace Graph

/-- Two tasks are drawn as one node, and have the same edges in any order. -/
structure LooksLike (d : Decoration) (r s : RunNode) : Prop where
  node : nodeOf d r = nodeOf d s
  runAfter : r.task.runAfter.Perm s.task.runAfter

theorem LooksLike.id {d : Decoration} {r s : RunNode} (h : LooksLike d r s) :
    r.task.id = s.task.id := congrArg Node.id h.node

/-- Tasks with the same id are shown in the same state. -/
def OneState (d : Decoration) (tasks : List RunNode) : Prop :=
  ∀ r ∈ tasks, ∀ s ∈ tasks, ∀ id, r.task.id = some id → s.task.id = some id →
    (nodeOf d r).state = (nodeOf d s).state

section
variable {d : Decoration} {xs ys : List RunNode} (h : Reordered (LooksLike d) xs ys)
include h

/-- What an entry of `runAfter` stands for does not depend on the order of the tasks. -/
theorem listedEdge?_eq_of_reordered (hone : OneState d xs) (id dependency : String) :
    listedEdge? d xs id dependency = listedEdge? d ys id dependency := by
  unfold listedEdge?
  by_cases hself : dependency = id
  · rw [if_pos hself, if_pos hself]
  rw [if_neg hself, if_neg hself]
  cases hx : xs.find? fun t => t.task.id = some dependency with
  | none =>
    have hnone : ys.find? (fun t => t.task.id = some dependency) = none := by
      refine List.find?_eq_none.2 fun s hs hid => ?_
      obtain ⟨r, hr, hrs⟩ := h.exists_left hs
      refine List.find?_eq_none.1 hx r hr ?_
      rw [hrs.id]
      exact hid
    rw [hnone]
  | some r =>
    have hr := List.mem_of_find?_eq_some hx
    have hrid : r.task.id = some dependency := by simpa using List.find?_some hx
    obtain ⟨s', hs', hrs'⟩ := h.exists_right hr
    obtain ⟨s, hs⟩ : ∃ s, ys.find? (fun t => t.task.id = some dependency) = some s := by
      refine Option.isSome_iff_exists.1 (List.find?_isSome.2 ⟨s', hs', ?_⟩)
      rw [← hrs'.id]
      exact decide_eq_true hrid
    have hsid : s.task.id = some dependency := by simpa using List.find?_some hs
    -- the first task of the other order looks like some task with the id here
    obtain ⟨r', hr', hlook⟩ := h.exists_left (List.mem_of_find?_eq_some hs)
    have hstate : (nodeOf d r).state = (nodeOf d s).state := by
      rw [← hlook.node]
      exact hone r hr r' hr' dependency hrid (hlook.id.trans hsid)
    rw [hs, Option.map_some, Option.map_some]
    exact congrArg (fun state => some (Edge.mk _ dependency id state)) hstate

theorem perm_listing (hone : OneState d xs) : (listing d xs).Perm (listing d ys) := by
  refine reordered_eq_iff.1 (h.flatMap fun r s hrs => reordered_eq_iff.2 ?_)
  rw [hrs.node]
  refine .cons _ (.map _ ?_)
  unfold listedEdges
  rw [hrs.id]
  cases s.task.id with
  | none => exact .nil
  | some id =>
    have hsame : listedEdge? d xs id = listedEdge? d ys id :=
      funext (listedEdge?_eq_of_reordered h hone id)
    simp only [hsame]
    exact hrs.runAfter.filterMap _

/-- A drawing in another order has the same items. -/
theorem perm_draw (hone : OneState d xs) : (draw d xs).Perm (draw d ys) := by
  rw [draw, draw, drawOn_eq, drawOn_eq]
  exact perm_listing h hone

end

/-- With the same run data, tasks that are alike look alike. -/
theorem looksLike_of_alike (d : Decoration) {n : TaskNode} {r : RunNode} (h : Alike n r.task) :
    LooksLike d { r with task := n } r where
  node := by
    simp only [nodeOf, label, progress?, elapsed?, h.id, h.name, h.kind, h.taskRef]
  runAfter := h.runAfter

/-- A status says the same about tasks that are alike. -/
theorem find?_eq_of_alike (status : RunStatus) {n m : TaskNode} (h : Alike n m) :
    status.find? n = status.find? m := by
  simp only [RunStatus.find?, h.name, h.kind]

variable {xs ys : List TaskNode} (h : Reordered Alike xs ys)
include h

theorem perm_ofPipeline (options : Options) :
    (ofPipeline xs options).Perm (ofPipeline ys options) :=
  have hlook : Reordered (LooksLike ⟨false, .epoch, options⟩) (xs.map .plain) (ys.map .plain) :=
    h.map fun _ m hnm => looksLike_of_alike _ (r := .plain m) hnm
  perm_draw hlook fun _ _ _ _ _ _ _ => rfl

theorem reordered_overlay (d : Decoration) (status : Option RunStatus) :
    Reordered (LooksLike d) (overlay xs status) (overlay ys status) := by
  rw [overlay_eq, overlay_eq]
  refine h.map fun n m hnm => ?_
  have hfind : (status.bind fun s => s.find? n) = status.bind fun s => s.find? m := by
    cases status with
    | none => rfl
    | some s => exact find?_eq_of_alike s hnm
  rw [hfind]
  cases status.bind fun s => s.find? m with
  | none => exact looksLike_of_alike d (r := .plain m) hnm
  | some found => exact looksLike_of_alike d (r := .ofStatus m found) hnm

theorem perm_ofRun (hdistinct : (xs.filterMap (·.id)).Nodup) (status : Option RunStatus)
    (now : Instant) (options : Options) :
    (ofRun xs status now options).Perm (ofRun ys status now options) := by
  refine perm_draw (reordered_overlay h _ status) fun r hr s hs id hrid hsid => ?_
  have hruns : ((overlay xs status).filterMap (·.task.id)).Nodup := by
    have := map_task_overlay xs status
    rw [← this, List.filterMap_map] at hdistinct
    exact hdistinct
  rw [eq_of_nodup_filterMap hruns hr hs hrid hsid]

end Graph

/-- **The order of declaration does not matter.** Let the items under `tasks` and under `finally` of
two specs look the same in any order; within one kind of spec, let the ones be a permutation of the
others. Then both are drawn with the same nodes and edges, each as often, and if no id is shared,
they are also drawn so with run data. -/
theorem perm_graph {σ τ : Type} [SpecView σ] [SpecView τ] {R : σ → τ → Prop} (h : Simulation R)
    {a : σ} {b : τ} (htasks : Rearranged R a b "tasks") (hfinally : Rearranged R a b "finally")
    (options : Options) :
    (Graph.ofPipeline (extract a) options).Perm (Graph.ofPipeline (extract b) options) ∧
    (((extract a).filterMap (·.id)).Nodup → ∀ (status : Option RunStatus) (now : Instant),
      (Graph.ofRun (extract a) status now options).Perm
        (Graph.ofRun (extract b) status now options)) := by
  have hnodes := h.reordered_extract htasks hfinally
  constructor
  · exact Graph.perm_ofPipeline hnodes options
  · intro hdistinct status now
    exact Graph.perm_ofRun hnodes hdistinct status now options

/-- `b` comes before the task that it waits for, and has a guard for what that task results in. -/
def forwardSpec : Json := .object [
  ("finally", .array [.object [("name", .string "y")], .object [("name", .string "z")]]),
  ("tasks", .array [
    .object [
      ("conditions", .array [.object [("conditionRef", .string "c")]]),
      ("name", .string "b"),
      ("runAfter", .array [.string "a"]),
      ("when", .array [.object [("input", .string "$(tasks.a.results.x)")]])],
    .object [("name", .string "a")],
    .string "no task",
    .object [("name", .string "e"), ("runAfter", .array [.string "e"])]])]

/-- The same spec with its entries turned around. -/
def turnedSpec : Json := .object [
  ("finally", .array [.object [("name", .string "z")], .object [("name", .string "y")]]),
  ("tasks", .array [
    .object [("name", .string "e"), ("runAfter", .array [.string "e"])],
    .string "no task",
    .object [("name", .string "a")],
    .object [
      ("conditions", .array [.object [("conditionRef", .string "c")]]),
      ("name", .string "b"),
      ("runAfter", .array [.string "a"]),
      ("when", .array [.object [("input", .string "$(tasks.a.results.x)")]])]])]

/-- A run in which `a` has started. -/
def startedStatus : RunStatus :=
  ⟨[("run-a", ⟨some "a", some ⟨[], some "2021-01-01T00:00:00Z", none, none⟩, []⟩)]⟩

theorem perm_graph_turnedSpec : Rearranged Eq forwardSpec turnedSpec "tasks" ∧
    Rearranged Eq forwardSpec turnedSpec "finally" ∧
    (Graph.ofPipeline (extract forwardSpec) .default).Perm
      (Graph.ofPipeline (extract turnedSpec) .default) ∧
    ((extract forwardSpec).filterMap (·.id)).Nodup ∧
    (Graph.ofRun (extract forwardSpec) (some startedStatus) .epoch .default).Perm
      (Graph.ofRun (extract turnedSpec) (some startedStatus) .epoch .default) := by
  have hturned : ∀ key, fieldItems forwardSpec key = (fieldItems turnedSpec key).reverse →
      Rearranged Eq forwardSpec turnedSpec key := fun key hkey =>
    reordered_eq_iff.2 (hkey ▸ List.reverse_perm _)
  have htasks := hturned "tasks" rfl
  have hfinally := hturned "finally" rfl
  have hdistinct : ((extract forwardSpec).filterMap (·.id)).Nodup := by decide
  obtain ⟨hpipeline, hrun⟩ := perm_graph (simulation_eq Json) htasks hfinally .default
  exact ⟨htasks, hfinally, hpipeline, hdistinct, hrun hdistinct (some startedStatus) .epoch⟩

end PipelineLens
