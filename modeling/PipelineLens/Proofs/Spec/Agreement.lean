import PipelineLens.Proofs.Resource
import PipelineLens.Proofs.Spec.Simulation
import PipelineLens.Proofs.Tree.Json
import PipelineLens.Spec.Definition
import PipelineLens.Tree.Layout
/-!
# A spec in a text and as JSON

The tasks of an open document are read from its parse tree, those of a fetched definition from
JSON. `Tree.Shows` relates a value of the tree to its JSON; where no mapping has a key twice and
pairs stand in mappings only, both look the same to extraction (`Tree.simulation_shows`). So a
document and the JSON of its root have the same tasks (`tasks_eq_definitionTasks`).
-/
namespace PipelineLens

open SpecView

namespace Tree

/-- `j` is the JSON of the value `a` of the tree. -/
def Shows (t : Tree) (a : TreeNode) (j : Json) : Prop :=
  ∃ id, t.IsValue id ∧ a = ⟨t, id⟩ ∧ j = t.toJson id

variable {t : Tree} {id : Nat}

/-! ## The answers of the two views -/

theorem isMapping_toJson (h : t.IsValue id) :
    SpecView.isMapping (t.toJson id) = t.isMapping id := by
  obtain ⟨n, hn, ⟨hb, hj⟩ | ⟨pairs, hb, hj⟩ | ⟨items, hb, hj⟩⟩ := h.cases
  all_goals simp [hj, isMapping, hn, Node.isMapping, hb, SpecView.isMapping, Json.ofFields]

theorem text?_toJson (h : t.IsValue id) : SpecView.text? (t.toJson id) = t.scalarText? id := by
  obtain ⟨n, hn, ⟨hb, hj⟩ | ⟨pairs, hb, hj⟩ | ⟨items, hb, hj⟩⟩ := h.cases
  all_goals simp [hj, scalarText?, hn, hb, SpecView.text?, Json.ofFields]

theorem items_toJson (h : t.IsValue id) :
    SpecView.items (t.toJson id) = (t.items id).map t.toJson := by
  obtain ⟨n, hn, ⟨hb, hj⟩ | ⟨pairs, hb, hj⟩ | ⟨items, hb, hj⟩⟩ := h.cases
  all_goals simp [hj, Tree.items, body?, hn, hb, SpecView.items, Json.ofFields]

/-- Under a key the object has the JSON of what the mapping has, and a key without a value counts as
missing in both. -/
theorem field?_toJson (hk : t.DistinctKeys) (hp : t.PairsInMappings) (h : t.IsValue id)
    (key : String) :
    SpecView.field? (t.toJson id) key = (t.findValue? id key).map t.toJson := by
  obtain ⟨n, hn, ⟨hb, hj⟩ | ⟨pairs, hb, -⟩ | ⟨items, hb, hj⟩⟩ := h.cases
  · simp [hj, SpecView.field?, Json.field?, findValue?, findPair?, Tree.pairs, body?, hn, hb]
  · change ((t.toJson id).field? key).filter (fun j => !j.isNull) = _
    rw [hk.lookup_toJson hn hb, findValue?]
    cases hf : t.findPair? id key with
    | none => rfl
    | some pair =>
      obtain ⟨-, k, value, hparts, -⟩ := findPair?_eq_some hf
      rw [Option.map_some, toJson_pair hparts, Option.bind_some, hparts, Option.bind_some]
      cases value with
      | none => rfl
      | some v =>
        have hv := (hp.isValue_of_pair hparts).isNull_toJson
        simp [hv]
  · simp [hj, SpecView.field?, Json.field?, findValue?, findPair?, Tree.pairs, body?, hn, hb]

/-- The tree and its JSON are two views of one spec. -/
theorem simulation_shows (hk : t.DistinctKeys) (hp : t.PairsInMappings) :
    Simulation t.Shows where
  field := by
    rintro _ _ ⟨id, hid, rfl, rfl⟩ key
    rw [field?_toJson hk hp hid]
    change Option.Rel t.Shows ((t.findValue? id key).map (TreeNode.mk t)) _
    cases hv : t.findValue? id key with
    | none => exact .none
    | some v => exact .some ⟨v, hp.isValue_of_findValue? hv, rfl, rfl⟩
  item := by
    rintro _ _ ⟨id, hid, rfl, rfl⟩
    rw [items_toJson hid]
    change List.Forall₂ t.Shows ((t.items id).map (TreeNode.mk t)) _
    rw [List.forall₂_map_left_iff, List.forall₂_map_right_iff, List.forall₂_same]
    exact fun v hv => ⟨v, hp.isValue_of_mem_items hv, rfl, rfl⟩
  text := by
    rintro _ _ ⟨id, hid, rfl, rfl⟩
    exact (text?_toJson hid).symm
  mapping := by
    rintro _ _ ⟨id, hid, rfl, rfl⟩
    exact (isMapping_toJson hid).symm

theorem Shows.unplaced_extract (hk : t.DistinctKeys) (hp : t.PairsInMappings) {a : TreeNode}
    {j : Json} (h : t.Shows a j) : (extract a).map (·.unplaced) = extract j := by
  rw [(simulation_shows hk hp).unplaced_extract h]
  exact PipelineLens.unplaced_extract (fun _ => rfl) j

theorem isValue_of_isMapping (h : t.isMapping id = true) : t.IsValue id := by
  unfold isMapping at h
  cases hn : t.node? id with
  | none => simp [hn] at h
  | some n =>
    refine ⟨lt_size_iff.2 ⟨n, hn⟩, ?_⟩
    cases hb : n.body with
    | pair key value => simp [hn, Node.isMapping, hb] at h
    | _ => simp [isPair, pairParts?, body?, hn, hb]

end Tree

/-! ## Documents -/

theorem fieldText?_mk (t : Tree) (id : Nat) (key : String) :
    fieldText? (TreeNode.mk t id) key = t.findText? id key := by
  change ((t.findValue? id key).map (TreeNode.mk t)).bind SpecView.text? = _
  rw [Option.bind_map]
  rfl

theorem Document.tasks_eq (d : Document) (t : Tree) :
    d.tasks t = ((d.taskSpec? t).map extract).getD [] := by
  unfold Document.tasks
  cases d.taskSpec? t <;> rfl

section
variable {d : Document} {t : Tree} {root : Nat} (hroot : d.root? t = some root)
include hroot

theorem Document.taskSpec?_of_pipeline (hkind : d.kind? t = some .pipeline) :
    d.taskSpec? t = field? (TreeNode.mk t root) "spec" := by
  simp [Document.taskSpec?, hroot, hkind]

theorem Document.taskSpec?_of_pipelineRun (hkind : d.kind? t = some .pipelineRun) :
    d.taskSpec? t
      = (field? (TreeNode.mk t root) "spec").bind (field? · "pipelineSpec") := by
  simp [Document.taskSpec?, hroot, hkind]

end

/-- **A text and its JSON have the same tasks.** Extraction finds the same in every value of the
tree and in its JSON, places aside; and what a document with one resource is read as, by its kind,
is what its JSON is read as. -/
theorem tasks_eq_definitionTasks {t : Tree} (hk : t.DistinctKeys) (hp : t.PairsInMappings) :
    (∀ id, t.IsValue id →
      (extract (TreeNode.mk t id)).map (·.unplaced) = extract (t.toJson id)) ∧
    ∀ (d : Document) (root : Nat), d.nodes = [root] → t.isMapping root = true →
      (d.kind? t = some .pipeline ∨ d.kind? t = some .pipelineRun) →
      (d.tasks t).map (·.unplaced) = definitionTasks (t.toJson root) := by
  refine ⟨fun id hid => Tree.Shows.unplaced_extract hk hp ⟨id, hid, rfl, rfl⟩, ?_⟩
  intro d root hd hm hkind
  have hsim := t.simulation_shows hk hp
  have hshows : t.Shows ⟨t, root⟩ (t.toJson root) := ⟨root, Tree.isValue_of_isMapping hm, rfl, rfl⟩
  have hroot : d.root? t = some root := by simp [Document.root?, hd, hm]
  have htext : ∀ kind, d.kind? t = some kind →
      fieldText? (t.toJson root) "kind" = some kind.name := by
    intro kind h
    rw [← hsim.fieldText?_eq hshows, fieldText?_mk]
    apply Tree.findText?_kind
    simpa [Document.kind?, hd] using h
  unfold definitionTasks
  rw [Document.tasks_eq]
  rcases hkind with hkind | hkind
  · rw [Document.taskSpec?_of_pipeline hroot hkind, htext _ hkind]
    rcases hsim.field?_cases hshows "spec" with ⟨ha, hb⟩ | ⟨a, j, ha, hb, haj⟩
    · rw [ha, hb]
      rfl
    · rw [ha, hb]
      exact haj.unplaced_extract hk hp
  · rw [Document.taskSpec?_of_pipelineRun hroot hkind, htext _ hkind]
    rcases hsim.field?_cases hshows "spec" with ⟨ha, hb⟩ | ⟨a, j, ha, hb, haj⟩
    · rw [ha, hb]
      rfl
    · rw [ha, hb]
      rcases hsim.field?_cases haj "pipelineSpec" with ⟨ha, hb⟩ | ⟨a, j, ha, hb, haj⟩
      · simp [ha, hb, ResourceKind.name]
      · simp [ha, hb, ResourceKind.name, haj.unplaced_extract hk hp]

/-- A pair with a key as written. -/
def sampleField (key : String) (value : Layout) : Layout := .pair 0 0 (.scalar key 0 0) value

/-- A run with a quoted key, a key without a value, an item of `tasks` that is no mapping, a name
that is no scalar and a guarded task. -/
def sampleRun : Layout :=
  .mapping "" 0 90 [
    sampleField "apiVersion" (.scalar "tekton.dev/v1beta1" 12 30),
    sampleField "kind" (.scalar "'PipelineRun'" 37 50),
    sampleField "spec" (.mapping "" 58 90 [
      sampleField "pipelineSpec" (.mapping "" 60 90 [
        sampleField "\"tasks\"" (.sequence "" 62 80 [
          .mapping "" 64 70 [
            sampleField "name" (.scalar "\"build\"" 65 68),
            .key 0 0 (.scalar "taskRef" 0 0),
            sampleField "runAfter" (.sequence "" 66 69 [.scalar "a" 66 67, .sequence "" 67 69 []]),
            sampleField "when" (.sequence "" 69 70 [
              .mapping "" 69 70 [sampleField "input" (.scalar "x" 69 70)]])],
          .scalar "stray" 70 71,
          .mapping "" 71 72 [sampleField "name" (.sequence "" 71 72 [])]]),
        sampleField "finally" (.sequence "" 80 90 [
          .mapping "" 81 89 [sampleField "name" (.scalar "done" 82 86)]])])])]

def sampleDocument : Document := ⟨Layout.rootsAt 0 [sampleRun], [], 0, 90⟩

theorem tasks_sampleDocument :
    (Tree.ofLayouts [sampleRun]).DistinctKeys ∧ (Tree.ofLayouts [sampleRun]).PairsInMappings ∧
    (sampleDocument.tasks (.ofLayouts [sampleRun])).map (·.position)
      = [some 64, some 69, some 71, some 81] ∧
    (definitionTasks ((Tree.ofLayouts [sampleRun]).toJson (sampleRun.rootAt 0))).map
      (fun n => (n.id, n.runAfter))
      = [(some "build", ["build:x"]), (some "build:x", ["a"]), (none, []),
          (some "done", ["build"])] := by
  have hk : (Tree.ofLayouts [sampleRun]).DistinctKeys := by decide +kernel
  have hp : (Tree.ofLayouts [sampleRun]).PairsInMappings := by decide +kernel
  refine ⟨hk, hp, by decide +kernel, ?_⟩
  rw [← (tasks_eq_definitionTasks hk hp).2 sampleDocument _ rfl (by decide +kernel)
    (.inr (by decide +kernel))]
  decide +kernel

end PipelineLens
