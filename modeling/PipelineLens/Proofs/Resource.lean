import PipelineLens.Proofs.Splitting
import PipelineLens.Proofs.Tree.Json
import PipelineLens.Resource
import PipelineLens.Tree.Layout
/-!
# The kind of a document and what is read of it

The kind of a document is that of its first resource, and all else is read from its first mapping.
Every resource is a mapping, so the two are one node unless another mapping stands before the first
resource; then the document is read from a mapping that is no resource (`describes_root_iff`).
-/
namespace PipelineLens

namespace ResourceKind

theorem ofName?_eq_some {name : String} {kind : ResourceKind} :
    ofName? name = some kind ↔ name = kind.name := by
  constructor
  · intro h
    have hname := List.find?_some h
    simpa [eq_comm] using hname
  · rintro rfl
    cases kind <;> rfl

end ResourceKind

namespace Tree

/-- The node has the API version of a Tekton group and the name of the kind. -/
def Describes (t : Tree) (id : Nat) (kind : ResourceKind) : Prop :=
  ∃ version, t.findText? id "apiVersion" = some version ∧ isTektonApi version = true ∧
    t.findText? id "kind" = some kind.name

variable {t : Tree} {id : Nat} {kind : ResourceKind}

theorem resourceKind?_eq_some : t.resourceKind? id = some kind ↔ t.Describes id kind := by
  simp [resourceKind?, Describes, Option.bind_eq_some_iff, ResourceKind.ofName?_eq_some]

theorem findText?_kind (h : t.resourceKind? id = some kind) :
    t.findText? id "kind" = some kind.name := by
  obtain ⟨version, -, -, hkind⟩ := resourceKind?_eq_some.1 h
  exact hkind

theorem Describes.isMapping (h : t.Describes id kind) : t.isMapping id = true := by
  obtain ⟨version, hversion, -⟩ := h
  exact isMapping_of_findText? hversion

end Tree

namespace Document

/-- The mappings that stand before the first resource of a document. -/
def strays (d : Document) (t : Tree) : List Nat :=
  (d.nodes.takeWhile fun id => (t.resourceKind? id).isNone).filter t.isMapping

variable {d : Document} {t : Tree} {kind : ResourceKind}

/-- A document with a kind has a first resource, which is of this kind, and is read from the first
mapping before the resource or from the resource itself. -/
theorem exists_resource (h : d.kind? t = some kind) :
    ∃ resource ∈ d.nodes, t.Describes resource kind ∧
      d.root? t = some ((d.strays t).headD resource) ∧
      ∀ stray ∈ d.strays t, t.resourceKind? stray = none := by
  obtain ⟨before, resource, after, hnodes, hkind, hbefore⟩ := List.findSome?_eq_some_iff.1 h
  have hresource : t.Describes resource kind := Tree.resourceKind?_eq_some.1 hkind
  have hstrays : d.strays t = before.filter t.isMapping := by
    rw [strays, hnodes, takeWhile_append_of_head?]
    · exact fun x hx => by rw [hbefore x hx, Option.isNone_none]
    · intro x hx
      obtain rfl : resource = x := Option.some.inj hx
      rw [hkind, Option.isNone_some]
  refine ⟨resource, by simp [hnodes], hresource, ?_, ?_⟩
  · rw [root?, hnodes, List.find?_append, List.find?_cons_of_pos hresource.isMapping, hstrays,
      List.headD_eq_head?_getD, List.head?_filter]
    cases before.find? t.isMapping <;> rfl
  · rw [hstrays]
    exact fun stray hstray => hbefore stray (List.mem_of_mem_filter hstray)

/-- **A document is read from the mapping that gave it its kind just where no other mapping stands
before that one.** What is read otherwise is the first of these other mappings. -/
theorem describes_root_iff (h : d.kind? t = some kind) :
    ∃ resource ∈ d.nodes, t.Describes resource kind ∧
      ∃ root, d.root? t = some root ∧ root = (d.strays t).headD resource ∧
        (t.Describes root kind ↔ d.strays t = []) := by
  obtain ⟨resource, hmem, hresource, hroot, hstrays⟩ := exists_resource h
  refine ⟨resource, hmem, hresource, _, hroot, rfl, ?_⟩
  cases hcases : d.strays t with
  | nil => simpa using hresource
  | cons stray rest =>
    -- a stray comes before the first resource, so it is none
    have hnone := hstrays stray (by simp [hcases])
    simp [← Tree.resourceKind?_eq_some, hnone]

/-- A mapping with a name. -/
def namedLayout (name : String) (fields : List Layout) : Layout :=
  .mapping "" 0 9 (fields ++ [.pair 0 9 (.scalar "metadata" 0 9)
    (.mapping "" 0 9 [.pair 0 9 (.scalar "name" 0 9) (.scalar name 0 9)])])

/-- A pipeline run with the name `r`. -/
def namedRun : Layout :=
  namedLayout "r" [.pair 0 9 (.scalar "apiVersion" 0 9) (.scalar "tekton.dev/v1" 0 9),
    .pair 0 9 (.scalar "kind" 0 9) (.scalar "PipelineRun" 0 9)]

/-- The document that has the layouts at its top. -/
def ofTops (tops : List Layout) : Document := ⟨Layout.rootsAt 0 tops, [], 0, 9⟩

theorem describes_root_afterText :
    (ofTops [.scalar "text" 0 9, namedRun]).kind? (.ofLayouts [.scalar "text" 0 9, namedRun])
      = some .pipelineRun ∧
    ∃ root, (ofTops [.scalar "text" 0 9, namedRun]).root?
        (.ofLayouts [.scalar "text" 0 9, namedRun]) = some root ∧
      (Tree.ofLayouts [.scalar "text" 0 9, namedRun]).Describes root .pipelineRun := by
  have hkind : (ofTops [.scalar "text" 0 9, namedRun]).kind?
      (.ofLayouts [.scalar "text" 0 9, namedRun]) = some .pipelineRun := by decide +kernel
  obtain ⟨resource, -, -, root, hroot, -, hiff⟩ := describes_root_iff hkind
  exact ⟨hkind, root, hroot, hiff.2 (by decide +kernel)⟩

theorem not_describes_root_afterMapping :
    (ofTops [namedLayout "x" [], namedRun]).kind? (.ofLayouts [namedLayout "x" [], namedRun])
      = some .pipelineRun ∧
    (ofTops [namedLayout "x" [], namedRun]).name? (.ofLayouts [namedLayout "x" [], namedRun])
      = some "x" ∧
    ¬ ∃ root, (ofTops [namedLayout "x" [], namedRun]).root?
        (.ofLayouts [namedLayout "x" [], namedRun]) = some root ∧
      (Tree.ofLayouts [namedLayout "x" [], namedRun]).Describes root .pipelineRun := by
  refine ⟨by decide +kernel, by decide +kernel, ?_⟩
  simp only [← Tree.resourceKind?_eq_some]
  rintro ⟨root, hroot, hkind⟩
  have hnone : ((ofTops [namedLayout "x" [], namedRun]).root?
      (.ofLayouts [namedLayout "x" [], namedRun])).bind
        (Tree.ofLayouts [namedLayout "x" [], namedRun]).resourceKind? = none := by decide +kernel
  rw [hroot, Option.bind_some, hkind] at hnone
  cases hnone

end Document

end PipelineLens
