import Mathlib.Logic.Relation
import PipelineLens.Proofs.Graph.Flattening
/-!
# Paths through a drawing

A drawing is read as the relation between ids that its edges are. `links_draw` says which that is
for a list of tasks, whatever is shown besides: the order that their `runAfter` gives,
self-reference and unknown ids left aside.
-/
namespace PipelineLens

open Relation

/-- No path along the relation comes back to where it started. -/
def Acyclic {α : Type} (r : α → α → Prop) : Prop := ∀ a, ¬ TransGen r a a

theorem acyclic_of_rank {α : Type} {r : α → α → Prop} (rank : α → Nat)
    (h : ∀ a b, r a b → rank a < rank b) : Acyclic r := by
  have hlt : ∀ {a b}, TransGen r a b → rank a < rank b := by
    intro a b hp
    induction hp with
    | single hs => exact h _ _ hs
    | tail _ hs ih => exact Nat.lt_trans ih (h _ _ hs)
  exact fun a hp => Nat.lt_irrefl _ (hlt hp)

/-- `s` and `t` are ids of nodes, and some node with the id `t` runs after `s`. -/
def Precedes (nodes : List TaskNode) (s t : String) : Prop :=
  s ≠ t ∧ (∃ n ∈ nodes, n.id = some s) ∧ ∃ n ∈ nodes, n.id = some t ∧ s ∈ n.runAfter

instance (nodes : List TaskNode) : DecidableRel (Precedes nodes) := fun _ _ =>
  inferInstanceAs (Decidable (_ ∧ (∃ n ∈ nodes, _) ∧ ∃ n ∈ nodes, _))

theorem map_task_plain (nodes : List TaskNode) :
    (nodes.map RunNode.plain).map (·.task) = nodes := by
  rw [List.map_map]
  exact List.map_id nodes

namespace Graph

/-- Some edge of the drawing leads from `s` to `t`. -/
def Links (items : List Item) (s t : String) : Prop :=
  ∃ e, .edge e ∈ items ∧ e.source = s ∧ e.target = t

theorem links_draw (d : Decoration) (tasks : List RunNode) :
    Links (draw d tasks) = Precedes (tasks.map (·.task)) := by
  ext s t
  simp only [Links, Precedes, draw, drawOn_eq, mem_listing_edge, mem_listedEdges, List.mem_map]
  constructor
  · rintro ⟨e, ⟨n, hn, id, dependency, hid, hd, he⟩, rfl, rfl⟩
    obtain ⟨hne, rfl, rfl, m, hm, hmid⟩ := listedEdge?_eq_some he
    exact ⟨hne, ⟨_, ⟨m, hm, rfl⟩, hmid⟩, _, ⟨n, hn, rfl⟩, hid, hd⟩
  · rintro ⟨hne, ⟨_, ⟨m, hm, rfl⟩, hmid⟩, _, ⟨n, hn, rfl⟩, hid, hd⟩
    have hf : (tasks.find? fun t => t.task.id = some s).isSome :=
      List.find?_isSome.2 ⟨m, hm, by simpa using hmid⟩
    obtain ⟨source, hf⟩ := Option.isSome_iff_exists.1 hf
    exact ⟨_, ⟨n, hn, t, s, hid, hd, by simp [listedEdge?, hne, hf]; rfl⟩, rfl, rfl⟩

theorem links_ofPipeline (nodes : List TaskNode) (options : Options) :
    Links (ofPipeline nodes options) = Precedes nodes := by
  rw [ofPipeline, links_draw, map_task_plain]

end Graph

end PipelineLens
