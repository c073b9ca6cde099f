import PipelineLens.Proofs.Graph.Flattening
/-!
# The ids of edges

The id of an edge is written from its source and its target, with a hyphen between the two. Ids of
tasks may hold hyphens themselves, so an edge id can be read in more than one way: two edges share
one where the source of the one goes on with a hyphen beyond the source of the other
(`Edge.Straddles`). For tasks with ids of their own that name no task twice this is the only way in
which an edge id comes twice (`nodup_edgeIds_iff`).
-/
namespace PipelineLens

/-! ## Two texts with a mark between them -/

/-- Where two lists are the same and each has a mark in it, the marks are in the same place or one
of them is in the part before the other. -/
theorem append_mark_eq_iff {α : Type} {mark : α} {s t s' t' : List α} :
    s ++ mark :: t = s' ++ mark :: t' ↔
      (s = s' ∧ t = t') ∨ (∃ x, s' = s ++ mark :: x ∧ t = x ++ mark :: t') ∨
        ∃ x, s = s' ++ mark :: x ∧ t' = x ++ mark :: t := by
  constructor
  · intro h
    rcases List.append_eq_append_iff.1 h with ⟨_ | ⟨a, x⟩, hs, ht⟩ | ⟨_ | ⟨a, x⟩, hs, ht⟩
    · exact .inl ⟨by simpa using hs.symm, (List.cons.inj ht).2⟩
    · obtain ⟨rfl, hrest⟩ := List.cons.inj ht
      exact .inr (.inl ⟨x, hs, hrest⟩)
    · exact .inl ⟨by simpa using hs, (List.cons.inj ht).2.symm⟩
    · obtain ⟨rfl, hrest⟩ := List.cons.inj ht
      exact .inr (.inr ⟨x, hs, hrest⟩)
  · rintro (⟨rfl, rfl⟩ | ⟨x, rfl, rfl⟩ | ⟨x, rfl, rfl⟩) <;> simp

theorem append_hyphen_eq_iff {s t s' t' : String} :
    s ++ "-" ++ t = s' ++ "-" ++ t' ↔
      (s = s' ∧ t = t') ∨ (∃ x, s' = s ++ "-" ++ x ∧ t = x ++ "-" ++ t') ∨
        ∃ x, s = s' ++ "-" ++ x ∧ t' = x ++ "-" ++ t := by
  have hall : Function.Surjective String.toList := fun x => ⟨.ofList x, String.toList_ofList⟩
  have h : s.toList ++ '-' :: t.toList = s'.toList ++ '-' :: t'.toList ↔ _ := append_mark_eq_iff
  rw [hall.exists, hall.exists] at h
  simpa [← String.toList_inj] using h

namespace Graph

/-- The hyphen between source and target of `e` stands inside the source of `f`, and that of `f`
inside the target of `e`. -/
def Edge.Straddles (e f : Edge) : Prop :=
  ∃ x, f.source = e.source ++ "-" ++ x ∧ e.target = x ++ "-" ++ f.target

theorem Edge.not_straddles_self (e : Edge) : ¬ e.Straddles e := by
  rintro ⟨x, hx, -⟩
  have hlength := congrArg String.length hx
  rw [String.length_append, String.length_append] at hlength
  have hhyphen : "-".length = 1 := rfl
  omega

def edges (items : List Item) : List Edge := items.filterMap Item.edge?

theorem edges_draw (d : Decoration) (tasks : List RunNode) :
    edges (draw d tasks) = tasks.flatMap (listedEdges d tasks) := by
  have h : ∀ es : List Edge, (es.map Item.edge).filterMap Item.edge? = es := by
    intro es
    simp [Item.edge?, Function.comp_def]
  rw [draw, drawOn_eq, edges, listing, List.filterMap_flatMap]
  simp only [List.filterMap_cons, Item.edge?, h]

variable {d : Decoration} {tasks : List RunNode}

theorem id_of_mem_edges {e : Edge} (he : e ∈ edges (draw d tasks)) :
    e.id = e.source ++ "-" ++ e.target := by
  rw [edges_draw] at he
  obtain ⟨t, -, he⟩ := List.mem_flatMap.1 he
  obtain ⟨id, dependency, -, -, he⟩ := mem_listedEdges.1 he
  unfold listedEdge? at he
  split at he
  · cases he
  · obtain ⟨source, -, rfl⟩ := Option.map_eq_some_iff.1 he
    rfl

/-- Tasks with ids of their own that name no task twice are joined by no more than one edge. -/
theorem pairwise_ends (hids : (tasks.filterMap (·.task.id)).Nodup)
    (hafter : ∀ t ∈ tasks, t.task.runAfter.Nodup) :
    (edges (draw d tasks)).Pairwise fun e f => ¬ (e.source = f.source ∧ e.target = f.target) := by
  rw [edges_draw, List.pairwise_flatMap]
  constructor
  · intro t ht
    unfold listedEdges
    split
    · exact .nil
    · rw [List.pairwise_filterMap]
      refine (hafter t ht).imp fun hne e he f hf heq => hne ?_
      obtain ⟨-, he, -⟩ := listedEdge?_eq_some he
      obtain ⟨-, hf, -⟩ := listedEdge?_eq_some hf
      rw [← he, ← hf, heq.1]
  · rw [List.Nodup, List.pairwise_filterMap] at hids
    refine hids.imp fun hne e he f hf heq => ?_
    obtain ⟨id, dependency, hid, -, he⟩ := mem_listedEdges.1 he
    obtain ⟨id', dependency', hid', -, hf⟩ := mem_listedEdges.1 hf
    obtain ⟨-, -, htarget, -⟩ := listedEdge?_eq_some he
    obtain ⟨-, -, htarget', -⟩ := listedEdge?_eq_some hf
    exact hne id hid id' hid' (by rw [← htarget, ← htarget', heq.2])

/-- **Edges share an id only across a hyphen.** For tasks with ids of their own that name no task
twice, two edges have one id just where one straddles the other, so all edge ids are different just
where no edge straddles another. -/
theorem nodup_edgeIds_iff (d : Decoration) (hids : (tasks.filterMap (·.task.id)).Nodup)
    (hafter : ∀ t ∈ tasks, t.task.runAfter.Nodup) :
    (edges (draw d tasks)).Pairwise (fun e f => e.id = f.id ↔ e.Straddles f ∨ f.Straddles e) ∧
    (((edges (draw d tasks)).map (·.id)).Nodup ↔
      ∀ e ∈ edges (draw d tasks), ∀ f ∈ edges (draw d tasks), ¬ e.Straddles f) := by
  have hid : ∀ e ∈ edges (draw d tasks), ∀ f ∈ edges (draw d tasks), (e.id = f.id ↔
      (e.source = f.source ∧ e.target = f.target) ∨ e.Straddles f ∨ f.Straddles e) := by
    intro e he f hf
    rw [id_of_mem_edges he, id_of_mem_edges hf, append_hyphen_eq_iff]
    rfl
  have hpair : (edges (draw d tasks)).Pairwise
      fun e f => e.id = f.id ↔ e.Straddles f ∨ f.Straddles e :=
    (pairwise_ends hids hafter).imp_of_mem fun he hf hne => by
      rw [hid _ he _ hf, or_iff_right hne]
  refine ⟨hpair, fun hnodup e he f hf hef => ?_, fun hnone => ?_⟩
  · have hsame : e.id = f.id := (hid e he f hf).2 (.inr (.inl hef))
    obtain rfl : e = f := List.inj_on_of_nodup_map hnodup he hf hsame
    exact e.not_straddles_self hef
  · rw [List.Nodup, List.pairwise_map]
    refine hpair.imp_of_mem fun he hf heq hsame => ?_
    rcases heq.1 hsame with h | h
    · exact hnone _ he _ hf h
    · exact hnone _ hf _ he h

/-- Tasks whose ids have hyphens, as names in a cluster do. -/
def hyphenated : List RunNode :=
  [.plain ⟨some "build", some "build", none, .task, [], none, false⟩,
    .plain ⟨some "build-image", some "build-image", none, .task, ["build"], none, false⟩,
    .plain ⟨some "deploy-app", some "deploy-app", none, .task, ["build-image", "build"], none,
      false⟩]

theorem not_straddles_hyphenated :
    (hyphenated.filterMap (·.task.id)).Nodup ∧ (∀ t ∈ hyphenated, t.task.runAfter.Nodup) ∧
    (edges (draw ⟨false, .epoch, .default⟩ hyphenated)).map (·.id)
      = ["build-build-image", "build-image-deploy-app", "build-deploy-app"] ∧
    ∀ e ∈ edges (draw ⟨false, .epoch, .default⟩ hyphenated),
      ∀ f ∈ edges (draw ⟨false, .epoch, .default⟩ hyphenated), ¬ e.Straddles f := by
  have hids : (edges (draw ⟨false, .epoch, .default⟩ hyphenated)).map (·.id)
      = ["build-build-image", "build-image-deploy-app", "build-deploy-app"] := by
    rw [edges_draw]
    decide
  refine ⟨by decide, by decide, hids, ?_⟩
  refine (nodup_edgeIds_iff ⟨false, .epoch, .default⟩ (by decide) (by decide)).2.1 ?_
  rw [hids]
  decide

/-- The edge from `a-b` to `c` and that from `a` to `b-c`. -/
def straddling : List RunNode :=
  [.plain ⟨some "a", some "a", none, .task, [], none, false⟩,
    .plain ⟨some "a-b", some "a-b", none, .task, [], none, false⟩,
    .plain ⟨some "b-c", some "b-c", none, .task, ["a"], none, false⟩,
    .plain ⟨some "c", some "c", none, .task, ["a-b"], none, false⟩]

theorem not_nodup_edgeIds_straddling :
    (straddling.filterMap (·.task.id)).Nodup ∧ (∀ t ∈ straddling, t.task.runAfter.Nodup) ∧
    ¬ ((edges (draw ⟨false, .epoch, .default⟩ straddling)).map (·.id)).Nodup := by
  rw [edges_draw]
  decide

end Graph

end PipelineLens
