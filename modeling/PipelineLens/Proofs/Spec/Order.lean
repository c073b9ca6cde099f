import PipelineLens.Proofs.Graph.Links
import PipelineLens.Proofs.Spec.Dependencies
/-!
# Paths between tasks

Between the tasks of the main list stand only guards, and between two tasks never more than one. So
a path from task to task contracts to steps of `AwaitedBy`, one for each edge without a guard and
one for each pair of edges through a guard (`transGen_precedes_iff`). Guards are known by their ids:
a task awaits what any guard with the id of one of its own runs after.
-/
namespace PipelineLens

open Relation SpecView

variable {σ : Type} [SpecView σ]

/-- A relation between some ids only. -/
def Among (ids : List String) (r : String → String → Prop) (s t : String) : Prop :=
  s ∈ ids ∧ t ∈ ids ∧ r s t

/-- One of the guards of an entry has this id. -/
def GuardedBy (e : σ) (id : String) : Prop := ∃ g ∈ guards e, g.id = some id

/-- A task with the name `t` runs after `d`, itself if it has no guards, else through a guard that
has the id of one of its guards, be it the guard of this task or of another. -/
def AwaitedBy (spec : σ) (d t : String) : Prop :=
  ∃ e ∈ entries spec "tasks", fieldText? e "name" = some t ∧
    ((hasGuards e = false ∧ d ∈ dependencies e ∧ d ≠ t) ∨
      ∃ g ∈ allGuards spec, d ∈ g.runAfter ∧ ∃ id ∈ g.id, GuardedBy e id)

instance (ids : List String) (r : String → String → Prop) [DecidableRel r] :
    DecidableRel (Among ids r) := fun _ _ => inferInstanceAs (Decidable (_ ∧ _ ∧ _))

instance (e : σ) (id : String) : Decidable (GuardedBy e id) :=
  inferInstanceAs (Decidable (∃ g ∈ guards e, g.id = some id))

instance (spec : σ) : DecidableRel (AwaitedBy spec) := fun d t =>
  inferInstanceAs (Decidable (∃ e ∈ entries spec "tasks", fieldText? e "name" = some t ∧
    ((hasGuards e = false ∧ d ∈ dependencies e ∧ d ≠ t) ∨
      ∃ g ∈ allGuards spec, d ∈ g.runAfter ∧ ∃ id ∈ g.id, GuardedBy e id)))

/-- A relation that leads forward in a list has no cycle. -/
theorem acyclic_among {ids : List String} {r : String → String → Prop}
    (h : ∀ s ∈ ids, ∀ t ∈ ids, r s t → ids.idxOf s < ids.idxOf t) : Acyclic (Among ids r) :=
  acyclic_of_rank ids.idxOf fun s t hs => h s hs.1 t hs.2.1 hs.2.2

/-- Ids tell tasks, guards and final tasks apart, and what a task depends on is no guard and no
final task. -/
structure Layered (spec : σ) : Prop where
  guarded : ∀ g ∈ allGuards spec, g.id.isSome
  apart : ∀ g ∈ allGuards spec, ∀ id, g.id = some id → id ∉ taskNames spec
  final : ∀ e ∈ entries spec "finally", ∀ f, fieldText? e "name" = some f →
    ∀ n ∈ mainNodes spec, n.id ≠ some f
  grounded : Grounded spec

/-! ## Steps -/

theorem exists_id_of_mem_sinks {nodes : List TaskNode} {s : String} (h : s ∈ sinks nodes) :
    ∃ n ∈ nodes, n.id = some s := by
  rw [sinks_eq, mem_distinct, List.mem_filterMap] at h
  obtain ⟨⟨n, i⟩, hn, hs⟩ := h
  exact ⟨n, List.fst_mem_of_mem_zipIdx hn, (Option.filter_eq_some_iff.1 hs).1⟩

theorem exists_id_mainNodes {spec : σ} {s : String} :
    (∃ n ∈ mainNodes spec, n.id = some s) ↔
      s ∈ taskNames spec ∨ ∃ g ∈ allGuards spec, g.id = some s := by
  constructor
  · rintro ⟨n, hn, hs⟩
    rcases mem_mainNodes.1 hn with ⟨e, he, rfl⟩ | hg
    · exact Or.inl (mem_taskNames.2 ⟨e, he, hs⟩)
    · exact Or.inr ⟨n, hg, hs⟩
  · rintro (hs | ⟨g, hg, hs⟩)
    · obtain ⟨e, he, hs⟩ := mem_taskNames.1 hs
      exact ⟨ownNode e, ownNode_mem he, hs⟩
    · exact ⟨g, guard_mem hg, hs⟩

theorem exists_id_extract {spec : σ} {s : String} (h : ∃ n ∈ mainNodes spec, n.id = some s) :
    ∃ n ∈ extract spec, n.id = some s := by
  obtain ⟨n, hn, hs⟩ := h
  exact ⟨n, mainNodes_subset spec hn, hs⟩

/-- How far a path from the task `d` has come: to a task, to a guard that runs after the last task
on the path, or to its end at a final task. -/
inductive Reached (spec : σ) (d x : String) : Prop
  | task (hx : x ∈ taskNames spec) (hp : TransGen (Among (taskNames spec) (AwaitedBy spec)) d x)
  | guard (y : String) (hp : ReflTransGen (Among (taskNames spec) (AwaitedBy spec)) d y)
      (hy : y ∈ taskNames spec) (g : TaskNode) (hg : g ∈ allGuards spec) (hx : g.id = some x)
      (hrun : y ∈ g.runAfter)
  | final (e : σ) (he : e ∈ entries spec "finally") (hx : fieldText? e "name" = some x)

section
variable {spec : σ} (h : Layered spec)
include h

/-- What an edge can be: it leads from a task to a task without guards, from a task to a guard, from
a guard to its task, or to a final task. -/
theorem Layered.precedes_cases {s t : String} (hp : Precedes (extract spec) s t) :
    Among (taskNames spec) (AwaitedBy spec) s t ∨
    (s ∈ taskNames spec ∧ ∃ g ∈ allGuards spec, g.id = some t ∧ s ∈ g.runAfter) ∨
    (∃ e ∈ entries spec "tasks", fieldText? e "name" = some t ∧ GuardedBy e s) ∨
    ((∃ e ∈ entries spec "finally", fieldText? e "name" = some t) ∧
      ∃ n ∈ mainNodes spec, n.id = some s) := by
  obtain ⟨hne, hs, n, hn, ht, hrun⟩ := hp
  rcases mem_extract.1 hn with hn | ⟨e, he, rfl⟩
  · rcases mem_mainNodes.1 hn with ⟨e, he, rfl⟩ | hg
    · cases hguards : hasGuards e with
      | false =>
        rw [runAfter_ownNode_of_plain hguards] at hrun
        exact Or.inl ⟨h.grounded e he s hrun hs, mem_taskNames.2 ⟨e, he, ht⟩,
          e, he, ht, Or.inl ⟨hguards, hrun, hne⟩⟩
      | true =>
        rw [mem_runAfter_ownNode hguards] at hrun
        exact Or.inr (Or.inr (Or.inl ⟨e, he, ht, hrun⟩))
    · obtain ⟨e, he, hge⟩ := mem_allGuards.1 hg
      exact Or.inr (Or.inl ⟨h.grounded e he s (mem_runAfter_guard hge hrun) hs, n, hg, ht, hrun⟩)
  · exact Or.inr (Or.inr (Or.inr ⟨⟨e, he, ht⟩, exists_id_of_mem_sinks hrun⟩))

/-- No edge starts at a final task. -/
theorem Layered.not_precedes {e : σ} (he : e ∈ entries spec "finally") {f t : String}
    (hf : fieldText? e "name" = some f) : ¬ Precedes (extract spec) f t := by
  intro hp
  have hmain : ∃ n ∈ mainNodes spec, n.id = some f := by
    rcases h.precedes_cases hp with ⟨hs, -⟩ | ⟨hs, -⟩ | ⟨e', he', -, g, hg, hs⟩ | ⟨-, hs⟩
    · exact exists_id_mainNodes.2 (Or.inl hs)
    · exact exists_id_mainNodes.2 (Or.inl hs)
    · exact exists_id_mainNodes.2 (Or.inr ⟨g, mem_allGuards.2 ⟨e', he', hg⟩, hs⟩)
    · exact hs
  obtain ⟨n, hn, hs⟩ := hmain
  exact h.final e he f hf n hn hs

theorem Layered.precedes_guard {g : TaskNode} (hg : g ∈ allGuards spec) {d id : String}
    (hid : g.id = some id) (hd : d ∈ taskNames spec) (hrun : d ∈ g.runAfter) :
    Precedes (extract spec) d id := by
  have hsource := exists_id_extract (exists_id_mainNodes.2 (Or.inl hd))
  refine ⟨?_, hsource, g, mainNodes_subset spec (guard_mem hg), hid, hrun⟩
  rintro rfl
  exact h.apart g hg d hid hd

theorem Layered.precedes_task {e : σ} (he : e ∈ entries spec "tasks") {t id : String}
    (ht : fieldText? e "name" = some t) (hid : GuardedBy e id) :
    Precedes (extract spec) id t := by
  obtain ⟨g, hge, hgid⟩ := hid
  have hg : g ∈ allGuards spec := mem_allGuards.2 ⟨e, he, hge⟩
  have hsource := exists_id_extract (exists_id_mainNodes.2 (Or.inr ⟨g, hg, hgid⟩))
  refine ⟨?_, hsource, ownNode e, mainNodes_subset spec (ownNode_mem he), ht, ?_⟩
  · rintro rfl
    exact h.apart g hg id hgid (mem_taskNames.2 ⟨e, he, ht⟩)
  · exact (mem_runAfter_ownNode (hasGuards_iff.2 ⟨g, hge⟩)).2 ⟨g, hge, hgid⟩

/-! ## Paths -/

/-- One step between tasks is one edge, or two with a guard between them. -/
theorem Layered.transGen_of_awaitedBy {d t : String}
    (hs : Among (taskNames spec) (AwaitedBy spec) d t) :
    TransGen (Precedes (extract spec)) d t := by
  obtain ⟨hd, -, e, he, ht, ⟨hplain, hdep, hne⟩ | ⟨g, hg, hrun, id, hid, hguard⟩⟩ := hs
  · have hsource := exists_id_extract (exists_id_mainNodes.2 (Or.inl hd))
    refine .single ⟨hne, hsource, ownNode e, mainNodes_subset spec (ownNode_mem he), ht, ?_⟩
    rwa [runAfter_ownNode_of_plain hplain]
  · exact .head (h.precedes_guard hg hid hd hrun) (.single (h.precedes_task he ht hguard))

/-- From a task the path goes on to a task, a guard or a final task. -/
theorem Layered.reached_of_task {d y x : String}
    (hp : ReflTransGen (Among (taskNames spec) (AwaitedBy spec)) d y) (hy : y ∈ taskNames spec)
    (hs : Precedes (extract spec) y x) : Reached spec d x := by
  rcases h.precedes_cases hs with
    hs | ⟨-, g, hg, hx, hrun⟩ | ⟨e, he, -, g, hg, hid⟩ | ⟨⟨e, he, hx⟩, -⟩
  · exact .task hs.2.1 (.tail' hp hs)
  · exact .guard y hp hy g hg hx hrun
  · exact absurd hy (h.apart g (mem_allGuards.2 ⟨e, he, hg⟩) y hid)
  · exact .final e he hx

/-- From a guard it goes on to a task that has a guard of this id. -/
theorem Layered.reached_of_guard {d y id x : String}
    (hp : ReflTransGen (Among (taskNames spec) (AwaitedBy spec)) d y) (hy : y ∈ taskNames spec)
    {g : TaskNode} (hg : g ∈ allGuards spec) (hid : g.id = some id) (hrun : y ∈ g.runAfter)
    (hs : Precedes (extract spec) id x) : Reached spec d x := by
  rcases h.precedes_cases hs with ⟨hs, -⟩ | ⟨hs, -⟩ | ⟨e, he, hx, hguard⟩ | ⟨⟨e, he, hx⟩, -⟩
  · exact absurd hs (h.apart g hg id hid)
  · exact absurd hs (h.apart g hg id hid)
  · have hxt : x ∈ taskNames spec := mem_taskNames.2 ⟨e, he, hx⟩
    exact .task hxt (.tail' hp ⟨hy, hxt, e, he, hx, Or.inr ⟨g, hg, hrun, id, hid, hguard⟩⟩)
  · exact .final e he hx

theorem Layered.reached {d x : String} (hd : d ∈ taskNames spec)
    (hp : TransGen (Precedes (extract spec)) d x) : Reached spec d x := by
  -- on the path, edge by edge: what an edge can be depends on the stage it starts from
  induction hp with
  | single hs => exact h.reached_of_task .refl hd hs
  | tail _ hs ih =>
    cases ih with
    | task hy hp => exact h.reached_of_task hp.to_reflTransGen hy hs
    | guard y hp hy g hg hid hrun => exact h.reached_of_guard hp hy hg hid hrun hs
    | final e he hf => exact absurd hs (h.not_precedes he hf)

/-- **Paths contract.** Between tasks the edges reach just as far as `AwaitedBy` does. -/
theorem Layered.transGen_precedes_iff {d t : String} (hd : d ∈ taskNames spec)
    (ht : t ∈ taskNames spec) :
    TransGen (Precedes (extract spec)) d t
      ↔ TransGen (Among (taskNames spec) (AwaitedBy spec)) d t := by
  constructor
  · intro hp
    cases h.reached hd hp with
    | task _ hp => exact hp
    | guard _ _ _ g hg hid _ => exact absurd ht (h.apart g hg t hid)
    | final e he hf =>
      obtain ⟨n, hn, hid⟩ := exists_id_mainNodes.2 (Or.inl ht)
      exact absurd hid (h.final e he t hf n hn)
  · intro hp
    induction hp with
    | single hs => exact h.transGen_of_awaitedBy hs
    | tail _ hs ih => exact (ih hs.1).trans (h.transGen_of_awaitedBy hs)

/-- A cycle goes through a task. -/
theorem Layered.exists_task_of_cycle {x : String}
    (hp : TransGen (Precedes (extract spec)) x x) :
    ∃ t ∈ taskNames spec, TransGen (Precedes (extract spec)) t t := by
  -- where `x` is a guard, the next node `y` is the task that it guards
  obtain ⟨y, hs, hp'⟩ := TransGen.head'_iff.1 hp
  rcases h.precedes_cases hs with ⟨hx, -⟩ | ⟨hx, -⟩ | ⟨e, he, hy, -⟩ | ⟨⟨e, he, hy⟩, -⟩
  · exact ⟨x, hx, hp⟩
  · exact ⟨x, hx, hp⟩
  · exact ⟨y, mem_taskNames.2 ⟨e, he, hy⟩, .tail' hp' hs⟩
  · obtain ⟨z, hz, -⟩ := TransGen.head'_iff.1 (TransGen.tail' hp' hs)
    exact absurd hz (h.not_precedes he hy)

theorem Layered.acyclic_precedes_iff :
    Acyclic (Precedes (extract spec)) ↔ Acyclic (Among (taskNames spec) (AwaitedBy spec)) := by
  constructor
  · intro hacyclic t hp
    obtain ⟨y, hs, -⟩ := TransGen.head'_iff.1 hp
    exact hacyclic t ((h.transGen_precedes_iff hs.1 hs.1).2 hp)
  · intro hacyclic x hp
    obtain ⟨t, ht, hp⟩ := h.exists_task_of_cycle hp
    exact hacyclic t ((h.transGen_precedes_iff ht ht).1 hp)

/-! ## Dependencies -/

/-- A task awaits all that it depends on, itself at most left aside. -/
theorem Layered.awaitedBy_of_dependencyOf {d t : String} (hdep : DependencyOf spec d t)
    (hne : d ≠ t) : AwaitedBy spec d t := by
  obtain ⟨e, he, ht, hd⟩ := hdep
  cases hguards : hasGuards e with
  | false => exact ⟨e, he, ht, Or.inl ⟨hguards, hd, hne⟩⟩
  | true =>
    obtain ⟨g, hg, hrun⟩ := (mem_dependencies_iff hguards).1 hd
    have hmem : g ∈ allGuards spec := mem_allGuards.2 ⟨e, he, hg⟩
    obtain ⟨id, hid⟩ := Option.isSome_iff_exists.1 (h.guarded g hmem)
    exact ⟨e, he, ht, Or.inr ⟨g, hmem, hrun, id, hid, g, hg, hid⟩⟩

end

/-- No guard of one entry has the id of a guard of another. -/
def Unshared (spec : σ) : Prop :=
  ∀ e ∈ entries spec "tasks", ∀ e' ∈ entries spec "tasks",
    ∀ id, GuardedBy e id → GuardedBy e' id → e = e'

theorem Unshared.dependencyOf_of_awaitedBy {spec : σ} (hu : Unshared spec) {d t : String}
    (h : AwaitedBy spec d t) : DependencyOf spec d t := by
  obtain ⟨e, he, ht, ⟨-, hd, -⟩ | ⟨g, hg, hrun, id, hid, hguard⟩⟩ := h
  · exact ⟨e, he, ht, hd⟩
  · obtain ⟨e', he', hg'⟩ := mem_allGuards.1 hg
    obtain rfl := hu e he e' he' id hguard ⟨g, hg', hid⟩
    exact ⟨e, he, ht, mem_runAfter_guard hg' hrun⟩

end PipelineLens
