import PipelineLens.Proofs.Reordering
import PipelineLens.Proofs.Spec.Finally
import PipelineLens.Proofs.Spec.Simulation
/-!
# Tasks declared in another order

The blocks of a spec stay together when its entries are rearranged, and with them what their nodes
run after. Only the sinks are found by their places; but what a node other than a given one runs
after does not depend on where the two stand (`mem_sinks_iff_erase`), so the sinks come in another
order and are the same (`perm_sinks`). Final tasks take that order over. All in all the nodes of the
rearranged spec are those of the spec, in another order, and each of them runs after the same ids,
in another order if it is final (`Simulation.reordered_extract`).
-/
namespace PipelineLens

open SpecView

/-! ## Sinks -/

theorem perm_eraseIdx_erase {α : Type} [DecidableEq α] {xs : List α} {i : Nat} {x : α}
    (h : xs[i]? = some x) : (xs.eraseIdx i).Perm (xs.erase x) := by
  obtain ⟨hi, rfl⟩ := List.getElem?_eq_some_iff.1 h
  have hmem : xs[i] ∈ xs := List.getElem_mem hi
  exact ((List.getElem_cons_eraseIdx_perm hi).trans (List.perm_cons_erase hmem)).cons_inv

/-- An id is a sink where some node has it that can be taken away, and then nothing runs after
it. -/
theorem mem_sinks_iff_erase {nodes : List TaskNode} {s : String} :
    s ∈ sinks nodes ↔ ∃ n ∈ nodes, n.id = some s ∧ ∀ m ∈ nodes.erase n, s ∉ m.runAfter := by
  have hothers : ∀ {n : TaskNode} {i : Nat}, nodes[i]? = some n →
      ((∀ m ∈ nodes.zipIdx, m.2 ≠ i → s ∉ m.1.runAfter) ↔
        ∀ m ∈ nodes.erase n, s ∉ m.runAfter) := by
    intro n i hi
    have hmem : ∀ m, m ∈ nodes.erase n ↔ ∃ j, j ≠ i ∧ nodes[j]? = some m := by
      intro m
      rw [← (perm_eraseIdx_erase hi).mem_iff, List.mem_eraseIdx_iff_getElem?]
    constructor
    · intro h m hm
      obtain ⟨j, hne, hj⟩ := (hmem m).1 hm
      exact h (m, j) (List.mem_zipIdx_iff_getElem?.2 hj) hne
    · rintro h ⟨m, j⟩ hm hne
      exact h m ((hmem m).2 ⟨j, hne, List.mem_zipIdx_iff_getElem?.1 hm⟩)
  rw [mem_sinks]
  constructor
  · rintro ⟨⟨n, i⟩, hn, hid, h⟩
    have hi := List.mem_zipIdx_iff_getElem?.1 hn
    exact ⟨n, List.mem_of_getElem? hi, hid, (hothers hi).1 h⟩
  · rintro ⟨n, hn, hid, h⟩
    obtain ⟨i, hi⟩ := List.mem_iff_getElem?.1 hn
    exact ⟨(n, i), List.mem_zipIdx_iff_getElem?.2 hi, hid, (hothers hi).2 h⟩

theorem nodup_sinks (nodes : List TaskNode) : (sinks nodes).Nodup := nodup_distinct _

/-- The order of the nodes is the order of the sinks at most. -/
theorem perm_sinks {xs ys : List TaskNode} (h : xs.Perm ys) : (sinks xs).Perm (sinks ys) := by
  refine (List.perm_ext_iff_of_nodup (nodup_sinks xs) (nodup_sinks ys)).2 fun s => ?_
  simp only [mem_sinks_iff_erase, h.mem_iff, (h.erase _).mem_iff]

/-! ## Nodes -/

/-- Two nodes are the same but for their places and the order of what they run after. -/
structure Alike (n m : TaskNode) : Prop where
  id : n.id = m.id
  name : n.name = m.name
  taskRef : n.taskRef = m.taskRef
  kind : n.kind = m.kind
  isFinal : n.isFinal = m.isFinal
  runAfter : n.runAfter.Perm m.runAfter

theorem alike_of_unplaced {n m : TaskNode} (h : n.unplaced = m.unplaced) : Alike n m := by
  simp only [TaskNode.unplaced, TaskNode.mk.injEq] at h
  obtain ⟨hid, hname, href, hkind, hrun, -, hfinal⟩ := h
  exact ⟨hid, hname, href, hkind, hfinal, .of_eq hrun⟩

theorem Alike.finalTask {σ τ : Type} [SpecView σ] [SpecView τ] {a : σ} {b : τ}
    (h : Alike (declare a) (declare b)) {runAfter runAfter' : List String}
    (hp : runAfter.Perm runAfter') : Alike (finalTask runAfter a) (finalTask runAfter' b) :=
  ⟨h.id, h.name, h.taskRef, h.kind, rfl, hp⟩

theorem forall₂_of_map_eq {α β γ : Type} {f : α → γ} {g : β → γ} {xs : List α} {ys : List β}
    (h : xs.map f = ys.map g) : List.Forall₂ (fun x y => f x = g y) xs ys := by
  rwa [← List.forall₂_eq_eq_eq, List.forall₂_map_left_iff, List.forall₂_map_right_iff] at h

/-! ## Specs -/

/-- A value looks like itself. -/
theorem simulation_eq (σ : Type) [SpecView σ] : Simulation (Eq : σ → σ → Prop) where
  field := by
    rintro a _ rfl key
    cases field? a key with
    | none => exact .none
    | some v => exact .some rfl
  item := by
    rintro a _ rfl
    exact List.forall₂_refl _
  text := by
    rintro a _ rfl
    rfl
  mapping := by
    rintro a _ rfl
    rfl

variable {σ τ : Type} [SpecView σ] [SpecView τ]

/-- The items under a key of the two specs are related, in any order. -/
def Rearranged (R : σ → τ → Prop) (a : σ) (b : τ) (key : String) : Prop :=
  Reordered R (fieldItems a key) (fieldItems b key)

namespace Simulation

variable {R : σ → τ → Prop} (h : Simulation R) {a : σ} {b : τ}
include h

theorem reordered_entries {key : String} (hitems : Rearranged R a b key) :
    Reordered R (entries a key) (entries b key) :=
  hitems.filter fun _ _ => h.mapping

theorem reordered_mainNodes (htasks : Rearranged R a b "tasks") :
    Reordered (fun n m => n.unplaced = m.unplaced) (mainNodes a) (mainNodes b) :=
  (h.reordered_entries htasks).flatMap fun _ _ hxy =>
    .of_forall₂ (forall₂_of_map_eq (h.unplaced_block hxy))

theorem perm_sinks_mainNodes (htasks : Rearranged R a b "tasks") :
    (sinks (mainNodes a)).Perm (sinks (mainNodes b)) := by
  have hplain : ((mainNodes a).map (·.unplaced)).Perm ((mainNodes b).map (·.unplaced)) :=
    reordered_eq_iff.1 ((h.reordered_mainNodes htasks).map fun _ _ hnm => hnm)
  rw [← sinks_unplaced (mainNodes a), ← sinks_unplaced (mainNodes b)]
  exact perm_sinks hplain

/-- Where the entries of a spec are rearranged, so are its tasks. -/
theorem reordered_extract (htasks : Rearranged R a b "tasks")
    (hfinally : Rearranged R a b "finally") : Reordered Alike (extract a) (extract b) := by
  have hmain : Reordered Alike (mainNodes a) (mainNodes b) :=
    (h.reordered_mainNodes htasks).mono fun _ _ => alike_of_unplaced
  refine hmain.append ((h.reordered_entries hfinally).map fun x y hxy => ?_)
  exact (alike_of_unplaced (h.unplaced_declare hxy)).finalTask (h.perm_sinks_mainNodes htasks)

end Simulation

end PipelineLens
