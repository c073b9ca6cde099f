import Std.Data.TreeMap.Lemmas
import PipelineLens.Spec.TaskNode
/-!
# Nodes that others run after

`isAwaited` says whether a node other than a given one runs after an id. A table that is made once
for a list of nodes answers this for every node and id: `besides_ofNodes`.
-/
namespace PipelineLens

/-- Whether a node other than the one at `index` runs after `id`. -/
def isAwaited (nodes : List TaskNode) (index : Nat) (id : String) : Bool :=
  nodes.zipIdx.any fun other => other.2 ≠ index && other.1.runAfter.contains id

/-- Which nodes run after an id: the first one that was found, and whether there are others. -/
structure Awaiting where
  first : Nat
  others : Bool
deriving DecidableEq, Repr

/-- Which nodes run after each id. -/
abbrev AwaitingTable := Std.TreeMap String Awaiting

namespace AwaitingTable

/-- The node at `index` runs after `id` too. -/
def note (known : AwaitingTable) (index : Nat) (id : String) : AwaitingTable :=
  known.insert id <|
    match known[id]? with
    | none => ⟨index, false⟩
    | some a => ⟨a.first, a.others || a.first ≠ index⟩

def ofNodes (nodes : List TaskNode) : AwaitingTable :=
  nodes.zipIdx.foldl (fun known n => n.1.runAfter.foldl (note · n.2) known) ∅

/-- Whether a node other than the one at `index` runs after `id`. -/
def besides (known : AwaitingTable) (index : Nat) (id : String) : Bool :=
  match known[id]? with
  | none => false
  | some a => a.first ≠ index || a.others

/-- What a table says, when `runs id index` says that the node at `index` runs after `id`. -/
def Tells (known : AwaitingTable) (runs : String → Nat → Prop) : Prop :=
  ∀ id, match known[id]? with
    | none => ∀ i, ¬ runs id i
    | some a => runs id a.first ∧ (a.others = true ↔ ∃ i, runs id i ∧ i ≠ a.first)

theorem Tells.congr {known : AwaitingTable} {runs others : String → Nat → Prop}
    (h : Tells known runs) (e : ∀ id i, runs id i ↔ others id i) : Tells known others := by
  have : runs = others := funext fun id => funext fun i => propext (e id i)
  exact this ▸ h

theorem Tells.note {known : AwaitingTable} {runs : String → Nat → Prop} (h : Tells known runs)
    (index : Nat) (id : String) :
    Tells (known.note index id) fun other i => runs other i ∨ (other = id ∧ i = index) := by
  intro other
  have ho := h other
  simp only [AwaitingTable.note, Std.TreeMap.getElem?_insert, Std.LawfulEqCmp.compare_eq_iff_eq]
  by_cases he : id = other
  · subst he
    simp only [if_true]
    cases hk : known[id]? with
    | none => simp_all
    | some a =>
      simp only [hk] at ho
      obtain ⟨first, others⟩ := ho
      simp only [first, true_or, true_and, Bool.or_eq_true, decide_eq_true_eq, others]
      constructor
      · rintro (⟨i, hi, hne⟩ | hne)
        · exact ⟨i, .inl hi, hne⟩
        · exact ⟨index, .inr rfl, Ne.symm hne⟩
      · rintro ⟨i, hi | rfl, hne⟩
        · exact .inl ⟨i, hi, hne⟩
        · exact .inr (Ne.symm hne)
  · simp only [he, if_false, Ne.symm he, false_and, or_false]
    exact ho

theorem Tells.notes {known : AwaitingTable} {runs : String → Nat → Prop} (h : Tells known runs)
    (index : Nat) (ids : List String) :
    Tells (ids.foldl (AwaitingTable.note · index) known)
      fun id i => runs id i ∨ (id ∈ ids ∧ i = index) := by
  induction ids generalizing known runs with
  | nil => simpa using h
  | cons id ids ih =>
    have := ih (h.note index id)
    simp only [List.foldl_cons]
    exact this.congr (by intro other i; grind)

theorem tells_ofNodes (nodes : List TaskNode) :
    Tells (ofNodes nodes) fun id i => ∃ n ∈ nodes.zipIdx, id ∈ n.1.runAfter ∧ i = n.2 := by
  have h : ∀ (ns : List (TaskNode × Nat)) (known : AwaitingTable) (runs : String → Nat → Prop),
      Tells known runs →
      Tells (ns.foldl (fun known n => n.1.runAfter.foldl (AwaitingTable.note · n.2) known) known)
        fun id i => runs id i ∨ ∃ n ∈ ns, id ∈ n.1.runAfter ∧ i = n.2 := by
    intro ns
    induction ns with
    | nil => intro known runs h; simpa using h
    | cons n ns ih =>
      intro known runs h
      have := ih _ _ (h.notes n.2 n.1.runAfter)
      simp only [List.foldl_cons]
      exact this.congr (by intro id i; simp [or_assoc])
  exact (h nodes.zipIdx ∅ (fun _ _ => False) (by intro id; simp)).congr (by simp)

theorem besides_ofNodes (nodes : List TaskNode) (index : Nat) (id : String) :
    (ofNodes nodes).besides index id = isAwaited nodes index id := by
  have := tells_ofNodes nodes id
  rw [Bool.eq_iff_iff]
  simp only [besides, isAwaited]
  cases hk : (ofNodes nodes)[id]? <;> grind

end AwaitingTable

end PipelineLens
