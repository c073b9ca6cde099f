import PipelineLens.Proofs.Pointwise
import PipelineLens.Proofs.Segment
import PipelineLens.Proofs.Tree.Json
import PipelineLens.Tree.Layout
/-!
# Layouts in the array of nodes

`Layout.place` lays a nested tree out in one list, and the nodes name each other by their index
there. Whatever its kind, a layout is its root and the layouts directly below it (`parts`): they
are placed one after the other, and then the root, which lists their roots (`place_eq`). `Stands`
says that a list of nodes holds a layout; with it stand its parts, and at every index stands some
part (`Stands.exists_part`). So the links down and up agree: a node names as its parent the one node
that lists it (`parent_eq_iff`).
-/
namespace PipelineLens

namespace Layout

/-! ## A root and its parts -/

/-- The layouts directly below the root. -/
def parts : Layout → List Layout
  | scalar .. => []
  | mapping _ _ _ pairs => pairs
  | sequence _ _ _ items => items
  | key _ _ k => [k]
  | pair _ _ k v => [k, v]

/-- The node of the root, when the layout is placed from `base` on. -/
def rootNode (parent : Option Nat) (base : Nat) : Layout → Node
  | scalar raw start stop => ⟨raw, start, stop, parent, .scalar⟩
  | mapping raw start stop pairs => ⟨raw, start, stop, parent, .mapping (rootsAt base pairs)⟩
  | sequence raw start stop items => ⟨raw, start, stop, parent, .sequence (rootsAt base items)⟩
  | key start stop k => ⟨k.raw, start, stop, parent, .pair (k.rootAt base) none⟩
  | pair start stop k v =>
    ⟨k.raw, start, stop, parent, .pair (k.rootAt base) (some (v.rootAt (base + k.size)))⟩

theorem parent_rootNode (parent : Option Nat) (base : Nat) (l : Layout) :
    (l.rootNode parent base).parent = parent := by
  cases l <;> rfl

theorem children_rootNode (parent : Option Nat) (base : Nat) (l : Layout) :
    (l.rootNode parent base).children = rootsAt base l.parts := by
  cases l <;> simp [rootNode, Node.children, Body.children, parts, rootsAt]

theorem size_eq (l : Layout) : l.size = sizes l.parts + 1 := by
  cases l <;> simp [size, sizes, parts]

theorem rootAt_eq (base : Nat) (l : Layout) : l.rootAt base = base + sizes l.parts := by
  rw [rootAt, size_eq]
  omega

/-- The parts come first, and their root after them. -/
theorem place_eq (parent : Option Nat) (base : Nat) (l : Layout) :
    l.place parent base
      = placeAll (some (l.rootAt base)) base l.parts ++ [l.rootNode parent base] := by
  rw [rootAt_eq]
  cases l <;> simp [place, placeAll, parts, rootNode, sizes, Nat.add_assoc]

theorem size_le_sizes {l : Layout} {ls : List Layout} (h : l ∈ ls) : l.size ≤ sizes ls := by
  induction ls with
  | nil => cases h
  | cons x xs ih =>
    rw [sizes]
    rcases List.mem_cons.1 h with rfl | h
    · exact Nat.le_add_right _ _
    · exact Nat.le_trans (ih h) (Nat.le_add_left _ _)

/-- What passes from the parts of a layout to the layout holds of every layout. -/
theorem partsInduction {P : Layout → Prop} (step : ∀ l, (∀ x ∈ l.parts, P x) → P l) (l : Layout) :
    P l := by
  induction hn : l.size using Nat.strongRecOn generalizing l with
  | ind n ih =>
    refine step l fun x hx => ih x.size ?_ x rfl
    have := size_le_sizes hx
    rw [← hn, size_eq l]
    omega

/-! ## What stands where -/

/-- The nodes of the layout stand in `ns` from `base` on, the root below `parent`. -/
def Stands (ns : List Node) (parent : Option Nat) (base : Nat) (l : Layout) : Prop :=
  SegmentAt ns base (l.place parent base)

/-- The nodes of the layouts stand in `ns` from `base` on, all roots below `parent`. -/
def StandAll (ns : List Node) (parent : Option Nat) (base : Nat) (ls : List Layout) : Prop :=
  SegmentAt ns base (placeAll parent base ls)

/-- A node other than `id` lists it: the one that is given as its parent. -/
def ListedBy (ns : List Node) (parent : Option Nat) (id : Nat) : Prop :=
  ∃ q m, parent = some q ∧ ns[q]? = some m ∧ id ∈ m.children

section
variable {ns : List Node} {parent : Option Nat} {base i : Nat} {l : Layout} {ls ms : List Layout}

theorem Stands.root (h : Stands ns parent base l) :
    ns[l.rootAt base]? = some (l.rootNode parent base) := by
  unfold Stands at h
  rw [place_eq] at h
  have := h.right.head
  rwa [length_placeAll, ← rootAt_eq] at this

theorem Stands.parts (h : Stands ns parent base l) :
    StandAll ns (some (l.rootAt base)) base l.parts := by
  unfold Stands at h
  rw [place_eq] at h
  exact h.left

theorem StandAll.head (h : StandAll ns parent base (l :: ls)) : Stands ns parent base l := by
  unfold StandAll at h
  rw [placeAll] at h
  exact h.left

theorem StandAll.tail (h : StandAll ns parent base (l :: ls)) :
    StandAll ns parent (base + l.size) ls := by
  unfold StandAll at h
  rw [placeAll] at h
  have := h.right
  rwa [length_place] at this

theorem placeAll_append (parent : Option Nat) (base : Nat) (ls ms : List Layout) :
    placeAll parent base (ls ++ ms)
      = placeAll parent base ls ++ placeAll parent (base + sizes ls) ms := by
  induction ls generalizing base with
  | nil => rfl
  | cons l ls ih =>
    simp only [List.cons_append, placeAll, sizes, ih, List.append_assoc, Nat.add_assoc]

theorem StandAll.left (h : StandAll ns parent base (ls ++ ms)) : StandAll ns parent base ls := by
  unfold StandAll at h
  rw [placeAll_append] at h
  exact SegmentAt.left h

theorem StandAll.right (h : StandAll ns parent base (ls ++ ms)) :
    StandAll ns parent (base + sizes ls) ms := by
  unfold StandAll at h
  rw [placeAll_append] at h
  have := SegmentAt.right h
  rwa [length_placeAll] at this

/-- At the indices of the roots stand the layouts. -/
theorem StandAll.forall₂ (h : StandAll ns parent base ls) :
    List.Forall₂ (fun id l => ∃ b, id = l.rootAt b ∧ Stands ns parent b l)
      (rootsAt base ls) ls := by
  induction ls generalizing base with
  | nil => exact .nil
  | cons l ls ih => exact .cons ⟨base, rfl, h.head⟩ (ih h.tail)

/-- Every root among layouts side by side is a node below their parent. -/
theorem StandAll.exists_node (h : StandAll ns parent base ls) (hi : i ∈ rootsAt base ls) :
    ∃ n, ns[i]? = some n ∧ n.parent = parent := by
  obtain ⟨l, -, b, rfl, hstands⟩ := exists_of_mem_forall₂ h.forall₂ hi
  exact ⟨_, hstands.root, parent_rootNode parent b l⟩

/-- An index among layouts side by side lies in one of them. -/
theorem StandAll.exists_layout (h : StandAll ns parent base ls) (hle : base ≤ i)
    (hlt : i < base + sizes ls) :
    ∃ l ∈ ls, ∃ b, Stands ns parent b l ∧ b ≤ i ∧ i < b + l.size ∧
      l.rootAt b ∈ rootsAt base ls := by
  induction ls generalizing base with
  | nil =>
    rw [sizes] at hlt
    omega
  | cons l ls ih =>
    by_cases hi : i < base + l.size
    · exact ⟨l, List.mem_cons_self, base, h.head, hle, hi, List.mem_cons_self⟩
    · rw [sizes] at hlt
      obtain ⟨x, hx, b, hstands, hb, hib, hroot⟩ := ih h.tail (by omega) (by omega)
      exact ⟨x, List.mem_cons_of_mem _ hx, b, hstands, hb, hib, List.mem_cons_of_mem _ hroot⟩

/-- At every index stands some part of the layout: the layout itself, or one that the node given as
its parent lists. -/
theorem Stands.exists_part (h : Stands ns parent base l) (hle : base ≤ i)
    (hlt : i < base + l.size) :
    ∃ above b x, Stands ns above b x ∧ i = x.rootAt b ∧
      (i = l.rootAt base ∧ above = parent ∨ ListedBy ns above i) := by
  induction l using partsInduction generalizing parent base with
  | step l ih =>
    by_cases hi : i = l.rootAt base
    · exact ⟨parent, base, l, h, hi, .inl ⟨hi, rfl⟩⟩
    · rw [rootAt_eq] at hi
      rw [size_eq] at hlt
      obtain ⟨x, hx, b, hstands, hb, hib, hroot⟩ := h.parts.exists_layout hle (by omega)
      obtain ⟨above, b', y, hy, hroot', ⟨rfl, rfl⟩ | hlisted⟩ := ih x hx hstands hb hib
      · refine ⟨_, b', y, hy, hroot', .inr ⟨_, _, rfl, h.root, ?_⟩⟩
        rwa [children_rootNode]
      · exact ⟨above, b', y, hy, hroot', .inr hlisted⟩

/-! ## Roots side by side -/

theorem base_le_of_mem_rootsAt (h : i ∈ rootsAt base ls) : base ≤ i := by
  induction ls generalizing base with
  | nil => cases h
  | cons l ls ih =>
    rcases List.mem_cons.1 h with rfl | h
    · rw [rootAt_eq]
      exact Nat.le_add_right _ _
    · exact Nat.le_trans (Nat.le_add_right _ _) (ih h)

/-- Roots side by side rise, so none occurs twice. -/
theorem pairwise_rootsAt (base : Nat) (ls : List Layout) : (rootsAt base ls).Pairwise (· < ·) := by
  induction ls generalizing base with
  | nil => exact .nil
  | cons l ls ih =>
    refine .cons (fun id hid => ?_) (ih _)
    have := base_le_of_mem_rootsAt hid
    rw [rootAt_eq]
    rw [size_eq] at this
    omega

theorem rootsAt_append (base : Nat) (ls ms : List Layout) :
    rootsAt base (ls ++ ms) = rootsAt base ls ++ rootsAt (base + sizes ls) ms := by
  induction ls generalizing base with
  | nil => rfl
  | cons l ls ih => simp only [List.cons_append, rootsAt, sizes, ih, Nat.add_assoc]

end

end Layout

/-! ## Trees of layouts -/

namespace Tree
open Layout

section
variable {ls : List Layout} {id : Nat} {n : Node}

theorem standAll_ofLayouts (ls : List Layout) : StandAll (ofLayouts ls).nodes.toList none 0 ls :=
  segmentAt_self _

theorem getElem?_nodes (t : Tree) (id : Nat) : t.nodes.toList[id]? = t.node? id :=
  Array.getElem?_toList

theorem size_ofLayouts (ls : List Layout) : (ofLayouts ls).size = sizes ls := by
  simp [Tree.size, ofLayouts, length_placeAll]

/-- Every node is the root of some layout, which stands at the top or is listed by its parent. -/
theorem exists_layout (hn : (ofLayouts ls).node? id = some n) :
    ∃ above b x, Stands (ofLayouts ls).nodes.toList above b x ∧ id = x.rootAt b ∧
      n = x.rootNode above b ∧
      (id ∈ rootsAt 0 ls ∧ above = none ∨ ListedBy (ofLayouts ls).nodes.toList above id) := by
  have hid : id < (ofLayouts ls).size := lt_size_iff.2 ⟨n, hn⟩
  rw [size_ofLayouts] at hid
  obtain ⟨l, hl, b, hstands, hb, hib, htop⟩ :=
    (standAll_ofLayouts ls).exists_layout (Nat.zero_le id) (by omega)
  obtain ⟨above, b', x, hx, hid, hlinks⟩ := hstands.exists_part hb hib
  have hroot := hx.root
  rw [← hid, getElem?_nodes, hn] at hroot
  refine ⟨above, b', x, hx, hid, Option.some.inj hroot, ?_⟩
  obtain ⟨rfl, rfl⟩ | hlisted := hlinks
  · exact .inl ⟨htop, rfl⟩
  · exact .inr hlisted

/-- What stands at the top is a node without a parent. -/
theorem exists_node_of_mem_rootsAt (hid : id ∈ rootsAt 0 ls) :
    ∃ n, (ofLayouts ls).node? id = some n ∧ n.parent = none :=
  getElem?_nodes _ id ▸ (standAll_ofLayouts ls).exists_node hid

/-- What a node lists is a node below it. -/
theorem exists_node_of_mem_children (hn : (ofLayouts ls).node? id = some n) {c : Nat}
    (hc : c ∈ n.children) : ∃ m, (ofLayouts ls).node? c = some m ∧ m.parent = some id := by
  obtain ⟨above, b, x, hx, rfl, rfl, -⟩ := exists_layout hn
  rw [children_rootNode] at hc
  exact getElem?_nodes _ c ▸ hx.parts.exists_node hc

/-- **A node names as its parent the one node that lists it.** -/
theorem parent_eq_some_iff (hn : (ofLayouts ls).node? id = some n) {q : Nat} :
    n.parent = some q ↔ ∃ m, (ofLayouts ls).node? q = some m ∧ id ∈ m.children := by
  constructor
  · intro hparent
    obtain ⟨above, b, x, -, -, rfl, ⟨-, rfl⟩ | ⟨q', m, rfl, hm, hid⟩⟩ := exists_layout hn
    · rw [parent_rootNode] at hparent
      cases hparent
    · rw [parent_rootNode] at hparent
      cases hparent
      exact ⟨m, getElem?_nodes _ _ ▸ hm, hid⟩
  · rintro ⟨m, hm, hid⟩
    obtain ⟨n', hn', hparent⟩ := exists_node_of_mem_children hm hid
    rw [hn] at hn'
    rwa [Option.some.inj hn']

/-- **The nodes at the top name no parent, and all others do.** -/
theorem parent_eq_none_iff (hn : (ofLayouts ls).node? id = some n) :
    n.parent = none ↔ id ∈ rootsAt 0 ls := by
  constructor
  · intro hparent
    obtain ⟨above, b, x, -, -, rfl, ⟨htop, -⟩ | ⟨q, m, rfl, -, -⟩⟩ := exists_layout hn
    · exact htop
    · rw [parent_rootNode] at hparent
      cases hparent
  · intro hid
    obtain ⟨n', hn', hparent⟩ := exists_node_of_mem_rootsAt hid
    rw [hn] at hn'
    rwa [Option.some.inj hn']

/-- The nodes below a node come in the order of their indices. -/
theorem pairwise_children (hn : (ofLayouts ls).node? id = some n) :
    n.children.Pairwise (· < ·) := by
  obtain ⟨above, b, x, -, -, rfl, -⟩ := exists_layout hn
  rw [children_rootNode]
  exact pairwise_rootsAt b x.parts

end

end Tree

/-! ## Documents -/

namespace Parsed
open Layout

/-- The nodes of all documents. -/
def tops (p : Parsed) : List Nat := p.documents.flatMap (·.nodes)

theorem flatMap_documentsAt (base : Nat) (ds : List Document.Draft) :
    (documentsAt base ds).flatMap (·.nodes) = rootsAt base (ds.flatMap (·.nodes)) := by
  induction ds generalizing base with
  | nil => rfl
  | cons d ds ih => rw [documentsAt, List.flatMap_cons, List.flatMap_cons, rootsAt_append, ih]

theorem tops_ofDrafts (ds : List Document.Draft) :
    (ofDrafts ds).tops = rootsAt 0 (ds.flatMap (·.nodes)) := flatMap_documentsAt 0 ds

end Parsed

end PipelineLens
