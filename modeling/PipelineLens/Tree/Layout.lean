import PipelineLens.Tree.Basic
/-!
# Nested trees and their placement

A `Layout` is a parse tree with its nodes inside each other. `place` lays its nodes out one after
the other: first what stands below a node, from left to right, then the node. The index of every
node follows from the sizes of what comes before it, so a layout placed from index `base` takes the
indices from `base` to `base + size - 1`, its own root last.
-/
namespace PipelineLens

inductive Layout where
  | scalar (raw : String) (start stop : Nat)
  | mapping (raw : String) (start stop : Nat) (pairs : List Layout)
  | sequence (raw : String) (start stop : Nat) (items : List Layout)
  /-- a pair without a value -/
  | key (start stop : Nat) (key : Layout)
  | pair (start stop : Nat) (key value : Layout)

namespace Layout

/-- The text of the root; that of a pair is the text of its key. -/
def raw : Layout → String
  | scalar raw .. => raw
  | mapping raw .. => raw
  | sequence raw .. => raw
  | key _ _ k => k.raw
  | pair _ _ k _ => k.raw

mutual

/-- The number of nodes. -/
def size : Layout → Nat
  | scalar .. => 1
  | mapping _ _ _ pairs => sizes pairs + 1
  | sequence _ _ _ items => sizes items + 1
  | key _ _ k => k.size + 1
  | pair _ _ k v => k.size + v.size + 1

def sizes : List Layout → Nat
  | [] => 0
  | l :: ls => l.size + sizes ls

end

/-- The index of the root when the nodes are placed from `base` on. -/
def rootAt (base : Nat) (l : Layout) : Nat := base + l.size - 1

/-- The indices of the roots of layouts placed one after the other. -/
def rootsAt (base : Nat) : List Layout → List Nat
  | [] => []
  | l :: ls => l.rootAt base :: rootsAt (base + l.size) ls

mutual

/-- The nodes from index `base` on, the root below `parent`. -/
def place (parent : Option Nat) (base : Nat) : Layout → List Node
  | scalar raw start stop => [⟨raw, start, stop, parent, .scalar⟩]
  | mapping raw start stop pairs =>
    placeAll (some (base + sizes pairs)) base pairs
      ++ [⟨raw, start, stop, parent, .mapping (rootsAt base pairs)⟩]
  | sequence raw start stop items =>
    placeAll (some (base + sizes items)) base items
      ++ [⟨raw, start, stop, parent, .sequence (rootsAt base items)⟩]
  | key start stop k =>
    place (some (base + k.size)) base k ++
      [⟨k.raw, start, stop, parent, .pair (k.rootAt base) none⟩]
  | pair start stop k v =>
    let id := base + k.size + v.size
    place (some id) base k ++ (place (some id) (base + k.size) v
      ++ [⟨k.raw, start, stop, parent, .pair (k.rootAt base) (some (v.rootAt (base + k.size)))⟩])

/-- The nodes of layouts placed one after the other, all roots below `parent`. -/
def placeAll (parent : Option Nat) (base : Nat) : List Layout → List Node
  | [] => []
  | l :: ls => place parent base l ++ placeAll parent (base + l.size) ls

end

theorem size_pos (l : Layout) : 0 < l.size := by
  cases l <;> simp [size]

mutual

theorem length_place (parent : Option Nat) (base : Nat) :
    (l : Layout) → (place parent base l).length = l.size
  | scalar .. => by simp [place, size]
  | mapping _ _ _ pairs => by simp [place, size, length_placeAll _ _ pairs]
  | sequence _ _ _ items => by simp [place, size, length_placeAll _ _ items]
  | key _ _ k => by simp [place, size, length_place _ _ k]
  | pair _ _ k v => by
    simp [place, size, length_place _ _ k, length_place _ _ v]
    omega

theorem length_placeAll (parent : Option Nat) (base : Nat) :
    (ls : List Layout) → (placeAll parent base ls).length = sizes ls
  | [] => by simp [placeAll, sizes]
  | l :: ls => by simp [placeAll, sizes, length_place _ _ l, length_placeAll _ _ ls]

end

theorem rootsAt_lt {base c : Nat} {ls : List Layout} (h : c ∈ rootsAt base ls) :
    c < base + sizes ls := by
  induction ls generalizing base with
  | nil => simp [rootsAt] at h
  | cons l ls ih =>
    rcases List.mem_cons.1 h with rfl | h
    · have := size_pos l
      simp only [rootAt, sizes]
      omega
    · have := ih h
      simp only [sizes]
      omega

/-- Nodes from index `base` on, each with smaller indices below it. -/
def Below (base : Nat) (nodes : List Node) : Prop :=
  ∀ (i : Nat) (h : i < nodes.length), ∀ c ∈ nodes[i].children, c < base + i

theorem Below.append {base : Nat} {xs ys : List Node} (hx : Below base xs)
    (hy : Below (base + xs.length) ys) : Below base (xs ++ ys) := by
  intro i hi c hc
  by_cases h : i < xs.length
  · rw [List.getElem_append_left h] at hc
    exact hx i h c hc
  · rw [List.getElem_append_right (by omega)] at hc
    have := hy (i - xs.length) (by simp at hi; omega) c hc
    omega

theorem below_nil (base : Nat) : Below base [] := fun i h => absurd h (by simp)

theorem below_singleton {base : Nat} {n : Node} (h : ∀ c ∈ n.children, c < base) :
    Below base [n] := by
  intro i hi c hc
  obtain rfl : i = 0 := by simpa using hi
  exact h c hc

mutual

theorem below_place (parent : Option Nat) (base : Nat) :
    (l : Layout) → Below base (place parent base l)
  | scalar .. => below_singleton (by simp [Node.children, Body.children])
  | mapping _ _ _ pairs =>
    (below_placeAll _ base pairs).append (below_singleton (by
      simpa [length_placeAll, Node.children, Body.children] using fun c hc => rootsAt_lt hc))
  | sequence _ _ _ items =>
    (below_placeAll _ base items).append (below_singleton (by
      simpa [length_placeAll, Node.children, Body.children] using fun c hc => rootsAt_lt hc))
  | key _ _ k =>
    (below_place _ base k).append (below_singleton (by
      have := size_pos k
      simp [length_place, Node.children, Body.children, rootAt]
      omega))
  | pair _ _ k v =>
    (below_place _ base k).append
      (Below.append (by rw [length_place]; exact below_place _ (base + k.size) v)
        (below_singleton (by
          have := size_pos k
          have := size_pos v
          simp [length_place, Node.children, Body.children, rootAt]
          omega)))

theorem below_placeAll (parent : Option Nat) (base : Nat) :
    (ls : List Layout) → Below base (placeAll parent base ls)
  | [] => below_nil base
  | l :: ls =>
    (below_place parent base l).append (by
      rw [length_place]
      exact below_placeAll parent (base + l.size) ls)

end

end Layout

/-- The tree of layouts placed one after the other, none below another. -/
def Tree.ofLayouts (ls : List Layout) : Tree where
  nodes := (Layout.placeAll none 0 ls).toArray
  below := by
    intro id h c hc
    have := Layout.below_placeAll none 0 ls id (by simpa using h) c (by simpa using hc)
    omega

/-- A document before its nodes have indices. -/
structure Document.Draft where
  nodes : List Layout
  errors : List String
  start : Nat
  stop : Nat

namespace Parsed

/-- The documents, with the indices that their nodes get from `base` on. -/
def documentsAt (base : Nat) : List Document.Draft → List Document
  | [] => []
  | d :: ds =>
    ⟨Layout.rootsAt base d.nodes, d.errors, d.start, d.stop⟩
      :: documentsAt (base + Layout.sizes d.nodes) ds

/-- The tree of all documents. -/
def ofDrafts (ds : List Document.Draft) : Parsed :=
  ⟨Tree.ofLayouts (ds.flatMap (·.nodes)), documentsAt 0 ds⟩

end Parsed

end PipelineLens
