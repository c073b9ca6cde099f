import Mathlib.Data.List.Pairwise
import PipelineLens.Element.Build
import PipelineLens.Proofs.Tree.Json
/-!
# Well-nested parse trees

A parse tree is well nested when what stands below a node lies in the range of the node, and the
ranges of nodes side by side have no offset in common. The two laws pass from the nodes to what a
mapping and a sequence are asked for: the values under different keys are apart, and so are the
items of a list.
-/
namespace PipelineLens

/-- The offsets from `start` on, before `stop`. -/
structure Range where
  start : Nat
  stop : Nat
deriving DecidableEq, Repr

namespace Range

def contains (r : Range) (pos : Nat) : Bool := r.start ≤ pos && pos < r.stop

/-- The first range starts and stops inside the second. -/
def Within (a b : Range) : Prop := b.start ≤ a.start ∧ a.stop ≤ b.stop

/-- No offset is in both ranges. -/
def Apart (a b : Range) : Prop := ∀ pos, ¬ (a.contains pos = true ∧ b.contains pos = true)

variable {a b c d : Range} {pos : Nat}

instance : Decidable (a.Within b) :=
  inferInstanceAs (Decidable (b.start ≤ a.start ∧ a.stop ≤ b.stop))

theorem contains_iff : a.contains pos = true ↔ a.start ≤ pos ∧ pos < a.stop := by
  simp [contains]

/-- Of two ranges that are apart one is empty, or one ends before the other starts. -/
theorem apart_iff :
    a.Apart b ↔ a.stop ≤ a.start ∨ b.stop ≤ b.start ∨ a.stop ≤ b.start ∨ b.stop ≤ a.start := by
  constructor
  · intro h
    by_contra hn
    -- the later of the two starts would be in both
    apply h (max a.start b.start)
    rw [contains_iff, contains_iff]
    omega
  · intro h pos hpos
    rw [contains_iff, contains_iff] at hpos
    omega

instance : Decidable (a.Apart b) := decidable_of_iff' _ apart_iff

theorem Within.trans (hab : a.Within b) (hbc : b.Within c) : a.Within c :=
  ⟨Nat.le_trans hbc.1 hab.1, Nat.le_trans hab.2 hbc.2⟩

theorem Within.contains (h : a.Within b) (ha : a.contains pos = true) : b.contains pos = true := by
  have ⟨hstart, hstop⟩ := contains_iff.1 ha
  exact contains_iff.2 ⟨Nat.le_trans h.1 hstart, Nat.lt_of_lt_of_le hstop h.2⟩

theorem Apart.symm (h : a.Apart b) : b.Apart a := fun pos hpos => h pos hpos.symm

theorem Apart.of_within (h : a.Apart b) (hc : c.Within a) (hd : d.Within b) : c.Apart d :=
  fun pos hpos => h pos ⟨hc.contains hpos.1, hd.contains hpos.2⟩

end Range

def Node.range (n : Node) : Range := ⟨n.start, n.stop⟩

def Place.range (p : Place) : Range := ⟨p.start, p.stop⟩

def Document.range (d : Document) : Range := ⟨d.start, d.stop⟩

namespace Tree

/-- The range of a node; an empty one of what is no node. -/
def rangeOf (t : Tree) (id : Nat) : Range := (t.placeOf id).range

/-- Below a node stands what lies in its range, and no two nodes below it share an offset. -/
structure Nested (t : Tree) : Prop where
  within : ∀ n ∈ t.nodes.toList, ∀ c ∈ n.children, (t.rangeOf c).Within n.range
  apart : ∀ n ∈ t.nodes.toList, n.children.Pairwise fun a b => (t.rangeOf a).Apart (t.rangeOf b)

instance (t : Tree) : Decidable t.Nested :=
  decidable_of_iff
    ((∀ n ∈ t.nodes.toList, ∀ c ∈ n.children, (t.rangeOf c).Within n.range) ∧
      ∀ n ∈ t.nodes.toList, n.children.Pairwise fun a b => (t.rangeOf a).Apart (t.rangeOf b))
    ⟨fun h => ⟨h.1, h.2⟩, fun h => ⟨h.within, h.apart⟩⟩

variable {t : Tree} {id : Nat}

instance : Std.Symm fun a b => (t.rangeOf a).Apart (t.rangeOf b) := ⟨fun _ _ => Range.Apart.symm⟩

theorem rangeOf_eq {n : Node} (hn : t.node? id = some n) : t.rangeOf id = n.range := by
  simp [rangeOf, placeOf, hn, Place.range, Node.range]

/-! ## Mappings and sequences -/

theorem pairs_cases (t : Tree) (id : Nat) :
    t.pairs id = [] ∨ ∃ n, t.node? id = some n ∧ t.pairs id = n.children := by
  cases hn : t.node? id with
  | none => exact .inl (by simp [pairs, body?, hn])
  | some n =>
    cases hb : n.body with
    | mapping pairs =>
      exact .inr ⟨n, rfl, by simp [Tree.pairs, body?, hn, hb, Node.children, Body.children]⟩
    | _ => exact .inl (by simp [pairs, body?, hn, hb])

theorem items_cases (t : Tree) (id : Nat) :
    t.items id = [] ∨ ∃ n, t.node? id = some n ∧ t.items id = n.children := by
  cases hn : t.node? id with
  | none => exact .inl (by simp [items, body?, hn])
  | some n =>
    cases hb : n.body with
    | sequence items =>
      exact .inr ⟨n, rfl, by simp [Tree.items, body?, hn, hb, Node.children, Body.children]⟩
    | _ => exact .inl (by simp [items, body?, hn, hb])

namespace Nested
variable (h : t.Nested)
include h

theorem within_of_mem_children {n : Node} (hn : t.node? id = some n) {c : Nat}
    (hc : c ∈ n.children) : (t.rangeOf c).Within (t.rangeOf id) := by
  rw [rangeOf_eq hn]
  exact h.within n (mem_nodes hn) c hc

theorem within_of_mem_pairs {c : Nat} (hc : c ∈ t.pairs id) :
    (t.rangeOf c).Within (t.rangeOf id) := by
  obtain hnil | ⟨n, hn, heq⟩ := t.pairs_cases id
  · simp [hnil] at hc
  · exact h.within_of_mem_children hn (heq ▸ hc)

theorem within_of_mem_items {c : Nat} (hc : c ∈ t.items id) :
    (t.rangeOf c).Within (t.rangeOf id) := by
  obtain hnil | ⟨n, hn, heq⟩ := t.items_cases id
  · simp [hnil] at hc
  · exact h.within_of_mem_children hn (heq ▸ hc)

theorem pairwise_items : (t.items id).Pairwise fun a b => (t.rangeOf a).Apart (t.rangeOf b) := by
  obtain hnil | ⟨n, hn, heq⟩ := t.items_cases id
  · simp [hnil]
  · rw [heq]
    exact h.apart n (mem_nodes hn)

theorem apart_of_mem_pairs {a b : Nat} (ha : a ∈ t.pairs id) (hb : b ∈ t.pairs id) (hab : a ≠ b) :
    (t.rangeOf a).Apart (t.rangeOf b) := by
  obtain hnil | ⟨n, hn, heq⟩ := t.pairs_cases id
  · simp [hnil] at ha
  · rw [heq] at ha hb
    exact (h.apart n (mem_nodes hn)).forall ha hb hab

theorem within_of_pairParts? {key value : Nat} (hp : t.pairParts? id = some (key, some value)) :
    (t.rangeOf value).Within (t.rangeOf id) := by
  obtain ⟨n, hn, hb⟩ := pairParts?_eq_some.1 hp
  exact h.within_of_mem_children hn (by simp [Node.children, hb, Body.children])

/-- The value under a key lies in a pair with this key. -/
theorem exists_pair {key : String} {value : Nat} (hv : t.findValue? id key = some value) :
    ∃ pair ∈ t.pairs id, t.keyText? pair = some key ∧
      (t.rangeOf value).Within (t.rangeOf pair) := by
  obtain ⟨pair, k, hpair, hkey, hparts⟩ := exists_pair_of_findValue? hv
  exact ⟨pair, hpair, hkey, h.within_of_pairParts? hparts⟩

theorem within_of_findValue? {key : String} {value : Nat} (hv : t.findValue? id key = some value) :
    (t.rangeOf value).Within (t.rangeOf id) := by
  obtain ⟨pair, hpair, -, hw⟩ := h.exists_pair hv
  exact hw.trans (h.within_of_mem_pairs hpair)

/-- What stands under different keys is apart. -/
theorem apart_of_findValue? {key key' : String} {value value' : Nat} (hne : key ≠ key')
    (hv : t.findValue? id key = some value) (hv' : t.findValue? id key' = some value') :
    (t.rangeOf value).Apart (t.rangeOf value') := by
  obtain ⟨pair, hpair, hkey, hw⟩ := h.exists_pair hv
  obtain ⟨pair', hpair', hkey', hw'⟩ := h.exists_pair hv'
  have hpne : pair ≠ pair' := by
    rintro rfl
    exact hne (Option.some.inj (hkey.symm.trans hkey'))
  exact (h.apart_of_mem_pairs hpair hpair' hpne).of_within hw hw'

end Nested

end Tree

end PipelineLens
