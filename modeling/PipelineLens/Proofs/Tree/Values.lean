import PipelineLens.Proofs.Tree.Nesting
import PipelineLens.Proofs.Tree.Routes
/-!
# Values and items

The node under a key of a mapping and the items of a sequence stand in their node: `StandsIn`. Where
the links of a tree agree, a node stands in one other node only (`standsIn_unique`), since it is
listed by its parent alone, and the parent tells a value from an item. So what stands under
different keys is different (`key_eq`), however often a key is written.
-/
namespace PipelineLens

namespace Tree

/-- `n` is the value under a key of the mapping `m`, or an item of the sequence `m`. -/
def StandsIn (t : Tree) (n m : Nat) : Prop := (∃ key, t.findValue? m key = some n) ∨ n ∈ t.items m

/-- The node `m` lists `n`. -/
def Lists (t : Tree) (m n : Nat) : Prop := ∃ x, t.node? m = some x ∧ n ∈ x.children

variable {t : Tree} {n m : Nat}

theorem lists_of_mem_pairs (h : n ∈ t.pairs m) : t.Lists m n := by
  obtain hnil | ⟨x, hx, heq⟩ := t.pairs_cases m
  · simp [hnil] at h
  · exact ⟨x, hx, heq ▸ h⟩

theorem lists_of_mem_items (h : n ∈ t.items m) : t.Lists m n := by
  obtain hnil | ⟨x, hx, heq⟩ := t.items_cases m
  · simp [hnil] at h
  · exact ⟨x, hx, heq ▸ h⟩

theorem lists_of_pairParts? {k : Nat} (h : t.pairParts? m = some (k, some n)) : t.Lists m n := by
  obtain ⟨x, hx, hb⟩ := pairParts?_eq_some.1 h
  exact ⟨x, hx, by simp [Node.children, hb, Body.children]⟩

/-- A pair has no items. -/
theorem not_mem_items_of_pairParts? {c k : Nat} {value : Option Nat}
    (h : t.pairParts? m = some (k, value)) : c ∉ t.items m := by
  obtain ⟨x, hx, hb⟩ := pairParts?_eq_some.1 h
  simp [items, body?, hx, hb]

theorem StandsIn.lt (h : t.StandsIn n m) : n < m := by
  obtain ⟨key, h⟩ | h := h
  · exact lt_of_findValue? h
  · exact lt_of_mem_items h

end Tree

namespace Parsed.Linked
variable {p : Parsed} {n m m' : Nat} (hl : p.Linked)
include hl

/-- What a node lists names this node as its parent. -/
theorem exists_node_of_lists (h : p.tree.Lists m n) :
    ∃ z, p.tree.node? n = some z ∧ z.parent = some m := by
  obtain ⟨x, hx, hn⟩ := h
  obtain ⟨z, hz⟩ := Tree.lt_size_iff.1 (Tree.lt_size_of_mem_children hx hn)
  exact ⟨z, hz, (hl.child n z hz m).2 ⟨x, hx, hn⟩⟩

/-- A node is listed by one node only. -/
theorem eq_of_lists (h : p.tree.Lists m n) (h' : p.tree.Lists m' n) : m = m' := by
  obtain ⟨z, hz, hm⟩ := hl.exists_node_of_lists h
  obtain ⟨z', hz', hm'⟩ := hl.exists_node_of_lists h'
  obtain rfl : z = z' := Option.some.inj (hz.symm.trans hz')
  exact Option.some.inj (hm.symm.trans hm')

theorem nodup_items : (p.tree.items m).Nodup := by
  obtain hnil | ⟨x, hx, heq⟩ := p.tree.items_cases m
  · rw [hnil]
    exact .nil
  · rw [heq]
    exact hl.nodup_children m x hx

/-- A node is the value of one pair only. -/
theorem pair_eq {pair pair' k k' : Nat} (h : p.tree.pairParts? pair = some (k, some n))
    (h' : p.tree.pairParts? pair' = some (k', some n)) : pair = pair' :=
  hl.eq_of_lists (Tree.lists_of_pairParts? h) (Tree.lists_of_pairParts? h')

/-- Under different keys of a mapping stand different nodes. -/
theorem key_eq {key key' : String} (h : p.tree.findValue? m key = some n)
    (h' : p.tree.findValue? m key' = some n) : key = key' := by
  obtain ⟨pair, k, -, hkey, hparts⟩ := Tree.exists_pair_of_findValue? h
  obtain ⟨pair', k', -, hkey', hparts'⟩ := Tree.exists_pair_of_findValue? h'
  rw [hl.pair_eq hparts hparts', hkey'] at hkey
  exact (Option.some.inj hkey).symm

/-- A value stands below a pair, so it is not an item. -/
theorem not_mem_items {key : String} (h : p.tree.findValue? m key = some n) :
    n ∉ p.tree.items m' := by
  intro hn
  obtain ⟨pair, k, -, -, hparts⟩ := Tree.exists_pair_of_findValue? h
  obtain rfl := hl.eq_of_lists (Tree.lists_of_pairParts? hparts) (Tree.lists_of_mem_items hn)
  exact Tree.not_mem_items_of_pairParts? hparts hn

/-- A node stands in one node only. -/
theorem standsIn_unique (h : p.tree.StandsIn n m) (h' : p.tree.StandsIn n m') : m = m' := by
  obtain ⟨key, h⟩ | h := h <;> obtain ⟨key', h'⟩ | h' := h'
  · obtain ⟨pair, k, hpair, -, hparts⟩ := Tree.exists_pair_of_findValue? h
    obtain ⟨pair', k', hpair', -, hparts'⟩ := Tree.exists_pair_of_findValue? h'
    rw [← hl.pair_eq hparts hparts'] at hpair'
    exact hl.eq_of_lists (Tree.lists_of_mem_pairs hpair) (Tree.lists_of_mem_pairs hpair')
  · exact absurd h' (hl.not_mem_items h)
  · exact absurd h (hl.not_mem_items h')
  · exact hl.eq_of_lists (Tree.lists_of_mem_items h) (Tree.lists_of_mem_items h')

end Parsed.Linked

end PipelineLens
