import Mathlib.Data.List.Nodup
import PipelineLens.Proofs.Tree.Placement
/-!
# Routes to the nodes of documents

A `Route` starts at a node at the top of a document and goes down, from a node to one that it lists.
Where the links down and up agree and nothing is listed twice, there is exactly one route to every
node (`Linked.existsUnique_route`): its last step is the step down from the parent.
-/
namespace PipelineLens

/-- A way from a document down to a node, by positions among the nodes listed. -/
inductive Route where
  | top (document index : Nat)
  | child (above : Route) (index : Nat)
deriving DecidableEq, Repr

namespace Parsed

/-- The node that a route leads to. -/
def at? (p : Parsed) : Route → Option Nat
  | .top document index => p.documents[document]?.bind (·.nodes[index]?)
  | .child above index => (p.at? above).bind fun id => (p.tree.node? id).bind (·.children[index]?)

variable {p : Parsed} {id : Nat}

/-- The links down and up agree, from the top of the documents on, and nothing is listed twice. -/
structure Linked (p : Parsed) : Prop where
  top : ∀ id n, p.tree.node? id = some n → (n.parent = none ↔ id ∈ p.tops)
  child : ∀ id n, p.tree.node? id = some n → ∀ q,
    n.parent = some q ↔ ∃ m, p.tree.node? q = some m ∧ id ∈ m.children
  node_top : ∀ id ∈ p.tops, id < p.tree.size
  nodup_tops : p.tops.Nodup
  nodup_children : ∀ id n, p.tree.node? id = some n → n.children.Nodup

theorem linked_ofDrafts (ds : List Document.Draft) : (ofDrafts ds).Linked where
  top id n hn := by
    rw [tops_ofDrafts]
    exact Tree.parent_eq_none_iff hn
  child id n hn q := Tree.parent_eq_some_iff hn
  node_top id hid := by
    rw [tops_ofDrafts] at hid
    obtain ⟨n, hn, -⟩ := Tree.exists_node_of_mem_rootsAt hid
    exact Tree.lt_size_iff.2 ⟨n, hn⟩
  nodup_tops := by
    rw [tops_ofDrafts]
    exact (Layout.pairwise_rootsAt 0 _).imp Nat.ne_of_lt
  nodup_children id n hn := (Tree.pairwise_children hn).imp Nat.ne_of_lt

theorem mem_tops : id ∈ p.tops ↔ ∃ document index, p.at? (.top document index) = some id := by
  simp only [tops, List.mem_flatMap, at?, Option.bind_eq_some_iff]
  constructor
  · rintro ⟨d, hd, hid⟩
    obtain ⟨document, hdocument⟩ := List.mem_iff_getElem?.1 hd
    obtain ⟨index, hindex⟩ := List.mem_iff_getElem?.1 hid
    exact ⟨document, index, d, hdocument, hindex⟩
  · rintro ⟨document, index, d, hdocument, hindex⟩
    exact ⟨d, List.mem_of_getElem? hdocument, List.mem_of_getElem? hindex⟩

theorem at?_child {above : Route} {index : Nat} :
    p.at? (.child above index) = some id ↔
      ∃ q m, p.at? above = some q ∧ p.tree.node? q = some m ∧ m.children[index]? = some id := by
  simp only [at?, Option.bind_eq_some_iff]
  constructor
  · rintro ⟨q, hq, m, hm, hid⟩
    exact ⟨q, m, hq, hm, hid⟩
  · rintro ⟨q, m, hq, hm, hid⟩
    exact ⟨q, hq, m, hm, hid⟩

namespace Linked
variable (h : p.Linked)
include h

/-- Different documents have no node in common. -/
theorem not_mem_of_lt {d e : Nat} {a b : Document} (hlt : d < e) (ha : p.documents[d]? = some a)
    (hb : p.documents[e]? = some b) (hid : id ∈ a.nodes) : id ∉ b.nodes := by
  obtain ⟨hd, rfl⟩ := List.getElem?_eq_some_iff.1 ha
  obtain ⟨he, rfl⟩ := List.getElem?_eq_some_iff.1 hb
  have hapart := (List.nodup_flatMap.1 h.nodup_tops).2
  exact fun hid' => List.pairwise_iff_getElem.1 hapart d e hd he hlt hid hid'

/-- The nodes at the top stand there once. -/
theorem top_inj {d e i j : Nat} (hi : p.at? (.top d i) = some id)
    (hj : p.at? (.top e j) = some id) : d = e ∧ i = j := by
  simp only [at?, Option.bind_eq_some_iff] at hi hj
  obtain ⟨a, ha, hi⟩ := hi
  obtain ⟨b, hb, hj⟩ := hj
  have hia := List.mem_of_getElem? hi
  have hjb := List.mem_of_getElem? hj
  obtain rfl : d = e := by
    rcases Nat.lt_trichotomy d e with hlt | heq | hlt
    · exact absurd hjb (h.not_mem_of_lt hlt ha hb hia)
    · exact heq
    · exact absurd hia (h.not_mem_of_lt hlt hb ha hjb)
  obtain rfl : a = b := Option.some.inj (ha.symm.trans hb)
  have hlt := (List.getElem?_eq_some_iff.1 hi).1
  have hnodup := (List.nodup_flatMap.1 h.nodup_tops).1 a (List.mem_of_getElem? ha)
  exact ⟨rfl, (List.getElem?_inj hlt hnodup).1 (hi.trans hj.symm)⟩

theorem lt_size_of_at? {r : Route} (hr : p.at? r = some id) : id < p.tree.size := by
  cases r with
  | top document index => exact h.node_top id (mem_tops.2 ⟨document, index, hr⟩)
  | child above index =>
    obtain ⟨q, m, -, hm, hid⟩ := at?_child.1 hr
    exact Tree.lt_size_of_mem_children hm (List.mem_of_getElem? hid)

/-- **There is exactly one route to every node.** -/
theorem existsUnique_route (hid : id < p.tree.size) : ∃! r : Route, p.at? r = some id := by
  -- from the top down: a parent has a larger index
  induction hk : p.tree.size - id using Nat.strongRecOn generalizing id with
  | ind k ih =>
    obtain ⟨n, hn⟩ := Tree.lt_size_iff.1 hid
    cases hparent : n.parent with
    | none =>
      obtain ⟨d, i, hi⟩ := mem_tops.1 ((h.top id n hn).1 hparent)
      refine ⟨.top d i, hi, fun r hr => ?_⟩
      cases r with
      | top e j =>
        obtain ⟨rfl, rfl⟩ := h.top_inj hi hr
        rfl
      | child above index =>
        obtain ⟨q, m, -, hm, hc⟩ := at?_child.1 hr
        rw [(h.child id n hn q).2 ⟨m, hm, List.mem_of_getElem? hc⟩] at hparent
        cases hparent
    | some q =>
      obtain ⟨m, hm, hc⟩ := (h.child id n hn q).1 hparent
      have hq : id < q := Tree.lt_of_mem_children hm hc
      have hqs : q < p.tree.size := Tree.lt_size_iff.2 ⟨m, hm⟩
      obtain ⟨above, habove, huniq⟩ := ih (p.tree.size - q) (by omega) hqs rfl
      obtain ⟨index, hindex⟩ := List.mem_iff_getElem?.1 hc
      refine ⟨.child above index, at?_child.2 ⟨q, m, habove, hm, hindex⟩, fun r hr => ?_⟩
      cases r with
      | top e j =>
        rw [(h.top id n hn).2 (mem_tops.2 ⟨e, j, hr⟩)] at hparent
        cases hparent
      | child above' index' =>
        obtain ⟨q', m', habove', hm', hindex'⟩ := at?_child.1 hr
        have hq' := (h.child id n hn q').2 ⟨m', hm', List.mem_of_getElem? hindex'⟩
        obtain rfl : q = q' := Option.some.inj (hparent.symm.trans hq')
        obtain rfl : m = m' := Option.some.inj (hm.symm.trans hm')
        obtain rfl : above' = above := huniq above' habove'
        have hlt := (List.getElem?_eq_some_iff.1 hindex).1
        rw [(List.getElem?_inj hlt (h.nodup_children q m hm)).1 (hindex.trans hindex'.symm)]

end Linked

end Parsed

end PipelineLens
