import PipelineLens.Proofs.Tree.Routes
import PipelineLens.Tree.Host
/-!
# Reading a tree back

`Tree.hostNode` follows the indices from a node down and writes what it finds as the host sends
nodes. For a tree that was read from the host this is what the host sent, as far as a tree keeps it
(`HostNode.kept`). The way there has two halves, with the nested form of a tree between them: the
layout of a host node is what a tree keeps of the node (`HostNode.toHost_layout`), and a layout that
stands in a tree is read back from it (`Tree.hostNode_rootAt`). With the routes to the nodes this
says that a tree is a faithful form of what the host sent (`Parsed.ofHost_faithful`).
-/
namespace PipelineLens

theorem bind_eq_ok {ε α β : Type} {x : Except ε α} {f : α → Except ε β} {b : β} :
    x >>= f = .ok b ↔ ∃ a, x = .ok a ∧ f a = .ok b := by
  cases x <;> simp [bind, Except.bind]

/-! ## What a tree keeps -/

namespace HostNode

def raw : HostNode → String
  | mk _ raw .. => raw

mutual

/-- What a tree keeps of a node: the children of its own kind without the items left out, and for a
pair the text of its key. -/
def kept : HostNode → HostNode
  | mk kind raw start stop mappings items key value =>
    if kind = "MAPPING" then mk kind raw start stop (keptAll mappings) [] none none
    else if kind = "SEQ" then mk kind raw start stop [] (keptItems items) none none
    else if kind = "PAIR" then
      mk kind (((keptPart key).map HostNode.raw).getD raw) start stop [] [] (keptPart key)
        (keptPart value)
    else mk kind raw start stop [] [] none none

def keptAll : List HostNode → List HostNode
  | [] => []
  | n :: ns => n.kept :: keptAll ns

def keptItems : List (Option HostNode) → List (Option HostNode)
  | [] => []
  | none :: ns => keptItems ns
  | some n :: ns => some n.kept :: keptItems ns

def keptPart : Option HostNode → Option HostNode
  | none => none
  | some n => some n.kept

end

theorem keptAll_eq (ns : List HostNode) : keptAll ns = ns.map kept := by
  induction ns with
  | nil => rfl
  | cons n ns ih => rw [keptAll, ih, List.map_cons]

end HostNode

namespace Layout

mutual

/-- The layout as the host sends nodes. -/
def toHost : Layout → HostNode
  | scalar raw start stop => .mk "SCALAR" raw start stop [] [] none none
  | mapping raw start stop pairs => .mk "MAPPING" raw start stop (toHosts pairs) [] none none
  | sequence raw start stop items =>
    .mk "SEQ" raw start stop [] ((toHosts items).map some) none none
  | key start stop k => .mk "PAIR" k.raw start stop [] [] (some k.toHost) none
  | pair start stop k v => .mk "PAIR" k.raw start stop [] [] (some k.toHost) (some v.toHost)

def toHosts : List Layout → List HostNode
  | [] => []
  | l :: ls => l.toHost :: toHosts ls

end

theorem toHosts_eq (ls : List Layout) : toHosts ls = ls.map toHost := by
  induction ls with
  | nil => rfl
  | cons l ls ih => rw [toHosts, ih, List.map_cons]

theorem raw_toHost (l : Layout) : l.toHost.raw = l.raw := by
  cases l <;> simp [toHost, HostNode.raw, Layout.raw]

end Layout

namespace HostNode
section
variable {kind raw : String} {start stop : Nat} {mappings : List HostNode}
  {items : List (Option HostNode)} {key value : Option HostNode} {l : Layout} {ls : List Layout}

/-- The layouts of a node, kind by kind. -/
theorem cases_layout (h : (mk kind raw start stop mappings items key value).layout = .ok l) :
    (kind = "SCALAR" ∧ l = .scalar raw start stop) ∨
    (kind = "MAPPING" ∧ ∃ ls, layouts mappings = .ok ls ∧ l = .mapping raw start stop ls) ∨
    (kind = "SEQ" ∧ ∃ ls, itemLayouts items = .ok ls ∧ l = .sequence raw start stop ls) ∨
    (kind = "PAIR" ∧ ∃ k lk, key = some k ∧ k.layout = .ok lk ∧
      ((value = none ∧ l = .key start stop lk) ∨
        ∃ v lv, value = some v ∧ v.layout = .ok lv ∧ l = .pair start stop lk lv)) := by
  rw [layout.eq_def] at h
  simp only [bind_eq_ok] at h
  obtain ⟨-, -, h⟩ := h
  split at h
  · cases h
    exact .inl ⟨‹_›, rfl⟩
  split at h
  · obtain ⟨ls, hls, hl⟩ := bind_eq_ok.1 h
    cases hl
    exact .inr (.inl ⟨‹_›, ls, hls, rfl⟩)
  split at h
  · obtain ⟨ls, hls, hl⟩ := bind_eq_ok.1 h
    cases hl
    exact .inr (.inr (.inl ⟨‹_›, ls, hls, rfl⟩))
  split at h
  · split at h
    · cases h
    obtain ⟨lk, hk, h⟩ := bind_eq_ok.1 h
    refine .inr (.inr (.inr ⟨‹_›, _, lk, rfl, hk, ?_⟩))
    split at h
    · cases h
      exact .inl ⟨rfl, rfl⟩
    · obtain ⟨lv, hv, hl⟩ := bind_eq_ok.1 h
      cases hl
      exact .inr ⟨_, lv, rfl, hv, rfl⟩
  · cases h
end

mutual

theorem toHost_layout {l : Layout} : (n : HostNode) → n.layout = .ok l → l.toHost = n.kept
  | mk kind raw start stop mappings items key value, h => by
    obtain ⟨rfl, rfl⟩ | ⟨rfl, ls, hls, rfl⟩ | ⟨rfl, ls, hls, rfl⟩ | ⟨rfl, k, lk, rfl, hk, hv⟩ :=
      cases_layout h
    · simp [Layout.toHost, kept]
    · simp [Layout.toHost, kept, toHosts_layouts mappings hls]
    · simp [Layout.toHost, kept, toHosts_itemLayouts items hls]
    · have hkey := toHost_layout k hk
      have hraw : k.kept.raw = lk.raw := by rw [← hkey, Layout.raw_toHost]
      obtain ⟨rfl, rfl⟩ | ⟨v, lv, rfl, hv, rfl⟩ := hv
      · simp [Layout.toHost, kept, keptPart, hkey, hraw]
      · simp [Layout.toHost, kept, keptPart, hkey, hraw, toHost_layout v hv]

theorem toHosts_layouts {ls : List Layout} :
    (ns : List HostNode) → layouts ns = .ok ls → Layout.toHosts ls = keptAll ns
  | [], h => by
    cases h
    rfl
  | n :: ns, h => by
    rw [layouts] at h
    obtain ⟨l, hl, h⟩ := bind_eq_ok.1 h
    obtain ⟨ls, hls, h⟩ := bind_eq_ok.1 h
    cases h
    rw [Layout.toHosts, keptAll, toHost_layout n hl, toHosts_layouts ns hls]

theorem toHosts_itemLayouts {ls : List Layout} :
    (ns : List (Option HostNode)) → itemLayouts ns = .ok ls →
      (Layout.toHosts ls).map some = keptItems ns
  | [], h => by
    cases h
    rfl
  | none :: ns, h => by
    rw [itemLayouts] at h
    rw [keptItems, toHosts_itemLayouts ns h]
  | some n :: ns, h => by
    rw [itemLayouts] at h
    obtain ⟨l, hl, h⟩ := bind_eq_ok.1 h
    obtain ⟨ls, hls, h⟩ := bind_eq_ok.1 h
    cases h
    rw [Layout.toHosts, List.map_cons, keptItems, toHost_layout n hl, toHosts_itemLayouts ns hls]

end

end HostNode

/-! ## What stands in a tree -/

/-- The node as the host sends it, when `below` gives the nodes that it lists. -/
def Node.toHost (below : Nat → HostNode) (n : Node) : HostNode :=
  match n.body with
  | .scalar => .mk "SCALAR" n.raw n.start n.stop [] [] none none
  | .mapping pairs => .mk "MAPPING" n.raw n.start n.stop (pairs.map below) [] none none
  | .sequence items => .mk "SEQ" n.raw n.start n.stop [] ((items.map below).map some) none none
  | .pair key value =>
    .mk "PAIR" n.raw n.start n.stop [] [] (some (below key)) (value.map below)

namespace Tree

/-- The node as the host sends it, with everything below it. -/
def hostNode (t : Tree) (id : Nat) : HostNode :=
  match _hn : t.node? id with
  | none => .mk "" "" 0 0 [] [] none none
  | some n =>
    match _hb : n.body with
    | .scalar => .mk "SCALAR" n.raw n.start n.stop [] [] none none
    | .mapping pairs =>
      .mk "MAPPING" n.raw n.start n.stop (pairs.attach.map fun c => t.hostNode c.1) [] none none
    | .sequence items =>
      .mk "SEQ" n.raw n.start n.stop [] (items.attach.map fun c => some (t.hostNode c.1)) none none
    | .pair key none => .mk "PAIR" n.raw n.start n.stop [] [] (some (t.hostNode key)) none
    | .pair key (some value) =>
      .mk "PAIR" n.raw n.start n.stop [] [] (some (t.hostNode key)) (some (t.hostNode value))
termination_by id
decreasing_by
  · exact lt_of_mem_children _hn (by simp [Node.children, _hb, Body.children, c.2])
  · exact lt_of_mem_children _hn (by simp [Node.children, _hb, Body.children, c.2])
  · exact lt_of_mem_children _hn (by simp [Node.children, _hb, Body.children])
  · exact lt_of_mem_children _hn (by simp [Node.children, _hb, Body.children])
  · exact lt_of_mem_children _hn (by simp [Node.children, _hb, Body.children])

theorem hostNode_eq {t : Tree} {id : Nat} {n : Node} (hn : t.node? id = some n) :
    t.hostNode id = n.toHost t.hostNode := by
  rw [hostNode]
  split
  · simp_all
  · rename_i m hm
    obtain rfl : m = n := Option.some.inj (hm.symm.trans hn)
    split <;> simp [Node.toHost, *]

open Layout

/-- What is read at the roots of layouts side by side is read layout by layout. -/
theorem map_rootsAt {ns : List Node} {parent : Option Nat} {base : Nat} {ls : List Layout}
    {f : Nat → HostNode} (h : StandAll ns parent base ls)
    (hf : ∀ l ∈ ls, ∀ b, Stands ns parent b l → f (l.rootAt b) = l.toHost) :
    (rootsAt base ls).map f = ls.map Layout.toHost := by
  induction ls generalizing base with
  | nil => rfl
  | cons l ls ih =>
    rw [rootsAt, List.map_cons, List.map_cons, hf l List.mem_cons_self base h.head,
      ih h.tail fun x hx => hf x (List.mem_cons_of_mem l hx)]

/-- **A layout that stands in a tree is read back.** -/
theorem hostNode_rootAt {t : Tree} {parent : Option Nat} {base : Nat} {l : Layout}
    (h : Stands t.nodes.toList parent base l) : t.hostNode (l.rootAt base) = l.toHost := by
  induction l using partsInduction generalizing parent base with
  | step l ih =>
    have hparts : (rootsAt base l.parts).map t.hostNode = l.parts.map Layout.toHost :=
      map_rootsAt h.parts fun x hx b hb => ih x hx hb
    rw [hostNode_eq (getElem?_nodes t _ ▸ h.root)]
    cases l with
    | scalar raw start stop => rfl
    | mapping raw start stop pairs =>
      rw [Layout.parts] at hparts
      simp only [rootNode, Node.toHost, Layout.toHost, toHosts_eq, hparts]
    | sequence raw start stop items =>
      rw [Layout.parts] at hparts
      simp only [rootNode, Node.toHost, Layout.toHost, toHosts_eq, hparts]
    | key start stop k =>
      obtain ⟨hk, -⟩ := List.cons.inj hparts
      simp only [rootNode, Node.toHost, Layout.toHost, hk, Option.map_none]
    | pair start stop k v =>
      obtain ⟨hk, hparts⟩ := List.cons.inj hparts
      obtain ⟨hv, -⟩ := List.cons.inj hparts
      simp only [rootNode, Node.toHost, Layout.toHost, hk, hv, Option.map_some]

end Tree

/-! ## Documents -/

/-- A document is what the host sent: its range, what the parser had to say and, read back from the
tree, the nodes as far as a tree keeps them. -/
structure Document.Mirrors (t : Tree) (d : Document) (host : HostDocument) : Prop where
  nodes : d.nodes.map t.hostNode = host.nodes.map HostNode.kept
  errors : d.errors = host.errors.map HostDocument.errorText
  start : d.start = host.start
  stop : d.stop = host.stop

namespace HostDocument

/-- The draft of a document, part by part. -/
theorem draft_eq_ok {d : HostDocument} {dr : Document.Draft} (h : d.draft = .ok dr) :
    HostNode.layouts d.nodes = .ok dr.nodes ∧ dr.errors = d.errors.map errorText ∧
      dr.start = d.start ∧ dr.stop = d.stop := by
  obtain ⟨-, -, h⟩ := bind_eq_ok.1 h
  obtain ⟨ls, hls, h⟩ := bind_eq_ok.1 h
  cases h
  exact ⟨hls, rfl, rfl, rfl⟩

end HostDocument

namespace Parsed
open Layout

theorem mirrors_documentsAt {t : Tree} {base : Nat} {ds : List HostDocument}
    {drafts : List Document.Draft} (hds : ds.mapM HostDocument.draft = .ok drafts)
    (h : StandAll t.nodes.toList none base (drafts.flatMap (·.nodes))) :
    List.Forall₂ (Document.Mirrors t) (documentsAt base drafts) ds := by
  induction ds generalizing base drafts with
  | nil =>
    cases hds
    exact .nil
  | cons d ds ih =>
    rw [List.mapM_cons] at hds
    obtain ⟨dr, hdr, hds⟩ := bind_eq_ok.1 hds
    obtain ⟨drs, hdrs, hds⟩ := bind_eq_ok.1 hds
    cases hds
    rw [List.flatMap_cons] at h
    obtain ⟨hnodes, herrors, hstart, hstop⟩ := HostDocument.draft_eq_ok hdr
    refine .cons ⟨?_, herrors, hstart, hstop⟩ (ih hdrs h.right)
    calc (rootsAt base dr.nodes).map t.hostNode
      _ = dr.nodes.map Layout.toHost :=
        Tree.map_rootsAt h.left fun l _ b hl => Tree.hostNode_rootAt hl
      _ = d.nodes.map HostNode.kept := by
        rw [← toHosts_eq, HostNode.toHosts_layouts d.nodes hnodes, HostNode.keptAll_eq]

theorem ofHost_eq_ok {ds : List HostDocument} {p : Parsed} :
    ofHost ds = .ok p ↔
      ∃ drafts, ds.mapM HostDocument.draft = .ok drafts ∧ ofDrafts drafts = p := by
  rw [ofHost]
  cases ds.mapM HostDocument.draft <;> simp [Except.map]

/-- **The tree of what the host sends is what the host sent.** Read back from the nodes of each
document it gives the documents in their order, to every node leads exactly one route, a node names
as its parent the node that lists it, and below a node stand smaller indices, a key before its
value. -/
theorem ofHost_faithful {ds : List HostDocument} {p : Parsed} (h : ofHost ds = .ok p) :
    List.Forall₂ (Document.Mirrors p.tree) p.documents ds ∧
      (∀ id, id < p.tree.size ↔ ∃! r : Route, p.at? r = some id) ∧
      ∀ id n, p.tree.node? id = some n →
        (∀ q, n.parent = some q ↔ ∃ m, p.tree.node? q = some m ∧ id ∈ m.children) ∧
        (n.parent = none ↔ ∃ d ∈ p.documents, id ∈ d.nodes) ∧
        (∀ c ∈ n.children, c < id) ∧
        ∀ key value, n.body = .pair key (some value) → key < value := by
  obtain ⟨drafts, hdrafts, rfl⟩ := ofHost_eq_ok.1 h
  have hlinked := linked_ofDrafts drafts
  refine ⟨mirrors_documentsAt hdrafts (Tree.standAll_ofLayouts _), fun id => ⟨?_, ?_⟩, ?_⟩
  · exact hlinked.existsUnique_route
  · rintro ⟨r, hr, -⟩
    exact hlinked.lt_size_of_at? hr
  · intro id n hn
    refine ⟨hlinked.child id n hn, ?_, fun c => Tree.lt_of_mem_children hn, ?_⟩
    · rw [hlinked.top id n hn, tops, List.mem_flatMap]
    · intro key value hbody
      have hrise := Tree.pairwise_children hn
      rw [Node.children, hbody] at hrise
      simpa [Body.children] using hrise

/-- A list with an item left out and children of another kind, and in a second document a mapping
with a pair whose text is not that of its key and a pair without a value. -/
def sampleHost : List HostDocument :=
  let scalar (raw : String) (start stop : Nat) : HostNode :=
    .mk "SCALAR" raw start stop [] [] none none
  [{ nodes := [.mk "SEQ" "- a\n- " 0 6 [scalar "b" 0 1] [some (scalar "a" 2 3), none]
      (some (scalar "c" 0 1)) none]
     errors := [.string "late"], start := 0, stop := 6 },
   { nodes := [.mk "MAPPING" "k: v\nl:" 10 17
      [.mk "PAIR" "k: v" 10 14 [] [] (some (scalar "k" 10 11)) (some (scalar "v" 13 14)),
       .mk "PAIR" "l:" 15 17 [] [] (some (scalar "l" 15 16)) none] [] none none]
     errors := [], start := 10, stop := 17 }]

theorem ofHost_faithful_sampleHost :
    ∃ p, ofHost sampleHost = .ok p ∧ p.tree.size = 8 ∧
      List.Forall₂ (Document.Mirrors p.tree) p.documents sampleHost ∧
      (∃! r : Route, p.at? r = some 3) ∧ p.at? (.child (.child (.top 1 0) 0) 1) = some 3 := by
  refine ⟨_, rfl, by decide +kernel, ?_⟩
  obtain ⟨hmirrors, hroute, -⟩ := ofHost_faithful (rfl : ofHost sampleHost = .ok _)
  exact ⟨hmirrors, (hroute 3).1 (by decide +kernel), by decide +kernel⟩

end Parsed

end PipelineLens
