import PipelineLens.Proofs.Element.PreOrder
import PipelineLens.Proofs.Tree.Reading
import PipelineLens.Proofs.Tree.Values
/-!
# The array of elements against the parse tree

Every element but the document is read from one node, and its slots from what stands in this node:
a value under each key of a table, or the items of a list (`Tree.slotNodes`). A node stands in one
other node only, as the value of a pair or as an item (`StandsIn`), so no two elements are read from
one node. Together with the order of the indices this is what the rest of the program relies on
when it goes up and down a sheet (`Sheet.Arena`).
-/
namespace PipelineLens

/-! ## The slots of a node -/

namespace Tree

/-- The slots of an element that is read from a node, with the nodes of what is in them. A value has
none, a mapping one for each field of its table, and all others are lists. -/
def slotNodes (t : Tree) (kind : ElementKind) (node : Nat) : List (Slot × Option Nat) :=
  if kind = .value then []
  else if kind.fields.isEmpty then (t.items node).zipIdx.map fun i => (.item i.2, some i.1)
  else kind.fields.map fun f => (.field f.1, t.findValue? node f.1)

variable {t : Tree} {n m : Nat}

/-- A slot is a field with the value under its key, or has an item. -/
theorem cases_of_mem_slotNodes {kind : ElementKind} {slot : Slot}
    (h : (slot, some n) ∈ t.slotNodes kind m) :
    (∃ name, slot = .field name ∧ t.findValue? m name = some n) ∨
      ∃ index, slot = .item index ∧ n ∈ t.items m := by
  unfold slotNodes at h
  split at h
  · cases h
  · split at h
    · obtain ⟨i, hi, heq⟩ := List.mem_map.1 h
      obtain ⟨hslot, hn⟩ := Prod.mk.inj heq
      obtain rfl : i.1 = n := Option.some.inj hn
      exact .inr ⟨i.2, hslot.symm, List.fst_mem_of_mem_zipIdx hi⟩
    · obtain ⟨f, -, heq⟩ := List.mem_map.1 h
      obtain ⟨hslot, hvalue⟩ := Prod.mk.inj heq
      exact .inl ⟨f.1, hslot.symm, hvalue⟩

/-- What is in a slot stands in the node of the element. -/
theorem standsIn_of_mem_slotNodes {kind : ElementKind} {slot : Slot}
    (h : (slot, some n) ∈ t.slotNodes kind m) : t.StandsIn n m := by
  obtain ⟨name, -, hvalue⟩ | ⟨-, -, hitem⟩ := cases_of_mem_slotNodes h
  · exact .inl ⟨name, hvalue⟩
  · exact .inr hitem

end Tree

/-- The nodes of the slots of an element are different ones. -/
theorem Parsed.Linked.nodup_slotNodes {p : Parsed} (hl : p.Linked) (kind : ElementKind) (m : Nat) :
    ((p.tree.slotNodes kind m).filterMap (·.2)).Nodup := by
  unfold Tree.slotNodes
  split
  · exact .nil
  · split
    · rw [List.filterMap_map]
      have h : (fun s : Slot × Option Nat => s.2) ∘
          (fun i : Nat × Nat => (Slot.item i.2, some i.1)) = some ∘ Prod.fst := rfl
      rw [h, List.filterMap_eq_map, List.zipIdx_map_fst]
      exact hl.nodup_items
    · rw [List.filterMap_map, List.Nodup, List.pairwise_filterMap]
      refine kind.pairwise_fields.imp ?_
      intro f g hne v hv v' hv' heq
      subst heq
      exact hne (hl.key_eq hv hv')

/-! ## What an element is read from -/

/-- A mapping is read by a table, and a list has none. -/
def Shape.Regular : Shape → Prop
  | .map kind => kind.fields ≠ []
  | .list kind item =>
    (kind.fields = [] ∧ kind ≠ .value) ∧ ∀ entry, item = .map entry → entry.fields ≠ []
  | _ => True

theorem Shape.closed_regular : Closed Regular where
  field kind _ := by
    cases kind <;> simp [ElementKind.fields, Shape.Regular]
  item kind item h := by
    cases item with
    | text => trivial
    | map entry => exact h.2 entry rfl
  texts _ := ⟨⟨rfl, nofun⟩, nofun⟩

theorem ElementKind.isLeaf_eq_false {kind : ElementKind} (h : kind ≠ .value) :
    kind.isLeaf = false := by
  cases kind <;> first | rfl | exact absurd rfl h

theorem ElementKind.ne_value {kind : ElementKind} (h : kind.fields ≠ []) : kind ≠ .value := by
  rintro rfl
  exact h rfl

theorem Shape.Regular.proper {shape : Shape} (h : shape.Regular) : shape.Proper := by
  cases shape with
  | map kind => exact ElementKind.isLeaf_eq_false (ElementKind.ne_value h)
  | list kind item =>
    exact ⟨ElementKind.isLeaf_eq_false h.1.2,
      fun entry hentry => ElementKind.isLeaf_eq_false (ElementKind.ne_value (h.2 entry hentry))⟩
  | _ => trivial

namespace Tree
open Outline

variable {t : Tree} {id : Nat} {shape : Shape}

theorem node_placeOf (t : Tree) (id : Nat) : (t.placeOf id).node = some id := by
  unfold placeOf
  split <;> rfl

/-- What is in the slots of an outline is read from what stands in its node. -/
theorem slots_outline (t : Tree) (id : Nat) (hs : shape.Regular) :
    (t.outline shape id).slots.map (fun s => (s.1, s.2.bind (·.rootPlace.node)))
      = t.slotNodes (t.outline shape id).rootKind id := by
  have list : ∀ kind item, kind.fields = [] → kind ≠ .value →
      (t.outline (.list kind item) id).slots.map (fun s => (s.1, s.2.bind (·.rootPlace.node)))
        = t.slotNodes kind id := by
    intro kind item hnil hne
    rw [outline_list, Outline.slots, List.map_map, slotNodes, if_neg hne, hnil]
    refine List.map_congr_left fun i _ => ?_
    simp [rootPlace_outline, node_placeOf]
  cases shape with
  | map kind =>
    rw [outline_map, Outline.slots, rootKind, List.map_map, slotNodes,
      if_neg (ElementKind.ne_value hs), if_neg (mt List.isEmpty_iff.1 hs)]
    refine List.map_congr_left fun f _ => ?_
    cases hv : t.findValue? id f.1 with
    | none => simp [hv]
    | some value => simp [hv, rootPlace_outline, node_placeOf]
  | list kind item =>
    rw [list kind item hs.1.1 hs.1.2, outline_list, rootKind]
  | textOrList =>
    rw [outline_textOrList]
    split
    · rw [list .stringArray .text rfl (by decide), outline_list, rootKind]
    · rw [outline, textLeaf]
      rfl
  | text =>
    rw [outline, textLeaf]
    rfl
  | _ =>
    rw [outline]
    rfl

/-- The parts of an outline are outlines of the same tree. -/
theorem exists_outline_of_mem_parts {Q : Shape → Prop} (hQ : Shape.Closed Q) (hs : Q shape)
    {x : Outline} (hx : x ∈ (t.outline shape id).parts) :
    ∃ shape' id', Q shape' ∧ x = t.outline shape' id' := by
  have list : ∀ kind item, Q item.shape → x ∈ (t.outline (.list kind item) id).parts →
      ∃ shape' id', Q shape' ∧ x = t.outline shape' id' := by
    intro kind item hitem hx
    rw [outline_list, parts, contents_items] at hx
    obtain ⟨c, -, rfl⟩ := List.mem_map.1 hx
    exact ⟨item.shape, c, hitem, rfl⟩
  cases shape with
  | map kind =>
    rw [outline_map, parts, contents_fields] at hx
    obtain ⟨f, hf, hx⟩ := List.mem_filterMap.1 hx
    obtain ⟨value, -, rfl⟩ := Option.map_eq_some_iff.1 hx
    exact ⟨f.2, value, hQ.field kind hs f hf, rfl⟩
  | list kind item => exact list kind item (hQ.item kind item hs) hx
  | textOrList =>
    rw [outline_textOrList] at hx
    split at hx
    · exact list .stringArray .text (hQ.item _ _ (hQ.texts hs)) hx
    · rw [outline, textLeaf] at hx
      cases hx
  | text =>
    rw [outline, textLeaf] at hx
    cases hx
  | _ =>
    rw [outline] at hx
    cases hx

end Tree

namespace Sheet
open Outline

/-- The node that an element is read from. -/
def node? (s : Sheet) (id : Nat) : Option Nat := (s.element? id).bind (·.place.node)

section
variable {kind : ResourceKind} {o x : Outline} {above : Option Nat} {id : Nat}

theorem node?_of_stands (h : Stands (o.place none 0) above id x) :
    (ofOutline kind o).node? id = x.rootPlace.node := by
  obtain ⟨e, he, -, -, hplace, -⟩ := exists_element_of_stands kind h
  rw [node?, he, Option.bind_some, hplace]

/-- The slots of an element with the nodes of what is in them. -/
theorem slots_of_stands {e : Element} (he : (ofOutline kind o).element? id = some e)
    (h : Stands (o.place none 0) above id x) :
    e.slots.map (fun s => (s.1, s.2.bind (ofOutline kind o).node?))
      = x.slots.map fun s => (s.1, s.2.bind (·.rootPlace.node)) := by
  obtain ⟨e', he', hslots, hall⟩ := exists_slots_of_stands kind h
  rw [Option.some.inj (he.symm.trans he'), hslots]
  exact hall.map_slots fun c y hy => node?_of_stands hy

end

/-- The array of elements as it stands to the parse tree. -/
structure Arena (s : Sheet) (t : Tree) : Prop where
  /-- the first element is the document, with one slot for the element after it -/
  document : ∃ e, s.element? root = some e ∧ e.kind = .document ∧
    e.slots = [(.field "body", some 1)]
  /-- only the document has no element above it -/
  orphan : ∀ id < s.size, s.parent? id = none ↔ id = root
  /-- any other element comes after the one above it, and is in one slot of this element and in no
  other slot; the slot is the one that `slot?` gives -/
  slot : ∀ id < s.size, id ≠ root →
    ∃ p i slot, p < id ∧ s.parent? id = some p ∧ s.Holds p i slot id ∧ s.slot? id = some slot ∧
      ∀ q j slot', s.Holds q j slot' id → q = p ∧ j = i
  /-- along the slots of an element the indices rise -/
  rising : s.Rising
  /-- an element and what is below it take an interval of indices, which starts with the element -/
  interval : ∀ id < s.size, ∃ stop, id < stop ∧ stop ≤ s.size ∧
    ∀ j, id ∈ s.ancestors j ↔ id ≤ j ∧ j < stop
  /-- only the document is not read from a node -/
  backed : ∀ id < s.size, s.node? id = none ↔ id = root
  /-- a value has no slots, a mapping one for each field of its table and a list one for each item,
  with what is read from the value of the field or from the item -/
  slots : ∀ id e node, s.element? id = some e → s.node? id = some node →
    e.slots.map (fun entry => (entry.1, entry.2.bind s.node?)) = t.slotNodes e.kind node

variable {s : Sheet} {id : Nat}

theorem lt_size_of_node? {node : Nat} (h : s.node? id = some node) : id < s.size := by
  obtain ⟨e, he, -⟩ := Option.bind_eq_some_iff.1 h
  exact lt_size_of_element? he

namespace Arena
variable {t : Tree} (h : s.Arena t)
include h

theorem ne_root {node : Nat} (hnode : s.node? id = some node) : id ≠ root := by
  intro hid
  rw [(h.backed id (lt_size_of_node? hnode)).2 hid] at hnode
  cases hnode

/-- What a slot of an element holds is read from what the slot has in its node. -/
theorem getElem?_slotNodes {above i n m : Nat} {slot : Slot} (hh : s.Holds above i slot id)
    (hm : s.node? above = some m) (hn : s.node? id = some n) :
    ∃ e, s.element? above = some e ∧ (t.slotNodes e.kind m)[i]? = some (slot, some n) := by
  obtain ⟨e, he, hi⟩ := hh
  refine ⟨e, he, ?_⟩
  rw [← h.slots above e m he hm, List.getElem?_map, hi, Option.map_some, Option.bind_some, hn]

theorem standsIn {above i n m : Nat} {slot : Slot} (hh : s.Holds above i slot id)
    (hm : s.node? above = some m) (hn : s.node? id = some n) : t.StandsIn n m := by
  obtain ⟨e, -, hi⟩ := h.getElem?_slotNodes hh hm hn
  exact Tree.standsIn_of_mem_slotNodes (List.mem_of_getElem? hi)

/-- The document has one slot, with the element after it. -/
theorem eq_of_holds_root {i : Nat} {slot : Slot} (hh : s.Holds root i slot id) :
    slot = .field "body" ∧ id = 1 := by
  obtain ⟨e, he, -, hslots⟩ := h.document
  obtain ⟨e', he', hi⟩ := hh
  have hmem := List.mem_of_getElem? hi
  rw [Option.some.inj (he'.symm.trans he), hslots] at hmem
  simpa using hmem

/-- The elements below the resource are read from nodes with smaller indices. -/
theorem node_lt {n body : Nat} (hbody : s.node? 1 = some body) (hn : s.node? id = some n)
    (hne : id ≠ 1) : n < body := by
  induction id using Nat.strongRecOn generalizing n with
  | ind id ih =>
    obtain ⟨p, i, slot, hlt, -, hh, -⟩ := h.slot id (lt_size_of_node? hn) (h.ne_root hn)
    cases hm : s.node? p with
    | none =>
      have hp : p = root := (h.backed p (Nat.lt_trans hlt (lt_size_of_node? hn))).1 hm
      subst hp
      exact absurd (h.eq_of_holds_root hh).2 hne
    | some m =>
      have hnm : n < m := (h.standsIn hh hm hn).lt
      by_cases hp : p = 1
      · subst hp
        rwa [Option.some.inj (hm.symm.trans hbody)] at hnm
      · exact Nat.lt_trans hnm (ih p hlt hm hp)

/-- The way up from any element ends at the document. -/
theorem getLast?_ancestors (hid : id < s.size) : (s.ancestors id).getLast? = some root := by
  induction id using Nat.strongRecOn with
  | ind id ih =>
    by_cases hroot : id = root
    · rw [ancestors_of_none ((h.orphan id hid).2 hroot), hroot]
      rfl
    · obtain ⟨p, -, -, hlt, hp, -⟩ := h.slot id hid hroot
      rw [ancestors_of_some hp, List.getLast?_cons, ih p hlt (Nat.lt_trans hlt hid)]
      rfl

end Arena

/-- **No two elements are read from one node.** The induction goes down: the node stands in one node
only, so the two elements are in slots of the same element, and there different slots have
different nodes. -/
theorem Arena.node?_injective {p : Parsed} (h : s.Arena p.tree) (hp : p.Linked) {a b node : Nat}
    (ha : s.node? a = some node) (hb : s.node? b = some node) : a = b := by
  induction a using Nat.strongRecOn generalizing b node with
  | ind a ih =>
    by_cases ha1 : a = 1
    · by_contra hne
      exact Nat.lt_irrefl node (h.node_lt (ha1 ▸ ha) hb fun hb1 => hne (ha1.trans hb1.symm))
    by_cases hb1 : b = 1
    · exact absurd (h.node_lt (hb1 ▸ hb) ha ha1) (Nat.lt_irrefl node)
    obtain ⟨q, i, slot, hqa, -, hqi, -⟩ := h.slot a (lt_size_of_node? ha) (h.ne_root ha)
    obtain ⟨r, j, slot', hrb, -, hrj, -⟩ := h.slot b (lt_size_of_node? hb) (h.ne_root hb)
    have above : ∀ {x y k : Nat} {slot : Slot}, s.Holds x k slot y → x < y →
        s.node? y = some node → y ≠ 1 → ∃ m, s.node? x = some m := by
      intro x y k slot hh hlt hy hy1
      refine Option.ne_none_iff_exists'.1 fun hnone => hy1 ?_
      have hx := (h.backed x (Nat.lt_trans hlt (lt_size_of_node? hy))).1 hnone
      exact (h.eq_of_holds_root (hx ▸ hh)).2
    obtain ⟨m, hm⟩ := above hqi hqa ha ha1
    obtain ⟨m', hm'⟩ := above hrj hrb hb hb1
    obtain rfl : m = m' := hp.standsIn_unique (h.standsIn hqi hm ha) (h.standsIn hrj hm' hb)
    obtain rfl : q = r := ih q hqa hm hm'
    obtain ⟨e, he, hi⟩ := h.getElem?_slotNodes hqi hm ha
    obtain ⟨e', he', hj⟩ := h.getElem?_slotNodes hrj hm hb
    obtain rfl : e = e' := Option.some.inj (he.symm.trans he')
    obtain rfl := index_eq_of_nodup_filterMap (hp.nodup_slotNodes e.kind m) hi hj rfl rfl
    obtain ⟨x, hx, hia⟩ := hqi
    obtain ⟨y, hy, hib⟩ := hrj
    obtain rfl : x = y := Option.some.inj (hx.symm.trans hy)
    exact (by simpa using hia.symm.trans hib : slot = slot' ∧ a = b).2

end Sheet

/-! ## The sheet of a document -/

namespace Document
open Outline Sheet

theorem regular_bodyKind? {kind : ResourceKind} {body : ElementKind}
    (h : bodyKind? kind = some body) : (Shape.map body).Regular := by
  cases kind <;> simp [bodyKind?] at h <;> subst h <;> simp [Shape.Regular, ElementKind.fields]

section
variable {d : Document} {t : Tree} {kind : ResourceKind} {shape : Shape} {node id : Nat}

/-- Every element but the document is read from a node by some shape. The induction goes down: what
is in the slots of an outline of the tree are outlines of the tree. -/
theorem exists_shape (hs : shape.Regular)
    (hid : id < (ofOutline kind (d.outline t shape node)).size) (hne : id ≠ root) :
    ∃ above shape' node', shape'.Regular ∧
      Stands ((d.outline t shape node).place none 0) above id (t.outline shape' node') := by
  have hl := linked_ofOutline kind (d.branching_outline t hs.proper node)
  induction id using Nat.strongRecOn with
  | ind id ih =>
    cases hp : (ofOutline kind (d.outline t shape node)).parent? id with
    | none => exact absurd (hl.rooted id hid hp) hne
    | some p =>
      have hlt : p < id := parent?_lt hp
      have hmem := (hl.child p id).2 hp
      by_cases hroot : p = root
      · have hself : Stands ((d.outline t shape node).place none 0) none root
          (d.outline t shape node) := segmentAt_self _
        rw [hroot] at hmem
        obtain ⟨x, hx, hstands⟩ := exists_of_mem_forall₂ (forall₂_of_stands hself) hmem
        obtain rfl : x = t.outline shape node := by
          simpa [outline, parts, contents] using hx
        exact ⟨_, shape, node, hs, hstands⟩
      · obtain ⟨above, shape', node', hs', hstands'⟩ := ih p hlt (Nat.lt_trans hlt hid) hroot
        obtain ⟨x, hx, hstands⟩ := exists_of_mem_forall₂ (forall₂_of_stands hstands') hmem
        obtain ⟨shape'', node'', hs'', rfl⟩ :=
          Tree.exists_outline_of_mem_parts Shape.closed_regular hs' hx
        exact ⟨_, shape'', node'', hs'', hstands⟩

theorem arena_ofOutline (kind : ResourceKind) (hs : shape.Regular) (node : Nat) :
    (ofOutline kind (d.outline t shape node)).Arena t := by
  have ho := d.branching_outline t hs.proper node
  have hl := linked_ofOutline kind ho
  have hr := rising_ofOutline kind ho
  have hself : Stands ((d.outline t shape node).place none 0) none root (d.outline t shape node) :=
    segmentAt_self _
  refine ⟨?_, fun id hid => ⟨hl.rooted id hid, ?_⟩, fun id hid hne => hl.exists_slot hr hid hne, hr,
    ?_, ?_, ?_⟩
  · obtain ⟨e, he, -, hkind, -⟩ := exists_element_of_stands kind hself
    obtain ⟨e', he', hslots, -⟩ := exists_slots_of_stands kind hself
    obtain rfl : e = e' := Option.some.inj (he.symm.trans he')
    exact ⟨e, he, hkind, hslots⟩
  · rintro rfl
    exact parent?_of_stands hself
  · intro id hid
    obtain ⟨above, x, hx, -, -⟩ := exists_part_ofOutline ho hid
    have hpos := x.size_pos
    refine ⟨id + x.size, by omega, ?_, mem_ancestors_iff_of_stands hl hx⟩
    have hle := hx.le_length
    rw [length_place] at hle
    rwa [size_ofOutline]
  · intro id hid
    constructor
    · intro hnone
      by_contra hne
      obtain ⟨above, shape', node', -, hstands⟩ := exists_shape hs hid hne
      rw [node?_of_stands hstands, Tree.rootPlace_outline, Tree.node_placeOf] at hnone
      cases hnone
    · rintro rfl
      exact node?_of_stands hself
  · intro id e n he hn
    have hne : id ≠ root := by
      rintro rfl
      rw [node?_of_stands hself] at hn
      cases hn
    obtain ⟨above, shape', node', hs', hstands⟩ := exists_shape hs (lt_size_of_element? he) hne
    rw [node?_of_stands hstands, Tree.rootPlace_outline, Tree.node_placeOf] at hn
    obtain rfl : node' = n := Option.some.inj hn
    obtain ⟨e', he', -, hkind, -⟩ := exists_element_of_stands kind hstands
    obtain rfl : e = e' := Option.some.inj (he.symm.trans he')
    rw [slots_of_stands he hstands, Tree.slots_outline t node' hs', hkind]

end

theorem sheet?_arena {d : Document} {t : Tree} {s : Sheet} (hs : d.sheet? t = some s) :
    s.Arena t := by
  obtain ⟨kind, body, node, hbody, -, -, rfl⟩ := exists_outline_of_sheet? hs
  exact arena_ofOutline kind (regular_bodyKind? hbody) node

/-- **The array of elements against the parse tree.** In the sheet of a document of a tree that was
read the elements stand in pre-order, each in one slot, and follow the tables of fields. No two of
them are read from one node, and the way up from each ends at the document. -/
theorem arena_of_sheet? {text : String} {p : Parsed} (hread : Parsed.read text = .ok p)
    {d : Document} {s : Sheet} (hs : d.sheet? p.tree = some s) :
    s.Arena p.tree ∧
      (∀ a b node, s.node? a = some node → s.node? b = some node → a = b) ∧
      ∀ id < s.size, (s.ancestors id).getLast? = some root := by
  have harena := sheet?_arena hs
  exact ⟨harena, fun a b n => harena.node?_injective (Parsed.linked_of_read hread),
    fun id => harena.getLast?_ancestors⟩

theorem arena_of_sheet?_runText :
    ∃ d ∈ Parsed.runParsed.documents, ∃ s, d.sheet? Parsed.runParsed.tree = some s ∧ s.size = 14 ∧
      s.Arena Parsed.runParsed.tree ∧ s.slot? 10 = some (.item 0) ∧
      (s.ancestors 13).getLast? = some root := by
  obtain ⟨d, hd⟩ : ∃ d, Parsed.runParsed.documents = [d] := ⟨_, rfl⟩
  have hfacts : (Parsed.runParsed.documents.filterMap (·.sheet? Parsed.runParsed.tree)).map
      (fun s => (s.size, s.slot? 10)) = [(14, some (.item 0))] := by
    decide +kernel
  rw [hd] at hfacts
  cases hs : d.sheet? Parsed.runParsed.tree with
  | none => simp [hs] at hfacts
  | some s =>
    have hvalues : s.size = 14 ∧ s.slot? 10 = some (.item 0) := by simpa [hs] using hfacts
    obtain ⟨harena, -, habove⟩ := arena_of_sheet? Parsed.read_runText hs
    exact ⟨d, by simp [hd], s, hs, hvalues.1, harena, hvalues.2, habove 13 (by omega)⟩

end Document

end PipelineLens
