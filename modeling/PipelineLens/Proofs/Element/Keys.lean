import PipelineLens.Proofs.Element.Arena
/-!
# Where the keys of elements start

A node tells where its key starts by going up: to its parent, and there to the key of the pair, if
it is the value of this pair. A field is found by going down: to the first pair with its key. Where
the links of the tree agree the two ways meet in one pair, so that an element in a field starts its
key where the field does (`Linked.keyStart?_of_findValue?`). All other elements have no key, and the
range of a reference to a task always starts at one (`Document.keys_of_sheet?`).
-/
namespace PipelineLens

/-! ## Keys in the parse tree -/

namespace Tree

/-- Where the key starts in the first pair of a mapping with this key. -/
def keyAt? (t : Tree) (mapping : Nat) (key : String) : Option Nat := do
  let pair ← t.findPair? mapping key
  let (k, _) ← t.pairParts? pair
  (t.node? k).map (·.start)

theorem keyStart_placeOf (t : Tree) (id : Nat) : (t.placeOf id).keyStart = t.keyStart? id := by
  unfold placeOf keyStart?
  cases t.node? id <;> rfl

end Tree

namespace Parsed.Linked
variable {p : Parsed} {n m : Nat} (hl : p.Linked)
include hl

/-- The value that is found under a key has the key that it was found under. -/
theorem keyStart?_of_findValue? {key : String} (h : p.tree.findValue? m key = some n) :
    ∃ start, p.tree.keyAt? m key = some start ∧ p.tree.keyStart? n = some start := by
  unfold Tree.findValue? at h
  obtain ⟨⟨k, value⟩, h, hvalue⟩ := Option.bind_eq_some_iff.1 h
  obtain ⟨pair, hpair, hparts⟩ := Option.bind_eq_some_iff.1 h
  obtain rfl : value = some n := hvalue
  -- the pair that was found lists the value, so the value names this pair as its parent
  obtain ⟨x, hx, hparent⟩ := hl.exists_node_of_lists (Tree.lists_of_pairParts? hparts)
  obtain ⟨y, hy, hbody⟩ := Tree.pairParts?_eq_some.1 hparts
  have hk : k ∈ y.children := by simp [Node.children, hbody, Body.children]
  obtain ⟨z, hz⟩ := Tree.lt_size_iff.1 (Tree.lt_size_of_mem_children hy hk)
  refine ⟨z.start, ?_, ?_⟩
  · simp [Tree.keyAt?, hpair, hparts, hz]
  · simp [Tree.keyStart?, hx, hparent, hparts, hz]

/-- An item stands below a list, so it has no key. -/
theorem keyStart?_of_mem_items (h : n ∈ p.tree.items m) : p.tree.keyStart? n = none := by
  obtain ⟨x, hx, hparent⟩ := hl.exists_node_of_lists (Tree.lists_of_mem_items h)
  cases hparts : p.tree.pairParts? m with
  | none => simp [Tree.keyStart?, hx, hparent, hparts]
  | some parts => exact absurd h (Tree.not_mem_items_of_pairParts? hparts)

/-- A node at the top of a document has no key. -/
theorem keyStart?_of_mem_tops (h : n ∈ p.tops) : p.tree.keyStart? n = none := by
  obtain ⟨x, hx⟩ := Tree.lt_size_iff.1 (hl.node_top n h)
  simp [Tree.keyStart?, hx, (hl.top n x hx).2 h]

end Parsed.Linked

/-! ## Keys of elements -/

namespace Sheet

def keyStart? (s : Sheet) (id : Nat) : Option Nat := (s.element? id).bind (·.place.keyStart)

/-- The offsets of keys in a sheet: an element in a field has the key of the first pair with this
key in the mapping of the element above it, and the body and all items have none. -/
structure Keyed (s : Sheet) (t : Tree) : Prop where
  body : ∀ id, s.body? = some id → s.keyStart? id = none
  item : ∀ above i index id, s.Holds above i (.item index) id → s.keyStart? id = none
  field : ∀ above i name id, s.Holds above i (.field name) id → s.body? ≠ some id →
    ∃ mapping start, s.parent? id = some above ∧ s.node? above = some mapping ∧
      t.keyAt? mapping name = some start ∧ s.keyStart? id = some start

variable {s : Sheet} {t : Tree} {id above i : Nat} {slot : Slot}

theorem exists_holds_of_field? {name : String} (h : s.field? id name = some above) :
    ∃ i, s.Holds id i (.field name) above := by
  obtain ⟨e, he, hfield⟩ := Option.bind_eq_some_iff.1 h
  obtain ⟨⟨slot, c⟩, hmem, hslot⟩ := List.exists_of_findSome?_eq_some hfield
  obtain ⟨i, hi⟩ := List.mem_iff_getElem?.1 hmem
  refine ⟨i, e, he, ?_⟩
  by_cases hname : slot = .field name
  · rw [if_pos hname] at hslot
    rw [hi, hname, ← hslot]
  · rw [if_neg hname] at hslot
    cases hslot

namespace Arena
variable (h : s.Arena t)
include h

/-- The body is the element after the document. -/
theorem body?_eq : s.body? = some 1 := by
  obtain ⟨e, he, -, hslots⟩ := h.document
  simp [body?, field?, he, Element.field?, hslots]

/-- What is in a slot is the body, or it is read from what stands in the node of the element above
it, under the key of the field or as an item. -/
theorem cases_of_holds (hh : s.Holds above i slot id) :
    slot = .field "body" ∧ id = 1 ∨
      ∃ m n, s.node? above = some m ∧ s.node? id = some n ∧
        ((∃ name, slot = .field name ∧ t.findValue? m name = some n) ∨
          ∃ index, slot = .item index ∧ n ∈ t.items m) := by
  by_cases hroot : above = root
  · subst hroot
    exact .inl (h.eq_of_holds_root hh)
  · obtain ⟨e, he, hmem⟩ := exists_element_of_mem_children hh.mem_children
    obtain ⟨hlt, hsize⟩ := of_mem_children he hmem
    have hne : id ≠ root := Nat.ne_of_gt (Nat.zero_lt_of_lt hlt)
    obtain ⟨m, hm⟩ :=
      Option.ne_none_iff_exists'.1 (mt (h.backed above (lt_size_of_element? he)).1 hroot)
    obtain ⟨n, hn⟩ := Option.ne_none_iff_exists'.1 (mt (h.backed id hsize).1 hne)
    obtain ⟨e', -, hi⟩ := h.getElem?_slotNodes hh hm hn
    exact .inr ⟨m, n, hm, hn, Tree.cases_of_mem_slotNodes (List.mem_of_getElem? hi)⟩

theorem cases_of_holds_field {name : String} (hh : s.Holds above i (.field name) id) :
    name = "body" ∧ id = 1 ∨
      ∃ m n, s.node? above = some m ∧ s.node? id = some n ∧ t.findValue? m name = some n := by
  obtain ⟨hslot, hid⟩ | ⟨m, n, hm, hn, ⟨name', hslot, hvalue⟩ | ⟨index, hslot, hitem⟩⟩ :=
    h.cases_of_holds hh
  · exact .inl ⟨by simpa using hslot, hid⟩
  · obtain rfl : name = name' := by simpa using hslot
    exact .inr ⟨m, n, hm, hn, hvalue⟩
  · cases hslot

theorem exists_item_of_holds {index : Nat} (hh : s.Holds above i (.item index) id) :
    ∃ m n, s.node? id = some n ∧ n ∈ t.items m := by
  obtain ⟨hslot, hid⟩ | ⟨m, n, hm, hn, ⟨name, hslot, hvalue⟩ | ⟨index', hslot, hitem⟩⟩ :=
    h.cases_of_holds hh
  · cases hslot
  · cases hslot
  · exact ⟨m, n, hn, hitem⟩

end Arena

end Sheet

namespace Document
open Outline Sheet

section
variable {d : Document} {t : Tree} {s : Sheet} {id n : Nat}

/-- The body is read from the root of the document. -/
theorem node?_body (hs : d.sheet? t = some s) (hbody : s.body? = some id) :
    ∃ root, d.root? t = some root ∧ s.node? id = some root := by
  obtain ⟨kind, body, node, -, -, hnode, rfl⟩ := exists_outline_of_sheet? hs
  have hself : Stands ((d.outline t (.map body) node).place none 0) none root
      (d.outline t (.map body) node) := segmentAt_self _
  have hfield := field?_of_stands kind hself "body"
  have houtline : (d.outline t (.map body) node).field? "body"
      = some (t.outline (.map body) node) := rfl
  rw [body?] at hbody
  rw [hbody, houtline] at hfield
  cases hfield with
  | some hstands =>
    refine ⟨node, hnode, ?_⟩
    rw [node?_of_stands hstands, Tree.rootPlace_outline, Tree.node_placeOf]

/-- An element stands where its node does. -/
theorem place_eq_placeOf {e : Element} (hs : d.sheet? t = some s) (he : s.element? id = some e)
    (hn : s.node? id = some n) : e.place = t.placeOf n := by
  have hne := (sheet?_arena hs).ne_root hn
  obtain ⟨kind, body, node, hbody, -, -, rfl⟩ := exists_outline_of_sheet? hs
  obtain ⟨above, shape, node', -, hstands⟩ :=
    exists_shape (regular_bodyKind? hbody) (lt_size_of_element? he) hne
  obtain ⟨e', he', -, -, hplace, -⟩ := exists_element_of_stands kind hstands
  obtain rfl : e = e' := Option.some.inj (he.symm.trans he')
  rw [node?_of_stands hstands, Tree.rootPlace_outline, Tree.node_placeOf] at hn
  rw [hplace, Tree.rootPlace_outline, Option.some.inj hn]

theorem keyStart?_eq (hs : d.sheet? t = some s) (hn : s.node? id = some n) :
    s.keyStart? id = t.keyStart? n := by
  obtain ⟨e, he, -⟩ := Option.bind_eq_some_iff.1 hn
  rw [Sheet.keyStart?, he, Option.bind_some, place_eq_placeOf hs he hn, Tree.keyStart_placeOf]

end

section
variable {p : Parsed} {d : Document} {s : Sheet} (hl : p.Linked) (hs : d.sheet? p.tree = some s)
include hl hs

/-- The slot of an element tells where its node stands, and this tells its key. -/
theorem keyed_of_sheet? (hd : d ∈ p.documents) : s.Keyed p.tree := by
  have harena := sheet?_arena hs
  refine ⟨?_, ?_, ?_⟩
  · intro id hbody
    obtain ⟨root, hroot, hnode⟩ := node?_body hs hbody
    rw [keyStart?_eq hs hnode]
    exact hl.keyStart?_of_mem_tops (List.mem_flatMap.2 ⟨d, hd, List.mem_of_find?_eq_some hroot⟩)
  · intro above i index id hh
    obtain ⟨m, n, hn, hitem⟩ := harena.exists_item_of_holds hh
    rw [keyStart?_eq hs hn]
    exact hl.keyStart?_of_mem_items hitem
  · intro above i name id hh hbody
    obtain ⟨-, rfl⟩ | ⟨m, n, hm, hn, hvalue⟩ := harena.cases_of_holds_field hh
    · exact absurd harena.body?_eq hbody
    · obtain ⟨start, hkey, hstart⟩ := hl.keyStart?_of_findValue? hvalue
      have hparent := ((linked_of_sheet? hs).child above id).1 hh.mem_children
      exact ⟨m, start, hparent, hm, hkey, by rw [keyStart?_eq hs hn, hstart]⟩

/-- The range of a reference to a task goes from its key to the end of its value. -/
theorem taskRefRange?_of_field? {task reference : Nat}
    (hfield : s.field? task "taskRef" = some reference) :
    ∃ mapping value n start, s.node? task = some mapping ∧
      p.tree.findValue? mapping "taskRef" = some value ∧ p.tree.node? value = some n ∧
      p.tree.keyAt? mapping "taskRef" = some start ∧ s.keyStart? reference = some start ∧
      s.taskRefRange? task = some (start, n.stop) := by
  obtain ⟨i, hh⟩ := exists_holds_of_field? hfield
  obtain ⟨hname, -⟩ | ⟨m, value, hm, hnode, hvalue⟩ := (sheet?_arena hs).cases_of_holds_field hh
  · exact absurd hname (by decide)
  · obtain ⟨start, hkey, hstart⟩ := hl.keyStart?_of_findValue? hvalue
    obtain ⟨pair, k, -, -, hparts⟩ := Tree.exists_pair_of_findValue? hvalue
    obtain ⟨n, hn, -⟩ := hl.exists_node_of_lists (Tree.lists_of_pairParts? hparts)
    obtain ⟨e, he, -⟩ := Option.bind_eq_some_iff.1 hnode
    have hplace := place_eq_placeOf hs he hnode
    have hplaceKey : e.place.keyStart = some start := by
      rw [hplace, Tree.keyStart_placeOf, hstart]
    have hstop : e.place.stop = n.stop := by simp [hplace, Tree.placeOf, hn]
    refine ⟨m, value, n, start, hm, hvalue, hn, hkey, ?_, ?_⟩
    · rw [keyStart?_eq hs hnode, hstart]
    · simp [taskRefRange?, hfield, he, hplaceKey, hstop]

end

/-- **Elements know the keys that they were found under.** In the sheet of a document of a tree that
was read an element in a field starts its key where the first pair with this key does, in the
mapping of the element above it; the body and all items have no key. So the range of a reference to
a task goes from its key to the end of its value, and never from the start of the value. -/
theorem keys_of_sheet? {text : String} {p : Parsed} (hread : Parsed.read text = .ok p)
    {d : Document} (hd : d ∈ p.documents) {s : Sheet} (hs : d.sheet? p.tree = some s) :
    s.Keyed p.tree ∧
      ∀ task reference, s.field? task "taskRef" = some reference →
        ∃ mapping value n start, s.node? task = some mapping ∧
          p.tree.findValue? mapping "taskRef" = some value ∧ p.tree.node? value = some n ∧
          p.tree.keyAt? mapping "taskRef" = some start ∧ s.keyStart? reference = some start ∧
          s.taskRefRange? task = some (start, n.stop) := by
  have hl := Parsed.linked_of_read hread
  exact ⟨keyed_of_sheet? hl hs hd, fun task reference => taskRefRange?_of_field? hl hs⟩

/-- A pipeline with one task. The task has its reference twice, the first time under a key in
quotes. -/
def quotedText : String := r#"[[[[["MAPPING", "", 0, 119, [
  ["PAIR", "", 0, 14, [], [], ["SCALAR", "kind", 0, 4], ["SCALAR", "Pipeline", 6, 14]],
  ["PAIR", "", 15, 40, [], [],
    ["SCALAR", "apiVersion", 15, 25], ["SCALAR", "tekton.dev/v1", 27, 40]],
  ["PAIR", "", 41, 119, [], [], ["SCALAR", "spec", 41, 45], ["MAPPING", "", 49, 119, [
    ["PAIR", "", 49, 119, [], [], ["SCALAR", "tasks", 49, 54], ["SEQ", "", 60, 119, [], [
      ["MAPPING", "", 62, 119, [
        ["PAIR", "", 62, 88, [], [], ["SCALAR", "'taskRef'", 62, 71], ["MAPPING", "", 81, 88, [
          ["PAIR", "", 81, 88, [], [], ["SCALAR", "name", 81, 85], ["SCALAR", "x", 87, 88]]]]],
        ["PAIR", "", 95, 119, [], [], ["SCALAR", "taskRef", 95, 102], ["MAPPING", "", 112, 119, [
          ["PAIR", "", 112, 119, [], [], ["SCALAR", "name", 112, 116],
            ["SCALAR", "y", 118, 119]]]]]]]]]]]]]]]], [], 0, 120]]]"#

/-- The layout of the pipeline. -/
def quotedLayout : Layout :=
  .mapping "" 0 119 [
    nestedField 0 14 "kind" (.scalar "Pipeline" 6 14),
    nestedField 15 40 "apiVersion" (.scalar "tekton.dev/v1" 27 40),
    nestedField 41 119 "spec" (.mapping "" 49 119 [
      nestedField 49 119 "tasks" (.sequence "" 60 119 [
        .mapping "" 62 119 [
          nestedField 62 88 "'taskRef'" (.mapping "" 81 88 [
            nestedField 81 88 "name" (.scalar "x" 87 88)]),
          nestedField 95 119 "taskRef" (.mapping "" 112 119 [
            nestedField 112 119 "name" (.scalar "y" 118 119)])]])])]

def quotedParsed : Parsed := .ofDrafts [⟨[quotedLayout], [], 0, 120⟩]

set_option maxRecDepth 8000 in
theorem read_quotedText : Parsed.read quotedText = .ok quotedParsed := by
  have hchars : quotedText.toList = _ := String.toList_ofList
  refine Parsed.read_of_toOption ?_
  rw [Parsed.read, Parsed.written_eq hchars]
  decide +kernel

/-- The task is an item, so it has no key, and its reference starts at the key in quotes. -/
theorem keys_of_sheet?_quotedText : Parsed.read quotedText = .ok quotedParsed ∧
    ∃ d ∈ quotedParsed.documents, ∃ s, d.sheet? quotedParsed.tree = some s ∧
      s.Keyed quotedParsed.tree ∧ s.Holds 5 0 (.item 0) 6 ∧ s.keyStart? 6 = none ∧
      s.field? 6 "taskRef" = some 7 ∧ s.taskRefRange? 6 = some (62, 88) := by
  obtain ⟨d, hd⟩ : ∃ d, quotedParsed.documents = [d] := ⟨_, rfl⟩
  have hfacts : (quotedParsed.documents.filterMap (·.sheet? quotedParsed.tree)).map
      (fun s => ((s.element? 5).bind (·.slots[0]?), s.field? 6 "taskRef", s.node? 6))
        = [(some (.item 0, some 6), some 7, some 20)] := by
    decide +kernel
  have htree : (quotedParsed.tree.keyAt? 20 "taskRef",
      ((quotedParsed.tree.findValue? 20 "taskRef").bind quotedParsed.tree.node?).map (·.stop))
        = (some 62, some 88) := by
    decide +kernel
  obtain ⟨hkey, hvalue⟩ := Prod.mk.inj htree
  rw [hd] at hfacts
  cases hs : d.sheet? quotedParsed.tree with
  | none => simp [hs] at hfacts
  | some s =>
    obtain ⟨hslot, hfield, hnode⟩ : (s.element? 5).bind (·.slots[0]?) = some (.item 0, some 6) ∧
        s.field? 6 "taskRef" = some 7 ∧ s.node? 6 = some 20 := by simpa [hs] using hfacts
    have hholds : s.Holds 5 0 (.item 0) 6 := Option.bind_eq_some_iff.1 hslot
    obtain ⟨hkeyed, hrange⟩ := keys_of_sheet? read_quotedText (hd ▸ List.mem_singleton_self d) hs
    obtain ⟨m, value, n, start, hm, hfound, hn, hstart, -, hrange⟩ := hrange 6 7 hfield
    obtain rfl : m = 20 := Option.some.inj (hm.symm.trans hnode)
    obtain rfl : start = 62 := Option.some.inj (hstart.symm.trans hkey)
    have hstop : n.stop = 88 := by simpa [hfound, hn] using hvalue
    exact ⟨read_quotedText, d, by simp [hd], s, hs, hkeyed, hholds, hkeyed.item 5 0 0 6 hholds,
      hfield, by rw [hrange, hstop]⟩

end Document

end PipelineLens
