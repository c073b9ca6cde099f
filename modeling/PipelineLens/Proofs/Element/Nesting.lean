import PipelineLens.Proofs.Tree.Nesting
/-!
# Well-nested elements

Every branch of an outline stands for one node of the parse tree, and what is in its slots for nodes
below that node: for the values under different keys, or for the items of a list. `every_outline`
is the induction that follows the shapes down a tree, and from it the elements of a well-nested tree
are well nested themselves (`nested_outline`).
-/
namespace PipelineLens

namespace Outline

/-- Where the root stands. -/
def rootPlace : Outline → Place
  | leaf place _ => place
  | branch _ place _ => place

def range (o : Outline) : Range := o.rootPlace.range

/-- The outlines in some slots. -/
def contents (slots : List (Slot × Option Outline)) : List Outline := slots.filterMap (·.2)

/-- `P` holds of every branch: of its kind, its place and what is in its slots. -/
inductive Every (P : ElementKind → Place → List Outline → Prop) : Outline → Prop where
  | leaf (place : Place) (value : Option ElementValue) : Every P (.leaf place value)
  | branch {kind : ElementKind} {place : Place} {slots : List (Slot × Option Outline)}
      (root : P kind place (contents slots)) (below : ∀ o ∈ contents slots, Every P o) :
      Every P (.branch kind place slots)

/-- What is below a place lies in its range, and no two parts share an offset. -/
structure Fits (_kind : ElementKind) (place : Place) (below : List Outline) : Prop where
  within : ∀ o ∈ below, o.range.Within place.range
  apart : below.Pairwise fun a b => a.range.Apart b.range

/-- A branch has a kind that may have something below it. -/
def Branching (kind : ElementKind) (_place : Place) (_below : List Outline) : Prop :=
  kind.isLeaf = false

end Outline

/-! ## The tables of fields -/

/-- What an item is read as. -/
def ItemShape.shape : ItemShape → Shape
  | .text => .text
  | .map kind => .map kind

/-- A mapping or a list is not read as a value. -/
def Shape.Proper : Shape → Prop
  | .map kind => kind.isLeaf = false
  | .list kind item => kind.isLeaf = false ∧ ∀ entry, item = .map entry → entry.isLeaf = false
  | _ => True

/-- What `Q` holds of is read by shapes that `Q` holds of as well. -/
structure Shape.Closed (Q : Shape → Prop) : Prop where
  field : ∀ kind, Q (.map kind) → ∀ f ∈ kind.fields, Q f.2
  item : ∀ kind item, Q (.list kind item) → Q item.shape
  texts : Q .textOrList → Q (.list .stringArray .text)

/-- A table has only proper shapes. -/
theorem Shape.closed_proper : Closed Proper where
  field kind _ := by
    cases kind <;> simp [ElementKind.fields, Shape.Proper, ElementKind.isLeaf]
  item kind item h := by
    cases item with
    | text => trivial
    | map entry => exact h.2 entry rfl
  texts _ := ⟨rfl, nofun⟩

/-- A table names no key twice. -/
theorem ElementKind.pairwise_fields (kind : ElementKind) :
    kind.fields.Pairwise fun f g => f.1 ≠ g.1 := by
  cases kind <;> decide

namespace Tree
open Outline

variable {t : Tree}

/-! ## The outline of one node -/

theorem outline_map (t : Tree) (kind : ElementKind) (id : Nat) :
    t.outline (.map kind) id = .branch kind (t.placeOf id)
      (kind.fields.map fun f => (.field f.1, (t.findValue? id f.1).map (t.outline f.2))) := by
  rw [outline]
  congr 2
  funext f
  split
  · rename_i value hv
    rw [hv, Option.map_some]
  · rename_i hv
    rw [hv, Option.map_none]

theorem outline_list (t : Tree) (kind : ElementKind) (item : ItemShape) (id : Nat) :
    t.outline (.list kind item) id = .branch kind (t.placeOf id)
      ((t.items id).zipIdx.map fun i => (.item i.2, some (t.outline item.shape i.1))) := by
  cases item with
  | text =>
    rw [outline]
    simp only [ItemShape.shape, outline]
  | map entry =>
    rw [outline]
    congr 1
    have h : (t.items id).zipIdx = (t.items id).attach.zipIdx.map (Prod.map (·.1) fun i => i) := by
      have hmap := List.zipIdx_map (l := (t.items id).attach) (k := 0) (f := Subtype.val)
      rwa [List.attach_map_subtype_val] at hmap
    rw [h, List.map_map]
    rfl

theorem outline_textOrList (t : Tree) (id : Nat) :
    t.outline .textOrList id = if (t.node? id).any (·.isSequence)
      then t.outline (.list .stringArray .text) id else t.outline .text id := by
  rw [outline, outline_list, outline]
  simp only [ItemShape.shape, outline]

theorem rootPlace_outline (t : Tree) (shape : Shape) (id : Nat) :
    (t.outline shape id).rootPlace = t.placeOf id := by
  cases shape with
  | map kind => rw [outline_map, rootPlace]
  | list kind item => rw [outline_list, rootPlace]
  | textOrList =>
    rw [outline_textOrList, outline_list, outline, textLeaf]
    split <;> rw [rootPlace]
  | text => rw [outline, textLeaf, rootPlace]
  | _ => rw [outline, rootPlace]

theorem range_outline (t : Tree) (shape : Shape) (id : Nat) :
    (t.outline shape id).range = t.rangeOf id := by
  rw [Outline.range, rootPlace_outline, rangeOf]

theorem contents_fields (t : Tree) (fields : List (String × Shape)) (id : Nat) :
    contents (fields.map fun f => (.field f.1, (t.findValue? id f.1).map (t.outline f.2)))
      = fields.filterMap fun f => (t.findValue? id f.1).map (t.outline f.2) := by
  rw [contents, List.filterMap_map]
  rfl

theorem contents_items (items : List Nat) (f : Nat → Outline) :
    contents (items.zipIdx.map fun i => (.item i.2, some (f i.1))) = items.map f := by
  have h : (fun s : Slot × Option Outline => s.2) ∘
      (fun i : Nat × Nat => (Slot.item i.2, some (f i.1))) = some ∘ f ∘ Prod.fst := rfl
  rw [contents, List.filterMap_map, h, List.filterMap_eq_map, ← List.map_map, List.zipIdx_map_fst]

/-! ## All outlines of a tree -/

section
variable {P : ElementKind → Place → List Outline → Prop} {Q : Shape → Prop}
  (hQ : Shape.Closed Q)
  (hmap : ∀ kind id, Q (.map kind) → P kind (t.placeOf id)
    (kind.fields.filterMap fun f => (t.findValue? id f.1).map (t.outline f.2)))
  (hlist : ∀ kind item id, Q (.list kind item) →
    P kind (t.placeOf id) ((t.items id).map (t.outline item.shape)))
include hQ hmap hlist

/-- What holds of every mapping read by its table and of every list holds throughout the outline of
a node. The induction is on the index of the node, since what is below has smaller ones. -/
theorem every_outline (id : Nat) (shape : Shape) (hs : Q shape) : (t.outline shape id).Every P := by
  induction id using Nat.strongRecOn generalizing shape with
  | ind id ih =>
    have list : ∀ kind item, Q (.list kind item) → (t.outline (.list kind item) id).Every P := by
      intro kind item hp
      rw [outline_list]
      refine .branch ?_ ?_
      · rw [contents_items]
        exact hlist kind item id hp
      · rw [contents_items]
        intro o ho
        obtain ⟨c, hc, rfl⟩ := List.mem_map.1 ho
        exact ih c (lt_of_mem_items hc) item.shape (hQ.item kind item hp)
    cases shape with
    | map kind =>
      rw [outline_map]
      refine .branch ?_ ?_
      · rw [contents_fields]
        exact hmap kind id hs
      · rw [contents_fields]
        intro o ho
        obtain ⟨f, hf, ho⟩ := List.mem_filterMap.1 ho
        obtain ⟨value, hv, rfl⟩ := Option.map_eq_some_iff.1 ho
        exact ih value (lt_of_findValue? hv) f.2 (hQ.field kind hs f hf)
    | list kind item => exact list kind item hs
    | textOrList =>
      rw [outline_textOrList]
      split
      · exact list .stringArray .text (hQ.texts hs)
      · rw [outline, textLeaf]
        exact .leaf _ _
    | text =>
      rw [outline, textLeaf]
      exact .leaf _ _
    | _ =>
      rw [outline]
      exact .leaf _ _

end

theorem branching_outline (t : Tree) (id : Nat) {shape : Shape} (hs : shape.Proper) :
    (t.outline shape id).Every Branching :=
  every_outline Shape.closed_proper (fun _ _ h => h) (fun _ _ _ h => h.1) id shape hs

theorem Nested.fits_map (h : t.Nested) (kind : ElementKind) (id : Nat) :
    Fits kind (t.placeOf id)
      (kind.fields.filterMap fun f => (t.findValue? id f.1).map (t.outline f.2)) where
  within := by
    intro o ho
    obtain ⟨f, -, ho⟩ := List.mem_filterMap.1 ho
    obtain ⟨value, hv, rfl⟩ := Option.map_eq_some_iff.1 ho
    rw [range_outline]
    exact h.within_of_findValue? hv
  apart := by
    rw [List.pairwise_filterMap]
    refine kind.pairwise_fields.imp ?_
    intro f g hne a ha b hb
    obtain ⟨value, hv, rfl⟩ := Option.map_eq_some_iff.1 ha
    obtain ⟨value', hv', rfl⟩ := Option.map_eq_some_iff.1 hb
    rw [range_outline, range_outline]
    exact h.apart_of_findValue? hne hv hv'

theorem Nested.fits_list (h : t.Nested) (kind : ElementKind) (item : Shape) (id : Nat) :
    Fits kind (t.placeOf id) ((t.items id).map (t.outline item)) where
  within := by
    intro o ho
    obtain ⟨c, hc, rfl⟩ := List.mem_map.1 ho
    rw [range_outline]
    exact h.within_of_mem_items hc
  apart := by
    rw [List.pairwise_map]
    simp only [range_outline]
    exact h.pairwise_items

/-- The elements of a well-nested tree are well nested. -/
theorem Nested.fits_outline (h : t.Nested) (id : Nat) {shape : Shape} (hs : shape.Proper) :
    (t.outline shape id).Every Fits :=
  every_outline Shape.closed_proper (fun kind id _ => h.fits_map kind id)
    (fun kind item id _ => h.fits_list kind item.shape id) id shape hs

end Tree

end PipelineLens
