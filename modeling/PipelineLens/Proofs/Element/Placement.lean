import PipelineLens.Proofs.Element.Nesting
import PipelineLens.Proofs.Pointwise
import PipelineLens.Proofs.Segment
/-!
# Outlines in the array of elements

`Outline.place` lays an outline out in one list, and the elements name each other by their index
there. `Stands es parent base o` says that the list holds `o` from `base` on; with an outline stand
its parts (`Stands.element`), and at every index stands some part (`Stands.exists_part`). So the two
directions of a sheet agree, from an element to those below it and from one of these to the element
above it (`linked_ofOutline`), and a well-nested outline gives a well-nested sheet
(`nested_ofOutline`).
-/
namespace PipelineLens

namespace Outline

def rootKind : Outline → ElementKind
  | leaf .. => .value
  | branch kind _ _ => kind

/-- The outlines directly below the root. -/
def parts : Outline → List Outline
  | leaf .. => []
  | branch _ _ slots => contents slots

theorem Every.parts {P : ElementKind → Place → List Outline → Prop} {o x : Outline}
    (h : o.Every P) (hx : x ∈ o.parts) : x.Every P := by
  cases h with
  | leaf => simp [Outline.parts] at hx
  | branch _ hbelow => exact hbelow x hx

theorem Every.fits {o : Outline} (h : o.Every Fits) : Fits o.rootKind o.rootPlace o.parts := by
  cases h with
  | leaf place value => exact ⟨nofun, .nil⟩
  | branch hroot _ => exact hroot

/-- A value has nothing below it. -/
theorem Every.parts_eq_nil {o : Outline} (h : o.Every Branching) (hk : o.rootKind.isLeaf = true) :
    o.parts = [] := by
  cases h with
  | leaf => rfl
  | branch hroot _ => exact absurd hk (Bool.eq_false_iff.1 hroot)

/-! ## What stands where -/

/-- The list `es` has the elements `xs` from index `base` on. -/
def ElementsAt (es : List Element) (base : Nat) (xs : List Element) : Prop := xs <+: es.drop base

/-- The elements of the outline stand in `es` from `base` on, the root below `parent`. -/
def Stands (es : List Element) (parent : Option Nat) (base : Nat) (o : Outline) : Prop :=
  ElementsAt es base (o.place parent base)

/-- The elements in the slots of `parent` stand in `es` from `base` on. -/
def StandAll (es : List Element) (parent base : Nat) (slots : List (Slot × Option Outline)) :
    Prop :=
  ElementsAt es base (placeAll parent base slots)

/-- `id` is in a slot of `parent`. -/
def ChildOf (es : List Element) (parent : Option Nat) (id : Nat) : Prop :=
  ∃ p e, parent = some p ∧ es[p]? = some e ∧ id ∈ e.children

section
variable {es : List Element} {parent : Option Nat} {above base : Nat}

theorem StandAll.head {slot : Slot} {o : Outline} {rest : List (Slot × Option Outline)}
    (h : StandAll es above base ((slot, some o) :: rest)) : Stands es (some above) base o := by
  unfold StandAll at h
  rw [placeAll] at h
  exact SegmentAt.left h

theorem StandAll.tail {slot : Slot} {o : Outline} {rest : List (Slot × Option Outline)}
    (h : StandAll es above base ((slot, some o) :: rest)) :
    StandAll es above (base + o.size) rest := by
  unfold StandAll at h
  rw [placeAll] at h
  have := SegmentAt.right h
  rwa [length_place] at this

/-- A slot that the text leaves out has no element. -/
theorem StandAll.skip {slot : Slot} {rest : List (Slot × Option Outline)}
    (h : StandAll es above base ((slot, none) :: rest)) : StandAll es above base rest := by
  unfold StandAll at h
  rwa [placeAll] at h

/-- Below the indices in the slots stand the outlines in the slots. -/
theorem StandAll.forall₂ {slots : List (Slot × Option Outline)} (h : StandAll es above base slots) :
    List.Forall₂ (Stands es (some above)) ((slotsAt base slots).filterMap (·.2))
      (contents slots) := by
  induction slots generalizing base with
  | nil => exact .nil
  | cons s rest ih =>
    obtain ⟨slot, none | o⟩ := s
    · exact ih h.skip
    · exact .cons h.head (ih h.tail)

/-- The element at the root of an outline, and what stands below it. -/
theorem Stands.element {o : Outline} (h : Stands es parent base o) :
    ∃ e, es[base]? = some e ∧ e.parent = parent ∧ e.kind = o.rootKind ∧ e.place = o.rootPlace ∧
      List.Forall₂ (Stands es (some base)) e.children o.parts := by
  unfold Stands at h
  cases o with
  | leaf place value =>
    rw [Outline.place] at h
    exact ⟨_, SegmentAt.head h, rfl, rfl, rfl, .nil⟩
  | branch kind place slots =>
    rw [Outline.place] at h
    exact ⟨_, SegmentAt.head h, rfl, rfl, rfl, StandAll.forall₂ (SegmentAt.tail h)⟩

variable {P : ElementKind → Place → List Outline → Prop}

mutual

/-- At every index of an outline stands a part of it: the outline itself, or one in a slot of the
element that it names as its parent. -/
theorem Stands.exists_part {parent : Option Nat} {base i : Nat} :
    (o : Outline) → Stands es parent base o → o.Every P → base ≤ i → i < base + o.size →
      ∃ above x, Stands es above i x ∧ x.Every P ∧
        (i = base ∧ above = parent ∨ ChildOf es above i)
  | leaf place value, hs, ho, hle, hlt => by
    obtain rfl : i = base := by
      rw [size] at hlt
      omega
    exact ⟨parent, _, hs, ho, .inl ⟨rfl, rfl⟩⟩
  | branch kind place slots, hs, ho, hle, hlt => by
    by_cases hi : i = base
    · exact ⟨parent, _, hi ▸ hs, ho, .inl ⟨hi, rfl⟩⟩
    · have hplace := hs
      unfold Stands at hplace
      rw [Outline.place] at hplace
      rw [size] at hlt
      obtain ⟨above, x, hx, hxP, ⟨rfl, hi⟩ | hi⟩ :=
        StandAll.exists_part slots (SegmentAt.tail hplace) (fun x hx => ho.parts hx)
          (show base + 1 ≤ i by omega) (by omega)
      · exact ⟨_, x, hx, hxP, .inr ⟨base, _, rfl, SegmentAt.head hplace, hi⟩⟩
      · exact ⟨above, x, hx, hxP, .inr hi⟩

theorem StandAll.exists_part {p base i : Nat} :
    (slots : List (Slot × Option Outline)) → StandAll es p base slots →
      (∀ x ∈ contents slots, x.Every P) → base ≤ i → i < base + sizes slots →
      ∃ above x, Stands es above i x ∧ x.Every P ∧
        (above = some p ∧ i ∈ (slotsAt base slots).filterMap (·.2) ∨ ChildOf es above i)
  | [], _, _, hle, hlt => by
    rw [sizes] at hlt
    omega
  | (slot, none) :: rest, hs, ho, hle, hlt => by
    rw [sizes] at hlt
    exact StandAll.exists_part rest hs.skip ho hle hlt
  | (slot, some o) :: rest, hs, ho, hle, hlt => by
    rw [sizes] at hlt
    have ho : o.Every P ∧ ∀ x ∈ contents rest, x.Every P := List.forall_mem_cons.1 ho
    by_cases hi : i < base + o.size
    · obtain ⟨above, x, hx, hxP, ⟨rfl, rfl⟩ | hi⟩ :=
        Stands.exists_part o hs.head ho.1 hle hi
      · exact ⟨_, x, hx, hxP, .inl ⟨rfl, List.mem_cons_self⟩⟩
      · exact ⟨above, x, hx, hxP, .inr hi⟩
    · obtain ⟨above, x, hx, hxP, ⟨rfl, hi⟩ | hi⟩ :=
        StandAll.exists_part rest hs.tail ho.2 (show base + o.size ≤ i by omega) (by omega)
      · exact ⟨_, x, hx, hxP, .inl ⟨rfl, List.mem_cons_of_mem _ hi⟩⟩
      · exact ⟨above, x, hx, hxP, .inr hi⟩

end

end

end Outline

/-! ## Sheets -/

namespace Sheet
open Outline

/-- The elements directly below an element. -/
def children (s : Sheet) (id : Nat) : List Nat := ((s.element? id).map (·.children)).getD []

/-- The range of an element; an empty one of what is no element. -/
def rangeOf (s : Sheet) (id : Nat) : Range := ((s.element? id).map (·.place.range)).getD ⟨0, 0⟩

/-- Elements name those below them and the one above them in agreement; only the document has none
above it, and a value has none below it. -/
structure Linked (s : Sheet) : Prop where
  child : ∀ p c, c ∈ s.children p ↔ s.parent? c = some p
  rooted : ∀ id < s.size, s.parent? id = none → id = root
  leaf : ∀ id, s.kindOf? id = some .value → s.children id = []

/-- An element lies in the range of the one above it, and no two below one element share an
offset. -/
structure Nested (s : Sheet) : Prop where
  within : ∀ {id p}, s.parent? id = some p → (s.rangeOf id).Within (s.rangeOf p)
  apart : ∀ {a b p}, s.parent? a = some p → s.parent? b = some p → a ≠ b →
    (s.rangeOf a).Apart (s.rangeOf b)

variable {s : Sheet} {id : Nat} {e : Element}

theorem children_eq (he : s.element? id = some e) : s.children id = e.children := by
  simp [children, he]

theorem rangeOf_eq (he : s.element? id = some e) : s.rangeOf id = e.place.range := by
  simp [rangeOf, he]

theorem parent?_eq (he : s.element? id = some e) : s.parent? id = e.parent := by
  simp [parent?, he]

theorem element?_of_parent? {p : Nat} (h : s.parent? id = some p) :
    ∃ e, s.element? id = some e := by
  obtain ⟨e, he, -⟩ := Option.bind_eq_some_iff.1 h
  exact ⟨e, he⟩

theorem parent?_lt {p : Nat} (h : s.parent? id = some p) : p < id := by
  obtain ⟨e, he⟩ := element?_of_parent? h
  rw [parent?_eq he] at h
  exact parent_lt he h

theorem exists_element_of_mem_children {c : Nat} (h : c ∈ s.children id) :
    ∃ e, s.element? id = some e ∧ c ∈ e.children := by
  unfold children at h
  cases he : s.element? id with
  | none => simp [he] at h
  | some e => exact ⟨e, rfl, by simpa [he] using h⟩

section
variable {kind : ResourceKind} {o x : Outline} {above : Option Nat}
  {P : ElementKind → Place → List Outline → Prop}

theorem element?_ofOutline (kind : ResourceKind) (o : Outline) (id : Nat) :
    (ofOutline kind o).element? id = (o.place none 0)[id]? := by
  simp [element?, ofOutline]

theorem size_ofOutline (kind : ResourceKind) (o : Outline) : (ofOutline kind o).size = o.size := by
  simp [size, ofOutline, length_place]

/-- The element at the root of an outline that stands in a sheet. -/
theorem exists_element_of_stands (kind : ResourceKind) (h : Stands (o.place none 0) above id x) :
    ∃ e, (ofOutline kind o).element? id = some e ∧ e.parent = above ∧ e.kind = x.rootKind ∧
      e.place = x.rootPlace ∧
      List.Forall₂ (Stands (o.place none 0) (some id)) e.children x.parts := by
  obtain ⟨e, he, hparts⟩ := h.element
  exact ⟨e, by rw [element?_ofOutline, he], hparts⟩

theorem rangeOf_of_stands (h : Stands (o.place none 0) above id x) :
    (ofOutline kind o).rangeOf id = x.range := by
  obtain ⟨e, he, -, -, hplace, -⟩ := exists_element_of_stands kind h
  rw [rangeOf_eq he, hplace]
  rfl

theorem parent?_of_stands (h : Stands (o.place none 0) above id x) :
    (ofOutline kind o).parent? id = above := by
  obtain ⟨e, he, hparent, -⟩ := exists_element_of_stands kind h
  rw [parent?_eq he, hparent]

theorem kindOf?_of_stands (h : Stands (o.place none 0) above id x) :
    (ofOutline kind o).kindOf? id = some x.rootKind := by
  obtain ⟨e, he, -, hkind, -⟩ := exists_element_of_stands kind h
  rw [kindOf?, he, Option.map_some, hkind]

theorem forall₂_of_stands (h : Stands (o.place none 0) above id x) :
    List.Forall₂ (Stands (o.place none 0) (some id)) ((ofOutline kind o).children id) x.parts := by
  obtain ⟨e, he, -, -, -, hparts⟩ := exists_element_of_stands kind h
  rwa [children_eq he]

/-- Every element of a sheet is the root of a part of the outline. -/
theorem exists_part_ofOutline (ho : o.Every P) (hid : id < (ofOutline kind o).size) :
    ∃ above x, Stands (o.place none 0) above id x ∧ x.Every P ∧
      (id = root ∧ above = none ∨ ∃ p, above = some p ∧ id ∈ (ofOutline kind o).children p) := by
  rw [size_ofOutline] at hid
  have hself : Stands (o.place none 0) none 0 o := segmentAt_self _
  obtain ⟨above, x, hx, hP, hroot | ⟨p, e, habove, he, hmem⟩⟩ :=
    Stands.exists_part o hself ho (Nat.zero_le id) (by omega)
  · exact ⟨above, x, hx, hP, .inl hroot⟩
  · rw [← element?_ofOutline kind] at he
    exact ⟨above, x, hx, hP, .inr ⟨p, habove, by rwa [children_eq he]⟩⟩

theorem lt_size_of_element? (he : s.element? id = some e) : id < s.size :=
  (Array.getElem?_eq_some_iff.1 he).1

theorem lt_size_of_mem_children {c : Nat} (h : c ∈ s.children id) : id < s.size := by
  obtain ⟨e, he, -⟩ := exists_element_of_mem_children h
  exact lt_size_of_element? he

/-- The links of a sheet agree. -/
theorem linked_ofOutline (kind : ResourceKind) (ho : o.Every Branching) :
    (ofOutline kind o).Linked where
  child := by
    intro p c
    constructor
    · intro hc
      obtain ⟨above, x, hx, -, -⟩ := exists_part_ofOutline ho (lt_size_of_mem_children hc)
      obtain ⟨y, -, hy⟩ := exists_of_mem_forall₂ (forall₂_of_stands hx) hc
      exact parent?_of_stands hy
    · intro hp
      obtain ⟨e, he⟩ := element?_of_parent? hp
      obtain ⟨above, x, hx, -, hcase⟩ := exists_part_ofOutline ho (lt_size_of_element? he)
      rw [parent?_of_stands hx] at hp
      obtain ⟨-, habove⟩ | ⟨q, habove, hq⟩ := hcase
      · rw [habove] at hp
        cases hp
      · obtain rfl : q = p := Option.some.inj (habove.symm.trans hp)
        exact hq
  rooted := by
    intro id hid hp
    obtain ⟨above, x, hx, -, hcase⟩ := exists_part_ofOutline ho hid
    rw [parent?_of_stands hx] at hp
    obtain ⟨hroot, -⟩ | ⟨q, habove, -⟩ := hcase
    · exact hroot
    · rw [habove] at hp
      cases hp
  leaf := by
    intro id hk
    obtain ⟨e, he, hkind⟩ := Option.map_eq_some_iff.1 hk
    obtain ⟨above, x, hx, hxP, -⟩ := exists_part_ofOutline ho (lt_size_of_element? he)
    obtain ⟨e', he', -, hkind', -, hparts⟩ := exists_element_of_stands kind hx
    obtain rfl : e = e' := Option.some.inj (he.symm.trans he')
    have hnil : x.parts = [] := hxP.parts_eq_nil (by rw [← hkind', hkind]; rfl)
    rw [hnil] at hparts
    rw [children_eq he, List.forall₂_nil_right_iff.1 hparts]

instance : Std.Symm fun a b => (s.rangeOf a).Apart (s.rangeOf b) := ⟨fun _ _ => Range.Apart.symm⟩

/-- The elements of a well-nested outline are well nested. -/
theorem nested_ofOutline (kind : ResourceKind) (hl : (ofOutline kind o).Linked)
    (ho : o.Every Fits) : (ofOutline kind o).Nested where
  within := by
    intro id p hp
    have hc := (hl.child p id).2 hp
    obtain ⟨above, x, hx, hxP, -⟩ := exists_part_ofOutline ho (lt_size_of_mem_children hc)
    obtain ⟨y, hy, hstands⟩ := exists_of_mem_forall₂ (forall₂_of_stands hx) hc
    rw [rangeOf_of_stands hstands, rangeOf_of_stands hx]
    exact hxP.fits.within y hy
  apart := by
    intro a b p ha hb hab
    have hca := (hl.child p a).2 ha
    have hcb := (hl.child p b).2 hb
    obtain ⟨above, x, hx, hxP, -⟩ := exists_part_ofOutline ho (lt_size_of_mem_children hca)
    have hranges : ((ofOutline kind o).children p).map (ofOutline kind o).rangeOf
        = x.parts.map (·.range) :=
      map_eq_of_forall₂ (forall₂_of_stands hx) fun c y hy => rangeOf_of_stands hy
    have hpair : ((ofOutline kind o).children p).Pairwise fun a b =>
        ((ofOutline kind o).rangeOf a).Apart ((ofOutline kind o).rangeOf b) := by
      rw [← List.pairwise_map, hranges, List.pairwise_map]
      exact hxP.fits.apart
    exact hpair.forall hca hcb hab

end

end Sheet

end PipelineLens
