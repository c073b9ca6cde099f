import PipelineLens.Proofs.Element.PreOrder
/-!
# Outlines from the first element to the last

`listing` has the outline and all parts of it in pre-order, each with the kind of what it is in. A
sheet has its elements in this order (`forall₂_listing`), so the elements of one kind are the parts
of this kind (`Sheet.forall₂_ofKind`), and what an outline has no part of the sheet has no element
of (`Every.partsOf_eq_nil`).
-/
namespace PipelineLens

namespace Outline

mutual

/-- The outline and all parts of it, each after the kind that it is in. -/
def listing (above : Option ElementKind) : Outline → List (Option ElementKind × Outline)
  | leaf place value => [(above, leaf place value)]
  | branch kind place slots => (above, branch kind place slots) :: listingAll kind slots

/-- What is in the slots of an element of kind `above`. -/
def listingAll (above : ElementKind) :
    List (Slot × Option Outline) → List (Option ElementKind × Outline)
  | [] => []
  | (_, none) :: rest => listingAll above rest
  | (_, some o) :: rest => listing (some above) o ++ listingAll above rest

end

/-- The parts of a kind, each after the kind that it is in. -/
def partsOf (kind : ElementKind) (above : Option ElementKind) (o : Outline) :
    List (Option ElementKind × Outline) :=
  (listing above o).filter fun part => part.2.rootKind = kind

theorem listingAll_eq (above : ElementKind) (slots : List (Slot × Option Outline)) :
    listingAll above slots = (contents slots).flatMap (listing (some above)) := by
  induction slots with
  | nil => rfl
  | cons s rest ih =>
    obtain ⟨slot, none | o⟩ := s
    · exact ih
    · rw [listingAll, ih]
      rfl

section
variable {k kind : ElementKind} {above : Option ElementKind} {place : Place}
  {slots : List (Slot × Option Outline)}

theorem partsOf_branch (k kind : ElementKind) (above : Option ElementKind) (place : Place)
    (slots : List (Slot × Option Outline)) :
    partsOf k above (.branch kind place slots)
      = (if kind = k then [(above, .branch kind place slots)] else [])
        ++ (contents slots).flatMap (partsOf k (some kind)) := by
  have hbelow : ((listingAll kind slots).filter fun part => part.2.rootKind = k)
      = (contents slots).flatMap (partsOf k (some kind)) := by
    rw [listingAll_eq, List.filter_flatMap]
    rfl
  rw [partsOf, listing, List.filter_cons, hbelow]
  by_cases hk : kind = k <;> simp [rootKind, hk]

theorem partsOf_leaf (hk : k ≠ .value) (above : Option ElementKind) (place : Place)
    (value : Option ElementValue) : partsOf k above (.leaf place value) = [] := by
  simp [partsOf, listing, rootKind, hk.symm]

/-- An outline without branches of a kind has no parts of this kind. -/
theorem Every.partsOf_eq_nil {o : Outline} (h : o.Every fun kind _ _ => kind ≠ k)
    (hk : k ≠ .value) (above : Option ElementKind) : partsOf k above o = [] := by
  induction h generalizing above with
  | leaf place value => exact partsOf_leaf hk above place value
  | branch hroot _ ih =>
    rw [partsOf_branch, if_neg hroot, List.nil_append, List.flatMap_eq_nil_iff]
    exact fun x hx => ih x hx _

end

/-! ## The elements of a sheet -/

/-- The part stands in `es` at the index `id`, below an element of the kind before it. -/
def ListedAt (es : List Element) (id : Nat) (part : Option ElementKind × Outline) : Prop :=
  ∃ parent, Stands es parent id part.2 ∧
    (parent.bind fun p => (es[p]?).map (·.kind)) = part.1

section
variable {es : List Element}

mutual

theorem Stands.forall₂_listing {parent : Option Nat} {base : Nat} {above : Option ElementKind}
    (habove : (parent.bind fun p => (es[p]?).map (·.kind)) = above) :
    (o : Outline) → Stands es parent base o →
      List.Forall₂ (ListedAt es) (List.range' base o.size) (listing above o)
  | leaf _ _, h => .cons ⟨parent, h, habove⟩ .nil
  | branch kind place slots, h => by
    have hplace := h
    unfold Stands at hplace
    rw [Outline.place] at hplace
    rw [size, listing, List.range'_succ]
    refine .cons ⟨parent, h, habove⟩ (StandAll.forall₂_listing ?_ slots (SegmentAt.tail hplace))
    rw [SegmentAt.head hplace, Option.map_some]

theorem StandAll.forall₂_listing {p base : Nat} {above : ElementKind}
    (habove : (es[p]?).map (·.kind) = some above) :
    (slots : List (Slot × Option Outline)) → StandAll es p base slots →
      List.Forall₂ (ListedAt es) (List.range' base (sizes slots)) (listingAll above slots)
  | [], _ => .nil
  | (_, none) :: rest, h => StandAll.forall₂_listing habove rest h.skip
  | (_, some o) :: rest, h => by
    have hsome : ((some p).bind fun q => (es[q]?).map (·.kind)) = some above := habove
    rw [sizes, listingAll, ← List.range'_append_1]
    exact List.rel_append (Stands.forall₂_listing hsome o h.head)
      (StandAll.forall₂_listing habove rest h.tail)

end

end

end Outline

namespace Sheet
open Outline

/-- The elements of a kind are the parts of this kind, in the same order. -/
theorem forall₂_ofKind (kind : ResourceKind) (o : Outline) (k : ElementKind) :
    List.Forall₂ (ListedAt (o.place none 0)) ((ofOutline kind o).ofKind k) (partsOf k none o) := by
  have hself : Stands (o.place none 0) none 0 o := segmentAt_self _
  have hall : List.Forall₂ (ListedAt (o.place none 0)) (List.range' 0 o.size) (listing none o) :=
    Stands.forall₂_listing rfl o hself
  rw [ofKind, size_ofOutline, List.range_eq_range', partsOf]
  refine List.rel_filter ?_ hall
  rintro id part ⟨parent, hstands, -⟩
  simp [kindOf?_of_stands hstands]

end Sheet

end PipelineLens
