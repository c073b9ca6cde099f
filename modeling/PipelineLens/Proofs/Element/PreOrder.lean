import PipelineLens.Proofs.Element.Lookup
import PipelineLens.Proofs.Unrepeated
/-!
# Elements in the order of their indices

The elements below an element take the indices right after it: in the order of its slots, and each
with all that is below it before the next. So what is above an index is seen from the sizes
(`mem_ancestors_iff_of_stands`), and along the slots of an element the indices rise (`Rising`),
which leaves one slot for every element but the document (`Linked.exists_slot`).
-/
namespace PipelineLens

namespace Outline

/-- The slots of the root. -/
def slots : Outline → List (Slot × Option Outline)
  | leaf .. => []
  | branch _ _ slots => slots

theorem size_eq (o : Outline) : o.size = sizes o.slots + 1 := by
  cases o <;> rfl

/-- Along the slots the indices rise. -/
theorem pairwise_slotsAt (base : Nat) (slots : List (Slot × Option Outline)) :
    ((slotsAt base slots).filterMap (·.2)).Pairwise (· < ·) := by
  fun_induction slotsAt base slots with
  | case1 => exact .nil
  | case2 _ _ _ ih => exact ih
  | case3 base _ o _ ih =>
    refine .cons (fun c hc => ?_) ih
    have hlater := mem_slotsAt hc
    have hpos := size_pos o
    omega

section
variable {es : List Element} {parent : Option Nat} {above base i : Nat}
  {slots : List (Slot × Option Outline)}

theorem Stands.le_length {o : Outline} (h : Stands es parent base o) :
    base + o.size ≤ es.length := by
  have hlength := List.IsPrefix.length_le h
  have hpos := size_pos o
  rw [length_place, List.length_drop] at hlength
  omega

/-- The element at the root of an outline, with its slots. -/
theorem Stands.root_slots {o : Outline} (h : Stands es parent base o) :
    ∃ e, es[base]? = some e ∧ e.slots = slotsAt (base + 1) o.slots ∧
      StandAll es base (base + 1) o.slots := by
  unfold Stands at h
  cases o with
  | leaf place value =>
    rw [Outline.place] at h
    exact ⟨_, SegmentAt.head h, rfl, SegmentAt.tail h⟩
  | branch kind place slots =>
    rw [Outline.place] at h
    exact ⟨_, SegmentAt.head h, rfl, SegmentAt.tail h⟩

/-- What stands in a slot takes some of the indices that the slots take together. -/
theorem StandAll.exists_outline (h : StandAll es above base slots) {c : Nat}
    (hc : c ∈ (slotsAt base slots).filterMap (·.2)) :
    ∃ x, Stands es (some above) c x ∧ base ≤ c ∧ c + x.size ≤ base + sizes slots := by
  induction slots generalizing base with
  | nil => cases hc
  | cons s rest ih =>
    obtain ⟨slot, none | o⟩ := s
    · rw [sizes]
      exact ih h.skip hc
    · rw [sizes]
      have hmem : c ∈ base :: (slotsAt (base + o.size) rest).filterMap (·.2) := hc
      rcases List.mem_cons.1 hmem with rfl | hc
      · exact ⟨o, h.head, Nat.le_refl _, by omega⟩
      · obtain ⟨x, hx, hle, hstop⟩ := ih h.tail hc
        exact ⟨x, hx, by omega, by omega⟩

/-- Of the indices that some slots take together each is taken by one of the slots. -/
theorem StandAll.exists_slot (h : StandAll es above base slots) (hle : base ≤ i)
    (hlt : i < base + sizes slots) :
    ∃ c x, c ∈ (slotsAt base slots).filterMap (·.2) ∧ Stands es (some above) c x ∧
      x.size ≤ sizes slots ∧ c ≤ i ∧ i < c + x.size := by
  induction slots generalizing base with
  | nil =>
    rw [sizes] at hlt
    omega
  | cons s rest ih =>
    obtain ⟨slot, none | o⟩ := s
    · rw [sizes] at hlt ⊢
      exact ih h.skip hle hlt
    · rw [sizes] at hlt ⊢
      by_cases hi : i < base + o.size
      · exact ⟨base, o, List.mem_cons_self, h.head, by omega, hle, hi⟩
      · obtain ⟨c, x, hc, hx, hsize, hci, hic⟩ := ih h.tail (by omega) (by omega)
        exact ⟨c, x, List.mem_cons_of_mem _ hc, hx, by omega, hci, hic⟩

/-- Slot by slot, what is told of the outlines can be told of the indices. -/
theorem StandAll.map_slots {β : Type} {f : Nat → Option β} {g : Outline → Option β}
    (hfg : ∀ c x, Stands es (some above) c x → f c = g x) (h : StandAll es above base slots) :
    (slotsAt base slots).map (fun s => (s.1, s.2.bind f))
      = slots.map fun s => (s.1, s.2.bind g) := by
  induction slots generalizing base with
  | nil => rfl
  | cons s rest ih =>
    obtain ⟨slot, none | o⟩ := s
    · rw [slotsAt, List.map_cons, List.map_cons, ih h.skip]
      rfl
    · rw [slotsAt, List.map_cons, List.map_cons, ih h.tail, Option.bind_some, Option.bind_some,
        hfg base o h.head]

/-- The outline in a field. -/
def field? (o : Outline) (name : String) : Option Outline :=
  o.slots.findSome? fun s => if s.1 = .field name then s.2 else none

/-- What an element has in a field stands there. -/
theorem StandAll.findSome?_slots (name : String) (h : StandAll es above base slots) :
    Option.Rel (Stands es (some above))
      ((slotsAt base slots).findSome? fun s => if s.1 = .field name then s.2 else none)
      (slots.findSome? fun s => if s.1 = .field name then s.2 else none) := by
  induction slots generalizing base with
  | nil => exact .none
  | cons s rest ih =>
    obtain ⟨slot, none | o⟩ := s
    · simp only [slotsAt, List.findSome?_cons, ite_self]
      exact ih h.skip
    · simp only [slotsAt, List.findSome?_cons]
      by_cases hslot : slot = .field name
      · simp only [hslot, if_true]
        exact .some h.head
      · simp only [hslot, if_false]
        exact ih h.tail

end

end Outline

namespace Sheet
open Outline

/-- Along the slots of every element the indices rise. -/
def Rising (s : Sheet) : Prop := ∀ id, (s.children id).Pairwise (· < ·)

section
variable {kind : ResourceKind} {o x : Outline} {above : Option Nat} {id : Nat}

theorem exists_slots_of_stands (kind : ResourceKind) (h : Stands (o.place none 0) above id x) :
    ∃ e, (ofOutline kind o).element? id = some e ∧ e.slots = slotsAt (id + 1) x.slots ∧
      StandAll (o.place none 0) id (id + 1) x.slots := by
  obtain ⟨e, he, hslots⟩ := h.root_slots
  exact ⟨e, by rw [element?_ofOutline, he], hslots⟩

theorem children_of_stands (kind : ResourceKind) (h : Stands (o.place none 0) above id x) :
    (ofOutline kind o).children id = (slotsAt (id + 1) x.slots).filterMap (·.2) := by
  obtain ⟨e, he, hslots, -⟩ := exists_slots_of_stands kind h
  rw [children_eq he, Element.children, hslots]

theorem rising_ofOutline (kind : ResourceKind) (ho : o.Every Branching) :
    (ofOutline kind o).Rising := by
  intro id
  cases he : (ofOutline kind o).element? id with
  | none =>
    rw [children, he]
    exact .nil
  | some e =>
    obtain ⟨above, x, hx, -, -⟩ := exists_part_ofOutline ho (lt_size_of_element? he)
    rw [children_of_stands kind hx]
    exact pairwise_slotsAt _ _

/-- What an element has in a field. -/
theorem field?_of_stands (kind : ResourceKind) (h : Stands (o.place none 0) above id x)
    (name : String) :
    Option.Rel (Stands (o.place none 0) (some id)) ((ofOutline kind o).field? id name)
      (x.field? name) := by
  obtain ⟨e, he, hslots, hall⟩ := exists_slots_of_stands kind h
  rw [field?, he, Option.bind_some, Element.field?, hslots]
  exact hall.findSome?_slots name

/-- **Pre-order.** The elements below an outline are those whose indices it takes. The induction is
on the size of the outline; what is below it is in one of its slots, or below what is there. -/
theorem mem_ancestors_iff_of_stands (hl : (ofOutline kind o).Linked)
    (h : Stands (o.place none 0) above id x) (j : Nat) :
    id ∈ (ofOutline kind o).ancestors j ↔ id ≤ j ∧ j < id + x.size := by
  induction hn : x.size using Nat.strongRecOn generalizing above id x with
  | ind n ih =>
    obtain ⟨e, he, -, hall⟩ := exists_slots_of_stands kind h
    have hsize : n = sizes x.slots + 1 := hn ▸ x.size_eq
    rw [mem_ancestors_iff]
    constructor
    · intro hup
      rcases hup.cases_tail with rfl | ⟨c, hjc, hc⟩
      · omega
      · have hmem := (hl.child id c).2 hc
        rw [children_of_stands kind h] at hmem
        obtain ⟨y, hy, hle, hstop⟩ := hall.exists_outline hmem
        have hj := (ih y.size (by omega) hy rfl).1 (mem_ancestors_iff.2 hjc)
        omega
    · rintro ⟨hle, hlt⟩
      rcases Nat.eq_or_lt_of_le hle with rfl | hlt'
      · exact .refl
      · obtain ⟨c, y, hmem, hy, hysize, hcj, hjc⟩ := hall.exists_slot hlt' (by omega)
        have hj := (ih y.size (by omega) hy rfl).2 ⟨hcj, hjc⟩
        rw [← children_of_stands kind h] at hmem
        exact (mem_ancestors_iff.1 hj).tail ((hl.child id c).1 hmem)

end

/-! ## The slot of an element -/

section
variable {s : Sheet} {id : Nat}

/-- Slot number `i` of an element has this name and holds `id`. -/
def Holds (s : Sheet) (above i : Nat) (slot : Slot) (id : Nat) : Prop :=
  ∃ e, s.element? above = some e ∧ e.slots[i]? = some (slot, some id)

theorem Holds.mem_children {above i : Nat} {slot : Slot} (h : s.Holds above i slot id) :
    id ∈ s.children above := by
  obtain ⟨e, he, hi⟩ := h
  rw [children_eq he]
  exact List.mem_filterMap.2 ⟨_, List.mem_of_getElem? hi, rfl⟩

/-- An element is in no two slots of another one. -/
theorem Rising.index_eq (hr : s.Rising) {above i j : Nat} {slot slot' : Slot}
    (hi : s.Holds above i slot id) (hj : s.Holds above j slot' id) : i = j := by
  obtain ⟨e, he, hi⟩ := hi
  obtain ⟨e', he', hj⟩ := hj
  obtain rfl : e = e' := Option.some.inj (he.symm.trans he')
  have hnodup : e.children.Nodup := (children_eq he ▸ hr above).imp Nat.ne_of_lt
  exact index_eq_of_nodup_filterMap hnodup hi hj rfl rfl

/-- Every element but the document is in one slot only, and `slot?` finds it. -/
theorem Linked.exists_slot (hl : s.Linked) (hr : s.Rising) (hid : id < s.size) (hne : id ≠ root) :
    ∃ p i slot, p < id ∧ s.parent? id = some p ∧ s.Holds p i slot id ∧ s.slot? id = some slot ∧
      ∀ q j slot', s.Holds q j slot' id → q = p ∧ j = i := by
  obtain ⟨p, hp⟩ : ∃ p, s.parent? id = some p := by
    cases hp : s.parent? id with
    | none => exact absurd (hl.rooted id hid hp) hne
    | some p => exact ⟨p, rfl⟩
  obtain ⟨e, he, hmem⟩ := exists_element_of_mem_children ((hl.child p id).2 hp)
  -- the first slot that holds the element is the one that `slot?` gives
  obtain ⟨⟨slot, c⟩, hfind⟩ :
      ∃ entry, e.slots.find? (fun entry => entry.2 = some id) = some entry := by
    obtain ⟨entry, hentry, hc⟩ := List.mem_filterMap.1 hmem
    exact Option.isSome_iff_exists.1 (List.find?_isSome.2 ⟨entry, hentry, by simpa using hc⟩)
  obtain rfl : c = some id := by simpa using List.find?_some hfind
  obtain ⟨i, hi⟩ := List.mem_iff_getElem?.1 (List.mem_of_find?_eq_some hfind)
  have hholds : s.Holds p i slot id := ⟨e, he, hi⟩
  refine ⟨p, i, slot, parent?_lt hp, hp, hholds, ?_, ?_⟩
  · unfold slot?
    simp [hp, he, hfind]
  · intro q j slot' hj
    have hq := (hl.child q id).1 hj.mem_children
    obtain rfl : q = p := Option.some.inj (hq.symm.trans hp)
    exact ⟨rfl, hr.index_eq hj hholds⟩

end

end Sheet

end PipelineLens
