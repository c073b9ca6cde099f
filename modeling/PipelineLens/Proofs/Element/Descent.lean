import Mathlib.Logic.Relation
import PipelineLens.Proofs.Element.Placement
/-!
# Up and down in a sheet

From an element the way up leads to the document (`mem_ancestors_iff`). The lookup of an offset goes
down, always to the first element below that contains the offset (`Descends`). So it has tested all
that it passes, and since the indices grow on the way it comes to an end. Where it ends is told by
the steps alone (`Linked.findFrom?_eq_some_iff`), and nowhere does it matter how the ranges of the
elements lie.
-/
namespace PipelineLens

namespace Sheet
open Relation (ReflTransGen)

variable {s : Sheet} {id pos c r : Nat}

/-! ## Above an element -/

theorem ancestors_of_none (h : s.parent? id = none) : s.ancestors id = [id] := by
  rw [ancestors]
  split
  · rfl
  · rename_i e he
    rw [parent?_eq he] at h
    split
    · rfl
    · rename_i p hp
      rw [hp] at h
      cases h

theorem ancestors_of_some {p : Nat} (h : s.parent? id = some p) :
    s.ancestors id = id :: s.ancestors p := by
  obtain ⟨e, he⟩ := element?_of_parent? h
  rw [ancestors]
  split
  · rename_i hn
    rw [he] at hn
    cases hn
  · rename_i e' he'
    rw [parent?_eq he'] at h
    split
    · rename_i hp
      rw [hp] at h
      cases h
    · rename_i q hp
      rw [Option.some.inj (hp.symm.trans h)]

/-- Nothing stands above the document. -/
theorem ancestors_root (s : Sheet) : s.ancestors root = [root] := by
  cases hp : s.parent? root with
  | none => exact ancestors_of_none hp
  | some p => exact absurd (parent?_lt hp) (Nat.not_lt_zero p)

/-- An element is above another when the way up leads to it. -/
theorem mem_ancestors_iff {x : Nat} :
    x ∈ s.ancestors id ↔ Relation.ReflTransGen (fun a b => s.parent? a = some b) id x := by
  induction id using Nat.strongRecOn with
  | ind id ih =>
    rw [Relation.ReflTransGen.cases_head_iff]
    cases hp : s.parent? id with
    | none =>
      rw [ancestors_of_none hp]
      simp [eq_comm]
    | some p =>
      rw [ancestors_of_some hp, List.mem_cons, ih p (parent?_lt hp)]
      simp [eq_comm]

/-- The document is above every element. -/
theorem Linked.root_mem_ancestors (hl : s.Linked) (hid : id < s.size) : root ∈ s.ancestors id := by
  induction id using Nat.strongRecOn with
  | ind id ih =>
    cases hp : s.parent? id with
    | none =>
      rw [ancestors_of_none hp, hl.rooted id hid hp]
      exact List.mem_cons_self
    | some p =>
      have hlt : p < id := parent?_lt hp
      rw [ancestors_of_some hp]
      exact List.mem_cons_of_mem _ (ih p hlt (Nat.lt_trans hlt hid))

/-! ## The lookup from an element -/

theorem exists_element_of_contains (h : s.contains id pos = true) :
    ∃ e, s.element? id = some e ∧ e.contains pos = true := by
  unfold contains at h
  cases he : s.element? id with
  | none => simp [he] at h
  | some e => exact ⟨e, rfl, by simpa [he] using h⟩

theorem lt_size_of_contains (h : s.contains id pos = true) : id < s.size := by
  obtain ⟨e, he, -⟩ := exists_element_of_contains h
  exact lt_size_of_element? he

theorem findFrom?_of_not_contains (h : s.contains id pos = false) : s.findFrom? id pos = none := by
  rw [findFrom?]
  split
  · rfl
  · rename_i e he
    have hpos : e.contains pos = false := by simpa [contains, he] using h
    rw [hpos]
    rfl

theorem findFrom?_of_element? {e : Element} (he : s.element? id = some e)
    (hpos : e.contains pos = true) :
    s.findFrom? id pos =
      if e.kind.isLeaf then some id
      else match e.children.find? fun c => s.contains c pos with
        | none => some id
        | some c =>
          if s.kindOf? c = some .value then some c else some ((s.findFrom? c pos).getD c) := by
  rw [findFrom?]
  split
  · rename_i hn
    rw [he] at hn
    cases hn
  · rename_i e' he'
    obtain rfl : e = e' := Option.some.inj (he.symm.trans he')
    rw [hpos]
    simp only [Bool.not_true, Bool.false_eq_true, if_false]
    split
    · rfl
    · split <;> rename_i hc <;> rw [hc]

theorem isSome_findFrom? (h : s.contains id pos = true) : (s.findFrom? id pos).isSome = true := by
  obtain ⟨e, he, hpos⟩ := exists_element_of_contains h
  rw [findFrom?_of_element? he hpos]
  split
  · rfl
  · split
    · rfl
    · split <;> rfl

/-- A value is found wherever it stands. -/
theorem findFrom?_value (hk : s.kindOf? id = some .value) (h : s.contains id pos = true) :
    s.findFrom? id pos = some id := by
  obtain ⟨e, he, hpos⟩ := exists_element_of_contains h
  have hkind : e.kind = .value := by simpa [kindOf?, he] using hk
  rw [findFrom?_of_element? he hpos, hkind]
  rfl

/-- The lookup goes on from the first element below that contains the offset. -/
theorem Linked.findFrom?_eq (hl : s.Linked) (h : s.contains id pos = true) :
    s.findFrom? id pos =
      match (s.children id).find? fun c => s.contains c pos with
      | none => some id
      | some c => s.findFrom? c pos := by
  obtain ⟨e, he, hpos⟩ := exists_element_of_contains h
  by_cases hk : s.kindOf? id = some .value
  · rw [findFrom?_value hk h, hl.leaf id hk]
    rfl
  · have hleaf : e.kind.isLeaf = false := by
      have : e.kind ≠ .value := by simpa [kindOf?, he] using hk
      cases hkind : e.kind <;> simp_all [ElementKind.isLeaf]
    rw [findFrom?_of_element? he hpos, hleaf, children_eq he]
    simp only [Bool.false_eq_true, if_false]
    cases hf : e.children.find? fun c => s.contains c pos with
    | none => rfl
    | some c =>
      have hc : s.contains c pos = true := by simpa using List.find?_some hf
      obtain ⟨r, hr⟩ := Option.isSome_iff_exists.1 (isSome_findFrom? hc)
      simp only [hr, Option.getD_some]
      split
      · rename_i hv
        rw [← hr, findFrom?_value hv hc]
      · rfl

/-! ## One step down -/

/-- At the offset the lookup goes on from an element to one below it, the first that contains the
offset. -/
def Descends (s : Sheet) (pos id c : Nat) : Prop :=
  s.contains id pos = true ∧ (s.children id).find? (fun x => s.contains x pos) = some c

instance (s : Sheet) (pos id c : Nat) : Decidable (s.Descends pos id c) :=
  inferInstanceAs (Decidable (_ ∧ _))

/-- No element right below this one contains the offset. -/
def Bottom (s : Sheet) (pos id : Nat) : Prop := ∀ c ∈ s.children id, s.contains c pos = false

instance (s : Sheet) (pos id : Nat) : Decidable (s.Bottom pos id) :=
  inferInstanceAs (Decidable (∀ c ∈ s.children id, s.contains c pos = false))

theorem find?_children_eq_none_iff :
    ((s.children id).find? fun x => s.contains x pos) = none ↔ s.Bottom pos id := by
  simp [Bottom]

namespace Descends
variable (h : s.Descends pos id c)
include h

theorem mem_children : c ∈ s.children id := List.mem_of_find?_eq_some h.2

theorem contains : s.contains c pos = true :=
  List.find?_some (p := fun x => s.contains x pos) h.2

theorem lt : id < c ∧ c < s.size := by
  obtain ⟨e, he, hmem⟩ := exists_element_of_mem_children h.mem_children
  exact of_mem_children he hmem

theorem ancestors (hl : s.Linked) : s.ancestors c = c :: s.ancestors id :=
  ancestors_of_some ((hl.child id c).1 h.mem_children)

/-- The lookup from an element gives what the lookup from the next one gives. -/
theorem findFrom?_eq (hl : s.Linked) : s.findFrom? id pos = s.findFrom? c pos := by
  rw [hl.findFrom?_eq h.1, h.2]

end Descends

/-- The lookup from an element that contains the offset stops there or goes on. -/
theorem bottom_or_descends (h : s.contains id pos = true) :
    s.Bottom pos id ∨ ∃ c, s.Descends pos id c := by
  cases hf : (s.children id).find? fun x => s.contains x pos with
  | none => exact .inl (find?_children_eq_none_iff.1 hf)
  | some c => exact .inr ⟨c, h, hf⟩

theorem Linked.findFrom?_bottom (hl : s.Linked) (h : s.contains id pos = true)
    (hb : s.Bottom pos id) : s.findFrom? id pos = some id := by
  rw [hl.findFrom?_eq h, find?_children_eq_none_iff.2 hb]

/-! ## All the way down -/

/-- The steps come to an end: the indices grow and stay below the size. -/
theorem wellFounded_descends (s : Sheet) (pos : Nat) :
    WellFounded fun c id => s.Descends pos id c := by
  refine Subrelation.wf ?_ (measure fun id => s.size - id).wf
  intro c id h
  have hlt := h.lt
  show s.size - c < s.size - id
  omega

theorem exists_bottom (h : s.contains id pos = true) :
    ∃ r, ReflTransGen (s.Descends pos) id r ∧ s.Bottom pos r := by
  induction id using (wellFounded_descends s pos).induction with
  | _ id ih =>
    obtain hb | ⟨c, hc⟩ := bottom_or_descends h
    · exact ⟨id, .refl, hb⟩
    · obtain ⟨r, hsteps, hb⟩ := ih c hc hc.contains
      exact ⟨r, .head hc hsteps, hb⟩

theorem contains_of_steps (hsteps : ReflTransGen (s.Descends pos) id r)
    (h : s.contains id pos = true) : s.contains r pos = true := by
  obtain rfl | ⟨_, -, hstep⟩ := hsteps.cases_tail
  · exact h
  · exact hstep.contains

/-- All that stands above an element contains the offset, when this is so where the steps to the
element start. -/
theorem Linked.contains_ancestors (hl : s.Linked) (hsteps : ReflTransGen (s.Descends pos) id r)
    (hid : ∀ a ∈ s.ancestors id, s.contains a pos = true) :
    ∀ a ∈ s.ancestors r, s.contains a pos = true := by
  induction hsteps with
  | refl => exact hid
  | tail _ hstep ih =>
    rw [hstep.ancestors hl]
    exact List.forall_mem_cons.2 ⟨hstep.contains, ih⟩

/-- The lookup gives the same all along the steps. -/
theorem Linked.findFrom?_steps (hl : s.Linked) (hsteps : ReflTransGen (s.Descends pos) id r) :
    s.findFrom? id pos = s.findFrom? r pos := by
  induction hsteps with
  | refl => rfl
  | tail _ hstep ih => rw [ih, hstep.findFrom?_eq hl]

/-- From an element that contains the offset the lookup finds what the steps lead to. -/
theorem Linked.findFrom?_eq_some_iff (hl : s.Linked) (h : s.contains id pos = true) :
    s.findFrom? id pos = some r ↔ ReflTransGen (s.Descends pos) id r ∧ s.Bottom pos r := by
  have hfound : ∀ {x}, ReflTransGen (s.Descends pos) id x → s.Bottom pos x →
      s.findFrom? id pos = some x := by
    intro x hsteps hb
    rw [hl.findFrom?_steps hsteps, hl.findFrom?_bottom (contains_of_steps hsteps h) hb]
  constructor
  · intro hr
    obtain ⟨x, hsteps, hb⟩ := exists_bottom h
    obtain rfl : x = r := Option.some.inj ((hfound hsteps hb).symm.trans hr)
    exact ⟨hsteps, hb⟩
  · exact fun ⟨hsteps, hb⟩ => hfound hsteps hb

/-- The lookup ends at an element with nothing below it at the offset. -/
theorem Linked.findFrom?_spec (hl : s.Linked) (h : s.contains id pos = true) :
    ∃ r, s.findFrom? id pos = some r ∧ s.contains r pos = true ∧ s.Bottom pos r := by
  obtain ⟨r, hsteps, hb⟩ := exists_bottom h
  exact ⟨r, (hl.findFrom?_eq_some_iff h).2 ⟨hsteps, hb⟩, contains_of_steps hsteps h, hb⟩

theorem Linked.find?_eq_none_iff (hl : s.Linked) :
    s.find? pos = none ↔ s.contains root pos = false := by
  constructor
  · intro hn
    by_contra h
    obtain ⟨r, hr, -⟩ := hl.findFrom?_spec (Bool.of_not_eq_false h)
    rw [find?, hr] at hn
    cases hn
  · exact findFrom?_of_not_contains

end Sheet

end PipelineLens
