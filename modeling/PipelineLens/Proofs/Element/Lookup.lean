import PipelineLens.Proofs.Element.Descent
import PipelineLens.Proofs.Resource
import PipelineLens.Tree.Layout
/-!
# The innermost element at an offset

`find?` goes down from the document, without ever turning back, to an element with nothing below it
at the offset. In a well-nested sheet that element is the only one of its kind: every element that
contains the offset is above it (`Nested.mem_ancestors`), since on the way up from any other one the
two paths would meet in neighbours that both contain the offset. So the lookup is exact for the
sheet of every well-nested document (`Document.find?_innermost`). Nothing makes the ranges of a
parse tree nest, though. In any document what is found, and all above it, contains the offset
(`Document.find?_sound`).
-/
namespace PipelineLens

namespace Sheet

variable {s : Sheet} {id pos : Nat}

/-! ## Well-nested sheets -/

theorem contains_eq (s : Sheet) (id pos : Nat) :
    s.contains id pos = (s.rangeOf id).contains pos := by
  cases he : s.element? id with
  | none => simp [contains, rangeOf, he, Range.contains]
  | some e => simp [contains, rangeOf, he, Range.contains, Element.contains, Place.range]

namespace Nested
variable (hn : s.Nested)
include hn

theorem contains_parent {p : Nat} (hp : s.parent? id = some p) (h : s.contains id pos = true) :
    s.contains p pos = true := by
  rw [contains_eq] at h ⊢
  exact (hn.within hp).contains h

theorem contains_of_mem_ancestors {x : Nat} (hx : x ∈ s.ancestors id)
    (h : s.contains id pos = true) : s.contains x pos = true := by
  rw [mem_ancestors_iff] at hx
  induction hx with
  | refl => exact h
  | tail _ hp ih => exact hn.contains_parent hp ih

/-- Two elements below the same one that both contain an offset are the same. -/
theorem eq_of_contains {a b p : Nat} (ha : s.parent? a = some p) (hb : s.parent? b = some p)
    (hca : s.contains a pos = true) (hcb : s.contains b pos = true) : a = b := by
  by_contra hab
  rw [contains_eq] at hca hcb
  exact hn.apart ha hb hab pos ⟨hca, hcb⟩

/-- What contains the offset is above an element that has nothing below it there. The induction
goes down to `x`: the element above `x` is above `r`, and the way from `r` to it passes `x`. -/
theorem mem_ancestors (hl : s.Linked) {r : Nat} (hr : s.contains r pos = true)
    (hbelow : s.Bottom pos r) {x : Nat}
    (hx : s.contains x pos = true) : x ∈ s.ancestors r := by
  induction x using Nat.strongRecOn with
  | ind x ih =>
    cases hp : s.parent? x with
    | none =>
      rw [hl.rooted x (lt_size_of_contains hx) hp]
      exact hl.root_mem_ancestors (lt_size_of_contains hr)
    | some p =>
      have hmem := ih p (parent?_lt hp) (hn.contains_parent hp hx)
      rw [mem_ancestors_iff] at hmem
      rcases hmem.cases_tail with rfl | ⟨y, hry, hyp⟩
      · -- `x` would be below `r`
        rw [hbelow x ((hl.child p x).2 hp)] at hx
        cases hx
      · rw [← mem_ancestors_iff] at hry
        rwa [hn.eq_of_contains hp hyp hx (hn.contains_of_mem_ancestors hry hr)]

theorem find?_spec (hl : s.Linked) (h : s.find? pos = some id) :
    s.contains id pos = true ∧ ∀ x, s.contains x pos = true → x ∈ s.ancestors id := by
  have hroot : s.contains root pos = true := by
    by_contra hout
    rw [hl.find?_eq_none_iff.2 (Bool.eq_false_iff.2 hout)] at h
    cases h
  obtain ⟨r, hr, hc, hbelow⟩ := hl.findFrom?_spec hroot
  obtain rfl : r = id := Option.some.inj (hr.symm.trans h)
  exact ⟨hc, fun x hx => hn.mem_ancestors hl hc hbelow hx⟩

/-- A value is found at each of its offsets, since it is above nothing but itself. -/
theorem find?_value (hl : s.Linked) (hk : s.kindOf? id = some .value)
    (h : s.contains id pos = true) : s.find? pos = some id := by
  have hroot : s.contains root pos = true :=
    hn.contains_of_mem_ancestors (hl.root_mem_ancestors (lt_size_of_contains h)) h
  obtain ⟨r, hr, hc, hbelow⟩ := hl.findFrom?_spec hroot
  have hmem := hn.mem_ancestors hl hc hbelow h
  rw [mem_ancestors_iff] at hmem
  rcases hmem.cases_tail with rfl | ⟨y, -, hy⟩
  · exact hr
  · have hchild : y ∈ s.children id := (hl.child id y).2 hy
    rw [hl.leaf id hk] at hchild
    cases hchild

end Nested

end Sheet

/-! ## Documents -/

namespace Document
open Outline
open Relation (ReflTransGen)

/-- The elements of a document whose root is read as `shape`. -/
def outline (d : Document) (t : Tree) (shape : Shape) (id : Nat) : Outline :=
  .branch .document ⟨d.start, d.stop, none, none⟩ [(.field "body", some (t.outline shape id))]

variable {d : Document} {t : Tree} {s : Sheet}

/-- A top-level node with a Tekton kind is a mapping, so the document has a root. -/
theorem exists_root_of_kind? {kind : ResourceKind} (h : d.kind? t = some kind) :
    ∃ root, d.root? t = some root := by
  obtain ⟨resource, -, -, hroot, -⟩ := exists_resource h
  exact ⟨_, hroot⟩

/-- The sheet of a pipeline or a pipeline run is that of one outline, with the root of the document
read by a table. -/
theorem exists_sheet (h : d.kind? t = some .pipeline ∨ d.kind? t = some .pipelineRun) :
    ∃ kind root shape, d.root? t = some root ∧ shape.Proper ∧
      d.sheet? t = some (.ofOutline kind (d.outline t shape root)) := by
  rcases h with h | h
  · obtain ⟨root, hroot⟩ := exists_root_of_kind? h
    exact ⟨.pipeline, root, .map .pipeline, hroot, rfl,
      by simp [sheet?, h, bodyKind?, hroot, outline]⟩
  · obtain ⟨root, hroot⟩ := exists_root_of_kind? h
    exact ⟨.pipelineRun, root, .map .pipelineRun, hroot, rfl,
      by simp [sheet?, h, bodyKind?, hroot, outline]⟩

/-- A sheet is that of one outline, of the root of the document by the table of its kind. -/
theorem exists_outline_of_sheet? (h : d.sheet? t = some s) :
    ∃ kind body node, bodyKind? kind = some body ∧ d.kind? t = some kind ∧
      d.root? t = some node ∧ s = .ofOutline kind (d.outline t (.map body) node) := by
  unfold sheet? at h
  obtain ⟨kind, hkind, h⟩ := Option.bind_eq_some_iff.1 h
  obtain ⟨body, hbody, h⟩ := Option.bind_eq_some_iff.1 h
  obtain ⟨node, hnode, h⟩ := Option.bind_eq_some_iff.1 h
  exact ⟨kind, body, node, hbody, hkind, hnode, (Option.some.inj h).symm⟩

theorem branching_outline (d : Document) (t : Tree) {shape : Shape} (hs : shape.Proper) (id : Nat) :
    (d.outline t shape id).Every Branching := by
  refine .branch rfl ?_
  intro o ho
  obtain rfl : o = t.outline shape id := by simpa [contents] using ho
  exact t.branching_outline id hs

theorem fits_outline (hn : t.Nested) {shape : Shape} (hs : shape.Proper) {id : Nat}
    (hid : (t.rangeOf id).Within d.range) : (d.outline t shape id).Every Fits := by
  refine .branch ⟨?_, List.pairwise_singleton _ _⟩ ?_
  all_goals
    intro o ho
    obtain rfl : o = t.outline shape id := by simpa [contents] using ho
  · rwa [Tree.range_outline]
  · exact hn.fits_outline id hs

theorem contains_root (d : Document) (t : Tree) (kind : ResourceKind) (shape : Shape)
    (id pos : Nat) :
    (Sheet.ofOutline kind (d.outline t shape id)).contains Sheet.root pos = d.contains pos := by
  simp [Sheet.contains, Sheet.element?_ofOutline, outline, Outline.place, Sheet.root,
    Element.contains, Document.contains]

/-- **The lookup is exact.** In the sheet of a well-nested document the elements are well nested.
Nothing is found outside the document; at any other offset the element found contains it, and every
element that contains it is the one found or above it, so that a value is found at each of its
offsets. -/
theorem find?_innermost (hn : t.Nested)
    (hroot : ∀ root, d.root? t = some root → (t.rangeOf root).Within d.range)
    (hkind : d.kind? t = some .pipeline ∨ d.kind? t = some .pipelineRun) :
    ∃ s, d.sheet? t = some s ∧ s.Linked ∧ s.Nested ∧ ∀ pos,
      (s.find? pos = none ↔ d.contains pos = false) ∧
      (∀ id, s.find? pos = some id → s.contains id pos = true ∧
        ∀ x, s.contains x pos = true → x ∈ s.ancestors id) ∧
      ∀ id, s.kindOf? id = some .value → s.contains id pos = true → s.find? pos = some id := by
  obtain ⟨kind, root, shape, hr, hs, hsheet⟩ := exists_sheet hkind
  have hl : (Sheet.ofOutline kind (d.outline t shape root)).Linked :=
    Sheet.linked_ofOutline kind (branching_outline d t hs root)
  have hnest : (Sheet.ofOutline kind (d.outline t shape root)).Nested :=
    Sheet.nested_ofOutline kind hl (fits_outline hn hs (hroot root hr))
  refine ⟨_, hsheet, hl, hnest, fun pos => ⟨?_, ?_, ?_⟩⟩
  · rw [hl.find?_eq_none_iff, contains_root]
  · exact fun id hid => hnest.find?_spec hl hid
  · exact fun id hk hc => hnest.find?_value hl hk hc

/-- A pair whose key starts where the pair does. -/
def nestedField (start stop : Nat) (key : String) (value : Layout) : Layout :=
  .pair start stop (.scalar key start (start + key.length)) value

/-- A pipeline with one task, which runs after two others. -/
def nestedPipeline : Layout :=
  .mapping "" 0 92 [
    nestedField 0 14 "kind" (.scalar "Pipeline" 6 14),
    nestedField 15 40 "apiVersion" (.scalar "tekton.dev/v1" 27 40),
    nestedField 41 92 "spec" (.mapping "" 49 92 [
      nestedField 49 92 "tasks" (.sequence "" 58 92 [
        .mapping "" 60 92 [
          nestedField 60 71 "name" (.scalar "build" 66 71),
          nestedField 76 92 "runAfter" (.sequence "" 86 92 [
            .scalar "a" 87 88, .scalar "b" 90 91])]])])]

def nestedDocument : Document := ⟨Layout.rootsAt 0 [nestedPipeline], [], 0, 93⟩

theorem find?_nestedDocument :
    (Tree.ofLayouts [nestedPipeline]).Nested ∧
    (∀ root, nestedDocument.root? (.ofLayouts [nestedPipeline]) = some root →
      ((Tree.ofLayouts [nestedPipeline]).rangeOf root).Within nestedDocument.range) ∧
    nestedDocument.kind? (.ofLayouts [nestedPipeline]) = some .pipeline ∧
    ∃ s, nestedDocument.sheet? (.ofLayouts [nestedPipeline]) = some s ∧ s.Nested ∧
      s.find? 90 = some 10 ∧ s.ancestors 10 = [10, 8, 6, 5, 4, 1, 0] ∧ s.find? 93 = none := by
  have hn : (Tree.ofLayouts [nestedPipeline]).Nested := by decide +kernel
  have hroot : ∀ root, nestedDocument.root? (.ofLayouts [nestedPipeline]) = some root →
      ((Tree.ofLayouts [nestedPipeline]).rangeOf root).Within nestedDocument.range := by
    intro root h
    obtain rfl : nestedPipeline.rootAt 0 = root :=
      Option.some.inj ((by decide +kernel : some (nestedPipeline.rootAt 0)
        = nestedDocument.root? (.ofLayouts [nestedPipeline])).trans h)
    decide +kernel
  have hkind : nestedDocument.kind? (.ofLayouts [nestedPipeline]) = some .pipeline := by
    decide +kernel
  obtain ⟨s, hs, -, hnest, hfind⟩ := find?_innermost hn hroot (.inl hkind)
  have hvalue : (nestedDocument.sheet? (.ofLayouts [nestedPipeline])).map
      (fun s => (s.kindOf? 10, s.contains 10 90, s.ancestors 10))
        = some (some .value, true, [10, 8, 6, 5, 4, 1, 0]) := by
    decide +kernel
  rw [hs, Option.map_some, Option.some.injEq, Prod.mk.injEq, Prod.mk.injEq] at hvalue
  obtain ⟨hk, hc, habove⟩ := hvalue
  exact ⟨hn, hroot, hkind, s, hs, hnest, (hfind 90).2.2 10 hk hc, habove,
    (hfind 93).1.2 (by decide +kernel)⟩

/-! ## Ranges that need not nest -/

theorem proper_bodyKind? {kind : ResourceKind} {body : ElementKind}
    (h : bodyKind? kind = some body) : (Shape.map body).Proper := by
  cases kind <;> simp [bodyKind?] at h <;> subst h <;> rfl

theorem linked_of_sheet? (h : d.sheet? t = some s) : s.Linked := by
  obtain ⟨kind, body, node, hbody, -, -, rfl⟩ := exists_outline_of_sheet? h
  exact Sheet.linked_ofOutline kind (branching_outline d t (proper_bodyKind? hbody) node)

theorem contains_root_of_sheet? (h : d.sheet? t = some s) (pos : Nat) :
    s.contains Sheet.root pos = d.contains pos := by
  obtain ⟨kind, body, node, -, -, -, rfl⟩ := exists_outline_of_sheet? h
  exact contains_root d t kind _ node pos

/-- **The lookup is sound whatever the ranges are.** It finds nothing just where the document does
not contain the offset. Elsewhere it finds the element to which the steps from the document lead,
with no element below it at the offset; this element and all above it contain the offset. The steps
come to an end on every way, and an element that one of them leads to is never searched in vain. -/
theorem find?_sound (h : d.sheet? t = some s) (pos : Nat) :
    (s.find? pos = none ↔ d.contains pos = false) ∧
    (∀ id, s.find? pos = some id ↔ d.contains pos = true ∧
      ReflTransGen (s.Descends pos) Sheet.root id ∧ s.Bottom pos id) ∧
    (∀ id, s.find? pos = some id → ∀ a ∈ s.ancestors id, s.contains a pos = true) ∧
    (WellFounded fun c id => s.Descends pos id c) ∧
    ∀ id c, s.Descends pos id c →
      ∃ r, s.findFrom? c pos = some r ∧ s.findFrom? id pos = some r := by
  have hl := linked_of_sheet? h
  have hroot := contains_root_of_sheet? h pos
  have hnone : s.find? pos = none ↔ d.contains pos = false := by rw [hl.find?_eq_none_iff, hroot]
  have hsome : ∀ id, s.find? pos = some id ↔ d.contains pos = true ∧
      ReflTransGen (s.Descends pos) Sheet.root id ∧ s.Bottom pos id := by
    intro id
    cases hpos : d.contains pos with
    | false => simp [hnone.2 hpos]
    | true => simpa [Sheet.find?] using hl.findFrom?_eq_some_iff (hroot.trans hpos)
  refine ⟨hnone, hsome, ?_, Sheet.wellFounded_descends s pos, ?_⟩
  · intro id hid
    obtain ⟨hpos, hsteps, -⟩ := (hsome id).1 hid
    refine hl.contains_ancestors hsteps ?_
    rw [Sheet.ancestors_root]
    exact List.forall_mem_singleton.2 (hroot.trans hpos)
  · intro id c hc
    obtain ⟨r, hr⟩ := Option.isSome_iff_exists.1 (Sheet.isSome_findFrom? hc.contains)
    exact ⟨r, hr, (hc.findFrom?_eq hl).trans hr⟩

/-- A pipeline whose parts leave each other: its kind and its API version share offsets, and its
metadata are outside of it. -/
def scatteredPipeline : Layout :=
  .mapping "" 4 10 [
    nestedField 4 8 "kind" (.scalar "Pipeline" 6 20),
    nestedField 4 9 "apiVersion" (.scalar "tekton.dev/v1" 5 9),
    nestedField 20 30 "metadata" (.mapping "" 20 30 [
      nestedField 20 24 "name" (.scalar "p" 0 40)])]

def scatteredDocument : Document := ⟨Layout.rootsAt 0 [scatteredPipeline], [], 0, 30⟩

def scatteredSheet : Sheet :=
  (scatteredDocument.sheet? (.ofLayouts [scatteredPipeline])).get (by decide +kernel)

/-- The name contains the offset 25 but the pipeline above it does not, so the document is found. Of
the two values that contain 6 the first one is found. -/
theorem find?_scatteredSheet :
    scatteredDocument.sheet? (.ofLayouts [scatteredPipeline]) = some scatteredSheet ∧
      scatteredSheet.contains 5 25 = true ∧ scatteredSheet.find? 25 = some Sheet.root ∧
      scatteredSheet.find? 6 = some 2 ∧ scatteredSheet.find? 5 = some 3 ∧
      scatteredSheet.find? 30 = none := by
  have h : scatteredDocument.sheet? (.ofLayouts [scatteredPipeline]) = some scatteredSheet :=
    (Option.some_get _).symm
  have hbody : ∀ pos, pos = 5 ∨ pos = 6 → scatteredSheet.Descends pos Sheet.root 1 := by
    rintro pos (rfl | rfl) <;> decide +kernel
  refine ⟨h, by decide +kernel, ?_, ?_, ?_, (find?_sound h 30).1.2 (by decide +kernel)⟩
  · exact ((find?_sound h 25).2.1 _).2 ⟨by decide +kernel, .refl, by decide +kernel⟩
  · exact ((find?_sound h 6).2.1 _).2
      ⟨by decide +kernel, .head (hbody 6 (.inr rfl)) (.single (by decide +kernel)),
        by decide +kernel⟩
  · exact ((find?_sound h 5).2.1 _).2
      ⟨by decide +kernel, .head (hbody 5 (.inl rfl)) (.single (by decide +kernel)),
        by decide +kernel⟩

end Document

end PipelineLens
