import PipelineLens.Element.Fields
/-!
# Elements and their placement

An `Outline` is a tree of elements inside each other. `place` lays them out one after the other,
each element before what stands below it, slot by slot. An outline placed from index `base` takes
the indices from `base` to `base + size - 1`, its own root first. Like those of nodes, indices of
elements are natural numbers and are meant to stay below `2 ^ 32`.
-/
namespace PipelineLens

/-- The kind of task that a reference names. -/
inductive TaskRefKind where
  | task
  | clusterTask
  | other (name : String)
deriving DecidableEq, Repr

namespace TaskRefKind

def ofName (name : String) : TaskRefKind :=
  if name = "Task" then task else if name = "ClusterTask" then clusterTask else other name

end TaskRefKind

inductive ElementValue where
  | text (value : String)
  | flag (value : Bool)
  | number (value : Int)
  | taskKind (value : TaskRefKind)
deriving DecidableEq, Repr

/-- Where an element stands in the one above it. -/
inductive Slot where
  | field (name : String)
  | item (index : Nat)
deriving DecidableEq, Repr

/-- Where an element stands in the text and in the parse tree. -/
structure Place where
  start : Nat
  /-- the offset after the last character -/
  stop : Nat
  /-- the node of the parse tree; the document has none -/
  node : Option Nat
  /-- where the key starts, for the value of a pair -/
  keyStart : Option Nat
deriving DecidableEq, Repr

structure Element where
  kind : ElementKind
  place : Place
  parent : Option Nat
  /-- the slots in their order; one without an element is a field that the text leaves out -/
  slots : List (Slot × Option Nat)
  value : Option ElementValue
deriving DecidableEq, Repr

namespace Element

/-- Whether the offset `pos` lies inside the element. -/
def contains (e : Element) (pos : Nat) : Bool := e.place.start ≤ pos && pos < e.place.stop

/-- The elements directly below, in the order of the slots. -/
def children (e : Element) : List Nat := e.slots.filterMap (·.2)

/-- The element in the field `name`. -/
def field? (e : Element) (name : String) : Option Nat :=
  e.slots.findSome? fun s => if s.1 = .field name then s.2 else none

def text? (e : Element) : Option String :=
  match e.value with
  | some (.text text) => some text
  | _ => none

end Element

inductive Outline where
  | leaf (place : Place) (value : Option ElementValue)
  | branch (kind : ElementKind) (place : Place) (slots : List (Slot × Option Outline))

namespace Outline

mutual

/-- The number of elements. -/
def size : Outline → Nat
  | leaf .. => 1
  | branch _ _ slots => sizes slots + 1

def sizes : List (Slot × Option Outline) → Nat
  | [] => 0
  | (_, none) :: rest => sizes rest
  | (_, some o) :: rest => o.size + sizes rest

end

/-- The slots with the indices of their elements, when these are placed from `base` on. -/
def slotsAt (base : Nat) : List (Slot × Option Outline) → List (Slot × Option Nat)
  | [] => []
  | (slot, none) :: rest => (slot, none) :: slotsAt base rest
  | (slot, some o) :: rest => (slot, some base) :: slotsAt (base + o.size) rest

mutual

/-- The elements from index `base` on, the root below `parent`. -/
def place (parent : Option Nat) (base : Nat) : Outline → List Element
  | leaf place value => [⟨.value, place, parent, [], value⟩]
  | branch kind place slots =>
    ⟨kind, place, parent, slotsAt (base + 1) slots, none⟩ :: placeAll base (base + 1) slots

/-- The elements of the slots of `parent`, from index `base` on. -/
def placeAll (parent : Nat) (base : Nat) : List (Slot × Option Outline) → List Element
  | [] => []
  | (_, none) :: rest => placeAll parent base rest
  | (_, some o) :: rest => place (some parent) base o ++ placeAll parent (base + o.size) rest

end

theorem size_pos (o : Outline) : 0 < o.size := by
  cases o <;> simp [size]

mutual

theorem length_place (parent : Option Nat) (base : Nat) :
    (o : Outline) → (place parent base o).length = o.size
  | leaf .. => by simp [place, size]
  | branch _ _ slots => by simp [place, size, length_placeAll _ _ slots]

theorem length_placeAll (parent : Nat) (base : Nat) :
    (slots : List (Slot × Option Outline)) → (placeAll parent base slots).length = sizes slots
  | [] => by simp [placeAll, sizes]
  | (_, none) :: rest => by simp [placeAll, sizes, length_placeAll _ _ rest]
  | (_, some o) :: rest => by
    simp [placeAll, sizes, length_place _ _ o, length_placeAll _ _ rest]

end

theorem mem_slotsAt {base c : Nat} {slots : List (Slot × Option Outline)}
    (h : c ∈ (slotsAt base slots).filterMap (·.2)) : base ≤ c ∧ c < base + sizes slots := by
  fun_induction slotsAt base slots with
  | case1 => simp at h
  | case2 _ _ _ ih => simpa [sizes] using ih (by simpa using h)
  | case3 base _ o rest ih =>
    have := size_pos o
    simp only [sizes]
    rcases List.mem_cons.1 (show c ∈ base :: (slotsAt (base + o.size) rest).filterMap (·.2) from h)
      with rfl | h
    · omega
    · have := ih h
      omega

/-- Elements from index `base` on: below each stand larger indices, up to `limit`, and above each a
smaller one. -/
def Ordered (base limit : Nat) (es : List Element) : Prop :=
  ∀ (i : Nat) (h : i < es.length),
    (∀ c ∈ es[i].children, base + i < c ∧ c < limit) ∧ ∀ p, es[i].parent = some p → p < base + i

theorem Ordered.append {base limit : Nat} {xs ys : List Element} (hx : Ordered base limit xs)
    (hy : Ordered (base + xs.length) limit ys) : Ordered base limit (xs ++ ys) := by
  intro i hi
  by_cases h : i < xs.length
  · rw [List.getElem_append_left h]
    exact hx i h
  · rw [List.getElem_append_right (by omega)]
    have := hy (i - xs.length) (by simp at hi; omega)
    rwa [show base + xs.length + (i - xs.length) = base + i by omega] at this

theorem ordered_cons {base limit : Nat} {e : Element} {es : List Element}
    (hc : ∀ c ∈ e.children, base < c ∧ c < limit) (hp : ∀ p, e.parent = some p → p < base)
    (hs : Ordered (base + 1) limit es) : Ordered base limit (e :: es) := by
  refine @Ordered.append base limit [e] es ?_ hs
  intro i hi
  obtain rfl : i = 0 := by simpa using hi
  exact ⟨hc, hp⟩

theorem ordered_nil (base limit : Nat) : Ordered base limit [] := fun i h => absurd h (by simp)

mutual

theorem ordered_place {parent : Option Nat} {base limit : Nat}
    (hp : ∀ p, parent = some p → p < base) :
    (o : Outline) → base + o.size ≤ limit → Ordered base limit (place parent base o)
  | leaf .., _ => ordered_cons (by simp [Element.children]) hp (ordered_nil _ _)
  | branch _ _ slots, hl => by
    simp only [size] at hl
    refine ordered_cons (fun c hc => ?_) hp (ordered_placeAll (by omega) slots (by omega))
    have := mem_slotsAt hc
    omega

theorem ordered_placeAll {parent base limit : Nat} (hp : parent < base) :
    (slots : List (Slot × Option Outline)) → base + sizes slots ≤ limit →
      Ordered base limit (placeAll parent base slots)
  | [], _ => ordered_nil _ _
  | (_, none) :: rest, hl => ordered_placeAll hp rest (by simpa [sizes] using hl)
  | (_, some o) :: rest, hl => by
    simp only [sizes] at hl
    refine Ordered.append (ordered_place (by simpa using hp) o (by omega)) ?_
    rw [length_place]
    exact ordered_placeAll (by omega) rest (by omega)

end

end Outline

end PipelineLens
