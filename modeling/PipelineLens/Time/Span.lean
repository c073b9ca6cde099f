/-!
# Spans of time in words

A span is shown in its largest unit and the unit below that, rounded to the smaller one, as in
`1m 30s`. When rounding reaches the next larger unit, the span is split again from there. Each such
carry leaves fewer units above the span, so `parts` ends.
-/
namespace PipelineLens.Span

structure TimeUnit where
  label : String
  /-- how many milliseconds the unit has -/
  size : Nat
deriving DecidableEq, Repr

/-- The units, the largest first. A month is a twelfth of a year of 365.25 days. -/
def units : List TimeUnit :=
  [⟨"y", 31557600000⟩, ⟨"mo", 2629800000⟩, ⟨"w", 604800000⟩, ⟨"d", 86400000⟩, ⟨"h", 3600000⟩,
   ⟨"m", 60000⟩, ⟨"s", 1000⟩, ⟨"ms", 1⟩]

/-- The largest unit that fits in a span, between its two neighbours. -/
structure Lead where
  above : Option TimeUnit
  unit : TimeUnit
  below : Option TimeUnit

/-- The first of the units that fits in `total`; the unit `above` stands before them. -/
def leadIn (above : Option TimeUnit) (total : Nat) : List TimeUnit → Option Lead
  | [] => none
  | u :: us => if u.size ≤ total then some ⟨above, u, us.head?⟩ else leadIn (some u) total us

/-- The largest unit that fits in `total`. -/
def lead? (total : Nat) : Option Lead := leadIn none total units

/-- The multiple of `size` nearest to `total`, the higher one from halfway on. -/
def nearest (total size : Nat) : Nat := (total + size / 2) / size * size

/-- How many units are larger than the span. -/
def rank (total : Nat) : Nat := (units.filter fun u => total < u.size).length

theorem leadIn_above {total : Nat} {us : List TimeUnit} {above : Option TimeUnit} {l : Lead}
    {u : TimeUnit} (h : leadIn above total us = some l) (hu : l.above = some u) :
    above = some u ∨ (u ∈ us ∧ total < u.size) := by
  induction us generalizing above with
  | nil => simp [leadIn] at h
  | cons v vs ih =>
    unfold leadIn at h
    split at h
    · cases h
      exact .inl hu
    · rename_i hv
      rcases ih h with he | ⟨hm, ht⟩
      · cases he
        exact .inr ⟨by simp, by omega⟩
      · exact .inr ⟨by simp [hm], ht⟩

/-- The unit above the lead is larger than the span. -/
theorem lead?_above {total : Nat} {l : Lead} {u : TimeUnit} (h : lead? total = some l)
    (hu : l.above = some u) : u ∈ units ∧ total < u.size := by
  rcases leadIn_above h hu with he | hm
  · cases he
  · exact hm

/-- A carry into the unit above leaves fewer units above the span. -/
theorem rank_lt {total rounded : Nat} {l : Lead} {u : TimeUnit} (h : lead? total = some l)
    (hu : l.above = some u) (hr : u.size ≤ rounded) : rank rounded < rank total := by
  obtain ⟨hm, ht⟩ := lead?_above h hu
  have hboth : (units.filter fun v => rounded < v.size)
      = (units.filter fun v => total < v.size).filter fun v => rounded < v.size := by
    rw [List.filter_filter]
    congr 1
    funext v
    rw [← Bool.decide_and]
    exact decide_eq_decide.2 ⟨fun hv => ⟨hv, by omega⟩, And.left⟩
  rw [rank, rank, hboth, List.length_filter_lt_length_iff_exists]
  exact ⟨u, List.mem_filter.2 ⟨hm, decide_eq_true ht⟩, by simpa using hr⟩

/-- A span as counts of one or two units. -/
def parts (total : Nat) : List (Nat × TimeUnit) :=
  match _h : lead? total with
  | none => [(0, ⟨"ms", 1⟩)]
  | some l =>
    match l.below with
    | none => [(total, l.unit)]
    | some small =>
      let rounded := nearest total small.size
      let split : List (Nat × TimeUnit) :=
        let minor := rounded % l.unit.size / small.size
        (rounded / l.unit.size, l.unit) :: if minor = 0 then [] else [(minor, small)]
      match _hu : l.above with
      | none => split
      | some large => if _hr : large.size ≤ rounded then parts rounded else split
termination_by rank total
decreasing_by exact rank_lt _h _hu _hr

def render (ps : List (Nat × TimeUnit)) : String :=
  " ".intercalate (ps.map fun p => s!"{p.1}{p.2.label}")

/-- A span of milliseconds in words; a negative one counts as none. -/
def label (ms : Int) : String := render (parts ms.toNat)

end PipelineLens.Span
