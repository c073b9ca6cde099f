import Std.Data.String.ToNat
import PipelineLens.Proofs.Splitting
import PipelineLens.Time.Span
/-!
# What the label of a span says

A label counts the largest unit that fits in a span and the unit below it. Rounding to the smaller
unit is right wherever that unit divides the larger one: then the counts of the label make up the
rounded span. Weeks do not divide a month. There the weeks of the rounded span are counted as months
and weeks again, and what is left over is lost, so that a label may be too short by more than half a
week, and a span of one month is no month at all. `rounds_label_iff` says for which spans this
happens.
-/
namespace PipelineLens.Span

/-- A unit together with the one that stands below it. -/
def neighbours : List (TimeUnit × TimeUnit) := units.zip units.tail

/-- `v` is the unit just below `u`. -/
def Below (u v : TimeUnit) : Prop := (u, v) ∈ neighbours

/-- A span of `d` differs from one of `m` by half of the unit below `u` at most, and not at all if
`u` is the second or the millisecond. -/
structure Near (u : TimeUnit) (m d : Nat) : Prop where
  half : ∀ v, Below u v → 2 * ((m : Int) - d).natAbs ≤ v.size
  same : u.label = "s" ∨ u.label = "ms" → d = m

/-- The text counts a unit, and perhaps the unit just below it up to less than one of the first, and
it says how long `m` is, rounded to the smaller unit. -/
def Rounds (m : Nat) (text : String) : Prop :=
  ∃ u ∈ units, ∃ a, 1 ≤ a ∧
    ((text = toString a ++ u.label ∧ Near u m (a * u.size)) ∨
      ∃ v b, Below u v ∧ 1 ≤ b ∧ b * v.size < u.size ∧
        text = toString a ++ u.label ++ " " ++ toString b ++ v.label ∧
        Near u m (a * u.size + b * v.size))

def year : TimeUnit := ⟨"y", 31557600000⟩

def month : TimeUnit := ⟨"mo", 2629800000⟩

def week : TimeUnit := ⟨"w", 604800000⟩

def millisecond : TimeUnit := ⟨"ms", 1⟩

/-- A span of months that loses too much when its weeks are counted as months and weeks: the weeks
make up no month, or those that are left over count for more than half a week. -/
def Skewed (m : Nat) : Prop :=
  month.size ≤ m ∧ m < year.size ∧
    (nearest m week.size < month.size ∨
      nearest m week.size + week.size / 2 < m + nearest m week.size % month.size % week.size)

instance : DecidableRel Below := fun u v => inferInstanceAs (Decidable ((u, v) ∈ neighbours))

/-! ## The table of units -/

theorem Below.mem_left {u v : TimeUnit} (h : Below u v) : u ∈ units := (List.of_mem_zip h).1

theorem Below.mem_right {u v : TimeUnit} (h : Below u v) : v ∈ units :=
  List.mem_of_mem_tail (List.of_mem_zip h).2

theorem size_pos_of_mem {u : TimeUnit} (h : u ∈ units) : 0 < u.size := by
  have hall : ∀ u ∈ units, 0 < u.size := by decide
  exact hall u h

theorem eq_of_size_eq {u v : TimeUnit} (hu : u ∈ units) (hv : v ∈ units) (h : u.size = v.size) :
    u = v := by
  have hall : ∀ u ∈ units, ∀ v ∈ units, u.size = v.size → u = v := by decide
  exact hall u hu v hv h

theorem eq_of_label_eq {u v : TimeUnit} (hu : u ∈ units) (hv : v ∈ units) (h : u.label = v.label) :
    u = v := by
  have hall : ∀ u ∈ units, ∀ v ∈ units, u.label = v.label → u = v := by decide
  exact hall u hu v hv h

theorem Below.left_unique {u w v : TimeUnit} (hu : Below u v) (hw : Below w v) : u = w := by
  have hall : ∀ p ∈ neighbours, ∀ q ∈ neighbours, p.2 = q.2 → p.1 = q.1 := by decide
  exact hall (u, v) hu (w, v) hw rfl

theorem Below.right_unique {u v w : TimeUnit} (hv : Below u v) (hw : Below u w) : v = w := by
  have hall : ∀ p ∈ neighbours, ∀ q ∈ neighbours, p.1 = q.1 → p.2 = q.2 := by decide
  exact hall (u, v) hv (u, w) hw rfl

theorem Below.size_lt {u v : TimeUnit} (h : Below u v) : v.size < u.size := by
  have hall : ∀ p ∈ neighbours, p.2.size < p.1.size := by decide
  exact hall (u, v) h

theorem Below.ne_millisecond {u v : TimeUnit} (h : Below u v) : u ≠ millisecond := by
  have hall : ∀ p ∈ neighbours, p.1 ≠ millisecond := by decide
  exact hall (u, v) h

theorem Below.right_ne_year {u v : TimeUnit} (h : Below u v) : v ≠ year := by
  have hall : ∀ p ∈ neighbours, p.2 ≠ year := by decide
  exact hall (u, v) h

/-- Every unit but the month is a multiple of the unit below it. -/
theorem Below.dvd {u v : TimeUnit} (h : Below u v) (hu : u ≠ month) : v.size ∣ u.size := by
  have hall : ∀ p ∈ neighbours, p.1 ≠ month → p.2.size ∣ p.1.size := by decide
  exact hall (u, v) h hu

/-- Only milliseconds are below a unit that must be told exactly. -/
theorem Below.size_eq_one {u v : TimeUnit} (h : Below u v) (hu : u.label = "s" ∨ u.label = "ms") :
    v.size = 1 := by
  have hall : ∀ p ∈ neighbours, p.1.label = "s" ∨ p.1.label = "ms" → p.2.size = 1 := by decide
  exact hall (u, v) h hu

/-! ## Rounding -/

theorem nearest_le_add (m size : Nat) : nearest m size ≤ m + size / 2 := Nat.div_mul_le_self _ _

theorem lt_nearest_add {m size : Nat} (h : 0 < size) : m + size / 2 < nearest m size + size :=
  Nat.lt_div_mul_add h

theorem dvd_nearest (m size : Nat) : size ∣ nearest m size := Nat.dvd_mul_left size _

theorem nearest_mono {m n : Nat} (h : m ≤ n) (size : Nat) : nearest m size ≤ nearest n size :=
  Nat.mul_le_mul_right _ (Nat.div_le_div_right (by omega))

theorem nearest_of_dvd {m size : Nat} (hsize : 0 < size) (h : size ∣ m) : nearest m size = m := by
  obtain ⟨k, rfl⟩ := h
  have hhalf : size / 2 / size = 0 := Nat.div_eq_of_lt (by omega)
  rw [nearest, Nat.mul_add_div hsize, hhalf, Nat.add_zero, Nat.mul_comm]

/-- Rounding moves a span by half a unit at most. -/
theorem natAbs_sub_nearest {m size : Nat} (h : 0 < size) :
    2 * ((m : Int) - nearest m size).natAbs ≤ size := by
  have := nearest_le_add m size
  have := lt_nearest_add (m := m) h
  omega

/-! ## The largest unit that fits -/

/-- `u` is the largest unit that fits in `m`. -/
structure Leads (m : Nat) (u : TimeUnit) : Prop where
  mem : u ∈ units
  le : u.size ≤ m
  lt : ∀ w ∈ units, u.size < w.size → m < w.size

theorem Leads.unique {m : Nat} {u w : TimeUnit} (hu : Leads m u) (hw : Leads m w) : u = w := by
  refine eq_of_size_eq hu.mem hw.mem (Nat.le_antisymm ?_ ?_)
  · by_contra h
    have := hw.lt u hu.mem (by omega)
    have := hu.le
    omega
  · by_contra h
    have := hu.lt w hw.mem (by omega)
    have := hw.le
    omega

theorem leads_month {m : Nat} (h : month.size ≤ m) (hy : m < year.size) : Leads m month := by
  have hall : ∀ w ∈ units, month.size < w.size → w = year := by decide
  refine ⟨by decide, h, fun w hw hlt => ?_⟩
  rw [hall w hw hlt]
  exact hy

theorem leads_size {u : TimeUnit} (h : u ∈ units) : Leads u.size u :=
  ⟨h, Nat.le_refl _, fun _ _ hw => hw⟩

theorem mem_zip_tail {α : Type} (pre : List α) (a b : α) (post : List α) :
    (a, b) ∈ (pre ++ a :: b :: post).zip (pre ++ a :: b :: post).tail := by
  induction pre with
  | nil => simp
  | cons c pre ih =>
    cases pre with
    | nil => simp
    | cons d pre => exact List.mem_cons_of_mem _ ih

theorem leadIn_spec {above : Option TimeUnit} {m : Nat} {us : List TimeUnit} {l : Lead}
    (h : leadIn above m us = some l) : ∃ pre post, us = pre ++ l.unit :: post ∧
      l.above = pre.getLast?.or above ∧ l.below = post.head? ∧ l.unit.size ≤ m ∧
      ∀ w ∈ pre, m < w.size := by
  induction us generalizing above with
  | nil => cases h
  | cons u us ih =>
    unfold leadIn at h
    split at h
    · rename_i hu
      cases h
      exact ⟨[], us, rfl, rfl, rfl, hu, by simp⟩
    · rename_i hu
      obtain ⟨pre, post, rfl, habove, hbelow, hle, hlt⟩ := ih h
      refine ⟨u :: pre, post, rfl, ?_, hbelow, hle, ?_⟩
      · rw [habove, List.getLast?_cons]
        cases pre.getLast? <;> rfl
      · simp only [List.mem_cons, forall_eq_or_imp]
        exact ⟨by omega, hlt⟩

/-- What is found for a span: the largest unit that fits, and the units above and below it. -/
theorem lead?_spec {m : Nat} {l : Lead} (h : lead? m = some l) : Leads m l.unit ∧
    (∀ w, l.above = some w → Below w l.unit) ∧ (∀ v, l.below = some v → Below l.unit v) ∧
    (l.above = none → l.unit = year) ∧ (l.below = none → l.unit = millisecond) := by
  obtain ⟨pre, post, hunits, habove, hbelow, hle, hlt⟩ := leadIn_spec h
  rw [Option.or_none] at habove
  have hsorted : units.Pairwise fun u w => w.size < u.size := by decide
  refine ⟨⟨?_, hle, ?_⟩, ?_, ?_, ?_, ?_⟩
  · rw [hunits]
    simp
  · intro w hw hsize
    rw [hunits] at hw hsorted
    rcases List.mem_append.1 hw with hw | hw
    · exact hlt w hw
    · rcases List.mem_cons.1 hw with rfl | hw
      · omega
      · have := (List.pairwise_cons.1 (List.pairwise_append.1 hsorted).2.1).1 w hw
        omega
  · intro w hw
    rw [habove, List.getLast?_eq_some_iff] at hw
    obtain ⟨before, rfl⟩ := hw
    rw [Below, neighbours, hunits, List.append_assoc]
    exact mem_zip_tail before w l.unit post
  · intro v hv
    rw [hbelow, List.head?_eq_some_iff] at hv
    obtain ⟨after, rfl⟩ := hv
    rw [Below, neighbours, hunits]
    exact mem_zip_tail pre l.unit v after
  · intro hnone
    rw [habove, List.getLast?_eq_none_iff] at hnone
    subst hnone
    exact (List.cons.inj hunits).1.symm
  · intro hnone
    rw [hbelow, List.head?_eq_none_iff] at hnone
    subst hnone
    have := congrArg List.getLast? hunits
    rw [List.getLast?_concat] at this
    exact (Option.some.inj this).symm

theorem isSome_lead? {m : Nat} (h : 0 < m) : ∃ l, lead? m = some l := by
  cases hl : lead? m with
  | some l => exact ⟨l, rfl⟩
  | none =>
    have hnone : ∀ {us : List TimeUnit} {above : Option TimeUnit}, leadIn above m us = none →
        ∀ u ∈ us, m < u.size := by
      intro us
      induction us with
      | nil => simp
      | cons u us ih =>
        intro above hnone
        unfold leadIn at hnone
        split at hnone
        · cases hnone
        · rename_i hu
          simp only [List.mem_cons, forall_eq_or_imp]
          exact ⟨by omega, ih hnone⟩
    have := hnone hl millisecond (by decide)
    simp only [millisecond] at this
    omega

/-! ## The parts of a span -/

/-- A rounded span as counts of a unit and the one below it. -/
def split (u v : TimeUnit) (rounded : Nat) : List (Nat × TimeUnit) :=
  (rounded / u.size, u) ::
    if rounded % u.size / v.size = 0 then [] else [(rounded % u.size / v.size, v)]

theorem parts_zero : parts 0 = [(0, millisecond)] := by
  unfold parts
  rfl

/-- The parts of a span by the unit that leads it. -/
theorem parts_of_lead? {m : Nat} {l : Lead} (h : lead? m = some l) : parts m =
    match l.below with
    | none => [(m, l.unit)]
    | some v =>
      match l.above with
      | none => split l.unit v (nearest m v.size)
      | some w =>
        if w.size ≤ nearest m v.size then parts (nearest m v.size)
        else split l.unit v (nearest m v.size) := by
  rw [parts]
  split
  · rename_i hnone
    rw [h] at hnone
    cases hnone
  · rename_i l' hl'
    rw [h] at hl'
    cases hl'
    cases l.below with
    | none => rfl
    | some v =>
      simp only
      split
      · rename_i habove
        rw [habove]
        rfl
      · rename_i w habove
        rw [habove]
        rfl

/-- What one pass over a span comes to: counts of units, or a rounded span to start again with. -/
inductive Pass (α : Type) where
  | done (counts : List (α × TimeUnit))
  | again (rounded : α)
deriving DecidableEq

/-- One pass over a span. -/
def pass (m : Nat) : Pass Nat :=
  match lead? m with
  | none => .done [(0, millisecond)]
  | some l =>
    match l.below with
    | none => .done [(m, l.unit)]
    | some v =>
      if l.above.any fun w => w.size ≤ nearest m v.size then .again (nearest m v.size)
      else .done (split l.unit v (nearest m v.size))

/-- A span is told pass by pass. -/
theorem parts_eq (m : Nat) : parts m =
    match pass m with
    | .done counts => counts
    | .again rounded => parts rounded := by
  rw [pass]
  cases hl : lead? m with
  | none =>
    unfold parts
    split
    · rfl
    · simp_all
  | some l =>
    rw [parts_of_lead? hl]
    obtain ⟨above, u, below⟩ := l
    cases below with
    | none => rfl
    | some v =>
      cases above with
      | none => rfl
      | some w => by_cases hw : w.size ≤ nearest m v.size <;> simp [hw]

theorem parts_of_done {m : Nat} {counts : List (Nat × TimeUnit)} (h : pass m = .done counts) :
    parts m = counts := by rw [parts_eq, h]

theorem parts_of_again {m rounded : Nat} (h : pass m = .again rounded) :
    parts m = parts rounded := by rw [parts_eq, h]

/-- A span is told in milliseconds, or it is rounded to the unit below the largest one that fits;
then it is counted in these two, unless the next larger unit is reached. -/
theorem pass_cases {m : Nat} (h : 0 < m) : ∃ u, Leads m u ∧
    ((u = millisecond ∧ pass m = .done [(m, millisecond)]) ∨
      ∃ v, Below u v ∧
        (((∀ w, Below w u → nearest m v.size < w.size) ∧
            pass m = .done (split u v (nearest m v.size))) ∨
          ∃ w, Below w u ∧ w.size ≤ nearest m v.size ∧ pass m = .again (nearest m v.size))) := by
  obtain ⟨l, hl⟩ := isSome_lead? h
  obtain ⟨hleads, habove, hbelow, htop, hbottom⟩ := lead?_spec hl
  refine ⟨l.unit, hleads, ?_⟩
  simp only [pass, hl]
  cases hv : l.below with
  | none => exact .inl ⟨hbottom hv, by rw [hbottom hv]⟩
  | some v =>
    refine .inr ⟨v, hbelow v hv, ?_⟩
    cases hw : l.above with
    | none =>
      refine .inl ⟨fun w hwu => ?_, rfl⟩
      rw [htop hw] at hwu
      exact absurd rfl hwu.right_ne_year
    | some w =>
      by_cases hcarry : w.size ≤ nearest m v.size
      · exact .inr ⟨w, habove w hw, hcarry, by simp [hcarry]⟩
      · refine .inl ⟨fun w' hw' => ?_, by simp [hcarry]⟩
        rw [hw'.left_unique (habove w hw)]
        omega

/-- The parts of a span, by what the first pass over it comes to. -/
theorem parts_cases {m : Nat} (h : 0 < m) : ∃ u, Leads m u ∧
    ((u = millisecond ∧ parts m = [(m, millisecond)]) ∨
      ∃ v, Below u v ∧
        (((∀ w, Below w u → nearest m v.size < w.size) ∧
            parts m = split u v (nearest m v.size)) ∨
          ∃ w, Below w u ∧ w.size ≤ nearest m v.size ∧ parts m = parts (nearest m v.size))) := by
  obtain ⟨u, hleads, ⟨hu, hpass⟩ | ⟨v, hv, ⟨hcarry, hpass⟩ | ⟨w, hw, hcarry, hpass⟩⟩⟩ :=
    pass_cases h
  · exact ⟨u, hleads, .inl ⟨hu, parts_of_done hpass⟩⟩
  · exact ⟨u, hleads, .inr ⟨v, hv, .inl ⟨hcarry, parts_of_done hpass⟩⟩⟩
  · exact ⟨u, hleads, .inr ⟨v, hv, .inr ⟨w, hw, hcarry, parts_of_again hpass⟩⟩⟩

/-- A span of one unit is told as one in one pass, except for a month. -/
theorem pass_size {u v : TimeUnit} (h : Below u v) (hu : u ≠ month) :
    pass u.size = .done [(1, u)] := by
  have hpos := size_pos_of_mem h.mem_left
  have hround : nearest u.size v.size = u.size :=
    nearest_of_dvd (size_pos_of_mem h.mem_right) (h.dvd hu)
  obtain ⟨u', hleads, hcases⟩ := pass_cases hpos
  obtain rfl := hleads.unique (leads_size h.mem_left)
  rcases hcases with ⟨hms, -⟩ | ⟨v', hv', ⟨-, hpass⟩ | ⟨w, hw, hcarry, -⟩⟩
  · exact absurd hms h.ne_millisecond
  · obtain rfl := h.right_unique hv'
    rw [hpass, hround]
    simp [split, Nat.div_self hpos]
  · obtain rfl := h.right_unique hv'
    have := hw.size_lt
    omega

/-- A span that is rounded up to a larger unit comes to exactly one of it. No month is reached in
this way, for it is not a number of days, and no year from weeks. -/
theorem nearest_of_carry {m : Nat} {u v w : TimeUnit} (hm : Leads m u) (hwu : Below w u)
    (huv : Below u v) (h : w.size ≤ nearest m v.size) :
    nearest m v.size = w.size ∧ w ≠ month ∧ u ≠ month := by
  have hall : ∀ p ∈ neighbours, ∀ q ∈ neighbours, p.2 = q.1 →
      p.1.size ≤ nearest (p.1.size - 1) q.2.size →
        nearest (p.1.size - 1) q.2.size = p.1.size ∧ p.1 ≠ month ∧ q.1 ≠ month := by decide
  have hlt := hm.lt w hwu.mem_left hwu.size_lt
  have hmono : nearest m v.size ≤ nearest (w.size - 1) v.size := nearest_mono (by omega) _
  obtain ⟨hlast, hw, hu⟩ := hall (w, u) hwu (u, v) huv rfl (Nat.le_trans h hmono)
  exact ⟨Nat.le_antisymm (hlast ▸ hmono) h, hw, hu⟩

theorem parts_of_carry {m : Nat} {u v w : TimeUnit} (hm : Leads m u) (hwu : Below w u)
    (huv : Below u v) (h : w.size ≤ nearest m v.size) :
    u ≠ month ∧ nearest m v.size = w.size ∧ parts (nearest m v.size) = [(1, w)] := by
  obtain ⟨hround, hw, hu⟩ := nearest_of_carry hm hwu huv h
  exact ⟨hu, hround, hround ▸ parts_of_done (pass_size hwu hw)⟩

/-! ## Reading a label back -/

/-- A count of a unit in words. -/
def count (a : Nat) (u : TimeUnit) : List Char := (toString a ++ u.label).toList

theorem isDigit_of_mem_toString {a : Nat} {c : Char} (h : c ∈ (toString a).toList) :
    c.isDigit = true := by
  rw [Nat.toString_eq_repr, Nat.toList_repr] at h
  exact Nat.isDigit_of_mem_toDigits (by decide) (by decide) h

/-- Labels of units have no digits and no blanks. -/
theorem label_char {u : TimeUnit} (hu : u ∈ units) {c : Char} (hc : c ∈ u.label.toList) :
    c.isDigit = false ∧ c ≠ ' ' := by
  have hall : ∀ u ∈ units, u.label.toList.all (fun c => !c.isDigit && c != ' ') := by decide
  simpa using List.all_eq_true.1 (hall u hu) c hc

/-- Number and unit can be told from a count, whatever follows it after a blank. -/
theorem count_append_inj {a b : Nat} {u w : TimeUnit} {xs ys : List Char} (hu : u ∈ units)
    (hw : w ∈ units) (hx : ∀ c ∈ xs.head?, c = ' ') (hy : ∀ c ∈ ys.head?, c = ' ')
    (h : count a u ++ xs = count b w ++ ys) : a = b ∧ u = w ∧ xs = ys := by
  have hhead : ∀ {u : TimeUnit} {xs : List Char}, u ∈ units → (∀ c ∈ xs.head?, c = ' ') →
      ∀ c ∈ (u.label.toList ++ xs).head?, c.isDigit = false := by
    intro u xs hu hx c hc
    rw [List.head?_append, Option.mem_def, Option.or_eq_some_iff] at hc
    rcases hc with hc | ⟨-, hc⟩
    · exact (label_char hu (List.mem_of_head? hc)).1
    · rw [hx c hc]
      decide
  have hblank : ∀ {xs : List Char}, (∀ c ∈ xs.head?, c = ' ') →
      ∀ c ∈ xs.head?, decide (c ≠ ' ') = false := fun hx c hc => by simpa using hx c hc
  simp only [count, String.toList_append, List.append_assoc] at h
  obtain ⟨hnumber, h⟩ := append_inj_of_all (fun _ => isDigit_of_mem_toString)
    (fun _ => isDigit_of_mem_toString) (hhead hu hx) (hhead hw hy) h
  obtain ⟨hlabel, hrest⟩ := append_inj_of_all (p := fun c => decide (c ≠ ' '))
    (fun c hc => by simpa using (label_char hu hc).2)
    (fun c hc => by simpa using (label_char hw hc).2) (hblank hx) (hblank hy) h
  refine ⟨Nat.repr_injective (String.toList_inj.1 hnumber), ?_, hrest⟩
  exact eq_of_label_eq hu hw (String.toList_inj.1 hlabel)

/-- Two counts with a blank between them. -/
theorem toList_pair (a b : Nat) (u v : TimeUnit) :
    (toString a ++ u.label ++ " " ++ toString b ++ v.label).toList
      = count a u ++ ' ' :: count b v := by
  simp [count]

theorem count_inj {a b : Nat} {u w : TimeUnit} (hu : u ∈ units) (hw : w ∈ units)
    (h : count a u = count b w) : a = b ∧ u = w := by
  have happend : count a u ++ [] = count b w ++ [] := by rw [h]
  obtain ⟨hab, huw, -⟩ := count_append_inj hu hw (by simp) (by simp) happend
  exact ⟨hab, huw⟩

theorem count_ne_pair {a b c : Nat} {u w v : TimeUnit} (hu : u ∈ units) (hw : w ∈ units) :
    count a u ≠ count b w ++ ' ' :: count c v := by
  intro h
  have happend : count a u ++ [] = count b w ++ ' ' :: count c v := by rw [List.append_nil, h]
  have := (count_append_inj hu hw (by simp) (by simp) happend).2.2
  cases this

theorem rounds_count_iff {m a : Nat} {u : TimeUnit} (hu : u ∈ units) :
    Rounds m (toString a ++ u.label) ↔ 1 ≤ a ∧ Near u m (a * u.size) := by
  constructor
  · rintro ⟨u', hu', a', ha', ⟨htext, hnear⟩ | ⟨v, b, hv, -, -, htext, -⟩⟩
    · obtain ⟨rfl, rfl⟩ := count_inj hu hu' (congrArg String.toList htext)
      exact ⟨ha', hnear⟩
    · have htext := congrArg String.toList htext
      rw [toList_pair] at htext
      exact absurd htext (count_ne_pair hu hu')
  · rintro ⟨ha, hnear⟩
    exact ⟨u, hu, a, ha, .inl ⟨rfl, hnear⟩⟩

theorem rounds_pair_iff {m a b : Nat} {u v : TimeUnit} (h : Below u v) (hb : 1 ≤ b)
    (hlt : b * v.size < u.size) :
    Rounds m (toString a ++ u.label ++ " " ++ toString b ++ v.label)
      ↔ 1 ≤ a ∧ Near u m (a * u.size + b * v.size) := by
  constructor
  · rintro ⟨u', hu', a', ha', ⟨htext, hnear⟩ | ⟨v', b', hv', -, -, htext, hnear⟩⟩
    · have htext := congrArg String.toList htext
      rw [toList_pair] at htext
      exact absurd htext.symm (count_ne_pair hu' h.mem_left)
    · have htext := congrArg String.toList htext
      rw [toList_pair, toList_pair] at htext
      obtain ⟨rfl, rfl, hminor⟩ := count_append_inj h.mem_left hu' (by simp) (by simp) htext
      obtain ⟨rfl, rfl⟩ := count_inj h.mem_right hv'.mem_right (List.cons.inj hminor).2
      exact ⟨ha', hnear⟩
  · rintro ⟨ha, hnear⟩
    exact ⟨u, h.mem_left, a, ha, .inr ⟨v, b, h, hb, hlt, rfl, hnear⟩⟩

/-! ## Labels -/

/-- What it takes for the counts of a rounded span to tell how long it is. -/
theorem rounds_split_iff {m r : Nat} {u v : TimeUnit} (h : Below u v) :
    Rounds m (render (split u v r)) ↔ 1 ≤ r / u.size ∧
      Near u m (r / u.size * u.size + r % u.size / v.size * v.size) := by
  unfold split
  split
  · rename_i hzero
    rw [hzero, Nat.zero_mul, Nat.add_zero, ← rounds_count_iff h.mem_left]
    rfl
  · rename_i hminor
    have hlt : r % u.size / v.size * v.size < u.size :=
      Nat.lt_of_le_of_lt (Nat.div_mul_le_self _ _)
        (Nat.mod_lt _ (size_pos_of_mem h.mem_left))
    rw [← rounds_pair_iff h (Nat.pos_of_ne_zero hminor) hlt]
    exact iff_of_eq (congrArg (Rounds m) (by simp [render, toString, String.append_assoc]))

theorem near_iff {m d : Nat} {u v : TimeUnit} (h : Below u v) :
    Near u m d ↔ 2 * ((m : Int) - d).natAbs ≤ v.size := by
  constructor
  · intro hnear
    exact hnear.half v h
  · intro hhalf
    refine ⟨fun v' hv' => ?_, fun hu => ?_⟩
    · rw [hv'.right_unique h]
      exact hhalf
    · have := h.size_eq_one hu
      omega

/-- Where the smaller unit divides the larger one, counting loses nothing. -/
theorem rounds_split {m : Nat} {u v : TimeUnit} (h : Below u v) (hu : u ≠ month)
    (hm : u.size ≤ m) : Rounds m (render (split u v (nearest m v.size))) := by
  have hv := size_pos_of_mem h.mem_right
  have hle : u.size ≤ nearest m v.size := by
    have := nearest_mono hm v.size
    rwa [nearest_of_dvd hv (h.dvd hu)] at this
  have hminor : v.size ∣ nearest m v.size % u.size :=
    (Nat.dvd_mod_iff (h.dvd hu)).2 (dvd_nearest m v.size)
  rw [rounds_split_iff h, Nat.div_mul_cancel hminor, Nat.div_add_mod', near_iff h]
  exact ⟨Nat.div_pos hle (size_pos_of_mem h.mem_left), natAbs_sub_nearest hv⟩

/-- Months and weeks tell how long a span of months is, unless it is skewed. -/
theorem rounds_month_iff {m : Nat} (h : month.size ≤ m) (hy : m < year.size) :
    Rounds m (render (split month week (nearest m week.size))) ↔ ¬ Skewed m := by
  have hbelow : Below month week := by decide
  have hle := nearest_le_add m week.size
  have hlt := lt_nearest_add (m := m) (size_pos_of_mem hbelow.mem_right)
  rw [rounds_split_iff hbelow, near_iff hbelow, Skewed]
  simp only [month, week, year] at h hy hle hlt ⊢
  omega

theorem render_count (a : Nat) (u : TimeUnit) : render [(a, u)] = toString a ++ u.label := by
  simp [render, toString]

/-- Only nothing is told as no milliseconds. -/
theorem eq_of_render_count {a : Nat} {u : TimeUnit} (hu : u ∈ units)
    (h : render [(a, u)] = "0ms") : a = 0 ∧ u = millisecond := by
  rw [render_count] at h
  exact count_inj hu (by decide) (congrArg String.toList h)

theorem render_split_ne {u v : TimeUnit} (h : Below u v) (r : Nat) :
    render (split u v r) ≠ "0ms" := by
  intro htext
  unfold split at htext
  split at htext
  · exact h.ne_millisecond (eq_of_render_count h.mem_left htext).2
  · have htext := congrArg String.toList htext
    have hpair : (render [(r / u.size, u), (r % u.size / v.size, v)]).toList
        = count (r / u.size) u ++ ' ' :: count (r % u.size / v.size) v := by
      simp [render, count, toString]
    rw [hpair] at htext
    exact count_ne_pair (u := millisecond) (a := 0) (by decide) h.mem_left htext.symm

theorem not_skewed {m : Nat} {u : TimeUnit} (h : Leads m u) (hu : u ≠ month) : ¬ Skewed m :=
  fun hskewed => hu (h.unique (leads_month hskewed.1 hskewed.2.1))

/-- The label of a span that is not empty, by the ways in which it may be told. -/
theorem rounds_parts_iff {m : Nat} (hpos : 0 < m) :
    render (parts m) ≠ "0ms" ∧ (Rounds m (render (parts m)) ↔ ¬ Skewed m) := by
  obtain ⟨u, hm, ⟨rfl, hparts⟩ | ⟨v, huv, ⟨hcarry, hparts⟩ | ⟨w, hwu, hcarry, hparts⟩⟩⟩ :=
    parts_cases hpos
  · -- milliseconds
    rw [hparts]
    refine ⟨fun h => ?_, iff_of_true ?_ (not_skewed hm (by decide))⟩
    · have := (eq_of_render_count hm.mem h).1
      omega
    · rw [render_count, rounds_count_iff hm.mem]
      refine ⟨hpos, fun v hv => absurd rfl hv.ne_millisecond, fun _ => Nat.mul_one m⟩
  · -- two units
    rw [hparts]
    refine ⟨render_split_ne huv _, ?_⟩
    by_cases hu : u = month
    · subst hu
      obtain rfl : v = week := huv.right_unique (by decide)
      exact rounds_month_iff hm.le (hm.lt year (by decide) (by decide))
    · exact iff_of_true (rounds_split huv hu hm.le) (not_skewed hm hu)
  · -- one of the next larger unit
    obtain ⟨hu, hround, hone⟩ := parts_of_carry hm hwu huv hcarry
    rw [hparts, hone]
    refine ⟨fun h => ?_, iff_of_true ?_ (not_skewed hm hu)⟩
    · have := (eq_of_render_count hwu.mem_left h).1
      omega
    · rw [render_count, rounds_count_iff hwu.mem_left, Nat.one_mul, near_iff hwu, ← hround]
      have := natAbs_sub_nearest (m := m) (size_pos_of_mem huv.mem_right)
      have := huv.size_lt
      exact ⟨Nat.le_refl 1, by omega⟩

/-- **Labels are rounded to their smaller unit, months aside.** A label is `0ms` just for spans that
are not positive. Every other one counts a unit, and perhaps the unit below it, and differs from the
span by half of the smaller unit at most, just where the span is not skewed. -/
theorem rounds_label_iff (ms : Int) : (label ms = "0ms" ↔ ms.toNat = 0) ∧
    (Rounds ms.toNat (label ms) ↔ 0 < ms.toNat ∧ ¬ Skewed ms.toNat) := by
  unfold label
  generalize ms.toNat = m
  rcases Nat.eq_zero_or_pos m with rfl | hpos
  · have htext : render (parts 0) = "0ms" := by
      rw [parts_zero, render_count]
      rfl
    have hnone : ¬ Rounds 0 (render (parts 0)) := by
      rw [parts_zero, render_count, rounds_count_iff (by decide)]
      omega
    exact ⟨iff_of_true htext rfl, iff_of_false hnone fun h => Nat.lt_irrefl 0 h.1⟩
  · obtain ⟨hne, hiff⟩ := rounds_parts_iff hpos
    refine ⟨iff_of_false hne (Nat.ne_of_gt hpos), hiff.trans ?_⟩
    simp [hpos]

/-- A month of 2629800000 milliseconds is told as `0mo 4w`. -/
theorem not_rounds_label_month : 0 < (2629800000 : Int).toNat ∧ label 2629800000 = "0mo 4w" ∧
    ¬ Rounds (2629800000 : Int).toNat (label 2629800000) := by
  have hlead : lead? 2629800000 = some ⟨some year, month, some week⟩ := rfl
  have hparts : parts (2629800000 : Int).toNat = split month week (nearest 2629800000 week.size) :=
    (parts_of_lead? hlead).trans (if_neg (by decide))
  refine ⟨by decide, ?_, ?_⟩
  · rw [label, hparts]
    decide
  · rw [label, hparts, rounds_split_iff (by decide)]
    exact fun h => absurd h.1 (by decide)

end PipelineLens.Span
