import PipelineLens.Proofs.Time.Labels
/-!
# Spans in words of 64 bits

A span comes as a signed word and is split in unsigned ones, pass after pass. Nothing counts the
passes, and a pass that carries into the next larger unit makes the span longer. `Runs` is this loop
with an arithmetic that stops where a sum or a product fits in no word and where a divisor is zero.
Every span has exactly one run, which ends in the label of the span. It carries at most once, to
exactly one of the larger unit (`carries_once`).
-/
namespace PipelineLens

/-! ## Arithmetic that stops -/

namespace Word

def add? (x y : UInt64) : Option UInt64 :=
  if x.toNat + y.toNat < UInt64.size then some (x + y) else none

def mul? (x y : UInt64) : Option UInt64 :=
  if x.toNat * y.toNat < UInt64.size then some (x * y) else none

def div? (x y : UInt64) : Option UInt64 := if y = 0 then none else some (x / y)

def mod? (x y : UInt64) : Option UInt64 := if y = 0 then none else some (x % y)

variable {x y : UInt64}

theorem exists_add? (h : x.toNat + y.toNat < UInt64.size) :
    ∃ z, add? x y = some z ∧ z.toNat = x.toNat + y.toNat :=
  ⟨x + y, if_pos h, by rw [UInt64.toNat_add, Nat.mod_eq_of_lt h]⟩

theorem exists_mul? (h : x.toNat * y.toNat < UInt64.size) :
    ∃ z, mul? x y = some z ∧ z.toNat = x.toNat * y.toNat :=
  ⟨x * y, if_pos h, by rw [UInt64.toNat_mul, Nat.mod_eq_of_lt h]⟩

theorem exists_div? (x : UInt64) (h : y ≠ 0) :
    ∃ z, div? x y = some z ∧ z.toNat = x.toNat / y.toNat :=
  ⟨x / y, if_neg h, UInt64.toNat_div x y⟩

theorem exists_mod? (x : UInt64) (h : y ≠ 0) :
    ∃ z, mod? x y = some z ∧ z.toNat = x.toNat % y.toNat :=
  ⟨x % y, if_neg h, UInt64.toNat_mod x y⟩

end Word

namespace Span
open Word

/-! ## One pass -/

def TimeUnit.word (u : TimeUnit) : UInt64 := .ofNat u.size

/-- The multiple of `size` nearest to `total`, by words. -/
def nearest? (total size : UInt64) : Option UInt64 := do
  let half ← div? size 2
  let sum ← add? total half
  let count ← div? sum size
  mul? count size

/-- A rounded span as counts of a unit and the one below it, by words. -/
def split? (u v : TimeUnit) (rounded : UInt64) : Option (List (UInt64 × TimeUnit)) := do
  let major ← div? rounded u.word
  let rest ← mod? rounded u.word
  let minor ← div? rest v.word
  some ((major, u) :: if minor = 0 then [] else [(minor, v)])

/-- One pass over a span, by words. -/
def pass? (total : UInt64) : Option (Pass UInt64) :=
  match lead? total.toNat with
  | none => some (.done [(0, millisecond)])
  | some l =>
    match l.below with
    | none => some (.done [(total, l.unit)])
    | some v => do
      let rounded ← nearest? total v.word
      if l.above.any fun w => w.size ≤ rounded.toNat then some (.again rounded)
      else (split? l.unit v rounded).map .done

/-- The numbers of counts by words. -/
def plain (counts : List (UInt64 × TimeUnit)) : List (Nat × TimeUnit) :=
  counts.map fun c => (c.1.toNat, c.2)

/-- What a pass by words comes to in numbers. -/
def Pass.plain : Pass UInt64 → Pass Nat
  | done counts => .done (Span.plain counts)
  | again rounded => .again rounded.toNat

theorem size_le_year {u : TimeUnit} (h : u ∈ units) : u.size ≤ year.size := by
  have hall : ∀ u ∈ units, u.size ≤ year.size := by decide
  exact hall u h

theorem toNat_word {u : TimeUnit} (h : u ∈ units) : u.word.toNat = u.size := by
  have hle := size_le_year h
  have hyear : year.size < UInt64.size := by decide
  exact UInt64.toNat_ofNat_of_lt' (Nat.lt_of_le_of_lt hle hyear)

theorem word_ne_zero {u : TimeUnit} (h : u ∈ units) : u.word ≠ 0 := by
  intro hzero
  have hpos := size_pos_of_mem h
  rw [← toNat_word h, hzero] at hpos
  exact absurd hpos (by decide)

/-- Below half of all words there is room for rounding. -/
theorem exists_nearest? {total : UInt64} {v : TimeUnit} (hv : v ∈ units)
    (h : total.toNat < UInt64.size / 2) :
    ∃ r, nearest? total v.word = some r ∧ r.toNat = nearest total.toNat v.size := by
  have hsize := toNat_word hv
  have hroom : total.toNat + v.size / 2 < UInt64.size := by
    have hle := size_le_year hv
    simp only [year] at hle
    simp only [UInt64.size] at h ⊢
    omega
  have htwo : (2 : UInt64).toNat = 2 := rfl
  obtain ⟨half, hhalf, hhalf'⟩ := exists_div? v.word (y := 2) (by decide)
  rw [hsize, htwo] at hhalf'
  obtain ⟨sum, hsum, hsum'⟩ := exists_add? (x := total) (y := half) (by rwa [hhalf'])
  obtain ⟨count, hcount, hcount'⟩ := exists_div? sum (word_ne_zero hv)
  have hround : count.toNat * v.word.toNat = nearest total.toNat v.size := by
    rw [hcount', hsum', hhalf', hsize, nearest]
  obtain ⟨r, hr, hr'⟩ := exists_mul? (x := count) (y := v.word) (by
    rw [hround]
    exact Nat.lt_of_le_of_lt (nearest_le_add _ _) hroom)
  refine ⟨r, ?_, hr'.trans hround⟩
  simp [nearest?, hhalf, hsum, hcount, hr]

theorem exists_split? {u v : TimeUnit} (hu : u ∈ units) (hv : v ∈ units) (rounded : UInt64) :
    ∃ counts, split? u v rounded = some counts ∧ plain counts = split u v rounded.toNat := by
  obtain ⟨major, hmajor, hmajor'⟩ := exists_div? rounded (word_ne_zero hu)
  obtain ⟨rest, hrest, hrest'⟩ := exists_mod? rounded (word_ne_zero hu)
  obtain ⟨minor, hminor, hminor'⟩ := exists_div? rest (word_ne_zero hv)
  rw [toNat_word hu] at hmajor' hrest'
  rw [toNat_word hv, hrest'] at hminor'
  refine ⟨(major, u) :: if minor = 0 then [] else [(minor, v)], ?_, ?_⟩
  · simp [split?, hmajor, hrest, hminor]
  have hzero : minor = 0 ↔ rounded.toNat % u.size / v.size = 0 := by
    rw [← hminor', ← UInt64.toNat_inj]
    rfl
  by_cases h : minor = 0
  · rw [split, if_pos h, if_pos (hzero.1 h)]
    simp [plain, hmajor']
  · rw [split, if_neg h, if_neg (mt hzero.2 h)]
    simp [plain, hmajor', hminor']

/-- A pass by words is the pass by numbers: no sum and no product is too large, and no divisor is
zero. -/
theorem exists_pass? {total : UInt64} (h : total.toNat < UInt64.size / 2) :
    ∃ q, pass? total = some q ∧ q.plain = pass total.toNat := by
  unfold pass? pass
  cases hl : lead? total.toNat with
  | none => exact ⟨_, rfl, rfl⟩
  | some l =>
    obtain ⟨hleads, -, hbelow, -⟩ := lead?_spec hl
    obtain ⟨above, u, below⟩ := l
    cases below with
    | none => exact ⟨_, rfl, rfl⟩
    | some v =>
      have hv := (hbelow v rfl).mem_right
      obtain ⟨r, hr, hr'⟩ := exists_nearest? hv h
      obtain ⟨counts, hcounts, hcounts'⟩ := exists_split? hleads.mem hv r
      simp only [hr, Option.bind_eq_bind, Option.bind_some, hr', hcounts, Option.map_some]
      split
      · exact ⟨_, rfl, by rw [Pass.plain, hr']⟩
      · exact ⟨_, rfl, by rw [Pass.plain, hcounts', hr']⟩

section
variable {total : UInt64} (h : total.toNat < UInt64.size / 2)
include h

theorem exists_pass?_of_done {counts : List (Nat × TimeUnit)}
    (hpass : pass total.toNat = .done counts) :
    ∃ words, pass? total = some (.done words) ∧ plain words = counts := by
  obtain ⟨q, hq, hplain⟩ := exists_pass? h
  rw [hpass] at hplain
  cases q with
  | done words => exact ⟨words, hq, by simpa [Pass.plain] using hplain⟩
  | again _ => cases hplain

theorem exists_pass?_of_again {rounded : Nat} (hpass : pass total.toNat = .again rounded) :
    ∃ word, pass? total = some (.again word) ∧ word.toNat = rounded := by
  obtain ⟨q, hq, hplain⟩ := exists_pass? h
  rw [hpass] at hplain
  cases q with
  | done _ => cases hplain
  | again word => exact ⟨word, hq, by simpa [Pass.plain] using hplain⟩

end

/-! ## The loop -/

/-- The loop from `total` on starts again with each of `carries` and comes to `counts`. -/
inductive Runs : UInt64 → List UInt64 → List (UInt64 × TimeUnit) → Prop where
  | done {total : UInt64} {counts : List (UInt64 × TimeUnit)}
      (pass : pass? total = some (.done counts)) : Runs total [] counts
  | again {total rounded : UInt64} {carries : List UInt64} {counts : List (UInt64 × TimeUnit)}
      (pass : pass? total = some (.again rounded)) (rest : Runs rounded carries counts) :
      Runs total (rounded :: carries) counts

/-- A pass has one outcome, and so has the loop. -/
theorem Runs.unique {total : UInt64} {cs ds : List UInt64} {ks ls : List (UInt64 × TimeUnit)}
    (h : Runs total cs ks) (h' : Runs total ds ls) : cs = ds ∧ ks = ls := by
  induction h generalizing ds with
  | done hpass =>
    cases h' with
    | done hpass' =>
      rw [hpass] at hpass'
      cases hpass'
      exact ⟨rfl, rfl⟩
    | again hpass' _ =>
      rw [hpass] at hpass'
      cases hpass'
  | again hpass _ ih =>
    cases h' with
    | done hpass' =>
      rw [hpass] at hpass'
      cases hpass'
    | again hpass' hrest =>
      rw [hpass] at hpass'
      cases hpass'
      obtain ⟨rfl, rfl⟩ := ih hrest
      exact ⟨rfl, rfl⟩

/-- A carry comes to exactly one of the next larger unit, and the pass after it is the last. -/
theorem pass_of_again {m r : Nat} (h : pass m = .again r) :
    ∃ u w, Leads m u ∧ Below w u ∧ r = w.size ∧ pass r = .done [(1, w)] := by
  rcases Nat.eq_zero_or_pos m with rfl | hpos
  · have hzero : pass 0 = .done [(0, millisecond)] := rfl
    rw [hzero] at h
    cases h
  obtain ⟨u, hleads, ⟨-, hpass⟩ | ⟨v, huv, ⟨-, hpass⟩ | ⟨w, hwu, hcarry, hpass⟩⟩⟩ := pass_cases hpos
  · rw [hpass] at h
    cases h
  · rw [hpass] at h
    cases h
  · rw [hpass] at h
    obtain ⟨hround, hw, -⟩ := nearest_of_carry hleads hwu huv hcarry
    obtain rfl : nearest m v.size = r := by simpa using h
    exact ⟨u, w, hleads, hwu, hround, by rw [hround, pass_size hwu hw]⟩

/-- From a span below half of all words the loop comes to the parts of the span. It carries nothing,
or once from the largest unit that fits to exactly one of the next larger unit. -/
theorem exists_runs {total : UInt64} (h : total.toNat < UInt64.size / 2) : ∃ carries counts,
    Runs total carries counts ∧ plain counts = parts total.toNat ∧
    (carries = [] ∨ ∃ u w r, Leads total.toNat u ∧ Below w u ∧ carries = [r] ∧
      r.toNat = w.size ∧ plain counts = [(1, w)]) := by
  cases hpass : pass total.toNat with
  | done _ =>
    obtain ⟨counts, hrun, hcounts⟩ := exists_pass?_of_done h hpass
    exact ⟨[], counts, .done hrun, hcounts.trans (parts_of_done hpass).symm, .inl rfl⟩
  | again m =>
    obtain ⟨r, hcarry, rfl⟩ := exists_pass?_of_again h hpass
    obtain ⟨u, w, hleads, hwu, hr, hone⟩ := pass_of_again hpass
    have hsmall : r.toNat < UInt64.size / 2 := by
      have hyear := size_le_year hwu.mem_left
      simp only [year] at hyear
      simp only [UInt64.size]
      omega
    obtain ⟨counts, hrun, hcounts⟩ := exists_pass?_of_done hsmall hone
    refine ⟨[r], counts, .again hcarry (.done hrun), ?_,
      .inr ⟨u, w, r, hleads, hwu, rfl, hr, hcounts⟩⟩
    rw [hcounts, parts_of_again hpass, parts_of_done hone]

/-- The word that a span of 64 bits starts the loop with: none for a negative one. -/
def ofSpan (ms : Int64) : UInt64 := .ofNat ms.toInt.toNat

theorem toNat_ofSpan (ms : Int64) :
    (ofSpan ms).toNat = ms.toInt.toNat ∧ ms.toInt.toNat < UInt64.size / 2 := by
  have hlt : ms.toInt.toNat < UInt64.size / 2 := by
    have := ms.toInt_lt
    simp only [UInt64.size]
    omega
  exact ⟨UInt64.toNat_ofNat_of_lt' (Nat.lt_trans hlt (by decide)), hlt⟩

/-- **At most one carry, and no fault.** For every span of 64 bits the loop has exactly one run, and
it comes to the label of the span. The run carries nothing, or once from the largest unit that fits
to exactly one of the next larger unit, and this is the label then. -/
theorem carries_once (ms : Int64) : ∃ carries counts,
    (∀ cs ks, Runs (ofSpan ms) cs ks ↔ cs = carries ∧ ks = counts) ∧
    label ms.toInt = render (plain counts) ∧
    (carries = [] ∨ ∃ u w r, Leads ms.toInt.toNat u ∧ Below w u ∧ carries = [r] ∧
      r.toNat = w.size ∧ label ms.toInt = "1" ++ w.label) := by
  obtain ⟨hms, hlt⟩ := toNat_ofSpan ms
  obtain ⟨carries, counts, hrun, hparts, hcarry⟩ := exists_runs (hms ▸ hlt)
  rw [hms] at hparts hcarry
  have hlabel : label ms.toInt = render (plain counts) := by rw [label, hparts]
  refine ⟨carries, counts, fun cs ks => ⟨fun h => h.unique hrun, ?_⟩, hlabel, ?_⟩
  · rintro ⟨rfl, rfl⟩
    exact hrun
  · obtain hnone | ⟨u, w, r, hleads, hwu, hr, hsize, hone⟩ := hcarry
    · exact .inl hnone
    · refine .inr ⟨u, w, r, hleads, hwu, hr, hsize, ?_⟩
      rw [hlabel, hone, render_count]
      rfl

/-- A span just below an hour carries once. -/
example : Runs (ofSpan 3599600) [3600000] [(1, ⟨"h", 3600000⟩)] :=
  .again (by decide) (.done (by decide))

end Span

end PipelineLens
