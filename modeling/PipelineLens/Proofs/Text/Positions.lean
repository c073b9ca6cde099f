import Mathlib.Data.List.TakeWhile
import PipelineLens.Text.Lines
/-!
# Positions in the units of a text

`TextUnit.units` writes a text out as the units that offsets count: its characters, or the code
units of its UTF-16 form. The line and the column of an offset are then what one counts in the units
before it, the line feeds among them and the units since the last one. A line table finds just these
and goes back from them, for the offsets and the positions of the text and for no others
(`position?_eq_placeAfter`).
-/
namespace PipelineLens

/-- The unit that ends a line. -/
def lineFeed : Nat := 10

namespace TextUnit

/-- The units of a character, as numbers. In UTF-16 a character beyond the first 65536 takes two. -/
def encode : TextUnit → Char → List Nat
  | char, c => [c.toNat]
  | utf16, c =>
    if c.toNat < 0x10000 then [c.toNat]
    else [0xD800 + (c.toNat - 0x10000) / 0x400, 0xDC00 + (c.toNat - 0x10000) % 0x400]

/-- The units of a text. -/
def units (unit : TextUnit) (text : String) : List Nat := text.toList.flatMap unit.encode

theorem length_encode (unit : TextUnit) (c : Char) : (unit.encode c).length = unit.width c := by
  cases unit with
  | char => rfl
  | utf16 =>
    simp only [encode, width]
    split <;> rfl

theorem encode_lineFeed (unit : TextUnit) : unit.encode '\n' = [lineFeed] := by
  cases unit <;> rfl

/-- No other character has a line feed among its units. -/
theorem lineFeed_not_mem_encode (unit : TextUnit) {c : Char} (hc : c ≠ '\n') :
    lineFeed ∉ unit.encode c := by
  have hne : c.toNat ≠ 10 := fun h => hc (Char.toNat_inj.1 h)
  cases unit with
  | char => simpa [encode, lineFeed] using hne.symm
  | utf16 =>
    simp only [encode, lineFeed]
    split
    · simpa using hne.symm
    · simp only [List.mem_cons, List.not_mem_nil, or_false]
      omega

end TextUnit

/-! ## Lines and places -/

/-- The lines that units make up. -/
def linesOf (us : List Nat) : List (List Nat) := us.splitOn lineFeed

/-- The place behind some units: how many line feeds there are, and how many units behind the last
of them. -/
def placeAfter (us : List Nat) : Position :=
  ⟨us.count lineFeed, (us.reverse.takeWhile (· ≠ lineFeed)).length⟩

/-- What holds of a single line, and of a line before further ones, holds of all units. -/
theorem linesInduction {P : List Nat → Prop} (last : ∀ line, lineFeed ∉ line → P line)
    (next : ∀ line us, lineFeed ∉ line → P us → P (line ++ lineFeed :: us)) (us : List Nat) :
    P us := by
  induction hn : us.length using Nat.strong_induction_on generalizing us with
  | h n ih =>
    by_cases hmem : lineFeed ∈ us
    · obtain ⟨line, rest, rfl, hline⟩ := List.eq_append_cons_of_mem hmem
      refine next line rest hline (ih rest.length ?_ rest rfl)
      rw [← hn, List.length_append, List.length_cons]
      omega
    · exact last us hmem

section
variable {line : List Nat} (h : lineFeed ∉ line) (us : List Nat)
include h

theorem linesOf_last : linesOf line = [line] := List.splitOn_eq_singleton h

theorem linesOf_next : linesOf (line ++ lineFeed :: us) = line :: linesOf us :=
  List.splitOn_append_cons_self_of_not_mem h us

/-- Units before the first line feed lengthen the first line. -/
theorem linesOf_append : linesOf (line ++ us) = (linesOf us).modifyHead (line ++ ·) := by
  have hmem : ∀ {first : List Nat}, lineFeed ∉ first → lineFeed ∉ line ++ first :=
    fun hfirst hm => (List.mem_append.1 hm).elim h hfirst
  induction us using linesInduction with
  | last first hfirst => rw [linesOf_last (hmem hfirst), linesOf_last hfirst, List.modifyHead_cons]
  | next first us hfirst _ =>
    rw [← List.append_assoc, linesOf_next (hmem hfirst), linesOf_next hfirst, List.modifyHead_cons]

theorem takeWhile_reverse_line : line.reverse.takeWhile (· ≠ lineFeed) = line.reverse := by
  rw [List.takeWhile_eq_self_iff]
  intro u hu
  have hu : u ∈ line := by simpa using hu
  simpa using fun heq : u = lineFeed => h (heq ▸ hu)

theorem placeAfter_last : placeAfter line = ⟨0, line.length⟩ := by
  rw [placeAfter, takeWhile_reverse_line h, List.length_reverse, List.count_eq_zero.2 h]

/-- Behind a whole line the next one starts over. -/
theorem placeAfter_next :
    placeAfter (line ++ lineFeed :: us) = ⟨(placeAfter us).line + 1, (placeAfter us).column⟩ := by
  have hcount : line.count lineFeed = 0 := List.count_eq_zero.2 h
  have htake : (line ++ lineFeed :: us).reverse.takeWhile (· ≠ lineFeed)
      = us.reverse.takeWhile (· ≠ lineFeed) := by
    rw [List.reverse_append, List.reverse_cons, List.append_assoc, List.takeWhile_append]
    split
    · rename_i hall
      rw [List.singleton_append, List.takeWhile_cons_of_neg (by simp), List.append_nil]
      exact ((List.takeWhile_prefix _).eq_of_length hall).symm
    · rfl
  simp only [placeAfter, htake, List.count_append, List.count_cons_self, hcount, Nat.zero_add]

theorem placeAfter_take_line {offset : Nat} (hle : offset ≤ line.length) :
    placeAfter (line.take offset) = ⟨0, offset⟩ := by
  rw [placeAfter_last fun hmem => h (List.mem_of_mem_take hmem), List.length_take,
    Nat.min_eq_left hle]

theorem placeAfter_take_next (rest : Nat) :
    placeAfter ((line ++ lineFeed :: us).take (line.length + 1 + rest))
      = ⟨(placeAfter (us.take rest)).line + 1, (placeAfter (us.take rest)).column⟩ := by
  rw [← placeAfter_next h, show line.length + 1 + rest = line.length + (rest + 1) by omega,
    List.take_length_add_append, List.take_succ_cons]

end

/-- The text has the line, and the line reaches up to the column. -/
def HasPlace (us : List Nat) (p : Position) : Prop :=
  p.line ≤ us.count lineFeed ∧ p.column ≤ ((linesOf us).getD p.line []).length

theorem linesOf_ne_nil (us : List Nat) : linesOf us ≠ [] := List.splitOn_ne_nil _ _

theorem length_linesOf (us : List Nat) : (linesOf us).length = us.count lineFeed + 1 := by
  induction us using linesInduction with
  | last line h => rw [linesOf_last h, List.count_eq_zero.2 h, List.length_singleton]
  | next line us h ih =>
    rw [linesOf_next h, List.length_cons, ih, List.count_append, List.count_eq_zero.2 h,
      List.count_cons_self, Nat.zero_add]

/-! ## The starts of lines -/

theorem le_of_mem_lineStarts {start s : Nat} {lengths : List Nat}
    (hs : s ∈ lineStarts start lengths) : start ≤ s := by
  induction lengths generalizing start with
  | nil => simp [lineStarts] at hs
  | cons n ns ih =>
    rcases List.mem_cons.1 hs with rfl | hs
    · exact Nat.le_refl _
    · have := ih hs
      omega

/-- A line starts behind the line feed of every line before it. -/
theorem lineStarts_lt {start i j si sj n : Nat} {lengths : List Nat} (hij : i < j)
    (hsi : (lineStarts start lengths)[i]? = some si) (hn : lengths[i]? = some n)
    (hsj : (lineStarts start lengths)[j]? = some sj) : si + n < sj := by
  induction lengths generalizing start i j with
  | nil => simp at hn
  | cons m ms ih =>
    obtain ⟨j, rfl⟩ : ∃ k, j = k + 1 := ⟨j - 1, by omega⟩
    rw [lineStarts, List.getElem?_cons_succ] at hsj
    cases i with
    | zero =>
      obtain rfl : start = si := by simpa [lineStarts] using hsi
      obtain rfl : m = n := by simpa using hn
      have := le_of_mem_lineStarts (List.mem_of_getElem? hsj)
      omega
    | succ i =>
      rw [lineStarts, List.getElem?_cons_succ] at hsi
      exact ih (by omega) hsi (by simpa using hn) hsj

/-- Where the first line starts only shifts the others. -/
theorem lineStarts_add (start k : Nat) (lengths : List Nat) :
    lineStarts (start + k) lengths = (lineStarts start lengths).map (· + k) := by
  induction lengths generalizing start with
  | nil => rfl
  | cons n ns ih =>
    rw [lineStarts, lineStarts, List.map_cons, ← ih]
    congr 2
    omega

theorem length_lineStarts (start : Nat) (lengths : List Nat) :
    (lineStarts start lengths).length = lengths.length := by
  induction lengths generalizing start with
  | nil => rfl
  | cons n ns ih => rw [lineStarts, List.length_cons, List.length_cons, ih]

namespace LineTable

variable {t : LineTable} {p : Position} {offset : Nat}

/-- The offset is that of the place, which lies in a line or at its end. -/
def OnLine (t : LineTable) (p : Position) (offset : Nat) : Prop :=
  ∃ start n, t.starts[p.line]? = some start ∧ t.lengths[p.line]? = some n ∧ p.column ≤ n ∧
    offset = start + p.column

theorem getElem?_starts (t : LineTable) (line : Nat) :
    t.starts[line]? = (lineStarts 0 t.lengths)[line]? := by
  rw [← t.starts_eq, Array.getElem?_toList]

theorem size_starts (t : LineTable) : t.starts.size = t.lineCount := by
  rw [← Array.length_toList, t.starts_eq, length_lineStarts, lineCount]

theorem offset?_eq_ok {line column : Nat} :
    t.offset? line column = .ok offset ↔ t.OnLine ⟨line, column⟩ offset := by
  unfold offset? OnLine
  cases t.starts[line]? with
  | none => simp
  | some start =>
    cases t.lengths[line]? with
    | none => simp
    | some n =>
      by_cases hcolumn : column ≤ n
      · simp [hcolumn, eq_comm]
      · simp [hcolumn]

theorem offset?_eq_error {line column : Nat} {e : Error} :
    t.offset? line column = .error e ↔
      (¬ ∃ offset, t.OnLine ⟨line, column⟩ offset) ∧ e = .position line column := by
  simp only [← offset?_eq_ok]
  unfold offset?
  cases t.starts[line]? with
  | none => simp [eq_comm]
  | some start =>
    cases t.lengths[line]? with
    | none => simp [eq_comm]
    | some n =>
      by_cases hcolumn : column ≤ n
      · simp [hcolumn]
      · simp [hcolumn, eq_comm]

theorem start_lt {i j si sj n : Nat} (hij : i < j) (hsi : t.starts[i]? = some si)
    (hn : t.lengths[i]? = some n) (hsj : t.starts[j]? = some sj) : si + n < sj := by
  rw [getElem?_starts] at hsi hsj
  exact lineStarts_lt hij hsi hn hsj

/-- The lines that start up to an offset are its own and those before it. -/
theorem startsUpTo_eq (h : t.OnLine p offset) : t.startsUpTo offset = p.line + 1 := by
  obtain ⟨start, n, hstart, hn, hcolumn, rfl⟩ := h
  have hline : p.line < t.starts.size := (Array.getElem?_eq_some_iff.1 hstart).1
  refine borderFrom_eq (Nat.zero_le _) hline (fun i hi => ?_) fun i hi hlt => ?_
  · have hsize : i < t.starts.size := by omega
    have hsi := Array.getElem?_eq_getElem hsize
    have hle : t.starts[i] ≤ start := by
      rcases Nat.lt_succ_iff_lt_or_eq.1 hi with hi | rfl
      · have hni := List.getElem?_eq_getElem (l := t.lengths) (size_starts t ▸ hsize)
        have := start_lt hi hsi hni hstart
        omega
      · rw [hstart] at hsi
        exact (Option.some.inj hsi).ge
    simp only [hsi, Option.any_some, decide_eq_true_eq]
    omega
  · have hsi := Array.getElem?_eq_getElem hi
    have := start_lt hlt hstart hn hsi
    simp only [hsi, Option.any_some, decide_eq_false_iff_not]
    omega

theorem position?_of_onLine (h : t.OnLine p offset) (hsize : offset ≤ t.size) :
    t.position? offset = .ok p := by
  have hline := startsUpTo_eq h
  obtain ⟨start, n, hstart, -, -, rfl⟩ := h
  simp only [position?, Nat.not_lt.2 hsize, if_false, hline, Nat.add_sub_cancel,
    Array.getD_eq_getD_getElem?, hstart, Option.getD_some, Nat.add_sub_cancel_left]

theorem position?_eq_error {e : Error} :
    t.position? offset = .error e ↔ t.size < offset ∧ e = .offset offset := by
  unfold position?
  split
  · rename_i hlt
    simp [hlt, eq_comm]
  · rename_i hle
    simp [hle]

/-! ## One line after the other -/

theorem onLine_nil : ¬ (ofLengths []).OnLine p offset := by
  rintro ⟨start, n, -, hn, -, -⟩
  simp [ofLengths] at hn

/-- A place is on the first line, or on one of the lines behind it. -/
theorem onLine_cons {n : Nat} {ns : List Nat} :
    (ofLengths (n :: ns)).OnLine p offset ↔ (p = ⟨0, offset⟩ ∧ offset ≤ n) ∨
      ∃ q rest, p = ⟨q.line + 1, q.column⟩ ∧ offset = n + 1 + rest ∧
        (ofLengths ns).OnLine q rest := by
  have hshift : lineStarts (0 + n + 1) ns = (lineStarts 0 ns).map (· + (n + 1)) :=
    lineStarts_add 0 (n + 1) ns
  obtain ⟨line, column⟩ := p
  simp only [OnLine, ofLengths, List.getElem?_toArray]
  constructor
  · rintro ⟨start, m, hstart, hm, hcolumn, rfl⟩
    cases line with
    | zero =>
      obtain rfl : 0 = start := by simpa [lineStarts] using hstart
      obtain rfl : n = m := by simpa using hm
      exact .inl ⟨by rw [Nat.zero_add], by simpa using hcolumn⟩
    | succ line =>
      rw [lineStarts, List.getElem?_cons_succ, hshift, List.getElem?_map,
        Option.map_eq_some_iff] at hstart
      obtain ⟨below, hbelow, rfl⟩ := hstart
      exact .inr ⟨⟨line, column⟩, below + column, rfl, by omega, below, m, hbelow, hm, hcolumn, rfl⟩
  · rintro (⟨hp, hle⟩ | ⟨q, rest, hp, rfl, below, m, hbelow, hm, hcolumn, rfl⟩)
    · cases hp
      exact ⟨0, n, rfl, rfl, hle, (Nat.zero_add _).symm⟩
    · cases hp
      refine ⟨below + (n + 1), m, ?_, hm, hcolumn, by omega⟩
      rw [lineStarts, List.getElem?_cons_succ, hshift, List.getElem?_map, hbelow, Option.map_some]

theorem size_ofLengths_singleton (n : Nat) : (ofLengths [n]).size = n := by
  simp [size, ofLengths, lineStarts]

theorem size_ofLengths_cons (n : Nat) {ns : List Nat} (hns : ns ≠ []) :
    (ofLengths (n :: ns)).size = n + 1 + (ofLengths ns).size := by
  have hshift : lineStarts (0 + n + 1) ns = (lineStarts 0 ns).map (· + (n + 1)) :=
    lineStarts_add 0 (n + 1) ns
  have hstarts : lineStarts 0 ns ≠ [] := by
    rw [← List.length_pos_iff, length_lineStarts]
    exact List.length_pos_iff.2 hns
  simp only [size, ofLengths, lineStarts, List.back?_toArray, hshift]
  rw [List.getLast?_cons_of_ne_nil (by simpa using hstarts), List.getLast?_cons_of_ne_nil hns,
    List.getLast?_map, List.getLast?_eq_some_getLast hstarts, List.getLast?_eq_some_getLast hns]
  simp only [Option.map_some]
  omega

/-! ## The table of a text -/

/-- The table of the lines that units make up. -/
def ofUnits (us : List Nat) : LineTable := ofLengths ((linesOf us).map (·.length))

theorem size_ofUnits (us : List Nat) : (ofUnits us).size = us.length := by
  unfold ofUnits
  induction us using linesInduction with
  | last line h => rw [linesOf_last h, List.map_singleton, size_ofLengths_singleton]
  | next line us h ih =>
    rw [linesOf_next h, List.map_cons, size_ofLengths_cons _ (by simpa using linesOf_ne_nil us), ih,
      List.length_append, List.length_cons]
    omega

/-- **A place is on a line just when it is the one behind the units before its offset.** -/
theorem onLine_ofUnits {us : List Nat} :
    (ofUnits us).OnLine p offset ↔ offset ≤ us.length ∧ p = placeAfter (us.take offset) := by
  unfold ofUnits
  induction us using linesInduction generalizing p offset with
  | last line h =>
    rw [linesOf_last h, List.map_singleton, onLine_cons]
    constructor
    · rintro (⟨rfl, hle⟩ | ⟨q, rest, -, -, hnil⟩)
      · exact ⟨hle, (placeAfter_take_line h hle).symm⟩
      · exact absurd hnil onLine_nil
    · rintro ⟨hle, rfl⟩
      exact .inl ⟨placeAfter_take_line h hle, hle⟩
  | next line us h ih =>
    rw [linesOf_next h, List.map_cons, onLine_cons]
    simp only [ih, List.length_append, List.length_cons]
    constructor
    · rintro (⟨rfl, hle⟩ | ⟨q, rest, rfl, rfl, hrest, rfl⟩)
      · refine ⟨by omega, ?_⟩
        rw [List.take_append_of_le_length hle, placeAfter_take_line h hle]
      · exact ⟨by omega, (placeAfter_take_next h us rest).symm⟩
    · rintro ⟨hle, rfl⟩
      by_cases hline : offset ≤ line.length
      · rw [List.take_append_of_le_length hline]
        exact .inl ⟨placeAfter_take_line h hline, hline⟩
      · obtain ⟨rest, rfl⟩ : ∃ rest, offset = line.length + 1 + rest :=
          ⟨offset - (line.length + 1), by omega⟩
        exact .inr ⟨placeAfter (us.take rest), rest, placeAfter_take_next h us rest, rfl,
          by omega, rfl⟩

theorem exists_onLine_iff :
    (∃ offset, t.OnLine p offset) ↔ ∃ n, t.lengths[p.line]? = some n ∧ p.column ≤ n := by
  constructor
  · rintro ⟨offset, start, n, -, hn, hcolumn, -⟩
    exact ⟨n, hn, hcolumn⟩
  · rintro ⟨n, hn, hcolumn⟩
    have hline : p.line < t.starts.size := by
      rw [size_starts]
      exact (List.getElem?_eq_some_iff.1 hn).1
    exact ⟨_, _, n, Array.getElem?_eq_getElem hline, hn, hcolumn, rfl⟩

theorem exists_onLine_ofUnits {us : List Nat} :
    (∃ offset, (ofUnits us).OnLine p offset) ↔ HasPlace us p := by
  rw [exists_onLine_iff]
  unfold HasPlace
  simp only [ofUnits, ofLengths, List.getElem?_map, Option.map_eq_some_iff]
  constructor
  · rintro ⟨_, ⟨line, hline, rfl⟩, hcolumn⟩
    have hlt := (List.getElem?_eq_some_iff.1 hline).1
    rw [length_linesOf] at hlt
    rw [List.getD_eq_getElem?_getD, hline]
    exact ⟨Nat.le_of_lt_succ hlt, hcolumn⟩
  · rintro ⟨hline, hcolumn⟩
    have hlt : p.line < (linesOf us).length := by
      rw [length_linesOf]
      omega
    rw [List.getD_eq_getElem?_getD, List.getElem?_eq_getElem hlt] at hcolumn
    exact ⟨_, ⟨_, List.getElem?_eq_getElem hlt, rfl⟩, hcolumn⟩

theorem position?_ofUnits {us : List Nat} (hle : offset ≤ us.length) :
    (ofUnits us).position? offset = .ok (placeAfter (us.take offset)) :=
  position?_of_onLine (onLine_ofUnits.2 ⟨hle, rfl⟩) (by rwa [size_ofUnits])

theorem position?_eq_ok {us : List Nat} :
    (ofUnits us).position? offset = .ok p ↔ (ofUnits us).OnLine p offset := by
  rw [onLine_ofUnits]
  constructor
  · intro h
    have hle : offset ≤ us.length := by
      refine Nat.le_of_not_lt fun hlt => ?_
      rw [position?_eq_error.2 ⟨by rwa [size_ofUnits], rfl⟩] at h
      cases h
    rw [position?_ofUnits hle] at h
    exact ⟨hle, (Except.ok.inj h).symm⟩
  · rintro ⟨hle, rfl⟩
    exact position?_ofUnits hle

theorem measure_eq (unit : TextUnit) (cs : List Char) :
    measure unit cs = (linesOf (cs.flatMap unit.encode)).map (·.length) := by
  induction cs with
  | nil => rfl
  | cons c cs ih =>
    rw [measure, ih, List.flatMap_cons]
    by_cases hc : c = '\n'
    · subst hc
      rw [if_pos rfl, unit.encode_lineFeed, List.singleton_append,
        ← List.nil_append (lineFeed :: _), linesOf_next List.not_mem_nil, List.map_cons,
        List.length_nil]
    · rw [if_neg hc, linesOf_append (unit.lineFeed_not_mem_encode hc), ← unit.length_encode]
      cases hlines : linesOf (cs.flatMap unit.encode) with
      | nil => exact absurd hlines (linesOf_ne_nil _)
      | cons first rest => simp

theorem ofText_eq (unit : TextUnit) (text : String) :
    ofText unit text = ofUnits (unit.units text) := by
  rw [ofText, measure_eq]
  rfl

/-- **The places and the offsets of a text determine each other.** An offset up to the length of the
text has the place that one counts in the units before it, and the search for its line finds a line.
A place has an offset just when the text has the place, and both ways undo each other. All else is
refused with what was asked for. -/
theorem position?_eq_placeAfter (unit : TextUnit) (text : String) :
    let t := ofText unit text
    let us := unit.units text
    t.size = us.length ∧
    (∀ offset ≤ us.length, t.position? offset = .ok (placeAfter (us.take offset)) ∧
      0 < t.startsUpTo offset ∧ t.startsUpTo offset ≤ t.lineCount) ∧
    (∀ line column, (∃ offset, t.offset? line column = .ok offset) ↔ HasPlace us ⟨line, column⟩) ∧
    (∀ line column offset, t.offset? line column = .ok offset → offset ≤ t.size) ∧
    (∀ line column offset, t.offset? line column = .ok offset ↔
      t.position? offset = .ok ⟨line, column⟩) ∧
    (∀ offset e, t.position? offset = .error e ↔ t.size < offset ∧ e = .offset offset) ∧
    ∀ line column e, t.offset? line column = .error e ↔
      ¬ HasPlace us ⟨line, column⟩ ∧ e = .position line column := by
  intro t us
  have ht : t = ofUnits us := ofText_eq unit text
  have hsize : t.size = us.length := ht ▸ size_ofUnits us
  refine ⟨hsize, fun offset hle => ?_, fun line column => ?_, fun line column offset h => ?_,
    fun line column offset => ?_, fun offset e => position?_eq_error, fun line column e => ?_⟩
  · have hline : t.OnLine (placeAfter (us.take offset)) offset :=
      ht ▸ onLine_ofUnits.2 ⟨hle, rfl⟩
    refine ⟨ht ▸ position?_ofUnits hle, ?_⟩
    rw [startsUpTo_eq hline]
    obtain ⟨start, n, -, hn, -, -⟩ := hline
    exact ⟨Nat.succ_pos _, (List.getElem?_eq_some_iff.1 hn).1⟩
  · simp only [offset?_eq_ok, ht, exists_onLine_ofUnits]
  · rw [offset?_eq_ok, ht, onLine_ofUnits] at h
    exact hsize ▸ h.1
  · rw [offset?_eq_ok, ht, position?_eq_ok]
  · rw [offset?_eq_error, ht, exists_onLine_ofUnits]

end LineTable

end PipelineLens
