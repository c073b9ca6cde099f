import PipelineLens.Element.Build
import PipelineLens.Text.Lines
/-!
# Parsed documents, kept by key

A cache keeps the tree and the line table of each open document together with the version of its
text, and counts how often a text had to be parsed. `get?` is the view of a cache: after `ensure`
the key has an entry for the version asked for, after `erase` it has none, and other keys are left
alone.
-/
namespace PipelineLens

/-- The text of a document, with a number that changes with every edit. -/
structure VersionedText where
  version : Int
  text : String
deriving DecidableEq, Repr

structure CacheEntry where
  version : Int
  parsed : Parsed
  lines : LineTable

namespace CacheEntry

/-- What a version of a document reads as. -/
def ofText (parse : String → Parsed) (d : VersionedText) : CacheEntry :=
  ⟨d.version, parse d.text, .ofText .char d.text⟩

/-- The elements of the documents that have some. -/
def sheets (e : CacheEntry) : List Sheet := e.parsed.documents.filterMap (·.sheet? e.parsed.tree)

/-- The innermost element at a line and a column, in the first document that has one there. -/
def elementAt (e : CacheEntry) (line column : Nat) : Except Error (Option (Sheet × Nat)) :=
  (e.lines.offset? line column).map fun pos =>
    e.sheets.findSome? fun s => (s.find? pos).map fun id => (s, id)

end CacheEntry

structure Cache (κ : Type) where
  entries : List (κ × CacheEntry)
  /-- how many texts have been parsed -/
  parses : Nat
  unique : (entries.map (·.1)).Nodup

namespace Cache

variable {κ : Type} [DecidableEq κ]

def empty : Cache κ := ⟨[], 0, by simp⟩

def size (c : Cache κ) : Nat := c.entries.length

def isEmpty (c : Cache κ) : Bool := c.entries.isEmpty

def get? (c : Cache κ) (key : κ) : Option CacheEntry :=
  (c.entries.find? fun e => e.1 = key).map (·.2)

/-- The version that is kept for a key. -/
def version? (c : Cache κ) (key : κ) : Option Int := (c.get? key).map (·.version)

/-- The entries of all other keys. -/
def others (c : Cache κ) (key : κ) : List (κ × CacheEntry) := c.entries.filter fun e => e.1 ≠ key

theorem unique_others (c : Cache κ) (key : κ) : ((c.others key).map (·.1)).Nodup :=
  c.unique.sublist (List.filter_sublist.map _)

theorem key_not_mem_others (c : Cache κ) (key : κ) : key ∉ (c.others key).map (·.1) := by
  simp [others]

def erase (c : Cache κ) (key : κ) : Cache κ := ⟨c.others key, c.parses, c.unique_others key⟩

/-- The cache after a text has been parsed, which gave the entry of a key. -/
def insert (c : Cache κ) (key : κ) (entry : CacheEntry) : Cache κ where
  entries := (key, entry) :: c.others key
  parses := c.parses + 1
  unique := List.nodup_cons.2 ⟨c.key_not_mem_others key, c.unique_others key⟩

/-- The entry of a key for a version of its document, parsed unless it is there already. -/
def ensure (parse : String → Parsed) (c : Cache κ) (key : κ) (d : VersionedText) :
    CacheEntry × Cache κ :=
  match c.get? key with
  | some entry =>
    if entry.version = d.version then (entry, c)
    else (.ofText parse d, c.insert key (.ofText parse d))
  | none => (.ofText parse d, c.insert key (.ofText parse d))

/-- Forgets a key, and says whether there was something to forget. -/
def invalidate (c : Cache κ) (key : κ) : Bool × Cache κ := ((c.get? key).isSome, c.erase key)

@[simp]
theorem get?_empty (key : κ) : (empty : Cache κ).get? key = none := rfl

theorem find?_others (c : Cache κ) (key other : κ) :
    ((c.others key).find? fun e => e.1 = other).map (·.2)
      = if key = other then none else c.get? other := by
  unfold others get?
  induction c.entries with
  | nil => simp
  | cons e es ih => grind

@[simp]
theorem get?_erase (c : Cache κ) (key other : κ) :
    (c.erase key).get? other = if key = other then none else c.get? other :=
  find?_others c key other

@[simp]
theorem get?_insert (c : Cache κ) (key other : κ) (entry : CacheEntry) :
    (c.insert key entry).get? other = if key = other then some entry else c.get? other := by
  by_cases h : key = other
  · simp [get?, insert, h]
  · have := find?_others c key other
    simpa [get?, insert, h] using this

/-! ## What `ensure` does -/

section
variable {parse : String → Parsed} {c : Cache κ} {key : κ} {d : VersionedText} {entry : CacheEntry}

theorem ensure_of_version (h : c.get? key = some entry) (hv : entry.version = d.version) :
    c.ensure parse key d = (entry, c) := by
  unfold ensure
  rw [h]
  exact if_pos hv

theorem ensure_of_ne (h : c.version? key ≠ some d.version) :
    c.ensure parse key d = (.ofText parse d, c.insert key (.ofText parse d)) := by
  unfold ensure
  cases he : c.get? key with
  | none => rfl
  | some entry =>
    have hv : entry.version ≠ d.version := by simpa [version?, he] using h
    exact if_neg hv

/-- Either the entry is there with the version asked for, or a new one is made of the text. -/
theorem ensure_cases (parse : String → Parsed) (c : Cache κ) (key : κ) (d : VersionedText) :
    (∃ entry, c.get? key = some entry ∧ entry.version = d.version ∧
      c.ensure parse key d = (entry, c)) ∨
    (c.version? key ≠ some d.version ∧
      c.ensure parse key d = (.ofText parse d, c.insert key (.ofText parse d))) := by
  by_cases h : c.version? key = some d.version
  · obtain ⟨entry, he, hv⟩ := Option.map_eq_some_iff.1 h
    exact .inl ⟨entry, he, hv, ensure_of_version he hv⟩
  · exact .inr ⟨h, ensure_of_ne h⟩

theorem version_ensure (parse : String → Parsed) (c : Cache κ) (key : κ) (d : VersionedText) :
    (c.ensure parse key d).1.version = d.version := by
  obtain ⟨entry, -, hv, heq⟩ | ⟨-, heq⟩ := ensure_cases parse c key d
  · rw [heq]
    exact hv
  · rw [heq]
    rfl

/-- The entry handed out is the one that was there, or it is what the text reads as, with the lines
of the text. -/
theorem entry_ensure (parse : String → Parsed) (c : Cache κ) (key : κ) (d : VersionedText) :
    c.get? key = some (c.ensure parse key d).1 ∨
      c.version? key ≠ some d.version ∧ (c.ensure parse key d).1.parsed = parse d.text ∧
        (c.ensure parse key d).1.lines = .ofText .char d.text := by
  obtain ⟨entry, hentry, -, heq⟩ | ⟨hne, heq⟩ := ensure_cases parse c key d
  · rw [heq]
    exact .inl hentry
  · rw [heq]
    exact .inr ⟨hne, rfl, rfl⟩

/-- The entry handed out is kept, and other keys are left alone. -/
theorem get?_ensure (parse : String → Parsed) (c : Cache κ) (key other : κ) (d : VersionedText) :
    (c.ensure parse key d).2.get? other
      = if key = other then some (c.ensure parse key d).1 else c.get? other := by
  obtain ⟨entry, he, -, heq⟩ | ⟨-, heq⟩ := ensure_cases parse c key d
  · rw [heq]
    split
    · rename_i hk
      rw [← hk, he]
    · rfl
  · rw [heq, get?_insert]

theorem parses_ensure (parse : String → Parsed) (c : Cache κ) (key : κ) (d : VersionedText) :
    (c.ensure parse key d).2.parses
      = c.parses + if c.version? key = some d.version then 0 else 1 := by
  by_cases h : c.version? key = some d.version
  · obtain ⟨entry, he, hv⟩ := Option.map_eq_some_iff.1 h
    rw [ensure_of_version he hv, if_pos h]
    rfl
  · rw [ensure_of_ne h, if_neg h]
    rfl

end

end Cache

end PipelineLens
