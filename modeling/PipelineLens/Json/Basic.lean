import Std.Data.TreeMap.Lemmas
import PipelineLens.Number.Binary64
/-!
# JSON values

Whole numbers are kept exactly, all other numbers as doubles. The fields of an object are kept in
the order of their keys and without repeats: `sorted` puts fields in that order, and of those with
one key `lookup` finds the last in it.
-/
namespace PipelineLens

namespace Json

inductive Number where
  | int (value : Int)
  | float (value : Binary64)
deriving DecidableEq, Repr

namespace Number

/-- A float is written positionally when its leading digit stands between the places -5 and 15. -/
def layout : NumberLayout := ⟨-5, 15⟩

def text : Number → String
  | int value => toString value
  | float value => String.ofList (value.render layout)

end Number

end Json

inductive Json where
  | null
  | bool (value : Bool)
  | number (value : Json.Number)
  | string (value : String)
  | array (items : List Json)
  | object (fields : List (String × Json))
deriving Repr, Inhabited

namespace Json

variable {α : Type}

/-- The value under the first field with this key. -/
def lookup : List (String × α) → String → Option α
  | [], _ => none
  | (k, v) :: rest, key => if k = key then some v else lookup rest key

/-- The fields in the order of their keys; of fields with one key the last counts. -/
def sorted (fields : List (String × α)) : List (String × α) := (Std.TreeMap.ofList fields).toList

theorem lookup_append (xs ys : List (String × α)) (key : String) :
    lookup (xs ++ ys) key = (lookup xs key).or (lookup ys key) := by
  induction xs with
  | nil => simp [lookup]
  | cons x xs ih =>
    simp only [List.cons_append, lookup, ih]
    split <;> simp

theorem lookup_eq_none {fields : List (String × α)} {key : String}
    (h : key ∉ fields.map (·.1)) : lookup fields key = none := by
  induction fields with
  | nil => rfl
  | cons f rest ih => simp_all [lookup, Ne.symm]

/-- Where no key stands twice, the first field with a key is the last one too. -/
theorem lookup_reverse {fields : List (String × α)} (h : (fields.map (·.1)).Nodup) (key : String) :
    lookup fields.reverse key = lookup fields key := by
  induction fields with
  | nil => rfl
  | cons f rest ih =>
    obtain ⟨k, v⟩ := f
    rw [List.map_cons, List.nodup_cons] at h
    rw [List.reverse_cons, lookup_append, ih h.2, lookup, lookup, lookup]
    by_cases hk : k = key
    · subst hk
      simp [lookup_eq_none h.1]
    · simp [hk]

theorem getElem?_insertMany (t : Std.TreeMap String α) (fields : List (String × α)) (key : String) :
    (t.insertMany fields)[key]? = (lookup fields.reverse key).or t[key]? := by
  induction fields generalizing t with
  | nil => simp [lookup]
  | cons f rest ih =>
    obtain ⟨k, v⟩ := f
    rw [Std.TreeMap.insertMany_cons, ih, Std.TreeMap.getElem?_insert]
    simp only [List.reverse_cons, lookup_append, lookup, Option.or_assoc,
      Std.LawfulEqCmp.compare_eq_iff_eq]
    split <;> simp

theorem lookup_toList (t : Std.TreeMap String α) (key : String) :
    lookup t.toList key = t[key]? := by
  have h : ∀ fields : List (String × α), lookup fields key
      = (fields.find? fun f => compare f.1 key == .eq).map (·.2) := by
    intro fields
    induction fields with
    | nil => rfl
    | cons f rest ih =>
      by_cases hk : f.1 = key <;> simp [lookup, hk, ih]
  rw [h]
  cases hf : t.toList.find? (fun f => compare f.1 key == .eq) with
  | none =>
    have := Std.TreeMap.find?_toList_eq_none_iff_contains_eq_false.1 hf
    simp [Std.TreeMap.getElem?_eq_none_of_contains_eq_false this]
  | some f =>
    have := Std.TreeMap.find?_toList_eq_some_iff_getKey?_eq_some_and_getElem?_eq_some.1 hf
    simp [this.2]

theorem lookup_sorted (fields : List (String × α)) (key : String) :
    lookup (sorted fields) key = lookup fields.reverse key := by
  rw [sorted, lookup_toList, Std.TreeMap.ofList_eq_insertMany_empty, getElem?_insertMany]
  simp

/-- The object with the given fields; of fields with one key the last counts. -/
def ofFields (fields : List (String × Json)) : Json := object (sorted fields)

def ofNat (n : Nat) : Json := number (.int n)

/-- `null` for nothing. -/
def ofOption (encode : α → Json) : Option α → Json
  | some a => encode a
  | none => null

/-- The value under `key`, when there is an object to look in. -/
def field? : Json → String → Option Json
  | object fields, key => lookup fields key
  | _, _ => none

def isNull : Json → Bool
  | null => true
  | _ => false

def string? : Json → Option String
  | string s => some s
  | _ => none

end Json

end PipelineLens
