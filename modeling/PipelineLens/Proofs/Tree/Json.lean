import PipelineLens.Tree.Query
/-!
# What the JSON of a subtree shows

`toJson` goes down a whole subtree; the lemmas here say what it gives for one node of each kind.
Where no mapping has a key twice, the first pair with a key, which the tree finds, and the last one,
which the JSON value keeps, are the same pair (`DistinctKeys.lookup_toJson`).
-/
namespace PipelineLens

namespace Tree

/-- Whether a node is a pair. -/
def isPair (t : Tree) (id : Nat) : Bool := (t.pairParts? id).isSome

/-- No mapping has two pairs with one key. -/
def DistinctKeys (t : Tree) : Prop := ∀ id < t.size, ((t.pairs id).filterMap t.keyText?).Nodup

/-- Below a node that is no mapping there are no pairs. -/
def PairsInMappings (t : Tree) : Prop :=
  ∀ n ∈ t.nodes.toList, n.isMapping = false → ∀ c ∈ n.children, t.isPair c = false

instance (t : Tree) : Decidable t.DistinctKeys :=
  inferInstanceAs (Decidable (∀ id < t.size, ((t.pairs id).filterMap t.keyText?).Nodup))

instance (t : Tree) : Decidable t.PairsInMappings :=
  inferInstanceAs (Decidable (∀ n ∈ t.nodes.toList, n.isMapping = false →
    ∀ c ∈ n.children, t.isPair c = false))

/-- A node of the tree that is no pair. -/
def IsValue (t : Tree) (id : Nat) : Prop := id < t.size ∧ t.isPair id = false

variable {t : Tree} {id : Nat}

theorem lt_size_iff : id < t.size ↔ ∃ n, t.node? id = some n := by
  constructor
  · intro h
    exact ⟨t.nodes[id], Array.getElem?_eq_getElem h⟩
  · rintro ⟨n, hn⟩
    exact (Array.getElem?_eq_some_iff.1 hn).1

theorem mem_nodes {n : Node} (hn : t.node? id = some n) : n ∈ t.nodes.toList :=
  Array.mem_toList_iff.2 (Array.mem_of_getElem? hn)

theorem lt_size_of_mem_children {n : Node} (hn : t.node? id = some n) {c : Nat}
    (hc : c ∈ n.children) : c < t.size :=
  Nat.lt_trans (lt_of_mem_children hn hc) (lt_size_iff.2 ⟨n, hn⟩)

/-- What stands below a node other than a mapping is a value. -/
theorem PairsInMappings.isValue (h : t.PairsInMappings) {n : Node} (hn : t.node? id = some n)
    (hm : n.isMapping = false) {c : Nat} (hc : c ∈ n.children) : t.IsValue c :=
  ⟨lt_size_of_mem_children hn hc, h n (mem_nodes hn) hm c hc⟩

theorem pairParts?_eq_some {key : Nat} {value : Option Nat} :
    t.pairParts? id = some (key, value) ↔ ∃ n, t.node? id = some n ∧ n.body = .pair key value := by
  unfold pairParts? body?
  cases t.node? id with
  | none => simp
  | some n => cases hb : n.body <;> simp [hb]

theorem PairsInMappings.isValue_of_pair (h : t.PairsInMappings) {key value : Nat}
    (hp : t.pairParts? id = some (key, some value)) : t.IsValue value := by
  obtain ⟨n, hn, hb⟩ := pairParts?_eq_some.1 hp
  exact h.isValue hn (by simp [Node.isMapping, hb]) (by simp [Node.children, hb, Body.children])

theorem PairsInMappings.isValue_of_findValue? (h : t.PairsInMappings) {key : String} {value : Nat}
    (hv : t.findValue? id key = some value) : t.IsValue value := by
  obtain ⟨pair, k, -, -, hp⟩ := exists_pair_of_findValue? hv
  exact h.isValue_of_pair hp

theorem PairsInMappings.isValue_of_mem_items (h : t.PairsInMappings) {item : Nat}
    (hi : item ∈ t.items id) : t.IsValue item := by
  unfold items body? at hi
  cases hn : t.node? id with
  | none => simp [hn] at hi
  | some n =>
    cases hb : n.body with
    | sequence items =>
      exact h.isValue hn (by simp [Node.isMapping, hb])
        (by simpa [hn, hb, Node.children, Body.children] using hi)
    | _ => simp [hn, hb] at hi

/-! ## One node -/

theorem toJson_eq (t : Tree) (id : Nat) :
    t.toJson id =
      match t.node? id with
      | none => .null
      | some n =>
        match n.body with
        | .scalar => .string n.decoded
        | .sequence items => .array (items.map t.toJson)
        | .mapping pairs =>
          .ofFields (pairs.filterMap fun c => (t.keyText? c).map (·, t.toJson c))
        | .pair _ none => .null
        | .pair _ (some value) => t.toJson value := by
  rw [toJson]
  split
  · rename_i hn
    rw [hn]
  · rename_i n hn
    rw [hn]
    simp only
    split <;> rename_i hb <;> simp only [hb]
    · rw [List.attach_map_val]
    · rw [List.filterMap_subtype (g := fun c => (t.keyText? c).map (·, t.toJson c)) fun _ _ => rfl,
        List.unattach_attach]

theorem toJson_scalar {n : Node} (hn : t.node? id = some n) (hb : n.body = .scalar) :
    t.toJson id = .string n.decoded := by
  rw [toJson_eq, hn]
  simp only [hb]

theorem toJson_sequence {n : Node} (hn : t.node? id = some n) {items : List Nat}
    (hb : n.body = .sequence items) : t.toJson id = .array (items.map t.toJson) := by
  rw [toJson_eq, hn]
  simp only [hb]

theorem toJson_mapping {n : Node} (hn : t.node? id = some n) {pairs : List Nat}
    (hb : n.body = .mapping pairs) :
    t.toJson id = .ofFields (pairs.filterMap fun c => (t.keyText? c).map (·, t.toJson c)) := by
  rw [toJson_eq, hn]
  simp only [hb]

/-- A pair stands for its value. -/
theorem toJson_pair {key : Nat} {value : Option Nat} (h : t.pairParts? id = some (key, value)) :
    t.toJson id = (value.map t.toJson).getD .null := by
  rw [toJson_eq]
  cases hn : t.node? id with
  | none => simp [pairParts?, body?, hn] at h
  | some n =>
    cases hb : n.body with
    | pair k v =>
      obtain ⟨rfl, rfl⟩ : k = key ∧ v = value := by simpa [pairParts?, body?, hn, hb] using h
      cases v <;> simp [hb]
    | _ => simp [pairParts?, body?, hn, hb] at h

/-- A value is a scalar, a mapping or a sequence. -/
theorem IsValue.cases (h : t.IsValue id) :
    ∃ n, t.node? id = some n ∧
      ((n.body = .scalar ∧ t.toJson id = .string n.decoded) ∨
        (∃ pairs, n.body = .mapping pairs ∧ t.toJson id
          = .ofFields (pairs.filterMap fun c => (t.keyText? c).map (·, t.toJson c))) ∨
        ∃ items, n.body = .sequence items ∧ t.toJson id = .array (items.map t.toJson)) := by
  obtain ⟨n, hn⟩ := lt_size_iff.1 h.1
  refine ⟨n, hn, ?_⟩
  cases hb : n.body with
  | scalar => exact .inl ⟨rfl, toJson_scalar hn hb⟩
  | mapping pairs => exact .inr (.inl ⟨pairs, rfl, toJson_mapping hn hb⟩)
  | sequence items => exact .inr (.inr ⟨items, rfl, toJson_sequence hn hb⟩)
  | pair key value =>
    have := h.2
    simp [isPair, pairParts?, body?, hn, hb] at this

theorem IsValue.isNull_toJson (h : t.IsValue id) : (t.toJson id).isNull = false := by
  obtain ⟨n, hn, ⟨-, hj⟩ | ⟨pairs, -, hj⟩ | ⟨items, -, hj⟩⟩ := h.cases <;> rw [hj] <;> rfl

/-! ## Fields -/

theorem findPair?_eq_some {key : String} {pair : Nat} (h : t.findPair? id key = some pair) :
    pair ∈ t.pairs id ∧
      ∃ k value, t.pairParts? pair = some (k, value) ∧ t.decoded? k = some key := by
  have htext : t.keyText? pair = some key := by simpa using List.find?_some h
  obtain ⟨⟨k, value⟩, hp, hk⟩ := Option.bind_eq_some_iff.1 htext
  exact ⟨List.mem_of_find?_eq_some h, k, value, hp, hk⟩

/-- Only a mapping has something under a key. -/
theorem isMapping_of_findText? {key text : String} (h : t.findText? id key = some text) :
    t.isMapping id = true := by
  obtain ⟨value, hv, -⟩ := Option.bind_eq_some_iff.1 h
  obtain ⟨pair, -, hmem, -, -⟩ := exists_pair_of_findValue? hv
  unfold pairs body? at hmem
  cases hn : t.node? id with
  | none => simp [hn] at hmem
  | some n =>
    cases hb : n.body with
    | mapping pairs => simp [isMapping, hn, Node.isMapping, hb]
    | _ => simp [hn, hb] at hmem

theorem lookup_pairs (t : Tree) (pairs : List Nat) (key : String) :
    Json.lookup (pairs.filterMap fun c => (t.keyText? c).map (·, t.toJson c)) key
      = (pairs.find? fun c => t.keyText? c = some key).map t.toJson := by
  induction pairs with
  | nil => rfl
  | cons c cs ih =>
    cases hc : t.keyText? c with
    | none => simp [hc, ih]
    | some k =>
      by_cases hk : k = key
      · simp [hc, hk, Json.lookup]
      · simp [hc, hk, Json.lookup, ih]

/-- The object of a mapping has the pairs of the mapping as its fields. -/
theorem DistinctKeys.lookup_toJson (h : t.DistinctKeys) {n : Node} (hn : t.node? id = some n)
    {pairs : List Nat} (hb : n.body = .mapping pairs) (key : String) :
    (t.toJson id).field? key = (t.findPair? id key).map t.toJson := by
  have hpairs : t.pairs id = pairs := by simp [Tree.pairs, body?, hn, hb]
  have hkeys : ((pairs.filterMap fun c => (t.keyText? c).map (·, t.toJson c)).map (·.1)).Nodup := by
    have := h id (lt_size_iff.2 ⟨n, hn⟩)
    rw [hpairs] at this
    simpa [List.map_filterMap, Function.comp_def] using this
  rw [toJson_mapping hn hb, Json.ofFields, Json.field?, Json.lookup_sorted,
    Json.lookup_reverse hkeys, lookup_pairs, findPair?, hpairs]

end Tree

end PipelineLens
