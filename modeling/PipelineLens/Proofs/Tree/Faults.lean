import Mathlib.Data.List.ReduceOption
import Mathlib.Logic.Relation
import PipelineLens.Tree.Host
/-!
# What is wrong with a host tree

The nodes of a host tree that count are the ones at the top of its documents and, below a node, the
children of the node's own kind (`HostNode.children`). Each of them may have faults of its own, in
its range, its kind or its key. A tree is accepted when no document and no such node has a fault.
Otherwise the first fault is reported, from left to right and from a node to what is below it
(`Parsed.ofHost_reports`).
-/
namespace PipelineLens

/-! ## Checks one after the other -/

/-- The check fails with the first of the faults, and succeeds when there are none. -/
def Reports {ε α : Type} (faults : List ε) (check : Except ε α) : Prop :=
  ∀ fault, check = .error fault ↔ faults.head? = some fault

namespace Reports

variable {ε α β : Type} {faults more : List ε} {check : Except ε α}

theorem ok (a : α) : Reports ([] : List ε) (.ok a : Except ε α) := by simp [Reports]

theorem error (fault : ε) (rest : List ε) :
    Reports (fault :: rest) (.error fault : Except ε α) := by simp [Reports]

theorem exists_ok_iff (h : Reports faults check) : (∃ a, check = .ok a) ↔ faults = [] := by
  cases check with
  | ok a =>
    have hnone : faults.head? = none := by
      by_contra hne
      obtain ⟨fault, hfault⟩ := Option.ne_none_iff_exists'.1 hne
      cases (h fault).2 hfault
    simpa using hnone
  | error fault =>
    have hfault : faults.head? = some fault := (h fault).1 rfl
    have hne : faults ≠ [] := by
      rintro rfl
      cases hfault
    simpa using hne

/-- Of two checks the second one only counts when the first one succeeds. -/
theorem bind {next : α → Except ε β} (h : Reports faults check)
    (hnext : ∀ a, check = .ok a → Reports more (next a)) :
    Reports (faults ++ more) (check >>= next) := by
  cases check with
  | ok a =>
    obtain rfl := h.exists_ok_iff.1 ⟨a, rfl⟩
    exact hnext a rfl
  | error fault =>
    have hfault : faults.head? = some fault := (h fault).1 rfl
    intro other
    rw [List.head?_append, hfault, Option.some_or]
    exact ⟨fun heq => congrArg some (Except.error.inj heq), fun heq => by
      rw [Option.some.inj heq]
      rfl⟩

/-- What is done with the result of a check has no faults of its own. -/
theorem bind_ok (f : α → β) (h : Reports faults check) :
    Reports faults (check >>= fun a => .ok (f a)) := by
  have hbind := h.bind fun a _ => Reports.ok (f a)
  rwa [List.append_nil] at hbind

theorem map (f : α → β) (h : Reports faults check) : Reports faults (check.map f) := by
  have hbind := h.bind_ok f
  cases check <;> exact hbind

theorem mapM {as : List α} {f : α → Except ε β} {g : α → List ε}
    (h : ∀ a ∈ as, Reports (g a) (f a)) : Reports (as.flatMap g) (as.mapM f) := by
  induction as with
  | nil => exact ok []
  | cons a as ih =>
    rw [List.mapM_cons, List.flatMap_cons]
    have hrest : Reports (as.flatMap g) (as.mapM f) :=
      ih fun x hx => h x (List.mem_cons_of_mem a hx)
    exact (h a List.mem_cons_self).bind fun b _ => hrest.bind_ok (b :: ·)

end Reports

/-! ## Nodes -/

namespace HostNode

def kind : HostNode → String
  | mk kind .. => kind

def start : HostNode → Nat
  | mk _ _ start .. => start

def stop : HostNode → Nat
  | mk _ _ _ stop .. => stop

def key? : HostNode → Option HostNode
  | mk _ _ _ _ _ _ key _ => key

/-- The kinds of nodes that a tree can have. -/
def kinds : List String := ["SCALAR", "MAPPING", "SEQ", "PAIR"]

/-- A node that is in order, whatever is below it. -/
structure Sound (n : HostNode) : Prop where
  range : n.start ≤ n.stop
  kind : n.kind ∈ kinds
  key : n.kind = "PAIR" → n.key? ≠ none

/-- The nodes directly below a node that count: the children of the node's own kind. -/
def children : HostNode → List HostNode
  | mk kind _ _ _ mappings items key value =>
    if kind = "MAPPING" then mappings
    else if kind = "SEQ" then items.reduceOption
    else if kind = "PAIR" then key.toList ++ value.toList
    else []

/-- The node `m` stands directly below `n` and counts. -/
def Lists (n m : HostNode) : Prop := m ∈ n.children

mutual

/-- The node, and all below it that count, each before what is below it. -/
def visited : HostNode → List HostNode
  | mk kind raw start stop mappings items key value =>
    mk kind raw start stop mappings items key value ::
      if kind = "MAPPING" then visitedAll mappings
      else if kind = "SEQ" then visitedItems items
      else if kind = "PAIR" then visitedPart key ++ visitedPart value
      else []

def visitedAll : List HostNode → List HostNode
  | [] => []
  | n :: ns => visited n ++ visitedAll ns

def visitedItems : List (Option HostNode) → List HostNode
  | [] => []
  | none :: ns => visitedItems ns
  | some n :: ns => visited n ++ visitedItems ns

def visitedPart : Option HostNode → List HostNode
  | none => []
  | some n => visited n

end

theorem visitedAll_eq (ns : List HostNode) : visitedAll ns = ns.flatMap visited := by
  induction ns with
  | nil => rfl
  | cons n ns ih => rw [visitedAll, ih, List.flatMap_cons]

theorem visitedItems_eq (ns : List (Option HostNode)) :
    visitedItems ns = ns.reduceOption.flatMap visited := by
  induction ns with
  | nil => rfl
  | cons n ns ih =>
    cases n with
    | none => rw [visitedItems, ih, List.reduceOption_cons_of_none]
    | some n => rw [visitedItems, ih, List.reduceOption_cons_of_some, List.flatMap_cons]

theorem visitedPart_eq (n : Option HostNode) : visitedPart n = n.toList.flatMap visited := by
  cases n <;> simp [visitedPart]

theorem visited_eq (n : HostNode) : n.visited = n :: n.children.flatMap visited := by
  obtain ⟨kind, raw, start, stop, mappings, items, key, value⟩ := n
  rw [visited, visitedAll_eq, visitedItems_eq, visitedPart_eq, visitedPart_eq, children]
  split
  · rfl
  split
  · rfl
  split
  · rw [List.flatMap_append]
  · rfl

theorem Lists.sizeOf_lt {n m : HostNode} (h : n.Lists m) : sizeOf m < sizeOf n := by
  obtain ⟨kind, raw, start, stop, mappings, items, key, value⟩ := n
  rw [Lists, children] at h
  simp only [mk.sizeOf_spec]
  split at h
  · have := List.sizeOf_lt_of_mem h
    omega
  split at h
  · have hitem : some m ∈ items := List.reduceOption_mem_iff.1 h
    have := List.sizeOf_lt_of_mem hitem
    simp only [Option.some.sizeOf_spec] at this
    omega
  split at h
  · rcases List.mem_append.1 h with h | h
    all_goals
      obtain rfl := Option.mem_toList.1 h
      simp only [Option.some.sizeOf_spec]
      omega
  · cases h

/-- The nodes that are visited are those that can be reached. -/
theorem mem_visited_iff {n m : HostNode} :
    m ∈ n.visited ↔ Relation.ReflTransGen Lists n m := by
  constructor
  · induction hn : sizeOf n using Nat.strongRecOn generalizing n with
    | ind size ih =>
      intro h
      rw [visited_eq] at h
      rcases List.mem_cons.1 h with rfl | h
      · exact .refl
      · obtain ⟨c, hc, hm⟩ := List.mem_flatMap.1 h
        have hlt : sizeOf c < sizeOf n := Lists.sizeOf_lt hc
        exact .head hc (ih (sizeOf c) (hn ▸ hlt) rfl hm)
  · intro h
    induction h using Relation.ReflTransGen.head_induction_on with
    | refl =>
      rw [visited_eq]
      exact List.mem_cons_self
    | head hc _ ih =>
      rw [visited_eq]
      exact List.mem_cons_of_mem _ (List.mem_flatMap.2 ⟨_, hc, ih⟩)

/-! ## Faults -/

/-- A range that ends before it starts. -/
def rangeFaults (what : String) (start stop : Nat) : List TreeFault :=
  if stop < start then [.inverted what start stop] else []

/-- A pair without a key, or a kind that is none of the four. -/
def kindFaults (kind : String) (start : Nat) (key : Option HostNode) : List TreeFault :=
  if kind = "PAIR" ∧ key = none then [.keyless start]
  else if kind ∈ kinds then [] else [.kind kind start]

/-- The faults of a node itself, that of its range first. -/
def ownFaults (n : HostNode) : List TreeFault :=
  rangeFaults n.kind n.start n.stop ++ kindFaults n.kind n.start n.key?

theorem rangeFaults_eq_nil {what : String} {start stop : Nat} :
    rangeFaults what start stop = [] ↔ start ≤ stop := by
  simp [rangeFaults]

theorem kindFaults_eq_nil {kind : String} {start : Nat} {key : Option HostNode} :
    kindFaults kind start key = [] ↔ kind ∈ kinds ∧ (kind = "PAIR" → key ≠ none) := by
  unfold kindFaults
  split
  · rename_i h
    simp [h]
  · rename_i h
    rw [not_and] at h
    split <;> simp_all

theorem kindFaults_of_ne_pair {kind : String} {start : Nat} {key : Option HostNode}
    (h : kind ∈ kinds) (hne : kind ≠ "PAIR") : kindFaults kind start key = [] :=
  kindFaults_eq_nil.2 ⟨h, fun hpair => absurd hpair hne⟩

theorem ownFaults_eq_nil {n : HostNode} : n.ownFaults = [] ↔ n.Sound := by
  rw [ownFaults, List.append_eq_nil_iff, rangeFaults_eq_nil, kindFaults_eq_nil]
  exact ⟨fun ⟨range, kind, key⟩ => ⟨range, kind, key⟩, fun h => ⟨h.range, h.kind, h.key⟩⟩

theorem reports_checkRange (what : String) (start stop : Nat) :
    Reports (rangeFaults what start stop) (checkRange what start stop) := by
  rw [rangeFaults, checkRange]
  split
  · exact .error _ _
  · exact .ok ()

mutual

/-- A node is refused for the first fault among its own and those below it. After the range each
kind goes its own way. -/
theorem reports_layout : (n : HostNode) → Reports (n.visited.flatMap ownFaults) n.layout
  | mk kind raw start stop mappings items key value => by
    rw [layout.eq_def, visited, List.flatMap_cons, ownFaults, List.append_assoc]
    refine (reports_checkRange kind start stop).bind fun _ _ => ?_
    simp only [HostNode.kind, HostNode.start, key?]
    by_cases hscalar : kind = "SCALAR"
    · subst hscalar
      rw [kindFaults_of_ne_pair (by decide) (by decide)]
      exact .ok _
    by_cases hmapping : kind = "MAPPING"
    · subst hmapping
      rw [kindFaults_of_ne_pair (by decide) (by decide)]
      exact (reports_layouts mappings).bind_ok _
    by_cases hsequence : kind = "SEQ"
    · subst hsequence
      rw [kindFaults_of_ne_pair (by decide) (by decide)]
      exact (reports_itemLayouts items).bind_ok _
    simp only [if_neg hscalar, if_neg hmapping, if_neg hsequence]
    by_cases hpair : kind = "PAIR"
    · simp only [if_pos hpair]
      subst hpair
      cases key with
      | none => exact .error _ _
      | some k =>
        rw [kindFaults_eq_nil.2 ⟨by decide, fun _ => Option.some_ne_none k⟩, List.nil_append,
          List.flatMap_append]
        refine (reports_layout k).bind fun lk _ => ?_
        cases value with
        | none => exact .ok _
        | some v => exact (reports_layout v).bind_ok (Layout.pair start stop lk)
    · have hkind : kindFaults kind start key = [.kind kind start] := by
        simp [kindFaults, kinds, hscalar, hmapping, hsequence, hpair]
      simp only [hkind, if_neg hpair]
      exact .error _ _

theorem reports_layouts :
    (ns : List HostNode) → Reports ((visitedAll ns).flatMap ownFaults) (layouts ns)
  | [] => .ok []
  | n :: ns => by
    rw [layouts, visitedAll, List.flatMap_append]
    exact (reports_layout n).bind fun l _ => (reports_layouts ns).bind_ok (l :: ·)

theorem reports_itemLayouts :
    (ns : List (Option HostNode)) → Reports ((visitedItems ns).flatMap ownFaults) (itemLayouts ns)
  | [] => .ok []
  | none :: ns => by
    rw [itemLayouts, visitedItems]
    exact reports_itemLayouts ns
  | some n :: ns => by
    rw [itemLayouts, visitedItems, List.flatMap_append]
    exact (reports_layout n).bind fun l _ => (reports_itemLayouts ns).bind_ok (l :: ·)

end

end HostNode

/-! ## Documents -/

namespace HostDocument

/-- The faults of a document in the order of the text: its range, then its nodes. -/
def faults (d : HostDocument) : List TreeFault :=
  HostNode.rangeFaults "document" d.start d.stop
    ++ (d.nodes.flatMap HostNode.visited).flatMap HostNode.ownFaults

/-- The node counts as part of the document. -/
def Visits (d : HostDocument) (n : HostNode) : Prop :=
  ∃ top ∈ d.nodes, Relation.ReflTransGen HostNode.Lists top n

theorem faults_eq_nil {d : HostDocument} :
    d.faults = [] ↔ d.start ≤ d.stop ∧ ∀ n, d.Visits n → n.Sound := by
  rw [faults, List.append_eq_nil_iff, HostNode.rangeFaults_eq_nil, List.flatMap_eq_nil_iff]
  simp only [List.mem_flatMap, HostNode.mem_visited_iff, HostNode.ownFaults_eq_nil]
  rfl

theorem reports_draft (d : HostDocument) : Reports d.faults d.draft := by
  rw [faults, ← HostNode.visitedAll_eq]
  exact (HostNode.reports_checkRange "document" d.start d.stop).bind fun _ _ =>
    (HostNode.reports_layouts d.nodes).bind_ok _

end HostDocument

/-- **A tree is accepted just where nothing in it is out of order, and otherwise refused for its
first fault.** The faults are listed document by document, the range of a document before its nodes
and each node before what is below it. -/
theorem Parsed.ofHost_reports (ds : List HostDocument) :
    ((∃ p, ofHost ds = .ok p) ↔
      ∀ d ∈ ds, d.start ≤ d.stop ∧ ∀ n, d.Visits n → n.Sound) ∧
    ∀ fault, ofHost ds = .error fault ↔
      (ds.flatMap HostDocument.faults).head? = some fault := by
  have hreports : Reports (ds.flatMap HostDocument.faults) (ofHost ds) :=
    (Reports.mapM fun d _ => HostDocument.reports_draft d).map ofDrafts
  refine ⟨?_, hreports⟩
  rw [hreports.exists_ok_iff, List.flatMap_eq_nil_iff]
  exact forall₂_congr fun d _ => HostDocument.faults_eq_nil

/-- The pair lacks its key, its value ends before it starts, and the kind of the next node is none
of the four. -/
example : Parsed.ofHost [⟨[.mk "MAPPING" "" 0 9
      [.mk "PAIR" "" 2 5 [] [] none (some (.mk "SCALAR" "v" 5 4 [] [] none none))] [] none none,
    .mk "ALIAS" "" 9 12 [] [] none none], [], 0, 12⟩] = .error (.keyless 2) := rfl

end PipelineLens
