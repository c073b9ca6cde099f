import Std.Data.TreeMap
import PipelineLens.Yaml.Tag
/-!
# Nodes of a YAML document

A node is a scalar, a collection, or an alias of another node. Labels are what anchors become: an
alias stands for the last node with its number, in the order of the text and a collection before
its contents.
-/
namespace PipelineLens.Yaml

/-- What an anchor becomes. -/
structure Label where
  /-- the number that aliases give -/
  number : Nat
  /-- how many anchors stand before this one -/
  place : Nat
deriving DecidableEq, Repr

inductive Node where
  | scalar (label : Option Label) (tag : Option Tag) (plain : Bool) (text : String)
  | sequence (label : Option Label) (tag : Option Tag) (items : List Node)
  | mapping (label : Option Label) (tag : Option Tag) (entries : List (Node × Node))
  | aliasOf (number : Nat)
deriving Inhabited

namespace Node

/-- A node without text. -/
def empty : Node := scalar none none true ""

def label? : Node → Option Label
  | scalar label .. => label
  | sequence label .. => label
  | mapping label .. => label
  | aliasOf _ => none

mutual

/-- How much there is of a node: one for a scalar or an alias, two for the ends of a collection. -/
def weight : Node → Nat
  | scalar .. => 1
  | sequence _ _ items => itemsWeight items + 2
  | mapping _ _ entries => entriesWeight entries + 2
  | aliasOf _ => 1

def itemsWeight : List Node → Nat
  | [] => 0
  | n :: ns => weight n + itemsWeight ns

def entriesWeight : List (Node × Node) → Nat
  | [] => 0
  | (k, v) :: es => weight k + weight v + entriesWeight es

end

/-! ## What aliases stand for -/

/-- The nodes that aliases stand for, by the numbers of their labels, each with its place. -/
abbrev Targets := Std.TreeMap Nat (Nat × Node)

/-- The targets with a node in front of which the others stand. -/
def Targets.add (targets : Targets) (n : Node) : Targets :=
  match n.label? with
  | some label => targets.insert label.number (label.place, n)
  | none => targets

mutual

/-- The targets of aliases, those in a node after some others. -/
def targets (before : Targets) : Node → Targets
  | scalar label tag plain text => before.add (scalar label tag plain text)
  | sequence label tag items => itemsTargets (before.add (sequence label tag items)) items
  | mapping label tag entries => entriesTargets (before.add (mapping label tag entries)) entries
  | aliasOf _ => before

def itemsTargets (before : Targets) : List Node → Targets
  | [] => before
  | n :: ns => itemsTargets (targets before n) ns

def entriesTargets (before : Targets) : List (Node × Node) → Targets
  | [] => before
  | (k, v) :: es => entriesTargets (targets (targets before k) v) es

end

end Node

end PipelineLens.Yaml
