/-
This file holds the leaves of deferred values: the values that are produced somewhere in the tree
of constructs and that other stacks may see only through parameters, outputs and exports.
-/

import StackSynth.Asset.Basic

namespace StackSynth

/-- A construct, by its place in the order of creation. The root is zero. -/
abbrev NodeId := Nat

/-- A construct as messages call it. -/
def nodeName (node : NodeId) : String := "#" ++ toString node

/-- What every stack tells of itself. -/
inductive StackAttribute where
  | id
  | name
deriving DecidableEq, Repr

namespace StackAttribute

/-- The attribute as messages call it. -/
def title : StackAttribute → String
  | .id => "Id"
  | .name => "Name"

/-- The place of an attribute among all. -/
def rank : StackAttribute → Nat
  | .id => 0
  | .name => 1

theorem rank_injective {first second : StackAttribute} (same : first.rank = second.rank) :
    first = second := by
  cases first <;> cases second <;> simp_all [rank]

end StackAttribute

/-- A value that is produced in the tree. -/
inductive Leaf where
  /-- An attribute of a resource or of a parameter, `Ref` being its identity. -/
  | construct (node : NodeId) (attr : String)
  /-- A value that publishing an asset of a top-level stack yields. -/
  | asset (stack : NodeId) (hash : ContentHash) (slot : Asset.Slot)
  /-- The identity of a stack. -/
  | stack (stack : NodeId) (attr : StackAttribute)
deriving DecidableEq, Repr

namespace Leaf

/-- The leaf as messages call it. -/
def text : Leaf → String
  | .construct owner attr => nodeName owner ++ "." ++ attr
  | .asset _ hash slot => "asset:" ++ hash ++ "." ++ slot.name
  | .stack owner attr => nodeName owner ++ "." ++ attr.title

/-! ### The order of leaves -/

/-- The kind of a leaf: attributes of constructs come first and identities of stacks last. -/
def kindRank : Leaf → Nat
  | .construct _ _ => 0
  | .asset _ _ _ => 1
  | .stack _ _ => 2

/-- The construct that a leaf names. -/
def node : Leaf → NodeId
  | .construct owner _ => owner
  | .asset owner _ _ => owner
  | .stack owner _ => owner

/-- The attribute or the hash that a leaf names. -/
def label : Leaf → String
  | .construct _ attr => attr
  | .asset _ hash _ => hash
  | .stack _ _ => ""

/-- The slot or the stack attribute that a leaf names. -/
def partRank : Leaf → Nat
  | .construct _ _ => 0
  | .asset _ _ slot => slot.rank
  | .stack _ attr => attr.rank

/-- Leaves are ordered by kind, construct, label and part. -/
instance : Ord Leaf where
  compare := compareLex (compareOn kindRank)
    (compareLex (compareOn node) (compareLex (compareOn label) (compareOn partRank)))

instance : Std.TransOrd Leaf :=
  inferInstanceAs (Std.TransCmp (compareLex (compareOn kindRank)
    (compareLex (compareOn node) (compareLex (compareOn label) (compareOn partRank)))))

/-- A leaf is determined by what the order compares. -/
theorem eq_of_parts {first second : Leaf} (sameKind : first.kindRank = second.kindRank)
    (sameNode : first.node = second.node) (sameLabel : first.label = second.label)
    (samePart : first.partRank = second.partRank) : first = second := by
  cases first with
  | construct => cases second <;> simp_all [kindRank, node, label]
  | asset =>
    cases second with
    | asset => simp_all [node, label, Asset.Slot.rank_injective samePart]
    | _ => simp [kindRank] at sameKind
  | stack =>
    cases second with
    | stack => simp_all [node, StackAttribute.rank_injective samePart]
    | _ => simp [kindRank] at sameKind

instance : Std.LawfulEqOrd Leaf where
  compare_self := by
    intro leaf
    show compareLex _ _ leaf leaf = .eq
    simp [compareLex, compareOn, Std.ReflCmp.compare_self]
  eq_of_compare := by
    intro first second equal
    replace equal : compareLex _ _ first second = .eq := equal
    simp only [compareLex, compareOn, Ordering.then_eq_eq] at equal
    exact eq_of_parts (Std.LawfulEqCmp.eq_of_compare equal.1)
      (Std.LawfulEqCmp.eq_of_compare equal.2.1)
      (Std.LawfulEqCmp.eq_of_compare equal.2.2.1)
      (Std.LawfulEqCmp.eq_of_compare equal.2.2.2)

end Leaf

end StackSynth
