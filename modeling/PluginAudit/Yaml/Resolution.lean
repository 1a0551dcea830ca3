import PluginAudit.Ordered
import PluginAudit.Yaml.Node

/-!
# Aliases and merges

An alias stands for the latest node before it with the anchor of that name, and a merge brings the
pairs of other maps into a map without replacing any of its own. Both are resolved in one pass over
a document in its order, which keeps the value of every anchor met so far.

A node may hold an alias of itself. Such an alias stands for the value that the node had in the pass
before; as many passes as a metadata document is deep are enough, since nothing deeper is looked at.
-/

namespace PluginAudit.Yaml

structure Anchors where
  /-- The names with the numbers of their nodes, the latest first. -/
  names : List (String × Nat) := []
  /-- The values of the nodes by number; a node that has not ended has none. -/
  values : Array (Option Value) := #[]
  /-- A node holds an alias of itself. -/
  loops : Bool := false
  deriving Repr, Inhabited

/-- A step of the pass: it may fail, and has the anchors at hand. -/
abbrev Resolving := StateT Anchors (Except Fault)

namespace Anchors

/-- Begins a node with or without an anchor, and hands out its number. -/
def start (anchor : Option String) : Resolving (Option Nat) := do
  match anchor with
  | none => return none
  | some name =>
    let a ← get
    set { a with names := (name, a.values.size) :: a.names, values := a.values.push none }
    return some a.values.size

def finish (number : Option Nat) (v : Value) : Resolving Value := do
  match number with
  | none => return v
  | some i =>
    modify fun a => { a with values := a.values.set! i (some v) }
    return v

/-- The value of an alias, and whether it stands in the node that it stands for. -/
def value (previous : Array (Option Value)) (name : String) : Resolving (Value × Bool) := do
  let a ← get
  match a.names.lookup name with
  | none => throw .unresolvedAlias
  | some i =>
    match (a.values[i]?).join with
    | some v => return (v, false)
    | none =>
      set { a with loops := true }
      return (((previous[i]?).join).getD .other, true)

end Anchors

/-- Adds the pairs of a map whose keys are not there yet. -/
def addMissing (entries new : Ordered Value) : Ordered Value :=
  new.foldl (fun m (k, v) => if (Ordered.get? m k).isSome then m else Ordered.put m k v) entries

/-- Merges a map, or each map of a list, into the pairs of a map. -/
def mergeValue (entries : Ordered Value) : Value → Except Fault (Ordered Value)
  | .map new => .ok (addMissing entries new)
  | .list vs => vs.foldlM (fun m v => match v with
      | .map new => .ok (addMissing m new)
      | _ => .error .mergeSource) entries
  | _ => .error .mergeSource

/-- Whether a node, as a key, asks for a merge. -/
def Node.merges : Node → Bool
  | scalar _ s => s.merges
  | _ => false

/-- Adds a pair to those of a map. Keys that are not texts mean nothing and are left out. -/
def addPair (entries : Ordered Value) (key value : Value) : Ordered Value :=
  match key with
  | .text k => entries.put k value
  | _ => entries

mutual

/-- The value of a node. The second part says whether it is an alias that stands for a node around
it. -/
def resolve (previous : Array (Option Value)) : Node → Resolving (Value × Bool)
  | .scalar anchor s => do
    let i ← Anchors.start anchor
    return (← Anchors.finish i s.value, false)
  | .alias name => Anchors.value previous name
  | .seq anchor isList items => do
    let i ← Anchors.start anchor
    let vs ← resolveItems previous items
    return (← Anchors.finish i (if isList then .list vs else .other), false)
  | .map anchor isMap pairs => do
    let i ← Anchors.start anchor
    let entries ← resolvePairs previous [] pairs
    return (← Anchors.finish i (if isMap then .map entries else .other), false)

/-- The values of a list's items. -/
def resolveItems (previous : Array (Option Value)) : List Node → Resolving (List Value)
  | [] => return []
  | n :: ns => do
    let (v, _) ← resolve previous n
    let vs ← resolveItems previous ns
    return v :: vs

/-- The pairs of a map, added to others. -/
def resolvePairs (previous : Array (Option Value)) (entries : Ordered Value) :
    List (Node × Node) → Resolving (Ordered Value)
  | [] => return entries
  | (k, v) :: rest => do
    let (key, _) ← resolve previous k
    let (value, inside) ← resolve previous v
    if k.merges then
      if inside then throw .mergeSource
      resolvePairs previous (← mergeValue entries value) rest
    else resolvePairs previous (addPair entries key value) rest

end

/-- How often a node may be found in itself before it no longer matters. -/
def deepestLoop : Nat := 10

/-- Passes over a document, each with the values of the one before. -/
def resolveAgain (n : Node) : Nat → Value → Array (Option Value) → Except Fault Value
  | 0, v, _ => .ok v
  | fuel + 1, _, previous =>
    match (resolve previous n).run {} with
    | .error f => .error f
    | .ok ((v, _), a) => if a.loops then resolveAgain n fuel v a.values else .ok v

def Node.value (n : Node) : Except Fault Value := resolveAgain n deepestLoop .null #[]

end PluginAudit.Yaml
