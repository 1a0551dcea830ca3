import PluginAudit.Pattern.Node
import PluginAudit.Pattern.Token

/-!
# From symbols to patterns

`Node.ofTokens?` builds the tree that a list of symbols writes, keeping one `Level` for the pattern
itself and one for each group that is still open. It fails where a repetition has nothing to repeat,
a parenthesis has no partner, or a reference has no group.
-/

namespace PluginAudit.Pattern

open Text

structure Term where
  node : Node
  /-- The number of groups that begin before it. -/
  before : Nat
  /-- Whether a repetition may follow it. -/
  repeatable : Bool
  deriving Repr, DecidableEq, Inhabited

/-- A group that is still open. -/
structure Level where
  kind : GroupKind
  /-- The number of groups that begin before it. -/
  before : Nat
  alternatives : Option Node
  /-- The pieces of its last alternative, the latest first. -/
  terms : List Term
  deriving Repr, DecidableEq, Inhabited

namespace Level

def begin (kind : GroupKind) (before : Nat) : Level := ⟨kind, before, none, []⟩

/-- The group with one more piece. -/
def push (l : Level) (t : Term) : Level := { l with terms := t :: l.terms }

/-- The alternatives, the last one included. -/
def body (l : Level) : Node :=
  let last := l.terms.foldl (fun rest t => Node.sequence t.node rest) .empty
  match l.alternatives with
  | none => last
  | some others => .choice others last

/-- The group with its last alternative finished. -/
def branch (l : Level) : Level := { l with alternatives := some l.body, terms := [] }

/-- The group as a piece of the one around it. -/
def close (l : Level) : Term :=
  match l.kind with
  | .plain => ⟨l.body, l.before, true⟩
  | .capture _ => ⟨.group (l.before + 1) l.body, l.before, true⟩
  | .look ahead negative => ⟨.look ahead negative l.body, l.before, ahead⟩

end Level

structure Assembly where
  top : Level
  /-- The groups around it, from the inside out. -/
  around : List Level
  /-- The number of groups begun so far. -/
  groups : Nat
  deriving Repr, DecidableEq, Inhabited

/-- What the symbols of a pattern can refer to: the name of each of its groups, if it has one. -/
abbrev GroupNames := List (Option (List Char))

/-- The groups that a list of symbols opens. -/
def groupNames (ts : List Token) : GroupNames :=
  ts.filterMap fun
    | .opening (.capture name) => some name
    | _ => none

namespace Assembly

def initial : Assembly := ⟨.begin .plain 0, [], 0⟩

def push (a : Assembly) (node : Node) (repeatable : Bool) : Assembly :=
  { a with top := a.top.push ⟨node, a.groups, repeatable⟩ }

/-- What a backslash and digits mean: a reference if there are so many groups, or else an octal
number, or else the first digit, followed by the digits that are left. -/
def pushDigits (names : GroupNames) (a : Assembly) (ds : List Char) : Assembly :=
  let n := numeralValue ds
  if n ≤ names.length then a.push (.reference n) true
  else
    let (u, taken) :=
      if ds.head?.any isOctal then octal ds else ((ds.headD '0').toNat, 1)
    (ds.drop taken).foldl (fun a d => a.push (.unit d.toNat) true) (a.push (.unit u) true)

def step (names : GroupNames) (a : Assembly) : Token → Option Assembly
  | .unit u => some (a.push (.unit u) true)
  | .oneOf set => some (a.push (.oneOf set) true)
  | .digits ds => some (a.pushDigits names ds)
  | .named name =>
    if some name ∈ names then some (a.push (.reference (names.idxOf (some name) + 1)) true)
    else none
  | .start => some (a.push .start false)
  | .finish => some (a.push .finish false)
  | .boundary negated => some (a.push (.boundary negated) false)
  | .opening kind =>
    let groups := match kind with
      | .capture _ => a.groups + 1
      | _ => a.groups
    some ⟨.begin kind a.groups, a.top :: a.around, groups⟩
  | .closing =>
    match a.around with
    | [] => none
    | l :: around => some { a with top := l.push a.top.close, around := around }
  | .bar => some { a with top := a.top.branch }
  | .repetition low high greedy =>
    match a.top.terms with
    | t :: terms =>
      if t.repeatable then
        let node := Node.repetition t.node low high greedy t.before a.groups
        some { a with top := { a.top with terms := ⟨node, t.before, false⟩ :: terms } }
      else none
    | [] => none

/-- The finished pattern, if no group is left open. -/
def finish? (a : Assembly) : Option Node :=
  match a.around with
  | [] => some a.top.body
  | _ :: _ => none

end Assembly

/-- The pattern that a list of symbols writes. No two groups may have the same name. -/
def Node.ofTokens? (ts : List Token) : Option Node :=
  let names := groupNames ts
  if (names.filterMap id).Nodup then
    (ts.foldlM (Assembly.step names) .initial).bind Assembly.finish?
  else none

end PluginAudit.Pattern
