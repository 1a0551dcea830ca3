import PluginAudit.Pattern.UnitSet

/-!
# What a pattern means

A pattern is a tree of `Node`s. `Node.run` tries the ways in which a node matches a subject from a
place on, in the order of preference, and hands each to the continuation until one is taken; groups
record what they matched, so that references can ask for it again. Looking behind runs the same
tree from right to left.

The only unbounded part is repetition. Once the least number of rounds is done, a round has to move
the place, and it can only move in one direction; so `iterate` may count down from the least number
of rounds plus the length of the subject.
-/

namespace PluginAudit.Pattern

inductive Node where
  | empty
  | unit (u : Nat)
  /-- One unit out of a set. -/
  | oneOf (set : UnitSet)
  | sequence (first second : Node)
  | choice (first second : Node)
  /-- A pattern whose match is recorded. -/
  | group (index : Nat) (body : Node)
  /-- A pattern that has to match here, or must not, and is not consumed. -/
  | look (ahead negative : Bool) (body : Node)
  /-- What a group recorded, once more; nothing if it recorded nothing. -/
  | reference (index : Nat)
  | start
  | finish
  /-- Exactly one of the neighbouring units belongs to a word, or else both or none. -/
  | boundary (negated : Bool)
  /-- A pattern several times over. Each round forgets the groups after `before` up to `last`. -/
  | repetition (body : Node) (low : Nat) (high : Option Nat) (greedy : Bool) (before last : Nat)
  deriving Repr, DecidableEq, Inhabited

/-- A point of a subject, and what the groups have recorded. -/
structure Place where
  /-- The number of units before the point. -/
  position : Nat
  /-- Where the match of each group begins and ends, the first group first. -/
  groups : List (Option (Nat × Nat))
  deriving Repr, DecidableEq, Inhabited

namespace Place

/-- Records the match of a group. -/
def record (p : Place) (index start stop : Nat) : Place :=
  { p with groups := p.groups.set (index - 1) (some (min start stop, max start stop)) }

/-- Forgets the groups after `before` up to `last`. -/
def forget (p : Place) (before last : Nat) : Place :=
  if before = last then p
  else { p with
    groups := p.groups.mapIdx fun i g => if before ≤ i ∧ i < last then none else g }

end Place

/-- A continuation: what is to match after the node at hand. -/
abbrev Next := Place → Option Place

/-- Takes the first alternative that succeeds. -/
def orTry (a : Option Place) (b : Unit → Option Place) : Option Place :=
  match a with
  | some p => some p
  | none => b ()

/-- Repeats a pattern: at least `low` rounds, at most `high`. -/
def iterate (body : Next → Next) (forget : Place → Place) (greedy : Bool) (next : Next) :
    Nat → Nat → Option Nat → Next
  | 0, _, _, p => next p
  | fuel + 1, low, high, p =>
    if high = some 0 then next p
    else
      let round := fun (_ : Unit) => body
        (fun q =>
          if low = 0 ∧ q.position = p.position then none
          else iterate body forget greedy next fuel (low - 1) (high.map (· - 1)) q)
        (forget p)
      if low ≠ 0 then round ()
      else if greedy then orTry (round ()) fun _ => next p
      else orTry (next p) round

/-- Steps over one unit that passes a test. -/
def stepOver (subject : Array Nat) (forward : Bool) (test : Nat → Bool) (next : Next) : Next :=
  fun p =>
    if forward then
      match subject[p.position]? with
      | some u => if test u then next { p with position := p.position + 1 } else none
      | none => none
    else if p.position = 0 then none
    else match subject[p.position - 1]? with
      | some u => if test u then next { p with position := p.position - 1 } else none
      | none => none

/-- Whether two stretches of a subject are equal unit by unit, letter case ignored. -/
def sameStretch (subject : Array Nat) (a b : Nat) : Nat → Bool
  | 0 => true
  | n + 1 =>
    sameStretch subject a b n &&
      match subject[a + n]?, subject[b + n]? with
      | some u, some v => Text.foldUnit u == Text.foldUnit v
      | _, _ => false

/-- Steps over a repetition of the stretch from `start` to `stop`. -/
def stepOverAgain (subject : Array Nat) (forward : Bool) (start stop : Nat) (next : Next) : Next :=
  fun p =>
    let n := stop - start
    if forward then
      if sameStretch subject start p.position n then next { p with position := p.position + n }
      else none
    else if p.position < n then none
    else if sameStretch subject start (p.position - n) n then
      next { p with position := p.position - n }
    else none

/-- Whether a word begins or ends at a point. -/
def isBoundary (subject : Array Nat) (position : Nat) : Bool :=
  let before := position != 0 && (subject[position - 1]?).any isWordUnit
  let after := (subject[position]?).any isWordUnit
  before != after

namespace Node

/-- The first way in which a node matches from a place on such that `next` succeeds after it. -/
def run (subject : Array Nat) : Node → Bool → Next → Next
  | empty, _, next, p => next p
  | unit u, forward, next, p =>
    let folded := Text.foldUnit u
    stepOver subject forward (fun v => Text.foldUnit v == folded) next p
  | oneOf set, forward, next, p => stepOver subject forward set.admits next p
  | sequence a b, forward, next, p =>
    if forward then run subject a forward (run subject b forward next) p
    else run subject b forward (run subject a forward next) p
  | choice a b, forward, next, p =>
    orTry (run subject a forward next p) fun _ => run subject b forward next p
  | group i body, forward, next, p =>
    run subject body forward (fun q => next (q.record i p.position q.position)) p
  | look ahead negative body, _, next, p =>
    match run subject body ahead some p, negative with
    | some q, false => next { q with position := p.position }
    | none, true => next p
    | _, _ => none
  | reference i, forward, next, p =>
    match p.groups[i - 1]? with
    | some (some (a, b)) => stepOverAgain subject forward a b next p
    | _ => next p
  | start, _, next, p => if p.position = 0 then next p else none
  | finish, _, next, p => if p.position = subject.size then next p else none
  | boundary negated, _, next, p =>
    if isBoundary subject p.position != negated then next p else none
  | repetition body low high greedy before last, forward, next, p =>
    iterate (run subject body forward) (·.forget before last) greedy next
      (low + subject.size + 1) low high p

/-- Whether a node matches from some place of a subject on. -/
def occursIn (node : Node) (groups : Nat) (subject : Array Nat) : Bool :=
  (List.range (subject.size + 1)).any fun i =>
    (node.run subject true some ⟨i, List.replicate groups none⟩).isSome

end Node

end PluginAudit.Pattern
