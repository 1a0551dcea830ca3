import PluginAudit.Yaml.Fault
import PluginAudit.Yaml.Outline

/-!
# What stands before and after a node

Before a node stand its mark, its anchor and its tag, with white space and comments between them;
after it only white space and comments. `Properties.ofLexemes` reads the first, `checkEnds` the
second.
-/

namespace PluginAudit.Yaml

/-- What follows the lexemes before a node, as far as it matters there. -/
inductive Follower where
  | nothing
  /-- White space, a comma or an empty text. -/
  | gap
  | flow
  | block
  | other
  deriving Repr, DecidableEq, Inhabited

def Outline.follower : Outline → Follower
  | scalar l _ => if l.kind = .scalar && l.source.isEmpty then .gap else .other
  | flow .. => .flow
  | map .. => .block
  | seq .. => .block
  | _ => .other

def Lexeme.follower (l : Lexeme) : Follower :=
  match l.kind with
  | .space => .gap
  | .newline => .gap
  | .comma => .gap
  | _ => .other

/-- A node that follows, or else the first of some lexemes. -/
def follower (o : Option Outline) (ls : List Lexeme) : Follower :=
  match o, ls with
  | some o, _ => o.follower
  | none, l :: _ => l.follower
  | none, [] => .nothing

structure Setting where
  /-- The mark that may stand before the node. -/
  indicator : Kind
  /-- It is in a collection in brackets. -/
  inFlow : Bool := false
  /-- What follows the lexemes before it. -/
  next : Follower
  /-- The indentation of the collection it is in. -/
  around : Nat
  /-- The lexemes before it begin a line. -/
  startsLine : Bool
  deriving Repr, Inhabited

structure Properties where
  comma : Bool := false
  found : Option Lexeme := none
  anchor : Option Lexeme := none
  tag : Option Lexeme := none
  hasNewline : Bool := false
  /-- The last line end after the anchor or the tag. -/
  newlineAfter : Option Lexeme := none
  /-- The offset of the first of the anchor and the tag. -/
  start : Option Nat := none
  deriving Repr, Inhabited

namespace Properties

/-- The state of reading what stands before a node. -/
structure Reader where
  props : Properties := {}
  /-- Only white space stands before the next lexeme on its line. -/
  atNewline : Bool
  /-- White space stands right before the next lexeme. -/
  hasSpace : Bool
  /-- An anchor or a tag stands right before the next lexeme. -/
  needsSpace : Bool := false
  /-- White space with a tab stands right before the next lexeme. -/
  tab : Option Lexeme := none
  deriving Repr, Inhabited

def Reader.read (s : Setting) (r : Reader) (l : Lexeme) : Except Fault Reader := do
  if r.needsSpace && l.follower ≠ .gap then throw .missing
  if r.tab.isSome && r.atNewline && l.kind ≠ .comment && l.kind ≠ .newline then
    throw .tabIndentation
  let r := { r with needsSpace := false, tab := none }
  let p := r.props
  let hasProps := p.anchor.isSome || p.tag.isSome
  match l.kind with
  | .space =>
    let mayIndent := !s.inFlow && (s.indicator ≠ .documentStart || s.next ≠ .flow)
    return { r with
      hasSpace := true
      tab := if mayIndent && l.source.contains '\t' then some l else none }
  | .comment => if r.hasSpace then return { r with atNewline := false } else throw .missing
  | .newline =>
    return { r with
      atNewline := true
      hasSpace := true
      props := { p with
        hasNewline := true
        newlineAfter := if hasProps then some l else p.newlineAfter } }
  | .anchor =>
    if p.anchor.isSome then throw .properties
    if l.source.length = 1 then throw .emptyAlias
    return { r with
      atNewline := false
      hasSpace := false
      needsSpace := true
      props := { p with anchor := some l, start := p.start.or (some l.offset) } }
  | .tag =>
    if p.tag.isSome then throw .properties
    return { r with
      atNewline := false
      hasSpace := false
      needsSpace := true
      props := { p with tag := some l, start := p.start.or (some l.offset) } }
  | kind =>
    if kind = s.indicator then
      if hasProps then throw .properties
      if p.found.isSome then throw .unexpected
      return { r with
        atNewline := s.indicator = .seqItem || s.indicator = .explicitKey
        hasSpace := false
        props := { p with found := some l } }
    else if kind = .comma && s.inFlow then
      if p.comma then throw .unexpected
      return { r with atNewline := false, hasSpace := false, props := { p with comma := true } }
    else throw .unexpected

/-- Reads the lexemes before a node. -/
def ofLexemes (s : Setting) (ls : List Lexeme) : Except Fault Properties := do
  let r ← ls.foldlM (Reader.read s) { atNewline := s.startsLine, hasSpace := s.startsLine }
  if r.needsSpace && s.next ≠ .gap && s.next ≠ .nothing then throw .missing
  if r.tab.any fun t => (r.atNewline && t.indent ≤ s.around) || s.next = .block then
    throw .tabIndentation
  return r.props

def anchorName? (p : Properties) : Option String :=
  p.anchor.map fun l => String.ofList (l.source.drop 1)

/-- The later one of the anchor and the tag. -/
def last? (p : Properties) : Option Lexeme :=
  match p.anchor, p.tag with
  | some a, some t => some (if t.offset < a.offset then a else t)
  | a, t => a.or t

/-- Whether a line ends between the properties and the node. -/
def endLine (p : Properties) : Bool :=
  match p.last?, p.newlineAfter with
  | some l, some n => l.offset < n.offset
  | _, _ => false

end Properties

/-- Checks that only white space and comments follow a node, and white space before a comment where
it is needed. -/
def checkEnds (needsSpace : Bool) : List Lexeme → Except Fault Unit
  | [] => .ok ()
  | l :: ls =>
    match l.kind with
    | .space => checkEnds false ls
    | .newline => checkEnds false ls
    | .comment => if needsSpace then .error .missing else checkEnds needsSpace ls
    | _ => .error .unexpected

end PluginAudit.Yaml
