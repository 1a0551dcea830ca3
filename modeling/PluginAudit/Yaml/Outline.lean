import PluginAudit.Yaml.Fault
import PluginAudit.Yaml.Lexeme

/-!
# The outline of a YAML text

An `Outline` says which lexemes belong to which collection, going by marks and indentation alone.
What the lexemes mean is not asked here, and most of what is wrong with a text shows only when that
is asked; so lexemes that should not stand where they do are kept with the item they follow.

`Outline.Builder` keeps the collections that are still open, the innermost first. A lexeme is given
to the innermost one; if that has no use for it, it is closed, becomes part of the one around it,
and the lexeme is given to that one.
-/

namespace PluginAudit.Yaml

/-- An item of a collection, as far as it has been read. -/
structure Item (α : Type) where
  /-- The lexemes before the key, or before the value if there is no key. -/
  start : List Lexeme := []
  /-- A mark says that a key follows. -/
  explicitKey : Bool := false
  key : Option α := none
  /-- The lexemes after the key; their being there says that the item has a key. -/
  sep : Option (List Lexeme) := none
  value : Option α := none
  deriving Inhabited

/-- A node of a text by its lexemes. -/
inductive Outline where
  /-- A scalar on its own, or an alias, and the lexemes after it. -/
  | scalar (lexeme : Lexeme) (ends : List Lexeme)
  /-- A block scalar: its header, the lexemes of the same line, and its text. -/
  | block (indent : Nat) (header : Lexeme) (props : List Lexeme) (text : List Char)
  /-- A map by indentation, the latest item first. -/
  | map (indent offset : Nat) (items : List (Item Outline))
  /-- A list by indentation, the latest item first. -/
  | seq (indent offset : Nat) (items : List (Item Outline))
  /-- A map or list in brackets, the latest item first, and the lexemes from its end on. -/
  | flow (indent : Nat) (start : Lexeme) (items : List (Item Outline)) (ends : List Lexeme)
  /-- A document: the lexemes before its value, the value, and the lexemes after it. -/
  | document (start : List Lexeme) (value : Option Outline) (ends : List Lexeme)
  /-- The end of a document and the lexemes after it. -/
  | documentEnd (lexeme : Lexeme) (ends : List Lexeme)
  deriving Inhabited

namespace Outline

/-- Whether a node is a scalar on its own, an alias or a collection in brackets. -/
def isFlow : Outline → Bool
  | scalar .. => true
  | flow .. => true
  | _ => false

/-- Whether a node is a collection by indentation. -/
def isBlock : Outline → Bool
  | map .. => true
  | seq .. => true
  | _ => false

/-- The lexemes after a node that can have any. -/
def ends? : Outline → Option (List Lexeme)
  | scalar _ [] => none
  | scalar _ es => some es
  | flow _ _ _ es => some es
  | _ => none

/-- The node with further lexemes after it. -/
def addEnds (o : Outline) (ls : List Lexeme) : Outline :=
  match o with
  | scalar l es => scalar l (es ++ ls)
  | flow i s items es => flow i s items (es ++ ls)
  | document s v es => document s v (es ++ ls)
  | documentEnd l es => documentEnd l (es ++ ls)
  | o => o

def indent : Outline → Nat
  | scalar l _ => l.indent
  | block i _ _ _ => i
  | map i _ _ => i
  | seq i _ _ => i
  | flow i _ _ _ => i
  | document .. => 0
  | documentEnd .. => 0

def offset : Outline → Nat
  | scalar l _ => l.offset
  | block _ h _ _ => h.offset
  | map _ o _ => o
  | seq _ o _ => o
  | flow _ s _ _ => s.offset
  | document .. => 0
  | documentEnd l _ => l.offset

/-- Whether a node is in brackets. -/
def isFlowCollection : Outline → Bool
  | flow .. => true
  | _ => false

/-- The items of a collection, the latest first. -/
def items : Outline → List (Item Outline)
  | map _ _ is => is
  | seq _ _ is => is
  | flow _ _ is _ => is
  | _ => []

def withItems (o : Outline) (is : List (Item Outline)) : Outline :=
  match o with
  | map i f _ => map i f is
  | seq i f _ => seq i f is
  | flow i s _ es => flow i s is es
  | o => o

/-- The collection with its latest item replaced, or with a first item. -/
def setLatest (o : Outline) (it : Item Outline) : Outline := o.withItems (it :: o.items.tail)

/-- The collection with one more item. -/
def addItem (o : Outline) (it : Item Outline) : Outline := o.withItems (it :: o.items)

/-- The latest item of a collection. -/
def latest (o : Outline) : Item Outline := o.items.headD {}

/-! ## Lexemes before a key -/

/-- Whether properties before a lexeme of a kind belong to an earlier node. -/
def cutsProps : Kind → Bool
  | .documentStart => true
  | .explicitKey => true
  | .mapValue => true
  | .seqItem => true
  | .newline => true
  | _ => false

/-- Splits the lexemes before a node into those that stay with the collection around it and those
that belong to the first key of a map that begins here. -/
def splitProps (prev : List Lexeme) : List Lexeme × List Lexeme :=
  let back := prev.reverse
  let tail := (back.takeWhile fun l => !cutsProps l.kind).reverse
  let spaces := tail.takeWhile fun l => l.kind = .space
  ((back.dropWhile fun l => !cutsProps l.kind).reverse ++ spaces, tail.drop spaces.length)

/-- Takes from a collection the lexemes that belong to the first key of a map in it. -/
def takeProps : Outline → Outline × List Lexeme
  | document start v es =>
    let (kept, taken) := splitProps start
    (document kept v es, taken)
  | o@(map ..) =>
    let it := o.latest
    match it.sep with
    | some sep =>
      let (kept, taken) := splitProps sep
      (o.setLatest { it with sep := some kept }, taken)
    | none =>
      let (kept, taken) := splitProps it.start
      (o.setLatest { it with start := kept }, taken)
  | o@(seq ..) =>
    let it := o.latest
    let (kept, taken) := splitProps it.start
    (o.setLatest { it with start := kept }, taken)
  | o => (o, [])

/-- Makes plain items of the items of a list in brackets that look like keys without a value. -/
def plainItem (it : Item Outline) : Item Outline :=
  match it.sep, it.value with
  | some sep, none =>
    if Lexeme.has .explicitKey it.start || Lexeme.has .mapValue sep then it
    else match it.key with
      | some key =>
        if key.isFlow then { it with key := none, sep := none, value := some (key.addEnds sep) }
        else { it with start := it.start ++ sep, key := none, sep := none, value := some key }
      | none => { it with start := it.start ++ sep, key := none, sep := none }
  | _, _ => it

/-- The collection with plain items, if it is a list in brackets. -/
def withPlainItems (o : Outline) : Outline :=
  match o with
  | flow i s is es => if s.kind = .flowSeqStart then flow i s (is.map plainItem) es else o
  | o => o

/-! ## Building -/

/-- Something that stands between or around documents. -/
inductive Part where
  | directive (source : List Char)
  | document (o : Outline)
  /-- The end of a document and the lexemes after it. -/
  | documentEnd (ends : List Lexeme)
  deriving Inhabited

/-- What has been built, and where it goes on. -/
structure Builder where
  /-- Nothing but white space stands before the next lexeme on its line. -/
  atNewLine : Bool := true
  /-- The indentation of the current line, its marks included. -/
  indent : Nat := 0
  /-- The number of 16-bit units so far. -/
  offset : Nat := 0
  /-- A key stands on the current line. -/
  onKeyLine : Bool := false
  /-- The open nodes, the innermost first. -/
  stack : List Outline := []
  /-- The finished parts, the latest first. -/
  parts : List Part := []
  deriving Inhabited

namespace Builder

/-- A finished node that is part of nothing. -/
def emit (b : Builder) (o : Outline) : Builder :=
  match o with
  | document .. => { b with parts := .document o :: b.parts }
  | documentEnd _ es => { b with parts := .documentEnd es :: b.parts }
  | _ => b

/-- A finished node's indentation counts as that of the collection around it if it is a block
scalar, and as none if it is a collection in brackets right in a document. -/
def adjust (around o : Outline) : Outline :=
  match o, around with
  | block _ h ps t, around => block around.indent h ps t
  | flow _ s is es, document .. => flow 0 s is es
  | o, _ => o

/-- The empty item at the end of a finished collection, if its lexemes belong to the collection
around it, and the collection without it. -/
def splitTrailing (o : Outline) : Option (List Lexeme) × Outline :=
  if o.isBlock then
    match o.items with
    | it :: rest =>
      if it.sep.isNone && it.value.isNone && !it.start.isEmpty &&
          it.start.all (fun l => l.kind.isGap) &&
          (o.indent = 0 || it.start.all fun l => l.kind ≠ .comment || l.indent < o.indent) then
        (some it.start, o.withItems rest)
      else (none, o)
    | [] => (none, o)
  else (none, o)

/-- Makes a finished node part of the collection around it. The second part says whether it became
a key, and whether that key stands on the current line. -/
def attach (around o : Outline) : Outline × Option Bool :=
  let it := around.latest
  match around with
  | document start _ es =>
    let (trailing, o) := splitTrailing o
    (document start (some o) (trailing.getD es), none)
  | map .. =>
    if it.value.isSome then (around.addItem { key := some o, sep := some [] }, some true)
    else if it.sep.isSome then
      let (trailing, o) := splitTrailing o
      let around := around.setLatest { it with value := some o }
      (match trailing with
        | some ls => around.addItem { start := ls }
        | none => around, none)
    else (around.setLatest { it with key := some o, sep := some [] }, some !it.explicitKey)
  | seq .. =>
    let (trailing, o) := splitTrailing o
    let around :=
      if it.value.isSome then around.addItem { value := some o }
      else around.setLatest { it with value := some o }
    (match trailing with
      | some ls => around.addItem { start := ls }
      | none => around, none)
  | flow _ _ is _ =>
    if is.isEmpty || it.value.isSome then
      (around.addItem { key := some o, sep := some [] }, none)
    else if it.sep.isSome then (around.setLatest { it with value := some o }, none)
    else (around.setLatest { it with key := some o, sep := some [] }, none)
  | around => (around, none)

def close (b : Builder) : Builder :=
  match b.stack with
  | [] => b
  | [o] => { b with stack := [] }.emit o
  | o :: around :: rest =>
    let (around, key?) := attach around (adjust around o).withPlainItems
    { b with stack := around :: rest, onKeyLine := key?.getD b.onKeyLine }

def closeAll : Nat → Builder → Builder
  | 0, b => b
  | n + 1, b => closeAll n b.close

def setTop (b : Builder) (o : Outline) : Builder := { b with stack := o :: b.stack.tail }

def push (b : Builder) (o : Outline) : Builder := { b with stack := o :: b.stack }

/-- What becomes of a lexeme: it has been taken in, or it is to be given to the next open node. -/
abbrev Outcome := Except Fault (Bool × Builder)

/-- The lexeme has been taken in. -/
def taken (b : Builder) : Outcome := .ok (false, b)

/-- The innermost node is closed, and the lexeme given to the next. -/
def closeAndRetry (b : Builder) : Outcome := .ok (true, b.close)

/-- Opens the node that a lexeme begins in the innermost open node `parent`, if it begins any. -/
def open? (b : Builder) (parent : Outline) (l : Lexeme) : Option Builder :=
  let openMap (it : List Lexeme → Item Outline) : Builder :=
    let (parent, start) := parent.takeProps
    { (b.setTop parent).push (map l.indent l.offset [it start]) with onKeyLine := true }
  if l.kind.isFlowScalar then some (b.push (scalar l []))
  else match l.kind with
    | .blockHeader => some (b.push (block l.indent l [] []))
    | .flowMapStart => some (b.push (flow l.indent l [] []))
    | .flowSeqStart => some (b.push (flow l.indent l [] []))
    | .seqItem => some (b.push (seq l.indent l.offset [{ start := [l] }]))
    | .explicitKey =>
      some (openMap fun start => { start := start ++ [l], explicitKey := true })
    | .mapValue => some (openMap fun start => { start := start, sep := some [l] })
    | _ => none

/-- Gives a lexeme to a node that is complete but for the rest of its line. -/
def atEnd (b : Builder) (o : Outline) (l : Lexeme) : Outcome :=
  match l.kind with
  | .comma => b.closeAndRetry
  | .documentStart => b.closeAndRetry
  | .documentEnd => b.closeAndRetry
  | .flowSeqEnd => b.closeAndRetry
  | .flowMapEnd => b.closeAndRetry
  | .mapValue => b.closeAndRetry
  | .newline => taken { b.setTop (o.addEnds [l]) with onKeyLine := false }.close
  | _ => taken (b.setTop (o.addEnds [l]))

/-- Gives a lexeme to no node at all. -/
def atStream (b : Builder) (l : Lexeme) : Outcome :=
  match l.kind with
  | .directive => taken { b with parts := .directive l.source :: b.parts }
  | .byteOrderMark => taken b
  | .space => taken b
  | .comment => taken b
  | .newline => taken b
  | .documentMode => taken (b.push (document [] none []))
  | .documentStart => taken (b.push (document [l] none []))
  | _ => .error .unexpected

/-- Gives a lexeme to a document. -/
def atDocument (b : Builder) (start : List Lexeme) (value : Option Outline) (es : List Lexeme)
    (l : Lexeme) : Outcome :=
  let keep := taken (b.setTop (document (start ++ [l]) none es))
  if value.isSome then b.atEnd (document start value es) l
  else match l.kind with
    | .documentStart => if start.all (·.kind.isGap) then keep else b.closeAndRetry
    | .anchor => keep
    | .tag => keep
    | .space => keep
    | .comment => keep
    | .newline => keep
    | _ =>
      match b.open? (document start value es) l with
      | some b => taken b
      | none => .error .unexpected

/-- Replaces the innermost node, which turns out to be a key, by a map that begins with it. -/
def turnIntoKey (b : Builder) (key : Outline) (sep : List Lexeme) : Outcome :=
  match b.stack with
  | _ :: parent :: rest =>
    let (parent, start) := parent.takeProps
    let m := map key.indent key.offset [{ start := start, key := some key, sep := some sep }]
    taken { b with stack := m :: parent :: rest, onKeyLine := true }
  | _ => .error .unexpected

/-- Gives a lexeme to a scalar. -/
def atScalar (b : Builder) (lexeme : Lexeme) (es : List Lexeme) (l : Lexeme) : Outcome :=
  if l.kind = .mapValue then b.turnIntoKey (scalar lexeme []) (es ++ [l])
  else b.atEnd (scalar lexeme es) l

/-- Gives a lexeme to a block scalar. -/
def atBlock (b : Builder) (indent : Nat) (header : Lexeme) (props : List Lexeme) (l : Lexeme) :
    Outcome :=
  if l.kind.isGap then taken (b.setTop (block indent header (props ++ [l]) []))
  else if l.kind = .scalar then
    taken { b.setTop (block indent header props l.source) with
      atNewLine := true, indent := 0 }.close
  else b.closeAndRetry

/-- Whether a comment that follows only white space is indented more than its collection. -/
def isIndentedComment (start : List Lexeme) (indent : Nat) (l : Lexeme) : Bool :=
  l.kind = .comment && indent < l.indent &&
    start.all fun s => s.kind = .newline || s.kind = .space

/-- Gives white space or a comment to a collection by indentation. -/
def atGap (b : Builder) (o : Outline) (l : Lexeme) : Outcome :=
  let it := o.latest
  let put (o : Outline) : Outcome :=
    taken { b.setTop o with onKeyLine := if l.kind = .newline then false else b.onKeyLine }
  match it.value, it.sep with
  | some v, _ =>
    if l.kind = .newline && (v.ends?.bind List.getLast?).any (·.kind = .comment) then
      put (o.setLatest { it with value := some (v.addEnds [l]) })
    else put (o.addItem { start := [l] })
  | none, some sep => put (o.setLatest { it with sep := some (sep ++ [l]) })
  | none, none =>
    let keep := put (o.setLatest { it with start := it.start ++ [l] })
    if isIndentedComment it.start o.indent l then
      match o.items with
      | _ :: prev :: rest =>
        match prev.value with
        | some v =>
          if v.ends?.isSome then
            put (o.withItems ({ prev with value := some (v.addEnds (it.start ++ [l])) } :: rest))
          else keep
        | none => keep
      | _ => keep
    else keep

/-- Splits the lexemes after a key that has no value from the second line end on; what follows it
belongs to the next item. -/
def splitAfterKey (indent : Nat) (sep : List Lexeme) : List Lexeme × List Lexeme :=
  let note (found : List Nat) (p : Lexeme × Nat) : List Nat :=
    match p.1.kind with
    | .newline => found ++ [p.2]
    | .space => found
    | .comment => if indent < p.1.indent then [] else found
    | _ => []
  match sep.zipIdx.foldl note [] with
  | _ :: i :: _ => (sep.take i, sep.drop i)
  | _ => (sep, [])

/-- Gives the mark of a value to an item of a map. -/
def atMapValue (b : Builder) (o : Outline) (it : Item Outline) (start : List Lexeme)
    (atNextItem : Bool) (l : Lexeme) : Builder :=
  let nested (start : List Lexeme) : Outline :=
    map l.indent l.offset [{ start := start, sep := some [l] }]
  let withKey := { it with key := none, sep := some [l] }
  match it.sep with
  | none =>
    if it.explicitKey && !Lexeme.has .newline it.start then
      let (kept, first) := splitProps it.start
      (b.setTop (o.setLatest { it with start := kept })).push (nested first)
    else b.setTop (o.setLatest withKey)
  | some sep =>
    if it.explicitKey then
      if it.value.isSome then b.setTop (o.addItem { sep := some [l] })
      else if Lexeme.has .mapValue sep then b.push (nested start)
      else if it.key.any isFlow && !Lexeme.has .newline sep then
        let (kept, first) := splitProps it.start
        let key := { start := first, key := it.key, sep := some (sep ++ [l]) }
        (b.setTop (o.setLatest { it with start := kept, key := none, sep := none })).push
          (map l.indent l.offset [key])
      else b.setTop (o.setLatest { it with sep := some (sep ++ start ++ [l]) })
    else if it.value.isSome || atNextItem then
      b.setTop (o.addItem { start := start, sep := some [l] })
    else if Lexeme.has .mapValue sep then b.push (nested [])
    else b.setTop (o.setLatest { it with sep := some (sep ++ [l]) })

/-- Gives a lexeme to a map by indentation. -/
def atMap (b : Builder) (o : Outline) (l : Lexeme) : Outcome :=
  if l.kind.isGap then b.atGap o l
  else if l.indent < o.indent then b.closeAndRetry
  else
    let it := o.latest
    let atMapIndent := !b.onKeyLine && l.indent = o.indent
    let atNextItem := atMapIndent && (it.sep.isSome || it.explicitKey) && l.kind ≠ .seqItem
    let (it, start) := match it.sep, it.value with
      | some sep, none =>
        if atNextItem then
          let (kept, next) := splitAfterKey o.indent sep
          ({ it with sep := some kept }, next)
        else (it, [])
      | _, _ => (it, [])
    let o := o.setLatest it
    let b := b.setTop o
    let isNext := atNextItem || it.value.isSome
    match l.kind with
    | .anchor | .tag =>
      if isNext then
        taken { b.setTop (o.addItem { start := start ++ [l] }) with onKeyLine := true }
      else match it.sep with
        | some sep => taken (b.setTop (o.setLatest { it with sep := some (sep ++ [l]) }))
        | none => taken (b.setTop (o.setLatest { it with start := it.start ++ [l] }))
    | .explicitKey =>
      let b :=
        if it.sep.isNone && !it.explicitKey then
          b.setTop (o.setLatest { it with start := it.start ++ [l], explicitKey := true })
        else if isNext then
          b.setTop (o.addItem { start := start ++ [l], explicitKey := true })
        else b.push (map l.indent l.offset [{ start := [l], explicitKey := true }])
      taken { b with onKeyLine := true }
    | .mapValue => taken { b.atMapValue o it start atNextItem l with onKeyLine := true }
    | .alias | .scalar | .singleQuoted | .doubleQuoted =>
      let key := some (scalar l [])
      if isNext then
        taken { b.setTop (o.addItem { start := start, key := key, sep := some [] }) with
          onKeyLine := true }
      else if it.sep.isSome then taken (b.push (scalar l []))
      else
        taken { b.setTop (o.setLatest { it with key := key, sep := some [] }) with
          onKeyLine := true }
    | .seqItem =>
      if !it.explicitKey && it.sep.any fun sep => !Lexeme.has .newline sep then
        .error .unexpected
      else taken (b.push (seq l.indent l.offset [{ start := [l] }]))
    | _ =>
      let o := if atMapIndent then o.addItem { start := start } else o
      match (b.setTop o).open? o l with
      | some b => taken b
      | none => b.closeAndRetry

/-- Gives a lexeme to a list by indentation. -/
def atSeq (b : Builder) (o : Outline) (l : Lexeme) : Outcome :=
  let it := o.latest
  let keep := taken (b.setTop (o.setLatest { it with start := it.start ++ [l] }))
  let other :=
    if o.indent < l.indent then
      match b.open? o l with
      | some b => taken b
      | none => b.closeAndRetry
    else b.closeAndRetry
  if l.kind.isGap then b.atGap o l
  else match l.kind with
    | .anchor | .tag => if it.value.isSome || l.indent ≤ o.indent then other else keep
    | .seqItem =>
      if l.indent ≠ o.indent then other
      else if it.value.isSome || Lexeme.has .seqItem it.start then
        taken (b.setTop (o.addItem { start := [l] }))
      else keep
    | _ => other

/-- Closes the innermost collection, and those in brackets around it. -/
def closeFlow : Nat → Builder → Builder
  | 0, b => b
  | n + 1, b =>
    let b := b.close
    match b.stack with
    | flow .. :: _ => closeFlow n b
    | _ => b

/-- Gives a lexeme to a collection in brackets that is not closed yet. -/
def inFlow (b : Builder) (o : Outline) (l : Lexeme) : Outcome :=
  let it := o.latest
  let isNext := o.items.isEmpty || it.value.isSome
  let intoItem : Builder :=
    if isNext then b.setTop (o.addItem { start := [l] })
    else match it.sep with
      | some sep => b.setTop (o.setLatest { it with sep := some (sep ++ [l]) })
      | none => b.setTop (o.setLatest { it with start := it.start ++ [l] })
  if l.kind.isFlowScalar then
    let key := some (scalar l [])
    if isNext then taken (b.setTop (o.addItem { key := key, sep := some [] }))
    else if it.sep.isSome then taken (b.push (scalar l []))
    else taken (b.setTop (o.setLatest { it with key := key, sep := some [] }))
  else match l.kind with
    | .comma | .explicitKey =>
      if o.items.isEmpty || it.sep.isSome then taken (b.setTop (o.addItem { start := [l] }))
      else taken (b.setTop (o.setLatest { it with start := it.start ++ [l] }))
    | .mapValue =>
      if isNext then taken (b.setTop (o.addItem { sep := some [l] }))
      else match it.sep with
        | some sep => taken (b.setTop (o.setLatest { it with sep := some (sep ++ [l]) }))
        | none => taken (b.setTop (o.setLatest { it with key := none, sep := some [l] }))
    | .space | .comment | .newline | .anchor | .tag => taken intoItem
    | .flowMapEnd | .flowSeqEnd => taken (b.setTop (o.addEnds [l]))
    | _ =>
      match b.open? o l with
      | some b => taken b
      | none => b.closeAndRetry

/-- Gives a lexeme to a collection in brackets that is closed. -/
def afterFlow (b : Builder) (o : Outline) (l : Lexeme) : Outcome :=
  let parent := b.stack.tail.headD (document [] none [])
  let endsItem := match parent with
    | map i _ _ =>
      (l.kind = Kind.mapValue && i = o.indent) ||
        (l.kind = Kind.newline && parent.latest.sep.isNone)
    | _ => false
  if endsItem then b.closeAndRetry
  else if l.kind = Kind.mapValue && !parent.isFlowCollection then
    match o.withPlainItems with
    | flow i s is (e :: es) => b.turnIntoKey (flow i s is [e]) (es ++ [l])
    | _ => .error .unexpected
  else b.atEnd o l

/-- Gives a lexeme to a collection in brackets. -/
def atFlow (b : Builder) (o : Outline) (es : List Lexeme) (l : Lexeme) : Outcome :=
  if l.kind = .flowGivenUp then taken (closeFlow (b.stack.length + 1) b)
  else if es.isEmpty then b.inFlow o l
  else b.afterFlow o l

/-- Gives a lexeme to the end of a document. -/
def atDocumentEnd (b : Builder) (o : Outline) (l : Lexeme) : Outcome :=
  if l.kind = .documentMode then taken b
  else
    let b := b.setTop (o.addEnds [l])
    taken (if l.kind = .newline then b.close else b)

/-- Gives a lexeme to the innermost open node. -/
def give (b : Builder) (l : Lexeme) : Outcome :=
  match b.stack with
  | [] => if l.kind = .documentEnd then taken (b.push (documentEnd l [])) else b.atStream l
  | o :: _ =>
    match o with
    | documentEnd .. => b.atDocumentEnd o l
    | _ =>
      if l.kind = .documentEnd then
        taken ((closeAll b.stack.length b).push (documentEnd l []))
      else match o with
        | document start value es => b.atDocument start value es l
        | scalar lexeme es => b.atScalar lexeme es l
        | block indent header props _ => b.atBlock indent header props l
        | map .. => b.atMap o l
        | seq .. => b.atSeq o l
        | flow _ _ _ es => b.atFlow o es l
        | documentEnd .. => b.atDocumentEnd o l

/-- Gives a lexeme to the open nodes from the inside out until one takes it in. -/
def giveAll (l : Lexeme) : Nat → Builder → Except Fault Builder
  | 0, _ => .error .unexpected
  | n + 1, b =>
    match b.give l with
    | .error f => .error f
    | .ok (true, b) => giveAll l n b
    | .ok (false, b) => .ok b

def pass (b : Builder) (l : Lexeme) : Builder :=
  let n := (Text.units l.source).length
  let b := { b with offset := b.offset + n }
  match l.kind with
  | .newline => { b with atNewLine := true, indent := 0 }
  | .space =>
    if b.atNewLine && l.source.head? == some ' ' then { b with indent := b.indent + n } else b
  | .explicitKey | .mapValue | .seqItem =>
    if b.atNewLine then { b with indent := b.indent + n } else b
  | .documentMode | .flowGivenUp | .scalar => b
  | _ => { b with atNewLine := false }

def step (b : Builder) (p : Piece) : Except Fault Builder :=
  let take (kind : Kind) (source : List Char) (b : Builder) : Except Fault Builder :=
    let l : Lexeme := ⟨kind, source, b.indent, b.offset⟩
    match giveAll l (b.stack.length + 1) b with
    | .error f => .error f
    | .ok b => .ok (b.pass l)
  match p with
  | .documentStart => take .documentMode [] b
  | .flowGivenUp => take .flowGivenUp [] b
  | .scalar cs => take .scalar cs { b with atNewLine := false }
  | .text cs =>
    match Kind.ofText? cs with
    | none => .error .strayText
    | some kind => take kind cs b

end Builder

/-- The parts of a text, cut into pieces. -/
def ofPieces (ps : List Piece) : Except Fault (List Part) :=
  match ps.foldlM Builder.step {} with
  | .error f => .error f
  | .ok b => .ok (Builder.closeAll b.stack.length b).parts.reverse

end Outline

end PluginAudit.Yaml
