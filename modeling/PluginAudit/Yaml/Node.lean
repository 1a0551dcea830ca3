import PluginAudit.Yaml.BlockScalar
import PluginAudit.Yaml.Directive
import PluginAudit.Yaml.FlowScalar
import PluginAudit.Yaml.Properties
import PluginAudit.Yaml.Scalar

/-!
# The nodes of a YAML document

A `Node` is what an outline means: scalars have their values, collections their items, and anchors
and aliases still stand for themselves. Whatever is out of place is found here.

An outline holds its items with the latest first, so the functions on lists of items go to the end
of the list for the beginning of the text and give their results with the latest first again.
-/

namespace PluginAudit.Yaml

inductive Node where
  /-- A scalar, perhaps with an anchor. -/
  | scalar (anchor : Option String) (scalar : Scalar)
  | alias (name : String)
  /-- A list, perhaps with an anchor; a tag may make it something else. -/
  | seq (anchor : Option String) (isList : Bool) (items : List Node)
  /-- A map, perhaps with an anchor; a tag may make it something else. -/
  | map (anchor : Option String) (isMap : Bool) (pairs : List (Node × Node))
  deriving Repr, Inhabited

namespace Node

def null : Node := scalar none ⟨.null, false⟩

/-- Whether two nodes are equal as keys of a map. -/
def sameKey : Node → Node → Bool
  | scalar _ a, scalar _ b => a.sameKey b
  | _, _ => false

def isNull : Node → Bool
  | scalar _ ⟨.null, _⟩ => true
  | _ => false

/-- The number of pairs of a map; none for anything else. -/
def pairCount? : Node → Option Nat
  | map _ _ pairs => some pairs.length
  | _ => none

/-- The key of a map's first pair. -/
def firstKey? : Node → Option Node
  | map _ _ ((k, _) :: _) => some k
  | _ => none

end Node

/-! ## Keys of one line -/

mutual

/-- Whether a node spans several lines. -/
def Outline.spansLines : Outline → Bool
  | .scalar l es => l.source.contains '\n' || Lexeme.has .newline es
  | .flow _ _ items _ => itemsSpanLines items
  | _ => true

def itemsSpanLines : List (Item Outline) → Bool
  | [] => false
  | it :: its => itemSpansLines it || itemsSpanLines its

/-- Whether an item spans several lines. -/
def itemSpansLines : Item Outline → Bool
  | ⟨start, _, key, sep, value⟩ =>
    Lexeme.has .newline start || sep.any (Lexeme.has .newline) || optionSpansLines key ||
      optionSpansLines value

/-- Whether there is a node, and it spans several lines. -/
def optionSpansLines : Option Outline → Bool
  | none => false
  | some o => o.spansLines

end

/-! ## Tags -/

/-- The name of a node's tag. -/
def Properties.tagName? (d : Directives) (p : Properties) : Except Fault (Option String) :=
  match p.tag with
  | none => .ok none
  | some l => (d.tagName l.source).map fun name => if name.isEmpty then none else some name

/-- The node of a scalar's text. -/
def scalarNode (d : Directives) (isPlain atKey : Bool) (p : Properties) (cs : List Char) :
    Except Fault Node := do
  let s ← match ← p.tagName? d with
    | none => pure (if isPlain then Scalar.ofPlain d.isOld atKey cs else Scalar.ofText false cs)
    | some "!" => pure (Scalar.ofText isPlain cs)
    | some tag => Scalar.ofTagged d.isOld isPlain tag cs
  return .scalar p.anchorName? s

/-- The node of a map's pairs. A set is a map whose values all say nothing. -/
def mapNode (d : Directives) (p : Properties) (pairs : List (Node × Node)) : Except Fault Node := do
  match ← p.tagName? d with
  | some "tag:yaml.org,2002:set" =>
    if pairs.all fun (_, v) => v.isNull then return .map p.anchorName? false pairs
    else throw .tag
  | _ => return .map p.anchorName? true pairs

/-- Whether no two of some keys are equal. -/
def distinctKeys : List Node → Bool
  | [] => true
  | k :: ks => !ks.any (·.sameKey k) && distinctKeys ks

/-- The node of a list's items. A list of pairs has maps of one pair each, and so has an ordered
map, whose keys are distinct. -/
def seqNode (d : Directives) (p : Properties) (items : List Node) : Except Fault Node := do
  let ofPairs := items.all fun n => (n.pairCount?.getD 0) ≤ 1
  match ← p.tagName? d with
  | some "tag:yaml.org,2002:omap" =>
    if ofPairs && distinctKeys (items.filterMap Node.firstKey?) then
      return .seq p.anchorName? false items
    else throw .tag
  | some "tag:yaml.org,2002:pairs" =>
    if ofPairs then
      return .seq p.anchorName? true
        (items.map fun n => if n.pairCount?.isSome then n else .map none true [(n, .null)])
    else throw .tag
  | _ => return .seq p.anchorName? true items

/-! ## Checks around a node -/

/-- The longest implicit key, in 16-bit units. -/
def longestKey : Nat := 1024

/-- The offset at which a key begins. -/
def keyStart (p : Properties) (key : Option Outline) (sep : List Lexeme) : Nat :=
  p.start.getD ((key.map (·.offset)).getD ((sep.head?.map (·.offset)).getD 0))

/-- Checks a key that no mark says to be one. -/
def checkImplicitKey (p : Properties) (indent : Nat) (key : Option Outline) : Except Fault Unit :=
  match key with
  | some (.seq ..) => .error .indentation
  | some k => if k.indent = indent then .ok () else .error .indentation
  | none => if p.newlineAfter.isSome then .error .longKey else .ok ()

/-- Whether there is a node, and it is a collection by indentation. -/
def isBlock (o : Option Outline) : Bool := o.any Outline.isBlock

/-- Whether a node is a map by indentation. -/
def isBlockMap : Option Outline → Bool
  | some (.map ..) => true
  | _ => false

/-- Whether a value's mark begins a line when there is no key, or one that ends its line. -/
def valueStartsLine : Option Outline → Bool
  | none => true
  | some (.block ..) => true
  | some _ => false

/-- Whether a line ends before a mark. -/
def newlineBefore (mark : Lexeme) (ls : List Lexeme) : Bool :=
  Lexeme.has .newline (ls.takeWhile (·.offset ≠ mark.offset))

/-! ## Nodes -/

mutual

/-- The node of an outline with what stands before it. -/
def nodeOf (d : Directives) (atRoot atKey : Bool) (p : Properties) : Outline → Except Fault Node
  | .scalar l es => do
    checkEnds true es
    match l.kind with
    | .alias =>
      if p.anchor.isSome || p.tag.isSome then throw .properties
      if l.source.length ≤ 1 then throw .emptyAlias
      return .alias (String.ofList (l.source.drop 1))
    | .singleQuoted => scalarNode d false atKey p (← singleQuotedText l.source)
    | .doubleQuoted => scalarNode d false atKey p (← doubleQuotedText l.source)
    | _ => scalarNode d true atKey p (← plainText l.source)
  | .block indent header props cs => do
    let h ← BlockHeader.ofText header.source
    checkEnds true props
    scalarNode d false atKey p (← blockText h atRoot indent cs)
  | .map indent _ items => do
    let (pairs, _) ← pairsOf d indent items
    mapNode d p pairs.reverse
  | .seq indent _ items => do
    if p.last?.isSome && !p.endLine then throw .missing
    let nodes ← itemsOf d indent items
    seqNode d p nodes.reverse
  | .flow indent start items ends => do
    let isMap := start.kind = .flowMapStart
    let nodes ← flowItemsOf d isMap indent true items
    match ends with
    | [] => throw .flow
    | e :: es =>
      if e.kind ≠ (if isMap then .flowMapEnd else .flowSeqEnd) then throw .flow
      checkEnds true es
    if isMap then mapNode d p (nodes.reverse.map fun (k, v) => (k, v.getD .null))
    else seqNode d p (nodes.reverse.map fun (k, v) => match v with
      | none => k
      | some v => .map none true [(k, v)])
  | .document .. => throw .unexpected
  | .documentEnd .. => throw .unexpected

/-- The node of an outline, or that of an empty text. -/
def optionOf (d : Directives) (atKey : Bool) (p : Properties) : Option Outline → Except Fault Node
  | none => scalarNode d true atKey p []
  | some o => nodeOf d false atKey p o

/-- The pairs of a map by indentation. The second part says that white space after the last pair has
been met. -/
def pairsOf (d : Directives) (indent : Nat) :
    List (Item Outline) → Except Fault (List (Node × Node) × Bool)
  | [] => .ok ([], false)
  | it :: earlier => do
    let (pairs, ended) ← pairsOf d indent earlier
    match ← pairOf d indent it with
    | none => return (pairs, true)
    | some (k, v) =>
      if ended then throw .indentation
      if pairs.any fun (l, _) => l.sameKey k then throw .duplicateKey
      return ((k, v) :: pairs, false)

/-- The pair of a map's item, unless the item holds only white space. -/
def pairOf (d : Directives) (indent : Nat) : Item Outline → Except Fault (Option (Node × Node))
  | ⟨start, _, key, sep?, value⟩ => do
    let sep := sep?.getD []
    let p ← Properties.ofLexemes ⟨.explicitKey, false, follower key sep, indent, true⟩ start
    match p.found with
    | some mark => if mark.indent ≠ indent then throw .indentation
    | none => checkImplicitKey p indent key
    if p.found.isNone && p.anchor.isNone && p.tag.isNone && sep?.isNone then return none
    if p.found.isNone && (p.newlineAfter.isSome || optionSpansLines key) then throw .longKey
    let k ← optionOf d true p key
    let q ← Properties.ofLexemes
      ⟨.mapValue, false, follower value [], indent, valueStartsLine key⟩ sep
    match q.found with
    | none => if p.found.isSome then return some (k, .null) else throw .missing
    | some colon =>
      if p.found.isNone then
        if isBlockMap value && !q.hasNewline then throw .unexpected
        if keyStart p key sep + longestKey < colon.offset then throw .longKey
      let v ← optionOf d false q value
      return some (k, v)

/-- The items of a list by indentation. -/
def itemsOf (d : Directives) (indent : Nat) : List (Item Outline) → Except Fault (List Node)
  | [] => .ok []
  | it :: earlier => do
    let nodes ← itemsOf d indent earlier
    match ← seqItemOf d indent it with
    | none => return nodes
    | some n => return n :: nodes

/-- The item of a list by indentation, unless it holds only white space. -/
def seqItemOf (d : Directives) (indent : Nat) : Item Outline → Except Fault (Option Node)
  | ⟨start, _, _, _, value⟩ => do
    let p ← Properties.ofLexemes ⟨.seqItem, false, follower value [], indent, true⟩ start
    if p.found.isNone then
      if p.anchor.isSome || p.tag.isSome || value.isSome then throw .missing
      return none
    let n ← optionOf d false p value
    return some n

/-- The items of a collection in brackets, each with its value if it is a pair. -/
def flowItemsOf (d : Directives) (isMap : Bool) (indent : Nat) (isLast : Bool) :
    List (Item Outline) → Except Fault (List (Node × Option Node))
  | [] => .ok []
  | it :: earlier => do
    let nodes ← flowItemsOf d isMap indent false earlier
    match ← flowItemOf d isMap indent earlier.isEmpty isLast it with
    | none => return nodes
    | some (k, v) =>
      if isMap && nodes.any fun (l, _) => l.sameKey k then throw .duplicateKey
      return (k, v) :: nodes

/-- The item of a collection in brackets, with its value if it is a pair; the last one may be
missing. -/
def flowItemOf (d : Directives) (isMap : Bool) (indent : Nat) (isFirst isLast : Bool) :
    Item Outline → Except Fault (Option (Node × Option Node))
  | ⟨start, _, key, sep?, value⟩ => do
    let sep := sep?.getD []
    let p ← Properties.ofLexemes ⟨.explicitKey, true, follower key sep, indent, false⟩ start
    if isFirst && p.comma then throw .unexpected
    if p.found.isNone && p.anchor.isNone && p.tag.isNone && sep?.isNone && value.isNone then
      if isLast then return none else throw .unexpected
    if p.found.isNone && !isMap && optionSpansLines key then throw .longKey
    if !isFirst && !p.comma then throw .missing
    if isBlock key || isBlock value then throw .flow
    if !isMap && sep?.isNone && p.found.isNone then
      let n ← optionOf d false p value
      return some (n, none)
    let k ← optionOf d true p key
    let q ← Properties.ofLexemes ⟨.mapValue, true, follower value [], indent, false⟩ sep
    match q.found with
    | none => if value.isSome then throw .missing else return some (k, some .null)
    | some colon =>
      if !isMap && p.found.isNone &&
          (newlineBefore colon sep || keyStart p key sep + longestKey < colon.offset) then
        throw .longKey
      let v ← optionOf d false q value
      return some (k, some v)

end

/-- The node of a document, and whether a mark begins it. -/
def documentNode (d : Directives) (o : Outline) : Except Fault (Node × Bool) :=
  match o with
  | .document start value ends => do
    let p ← Properties.ofLexemes ⟨.documentStart, false, follower value ends, 0, true⟩ start
    if p.found.isSome && isBlock value && !p.hasNewline then throw .missing
    let n ← match value with
      | none => scalarNode d true false p []
      | some v => nodeOf d true false p v
    checkEnds false ends
    return (n, p.found.isSome)
  | _ => throw .unexpected

end PluginAudit.Yaml
