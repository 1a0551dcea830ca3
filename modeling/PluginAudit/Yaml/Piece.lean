/-!
# Cutting a YAML text into pieces

A YAML text is cut into pieces from left to right: marks, names, white space, comments, quoted texts
and the texts of plain and block scalars. What a piece is depends on where it stands, which is kept
as a `Place` and a few numbers: how far the line is indented, how far the next lines have to be for
a text to go on, and how many flow collections are open.

`Piece.ofText` goes from place to place; two steps in a row take at least one character, so that
twice as many steps as there are characters are enough.
-/

namespace PluginAudit.Yaml

inductive Piece where
  /-- A document begins; nothing is taken from the text. -/
  | documentStart
  /-- A flow collection is given up; nothing is taken from the text. -/
  | flowGivenUp
  /-- The text of a plain or block scalar. -/
  | scalar (text : List Char)
  | text (text : List Char)
  deriving Repr, DecidableEq, Inhabited

inductive Place where
  | stream
  /-- At the beginning of a line of a document. -/
  | lineStart
  /-- Where another collection may begin on the same line. -/
  | blockStart
  | document
  | flow
  deriving Repr, DecidableEq, Inhabited

/-- A text that is being cut. -/
structure Scanner where
  text : Array Char
  /-- The number of characters before the next piece. -/
  position : Nat
  /-- How far a further line of a scalar has to be indented. -/
  indentNext : Nat
  /-- How far the current line is indented, its marks included. -/
  indentValue : Nat
  /-- The number of open flow collections. -/
  flowLevel : Nat
  /-- A colon may follow at once, since a quoted text or a collection ends here. -/
  flowKey : Bool
  /-- The pieces so far, the latest first. -/
  pieces : List Piece
  deriving Inhabited

namespace Scanner

def ofText (cs : List Char) : Scanner := ⟨cs.toArray, 0, 0, 0, 0, false, []⟩

/-- Whether a character, or the end of the text, is white space. -/
def isGap : Option Char → Bool
  | none => true
  | some c => c == ' ' || c == '\n' || c == '\r' || c == '\t'

/-- Whether a character means something in a flow collection. -/
def isFlowMark : Option Char → Bool
  | none => false
  | some c => c == ',' || c == '[' || c == ']' || c == '{' || c == '}'

/-- Whether a character cannot belong to the name of an anchor. -/
def endsAnchor : Option Char → Bool
  | none => true
  | some c => c == ' ' || c == '\n' || c == '\r' || c == '\t' || isFlowMark (some c)

/-- Whether a character may stand in a tag. -/
def isTagChar (c : Char) : Bool :=
  c.isAlphanum || "-#;/?:@&=+$_.!~*'()".toList.contains c

/-- Whether a character is a hexadecimal digit. -/
def isHexDigit : Option Char → Bool
  | none => false
  | some c => c.isDigit || ('a' ≤ c && c ≤ 'f') || ('A' ≤ c && c ≤ 'F')

/-- The first index from `i` on whose character, or the end of the text, passes a test. -/
def seek (text : Array Char) (test : Option Char → Bool) (i : Nat) : Nat :=
  if h : i < text.size then if test (some text[i]) then i else seek text test (i + 1) else i
  termination_by text.size - i

/-- The first index from `i` on at which the line ends. -/
def lineFeed (text : Array Char) (i : Nat) : Nat := seek text (· == some '\n') i

/-- The characters from one index up to another. -/
def slice (text : Array Char) (start stop : Nat) : List Char := (text.extract start stop).toList

variable (s : Scanner)

/-- The character so many places after the next one. -/
def charAt (n : Nat) : Option Char := s.text[s.position + n]?

/-- The index of the end of the current line. -/
def lineEnd : Nat :=
  let stop := lineFeed s.text s.position
  if stop < s.text.size && s.position < stop && s.text[stop - 1]? == some '\r' then stop - 1
  else stop

/-- The next character of the current line. -/
def lineChar : Option Char := if s.position < s.lineEnd then s.charAt 0 else none

/-- Whether only white space or a comment is left of the line. -/
def atLineEnd : Bool :=
  let i := seek s.text (fun c => c != some ' ' && c != some '\t') s.position
  match s.text[i]? with
  | none => true
  | some '#' => true
  | some '\n' => true
  | some '\r' => s.text[i + 1]? == some '\n'
  | _ => false

/-- Whether three equal characters of a document's mark stand at an index, and white space after
them. -/
def isMarkAt (c : Char) (i : Nat) : Bool :=
  s.text[i]? == some c && s.text[i + 1]? == some c && s.text[i + 2]? == some c &&
    isGap s.text[i + 3]?

/-- Whether a scalar goes on at the beginning of a line, and from where. -/
def continueScalar (start : Nat) : Option Nat :=
  if 0 < s.indentNext then
    let i := seek s.text (· != some ' ') start
    if s.text[i]? == some '\r' && s.text[i + 1]? == some '\n' then some (i + 1)
    else if s.text[i]? == some '\n' || s.indentNext ≤ i - start then some i
    else none
  else if s.isMarkAt '-' start || s.isMarkAt '.' start then none
  else some start

/-! ## Taking pieces -/

/-- Adds a piece that takes nothing from the text. -/
def mark (p : Piece) : Scanner := { s with pieces := p :: s.pieces }

/-- Takes the characters up to an index as a piece, if there are any. -/
def takeTo (stop : Nat) : Scanner :=
  let stop := min stop s.text.size
  if s.position < stop then
    { s with position := stop, pieces := .text (slice s.text s.position stop) :: s.pieces }
  else s

/-- Takes so many characters as a piece. -/
def take (n : Nat) : Scanner := s.takeTo (s.position + n)

/-- Takes the characters up to an index as a scalar, even if there are none. -/
def takeScalar (stop : Nat) : Scanner :=
  let stop := max s.position (min stop s.text.size)
  { s with position := stop, pieces := .scalar (slice s.text s.position stop) :: s.pieces }

def takeSpaces : Scanner := s.takeTo (seek s.text (· != some ' ') s.position)

def takeBlanks : Scanner :=
  s.takeTo (seek s.text (fun c => c != some ' ' && c != some '\t') s.position)

/-- Takes the end of a line. -/
def takeLineFeed : Scanner :=
  match s.charAt 0, s.charAt 1 with
  | some '\n', _ => s.take 1
  | some '\r', some '\n' => s.take 2
  | _, _ => s

/-- The index of the end of a tag whose characters from `i` on are looked at. -/
def tagEnd (text : Array Char) (i : Nat) : Nat :=
  if h : i < text.size then
    if isTagChar text[i] then tagEnd text (i + 1)
    else if text[i] == '%' && isHexDigit text[i + 1]? && isHexDigit text[i + 2]? then
      tagEnd text (i + 3)
    else i
  else i
  termination_by text.size - i

def takeTag : Scanner :=
  if s.charAt 1 == some '<' then
    let i := seek s.text (fun c => isGap c || c == some '>') (s.position + 2)
    s.takeTo (if s.text[i]? == some '>' then i + 1 else i)
  else s.takeTo (tagEnd s.text (s.position + 1))

/-- Takes anchors, tags and marks, each with the white space after it. -/
def takeIndicators : Nat → Scanner → Scanner
  | 0, s => s
  | fuel + 1, s =>
    match s.charAt 0 with
    | some '!' => takeIndicators fuel s.takeTag.takeBlanks
    | some '&' => takeIndicators fuel (s.takeTo (seek s.text endsAnchor s.position)).takeBlanks
    | some c =>
      let inFlow := 0 < s.flowLevel
      if (c == '-' || c == '?' || c == ':') &&
          (isGap (s.charAt 1) || (inFlow && isFlowMark (s.charAt 1))) then
        let s := if inFlow then { s with flowKey := false }
          else { s with indentNext := s.indentValue + 1 }
        takeIndicators fuel (s.take 1).takeBlanks
      else s
    | none => s

/-! ## Scalars -/

/-- The index of the closing quote of a text in single quotes, looked for from `i` on. -/
def singleEnd (text : Array Char) (i : Nat) : Option Nat :=
  if h : i < text.size then
    if text[i] == '\'' then
      if text[i + 1]? == some '\'' then singleEnd text (i + 2) else some i
    else singleEnd text (i + 1)
  else none
  termination_by text.size - i

/-- The index of the closing quote of a text in double quotes, looked for from `i` on. -/
def doubleEnd (text : Array Char) (i : Nat) : Option Nat :=
  if h : i < text.size then
    if text[i] == '\\' then doubleEnd text (i + 2)
    else if text[i] == '"' then some i
    else doubleEnd text (i + 1)
  else none
  termination_by text.size - i

/-- The first line feed from `i` on, and before `stop`, after which a scalar does not go on. -/
def brokenLine (stop : Nat) : Nat → Nat → Option Nat
  | 0, _ => none
  | fuel + 1, i =>
    let nl := lineFeed s.text i
    if nl < stop then
      match s.continueScalar (nl + 1) with
      | none => some nl
      | some j => brokenLine stop fuel j
    else none

/-- Takes a quoted text; one that goes on in a line that is not indented enough ends before it. -/
def takeQuoted : Scanner :=
  let close? := if s.charAt 0 == some '\'' then singleEnd s.text (s.position + 1)
    else doubleEnd s.text (s.position + 1)
  match close? with
  | none => s.takeTo s.text.size
  | some close =>
    match s.brokenLine close (s.text.size + 1) s.position with
    | none => s.takeTo (close + 1)
    | some nl => s.takeTo (if s.text[nl - 1]? == some '\r' then nl - 1 else nl)

/-- The end of a plain scalar, looked for from `i` on, its last character before `stop` known. -/
def plainEnd : Nat → Nat → Nat → Nat
  | 0, _, stop => stop
  | fuel + 1, i, stop =>
    let inFlow := 0 < s.flowLevel
    match s.text[i]? with
    | none => stop
    | some ':' =>
      let next := s.text[i + 1]?
      if isGap next || (inFlow && isFlowMark next) then stop else plainEnd fuel (i + 1) (i + 1)
    | some c =>
      if isGap (some c) then
        let crlf := c == '\r' && s.text[i + 1]? == some '\n'
        let i := if crlf then i + 1 else i
        let stop := if c == '\r' && !crlf then i + 1 else stop
        let next := s.text[i + 1]?
        if next == some '#' || (inFlow && isFlowMark next) then stop
        else if c == '\n' || crlf then
          match s.continueScalar (i + 1) with
          | none => stop
          | some j => plainEnd fuel (max i (j - 2) + 1) stop
        else plainEnd fuel (i + 1) stop
      else if inFlow && isFlowMark (some c) then stop
      else plainEnd fuel (i + 1) (i + 1)

def takePlain : Scanner := s.takeScalar (s.plainEnd (s.text.size + 1) s.position s.position)

/-- The indentation named in the header of a block scalar, less one, and whether its last lines are
kept. -/
def blockHeader (text : Array Char) (i : Nat) (indent? : Option Nat) (keep : Bool) :
    Option Nat × Bool :=
  if h : i < text.size then
    let c := text[i]
    if c == '+' then blockHeader text (i + 1) indent? true
    else if '1' ≤ c && c ≤ '9' then blockHeader text (i + 1) (some (c.toNat - 49)) keep
    else if c == '-' then blockHeader text (i + 1) indent? keep
    else (indent?, keep)
  else (indent?, keep)
  termination_by text.size - i

/-- The last line feed before the first line of a block scalar that is not blank, and the
indentation of that line. -/
def firstLine (text : Array Char) (i nl indent : Nat) : Nat × Nat :=
  if h : i < text.size then
    let c := text[i]
    if c == ' ' then firstLine text (i + 1) nl (indent + 1)
    else if c == '\n' then firstLine text (i + 1) i 0
    else if c == '\r' && text[i + 1]? == some '\n' then firstLine text (i + 1) nl indent
    else (nl, indent)
  else (nl, indent)
  termination_by text.size - i

/-- The line feed after the last line of a block scalar, or the end of the text. -/
def lastLine : Nat → Nat → Nat
  | 0, nl => nl
  | fuel + 1, nl =>
    match s.continueScalar (nl + 1) with
    | none => nl
    | some j =>
      let next := lineFeed s.text j
      if next < s.text.size then lastLine fuel next else s.text.size

/-- Drops blank lines at the end of a block scalar that are not indented more than its text. -/
def dropBlankLines (indent : Nat) : Nat → Nat → Nat
  | 0, nl => nl
  | fuel + 1, nl =>
    let last := if s.text[nl - 1]? == some '\r' then nl - 2 else nl - 1
    -- the index of the last character before the spaces
    let before := (slice s.text s.position (last + 1)).reverse.takeWhile (· == ' ')
    let i := last - before.length
    if s.text[i]? == some '\n' && s.position ≤ i && last < i + 1 + indent then
      dropBlankLines indent fuel i
    else nl

/-- Takes the lines of a block scalar whose header has been taken. -/
def takeBlock (indent? : Option Nat) (keep : Bool) : Scanner :=
  let (nl, indent) := firstLine s.text s.position (s.position - 1) 0
  let (s, nl) :=
    if s.indentNext ≤ indent then
      let indentNext := match indent? with
        | none => indent
        | some n => n + if s.indentNext = 0 then 1 else s.indentNext
      let s := { s with indentNext := indentNext }
      (s, s.lastLine (s.text.size + 1) nl)
    else (s, nl)
  -- tabs after the last line are taken too, and refused later
  let i := seek s.text (· != some ' ') (nl + 1)
  let nl :=
    if s.text[i]? == some '\t' then
      seek s.text (fun c => c.isNone || !isGap c) i - 1
    else if keep then nl
    else s.dropBlankLines indent (s.text.size + 1) nl
  s.takeScalar (nl + 1)

/-! ## Going from place to place -/

/-- The length of a directive, its comment and the blanks before it left out. -/
def directiveLength (line : List Char) : Nat :=
  let rec go (before : Char) : List Char → List Char
    | [] => []
    | c :: cs => if c == '#' && (before == ' ' || before == '\t') then [] else c :: go c cs
  ((go '%' line).reverse.dropWhile fun c => c == ' ' || c == '\t').length

/-- After the indentation of a line. -/
def atBlockStart : Place × Scanner :=
  match s.charAt 0 with
  | some c =>
    if (c == '-' || c == '?' || c == ':') && isGap (s.charAt 1) then
      let t := (s.take 1).takeBlanks
      (.blockStart, { t with
        indentNext := s.indentValue + 1
        indentValue := s.indentValue + (t.position - s.position) })
    else (.document, s)
  | none => (.document, s)

/-- At the beginning of a line. -/
def atLineStart : Place × Scanner :=
  if s.isMarkAt '-' s.position then
    (.document, { s.take 3 with indentValue := 0, indentNext := 0 })
  else if s.isMarkAt '.' s.position then
    (.stream, { s.take 3 with indentValue := 0, indentNext := 0 })
  else
    let t := s.takeSpaces
    let indent := t.position - s.position
    atBlockStart { t with
      indentValue := indent
      indentNext :=
        if indent < t.indentNext && !isGap (t.charAt 1) then indent else t.indentNext }

def atStream : Place × Scanner :=
  let s := if s.charAt 0 == some '\uFEFF' && s.position < s.lineEnd then s.take 1 else s
  let stop := s.lineEnd
  if s.lineChar == some '%' then
    let s := (s.take (directiveLength (slice s.text s.position stop))).takeBlanks
    (.stream, s.takeTo stop)
  else if s.atLineEnd then (.stream, (s.takeBlanks.takeTo stop).takeLineFeed)
  else atLineStart (s.mark .documentStart)

def atDocument : Place × Scanner :=
  let s := s.takeBlanks
  let stop := s.lineEnd
  let s := takeIndicators (s.text.size + 1) s
  match s.lineChar with
  | none => atLineStart s.takeLineFeed
  | some '#' => atLineStart (s.takeTo stop).takeLineFeed
  | some '{' => (.flow, { s.take 1 with flowKey := false, flowLevel := 1 })
  | some '[' => (.flow, { s.take 1 with flowKey := false, flowLevel := 1 })
  | some '}' => (.document, s.take 1)
  | some ']' => (.document, s.take 1)
  | some '*' => (.document, s.takeTo (seek s.text endsAnchor s.position))
  | some '"' => (.document, s.takeQuoted)
  | some '\'' => (.document, s.takeQuoted)
  | some c =>
    if c == '|' || c == '>' then
      let (indent?, keep) := blockHeader s.text (s.position + 1) none false
      let s := (s.takeTo (seek s.text (fun c => isGap c || c == some '#') s.position)).takeBlanks
      atLineStart ((s.takeTo stop).takeLineFeed.takeBlock indent? keep)
    else (.document, s.takePlain)

/-- Takes the line feeds and blanks between the items of a flow collection. The second part is the
indentation of the last line begun. -/
def takeFlowGap : Nat → Scanner → Option Nat → Scanner × Option Nat
  | 0, s, indent => (s, indent)
  | fuel + 1, s, indent =>
    let t := s.takeLineFeed
    if s.position < t.position then
      let u := t.takeSpaces
      let indent := u.position - t.position
      takeFlowGap fuel { u.takeBlanks with indentValue := indent } (some indent)
    else
      let u := s.takeBlanks
      if s.position < u.position then takeFlowGap fuel u indent else (u, indent)

/-- Takes commas, each with the blanks after it. -/
def takeCommas : Nat → Scanner → Scanner
  | 0, s => s
  | fuel + 1, s =>
    if s.lineChar == some ',' then takeCommas fuel { (s.take 1).takeBlanks with flowKey := false }
    else s

/-- Whether a line that begins in a flow collection cannot belong to it. -/
def leavesFlow (indent : Nat) : Bool :=
  (indent < s.indentNext && s.lineChar != some '#') ||
    (indent = 0 && (s.isMarkAt '-' s.position || s.isMarkAt '.' s.position))

/-- Whether the outermost flow collection ends here, at the indentation of the line it began on. -/
def closesFlow (indent : Nat) : Bool :=
  indent + 1 = s.indentNext && s.flowLevel = 1 &&
    (s.lineChar == some ']' || s.lineChar == some '}')

def atFlow : Place × Scanner :=
  let (s, indent?) := takeFlowGap (s.text.size + 1) s none
  if indent?.any fun indent => s.leavesFlow indent && !s.closesFlow indent then
    atLineStart (({ s with flowLevel := 0 } : Scanner).mark .flowGivenUp)
  else
    let stop := s.lineEnd
    let s := takeIndicators (s.text.size + 1) (takeCommas (s.text.size + 1) s)
    match s.lineChar with
    | none => (.flow, s)
    | some '#' => (.flow, s.takeTo stop)
    | some '{' => (.flow, { s.take 1 with flowKey := false, flowLevel := s.flowLevel + 1 })
    | some '[' => (.flow, { s.take 1 with flowKey := false, flowLevel := s.flowLevel + 1 })
    | some '*' => (.flow, s.takeTo (seek s.text endsAnchor s.position))
    | some '"' => (.flow, ({ s with flowKey := true } : Scanner).takeQuoted)
    | some '\'' => (.flow, ({ s with flowKey := true } : Scanner).takeQuoted)
    | some c =>
      if c == '}' || c == ']' then
        let t := { s.take 1 with flowKey := true, flowLevel := s.flowLevel - 1 }
        (if t.flowLevel = 0 then .document else .flow, t)
      else if c == ':' && (s.flowKey || isGap (s.charAt 1) || s.charAt 1 == some ',') then
        (.flow, (({ s with flowKey := false } : Scanner).take 1).takeBlanks)
      else (.flow, ({ s with flowKey := false } : Scanner).takePlain)

def step : Place → Place × Scanner
  | .stream => s.atStream
  | .lineStart => s.atLineStart
  | .blockStart => s.atBlockStart
  | .document => s.atDocument
  | .flow => s.atFlow

/-- Steps until the text is used up. -/
def run : Nat → Place → Scanner → Scanner
  | 0, _, s => s
  | fuel + 1, place, s =>
    if s.position < s.text.size then
      let (place, s) := s.step place
      run fuel place s
    else s

end Scanner

def Piece.ofText (cs : List Char) : List Piece :=
  (Scanner.run (2 * cs.length + 2) .stream (Scanner.ofText cs)).pieces.reverse

end PluginAudit.Yaml
