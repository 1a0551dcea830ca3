import PluginAudit.Pattern.UnitSet
import PluginAudit.Text.Digits
import PluginAudit.Text.Identifier
import PluginAudit.Text.Utf16

/-!
# The symbols of a pattern

A pattern is read symbol by symbol: `tokens?` cuts its text into `Token`s, without asking whether
they fit together. A character above `U+FFFF` gives two units. Each reading function says how many
characters it takes, so that the rest is what is left after dropping them.

Two things depend on the whole pattern. A backslash and digits is a reference to a group only if
there are that many groups; so the digits are kept as they are. And `\k` is a reference by name only
if some group has a name; so a pattern is looked through for such a group before it is read.
-/

namespace PluginAudit.Pattern

open Text

inductive GroupKind where
  | plain
  /-- The match is recorded, under a number and perhaps a name. -/
  | capture (name : Option (List Char))
  /-- The match is required or forbidden, and not consumed. -/
  | look (ahead negative : Bool)
  deriving Repr, DecidableEq, Inhabited

inductive Token where
  | unit (u : Nat)
  /-- One unit out of a set. -/
  | oneOf (set : UnitSet)
  /-- A backslash and decimal digits, the first of them not zero. -/
  | digits (ds : List Char)
  | named (name : List Char)
  | start
  | finish
  /-- The boundary of a word, or its absence. -/
  | boundary (negated : Bool)
  | opening (kind : GroupKind)
  | closing
  | bar
  /-- The symbol before it, several times over. -/
  | repetition (low : Nat) (high : Option Nat) (greedy : Bool)
  deriving Repr, DecidableEq, Inhabited

def unitsOf (c : Char) : List Nat := (charUnits c).map (·.toNat)

/-- Whether a character is an octal digit. -/
def isOctal (c : Char) : Bool := '0' ≤ c && c ≤ '7'

/-- The value of the one to three octal digits, at most `377`, that a text begins with, and how many
they are. -/
def octal (cs : List Char) : Nat × Nat :=
  let value := fun ds : List Char => ds.foldl (fun n c => 8 * n + (c.toNat - 48)) 0
  let two := (cs.take 2).takeWhile isOctal
  let three := (cs.take 3).takeWhile isOctal
  if value two < 32 then (value three, three.length) else (value two, two.length)

/-- The value of exactly so many hexadecimal digits at the front of a text. -/
def hexAt? (count : Nat) (cs : List Char) : Option Nat :=
  let ds := cs.take count
  if ds.length = count then hexValue? ds else none

/-- Whether a character is a letter of ASCII. -/
def isLetter (c : Char) : Bool := ('a' ≤ c && c ≤ 'z') || ('A' ≤ c && c ≤ 'Z')

/-- The units that a backslash and the characters after it stand for, and how many characters that
takes. `\c` without a letter after it is a mere backslash. -/
def escapedUnits (inClass : Bool) : List Char → Option (List Nat × Nat)
  | [] => none
  | 'f' :: _ => some ([12], 1)
  | 'n' :: _ => some ([10], 1)
  | 'r' :: _ => some ([13], 1)
  | 't' :: _ => some ([9], 1)
  | 'v' :: _ => some ([11], 1)
  | 'c' :: cs =>
    match cs.head? with
    | some d =>
      if isLetter d || (inClass && (isDigit d || d == '_')) then some ([d.toNat % 32], 2)
      else some ([0x5C], 0)
    | none => some ([0x5C], 0)
  | 'x' :: cs =>
    match hexAt? 2 cs with
    | some u => some ([u], 3)
    | none => some (unitsOf 'x', 1)
  | 'u' :: cs =>
    match hexAt? 4 cs with
    | some u => some ([u], 5)
    | none => some (unitsOf 'u', 1)
  | c :: cs =>
    if isOctal c then
      let (u, n) := octal (c :: cs)
      some ([u], n)
    else some (unitsOf c, 1)

/-- The ranges that a letter after a backslash stands for. -/
def shorthand? : Char → Option (List UnitRange)
  | 'd' => some digitRanges
  | 'D' => some (outside digitRanges)
  | 's' => some blankRanges
  | 'S' => some (outside blankRanges)
  | 'w' => some wordRanges
  | 'W' => some (outside wordRanges)
  | _ => none

/-! ## Sets in square brackets -/

/-- A part of a set in square brackets. -/
inductive SetItem where
  | unit (u : Nat)
  /-- A hyphen that stands for itself or makes a range. -/
  | hyphen
  | ranges (rs : List UnitRange)
  deriving Repr, DecidableEq, Inhabited

namespace SetItem

/-- The ranges of a part that stands alone. -/
def alone : SetItem → List UnitRange
  | unit u => [(u, u)]
  | hyphen => [(0x2D, 0x2D)]
  | ranges rs => rs

/-- The only unit of a part, unless it has several. -/
def unit? : SetItem → Option Nat
  | unit u => some u
  | hyphen => some 0x2D
  | ranges _ => none

/-- The ranges of a set. A hyphen between two parts makes a range of them if each is a single unit,
and the range must not run backwards. -/
def ranges? : List SetItem → Option (List UnitRange)
  | [] => some []
  | a :: hyphen :: b :: items =>
    match a.unit?, b.unit? with
    | some x, some y => if x ≤ y then (ranges? items).map ((x, y) :: ·) else none
    | _, _ => (ranges? items).map fun rs => a.alone ++ hyphen.alone ++ b.alone ++ rs
  | a :: items => (ranges? items).map (a.alone ++ ·)

/-- What a backslash and the characters after it mean between square brackets. -/
def escaped? (named : Bool) : List Char → Option (List SetItem × Nat)
  | [] => none
  | 'b' :: _ => some ([.unit 8], 1)
  | c :: cs =>
    match shorthand? c with
    | some rs => some ([.ranges rs], 1)
    | none =>
      if named && c == 'k' then none
      else (escapedUnits true (c :: cs)).map fun (us, n) => (us.map .unit, n)

/-- The parts up to the closing bracket, and the number of characters up to and with it. -/
def readAll? (named : Bool) : List Char → Option (List SetItem × Nat)
  | [] => none
  | c :: cs =>
    if c = ']' then some ([], 1)
    else if c = '\\' then
      match escaped? named cs with
      | none => none
      | some (here, n) =>
        (readAll? named (cs.drop n)).map fun (items, m) => (here ++ items, 1 + n + m)
    else
      let here := if c = '-' then [hyphen] else (unitsOf c).map .unit
      (readAll? named cs).map fun (items, m) => (here ++ items, 1 + m)
  termination_by cs => cs.length
  decreasing_by all_goals simp only [List.length_cons, List.length_drop]; omega

end SetItem

/-- The set whose opening bracket has been read, and the characters it takes. -/
def readSet? (named : Bool) (cs : List Char) : Option (UnitSet × Nat) :=
  let inverted := cs.head? == some '^'
  let skipped := if inverted then 1 else 0
  match SetItem.readAll? named (cs.drop skipped) with
  | none => none
  | some (items, n) => (SetItem.ranges? items).map fun rs => (⟨rs, inverted⟩, skipped + n)

/-! ## Names of groups -/

/-- The code point that is written in braces, the first of which has been read. -/
def bracedCodePoint? (cs : List Char) : Option (Nat × Nat) :=
  let ds := cs.takeWhile (· != '}')
  if ds.length < cs.length then (hexValue? ds).map fun n => (n, ds.length + 1) else none

/-- The code point of a unit and what follows it, and the characters that takes: it makes a pair
with a second surrogate that is written after it. -/
def pairedCodePoint (high : Nat) : List Char → Nat × Nat
  | '\\' :: 'u' :: cs =>
    match hexAt? 4 cs with
    | some low =>
      if 0xD800 ≤ high ∧ high < 0xDC00 ∧ 0xDC00 ≤ low ∧ low < 0xE000 then
        (0x10000 + (high - 0xD800) * 0x400 + (low - 0xDC00), 6)
      else (high, 0)
    | none => (high, 0)
  | _ => (high, 0)

/-- The code point that is written after a backslash and `u`, and the characters it takes: any
number of hexadecimal digits in braces, or four of them without. -/
def codePoint? : List Char → Option (Nat × Nat)
  | '{' :: cs => (bracedCodePoint? cs).map fun (u, n) => (u, 1 + n)
  | cs =>
    (hexAt? 4 cs).map fun high =>
      let (u, n) := pairedCodePoint high (cs.drop 4)
      (u, 4 + n)

/-- The character of a name that is written with a character and some of those after it. -/
def nameChar? (c : Char) (cs : List Char) : Option (Char × Nat) :=
  if c = '\\' then
    match cs with
    | 'u' :: cs =>
      match codePoint? cs with
      | some (u, n) => if u.isValidChar then some (Char.ofNat u, n + 1) else none
      | none => none
    | _ => none
  else some (c, 0)

/-- What is left of a name after its beginning, and the characters it takes with the closing angle
bracket. The bracket may be written by its code, too. -/
def nameRest? : List Char → Option (List Char × Nat)
  | [] => none
  | c :: cs =>
    match nameChar? c cs with
    | none => none
    | some (d, n) =>
      if d = '>' then some ([], 1 + n)
      else if isIdentifierPart d then
        (nameRest? (cs.drop n)).map fun (name, m) => (d :: name, 1 + n + m)
      else none
  termination_by cs => cs.length
  decreasing_by simp only [List.length_cons, List.length_drop]; omega

/-- The name of a group, whose opening angle bracket has been read, and the characters it takes with
the closing one. -/
def groupName? : List Char → Option (List Char × Nat)
  | [] => none
  | c :: cs =>
    match nameChar? c cs with
    | none => none
    | some (d, n) =>
      if isIdentifierStart d then
        (nameRest? (cs.drop n)).map fun (name, m) => (d :: name, 1 + n + m)
      else none

/-! ## The other symbols -/

/-- What a backslash and the characters after it mean outside of square brackets. -/
def Token.escaped? (named : Bool) : List Char → Option (List Token × Nat)
  | [] => none
  | 'b' :: _ => some ([.boundary false], 1)
  | 'B' :: _ => some ([.boundary true], 1)
  | c :: cs =>
    match shorthand? c with
    | some rs => some ([.oneOf ⟨rs, false⟩], 1)
    | none =>
      if isDigit c && c != '0' then
        let ds := (c :: cs).takeWhile isDigit
        some ([.digits ds], ds.length)
      else if named && c == 'k' then
        match cs with
        | '<' :: cs => (groupName? cs).map fun (name, n) => ([.named name], 2 + n)
        | _ => none
      else (escapedUnits false (c :: cs)).map fun (us, n) => (us.map .unit, n)

/-- The largest number of rounds told apart from no limit at all. -/
def mostRounds : Nat := 0x7FFFFFFF

/-- The bounds in braces, whose opening brace has been read, and the characters they take. -/
def bounds? (cs : List Char) : Option ((Nat × Option Nat) × Nat) :=
  let count := fun ds => min (numeralValue ds) mostRounds
  let low := cs.takeWhile isDigit
  if low.isEmpty then none
  else match cs.dropWhile isDigit with
    | '}' :: _ => some ((count low, some (count low)), low.length + 1)
    | ',' :: rest =>
      let high := rest.takeWhile isDigit
      match rest.dropWhile isDigit with
      | '}' :: _ =>
        some ((count low, if high.isEmpty then none else some (count high)),
          low.length + high.length + 2)
      | _ => none
    | _ => none

/-- A repetition, made lazy by a question mark after it. -/
def Token.repeated (low : Nat) (high : Option Nat) (taken : Nat) (cs : List Char) :
    List Token × Nat :=
  if (cs.drop taken).head? = some '?' then ([.repetition low high false], taken + 1)
  else ([.repetition low high true], taken)

/-- What an opening parenthesis opens, and the further characters that say so. -/
def groupKind? : List Char → Option (GroupKind × Nat)
  | '?' :: ':' :: _ => some (.plain, 2)
  | '?' :: '=' :: _ => some (.look true false, 2)
  | '?' :: '!' :: _ => some (.look true true, 2)
  | '?' :: '<' :: '=' :: _ => some (.look false false, 3)
  | '?' :: '<' :: '!' :: _ => some (.look false true, 3)
  | '?' :: '<' :: cs => (groupName? cs).map fun (name, n) => (.capture (some name), 2 + n)
  | '?' :: _ => none
  | _ => some (.capture none, 0)

/-- The symbols that begin with a character, and how many of the characters after it they take. -/
def Token.next? (named : Bool) (c : Char) (cs : List Char) : Option (List Token × Nat) :=
  match c with
  | '^' => some ([.start], 0)
  | '$' => some ([.finish], 0)
  | ')' => some ([.closing], 0)
  | '|' => some ([.bar], 0)
  | '.' => some ([.oneOf ⟨outside lineEndRanges, false⟩], 0)
  | '*' => some (repeated 0 none 0 cs)
  | '+' => some (repeated 1 none 0 cs)
  | '?' => some (repeated 0 (some 1) 0 cs)
  | '(' => (groupKind? cs).map fun (kind, n) => ([.opening kind], n)
  | '[' => (readSet? named cs).map fun (set, n) => ([.oneOf set], n)
  | '\\' => escaped? named cs
  | '{' =>
    match bounds? cs with
    | none => some ([.unit '{'.toNat], 0)
    | some ((low, high), n) =>
      if high.all (low ≤ ·) then some (repeated low high n cs) else none
  | c => some ((unitsOf c).map .unit, 0)

/-- The symbols of a pattern in which `\k` is a reference by name or not. -/
def Token.readAll? (named : Bool) : List Char → Option (List Token)
  | [] => some []
  | c :: cs =>
    match next? named c cs with
    | none => none
    | some (here, n) => (readAll? named (cs.drop n)).map (here ++ ·)
  termination_by cs => cs.length
  decreasing_by simp only [List.length_cons, List.length_drop]; omega

/-- The symbols of a text as far as it can be read. -/
def Token.symbols (named : Bool) : List Char → List Token
  | [] => []
  | c :: cs =>
    match next? named c cs with
    | none => []
    | some (here, n) => here ++ symbols named (cs.drop n)
  termination_by cs => cs.length
  decreasing_by simp only [List.length_cons, List.length_drop]; omega

/-- The name of the group that a symbol opens. -/
def Token.name? : Token → Option (List Char)
  | opening (.capture name) => name
  | _ => none

/-- Whether references by name are meant, as far as a text can be read: whether some group has a
name. -/
def hasNames (cs : List Char) : Bool := (Token.symbols false cs).any (·.name?.isSome)

/-- The symbols of a pattern. -/
def tokens? (cs : List Char) : Option (List Token) := Token.readAll? (hasNames cs) cs

end PluginAudit.Pattern
