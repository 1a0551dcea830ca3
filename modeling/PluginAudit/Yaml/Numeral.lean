import PluginAudit.Number.Binary64
import PluginAudit.Text.Digits

/-!
# Numbers in plain texts

The texts that are numbers without a tag. The older version of the language allows underscores
between digits, binary digits, octal digits after a bare zero, and digits in base sixty.
-/

namespace PluginAudit.Yaml

open PluginAudit.Text

/-- The sign at the beginning of a text, and what follows it. -/
def splitSign : List Char → Bool × List Char
  | '-' :: cs => (true, cs)
  | '+' :: cs => (false, cs)
  | cs => (false, cs)

/-- Whether a character is a digit, or an underscore where those are allowed. -/
def isDigitOr (underscore : Bool) (c : Char) : Bool := isDigit c || (underscore && c == '_')

/-- Whether a text begins with a digit and goes on with digits and allowed underscores. -/
def isWhole (underscore : Bool) (cs : List Char) : Bool :=
  cs.head?.any isDigit && cs.all (isDigitOr underscore)

/-- The value of digits in a base, underscores left out; no number if there is no digit. -/
def digitsValue (base : Nat) (negative : Bool) (cs : List Char) : Binary64 :=
  match (cs.filter (· ≠ '_')).filterMap hexDigit? with
  | [] => .nan
  | ds => .ofRatio negative (ds.foldl (fun n d => base * n + d) 0) 1

/-- The infinity, or the absence of a number, that a text names. -/
def specialNumber? (cs : List Char) : Option Binary64 :=
  if [".nan", ".NaN", ".NAN"].contains (String.ofList cs) then some .nan
  else
    let (negative, rest) := splitSign cs
    if [".inf", ".Inf", ".INF"].contains (String.ofList rest) then some (.infinite negative)
    else none

/-- The value of the digits of a numeral around its point, times a power of ten. -/
def decimalValue (negative : Bool) (whole fraction : List Char) (exponent : Int) : Binary64 :=
  let whole := whole.filter isDigit
  let fraction := fraction.filter isDigit
  if whole.isEmpty && fraction.isEmpty then .nan
  else .ofDecimal negative (numeralValue (whole ++ fraction)) (exponent - fraction.length)

/-- The exponent that a text after a numeral writes. -/
def exponent? : List Char → Option Int
  | [] => none
  | e :: cs =>
    if e == 'e' || e == 'E' then
      let (negative, ds) := splitSign cs
      if isNumeral ds then
        some (if negative then -Int.ofNat (numeralValue ds) else Int.ofNat (numeralValue ds))
      else none
    else none

/-- A numeral with a point, an exponent or both. The older version asks for no digit at all. -/
def floatNumber? (isOld : Bool) (cs : List Char) : Option Binary64 :=
  let (negative, rest) := splitSign cs
  let whole := rest.takeWhile (isDigitOr isOld)
  let rest := rest.dropWhile (isDigitOr isOld)
  let (point, fraction, rest) := match rest with
    | '.' :: rest => (true, rest.takeWhile (isDigitOr isOld), rest.dropWhile (isDigitOr isOld))
    | rest => (false, [], rest)
  if !(whole.isEmpty || isWhole isOld whole) then none
  else if !isOld && whole.isEmpty && fraction.isEmpty then none
  else if rest.isEmpty then
    if point then some (decimalValue negative whole fraction 0) else none
  else (exponent? rest).map (decimalValue negative whole fraction)

/-- A numeral of digits after `0` and a mark, without underscores. -/
def markedNumber? (mark : Char) (base : Nat) (isOne : Char → Bool) : List Char → Option Binary64
  | '0' :: m :: ds =>
    if m == mark && !ds.isEmpty && ds.all isOne then some (digitsValue base false ds) else none
  | _ => none

def intNumber? (cs : List Char) : Option Binary64 :=
  let (negative, rest) := splitSign cs
  if isNumeral rest then some (digitsValue 10 negative rest)
  else (markedNumber? 'o' 8 (fun c => '0' ≤ c && c ≤ '7') cs).or
    (markedNumber? 'x' 16 (fun c => (hexDigit? c).isSome) cs)

/-- Whether a text is one or two digits below sixty. -/
def isSixtieth : List Char → Bool
  | [d] => isDigit d
  | [t, d] => '0' ≤ t && t ≤ '5' && isDigit d
  | _ => false

/-- A number in base sixty, its parts parted by colons; the last may have a fraction. -/
def sixtyNumber? (cs : List Char) : Option Binary64 :=
  let (negative, rest) := splitSign cs
  let (whole, fraction) := (rest.takeWhile (· ≠ '.'), rest.dropWhile (· ≠ '.'))
  let parts := whole.splitBy fun _ b => b ≠ ':'
  match parts with
  | first :: part :: parts =>
    let tail := (part :: parts).map (List.drop 1)
    if isWhole true first && tail.all isSixtieth && (fraction.drop 1).all (isDigitOr true) then
      let n := (first.filter isDigit :: tail).foldl (fun n ds => 60 * n + numeralValue ds) 0
      let ds := (fraction.drop 1).filter isDigit
      some (.ofDecimal negative (n * Nat.pow 10 ds.length + numeralValue ds) (-Int.ofNat ds.length))
    else none
  | _ => none

/-- A whole number of the older version; the signs of all but the last kind may be written. -/
def oldIntNumber? (cs : List Char) : Option Binary64 :=
  let (negative, rest) := splitSign cs
  let marked (mark : Char) (base : Nat) (isOne : Char → Bool) : Option Binary64 :=
    match rest with
    | '0' :: m :: ds =>
      if m == mark && !ds.isEmpty && ds.all fun c => isOne c || c == '_' then
        some (digitsValue base negative ds)
      else none
    | _ => none
  let octal := match rest with
    | '0' :: ds =>
      if !ds.isEmpty && ds.all fun c => ('0' ≤ c && c ≤ '7') || c == '_' then
        some (digitsValue 8 negative ds)
      else none
    | _ => none
  (marked 'b' 2 fun c => c == '0' || c == '1').or <| octal.or <|
    (if isWhole true rest then some (digitsValue 10 negative rest) else none).or
      (marked 'x' 16 fun c => (hexDigit? c).isSome)

end PluginAudit.Yaml
