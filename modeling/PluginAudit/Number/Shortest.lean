import PluginAudit.Number.Binary64

/-!
# Shortest numerals

A whole double-precision number is written with the fewest significant digits that read back as the
same number, and of those the nearest; below `10 ^ 21` all its places are written, above it stands a
power of ten.
-/

namespace PluginAudit.Shortest

/-- The multiple of `10 ^ places` next to `n` that reads back as `n`, if there is one. -/
def candidate? (n places : Nat) : Option Nat :=
  let unit := Nat.pow 10 places
  let low := n / unit * unit
  let high := low + unit
  let reads (c : Nat) : Bool := Binary64.roundNat c = some n
  if reads low then if reads high && high - n < n - low then some high else some low
  else if reads high then some high
  else none

/-- The number nearest to `n` with at most `places` zeros at its end that reads back as `n`. -/
def search (n : Nat) : Nat → Nat
  | 0 => n
  | places + 1 => (candidate? n (places + 1)).getD (search n places)

/-- The number with the fewest significant digits that reads back as `n`. -/
def nearest (n : Nat) : Nat := search n ((toString n).length - 1)

/-- The text of a whole number. -/
def text (n : Nat) : String :=
  let digits := (toString (nearest n)).toList
  if digits.length ≤ 21 then String.ofList digits
  else
    let significant := (digits.reverse.dropWhile (· == '0')).reverse
    let power := "e+" ++ toString (digits.length - 1)
    match significant with
    | [] => "0"
    | [d] => String.ofList [d] ++ power
    | d :: ds => String.ofList (d :: '.' :: ds) ++ power

end PluginAudit.Shortest
