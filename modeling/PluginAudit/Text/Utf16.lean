/-!
# Sixteen-bit units

The order of names is the order of their UTF-16 code units, and patterns read a name unit by unit:
a character above `U+FFFF` counts as two. `unitKey` places a character in that order without
splitting it, because the two units of a large character lie below `U+E000`.
-/

namespace PluginAudit.Text

/-- The one or two units of a character. -/
def charUnits (c : Char) : List UInt16 :=
  let n := c.toNat
  if n < 0x10000 then [n.toUInt16]
  else
    let m := n - 0x10000
    [(0xD800 + m / 0x400).toUInt16, (0xDC00 + m % 0x400).toUInt16]

def units (cs : List Char) : List UInt16 := cs.flatMap charUnits

/-- The text that a list of units writes; a surrogate without its partner becomes `U+FFFD`. -/
def ofUnits : List UInt16 → List Char
  | [] => []
  | [u] => [single u]
  | u :: v :: us =>
    if 0xD800 ≤ u && u < 0xDC00 && 0xDC00 ≤ v && v < 0xE000 then
      Char.ofNat (0x10000 + (u.toNat - 0xD800) * 0x400 + (v.toNat - 0xDC00)) :: ofUnits us
    else single u :: ofUnits (v :: us)
where
  /-- The character of a unit that stands alone. -/
  single (u : UInt16) : Char := if 0xD800 ≤ u && u < 0xE000 then '\uFFFD' else Char.ofNat u.toNat

/-- The place of a character in the order of units. -/
def unitKey (c : Char) : Nat :=
  let n := c.toNat
  if 0xE000 ≤ n && n < 0x10000 then n + 0x110000 else n

/-- Compares two texts by their units. -/
def compareUnits : List Char → List Char → Ordering
  | [], [] => .eq
  | [], _ :: _ => .lt
  | _ :: _, [] => .gt
  | a :: as, b :: bs => (compare (unitKey a) (unitKey b)).then (compareUnits as bs)

/-- Whether one string does not come after another in the order of units. -/
def unitsLe (a b : String) : Bool := compareUnits a.toList b.toList != .gt

end PluginAudit.Text
