import PluginAudit.Text.Case

/-!
# Sets of units

A pattern reads a name by 16-bit units. The units that one place of it admits are a set of ranges,
or everything outside them; letter case is ignored by asking for any unit that folds to the same.
-/

namespace PluginAudit.Pattern

/-- The first and the last unit of a range. -/
abbrev UnitRange := Nat × Nat

/-- The units outside ranges that are given in order and do not touch, from `start` on. -/
def outsideFrom (start : Nat) : List UnitRange → List UnitRange
  | [] => if start ≤ 0xFFFF then [(start, 0xFFFF)] else []
  | (a, b) :: rs => (if start < a then [(start, a - 1)] else []) ++ outsideFrom (b + 1) rs

/-- The units outside ranges that are given in order and do not touch. -/
def outside (rs : List UnitRange) : List UnitRange := outsideFrom 0 rs

def digitRanges : List UnitRange := [(0x30, 0x39)]

/-- The letters and digits of ASCII and the underscore. -/
def wordRanges : List UnitRange := [(0x30, 0x39), (0x41, 0x5A), (0x5F, 0x5F), (0x61, 0x7A)]

def blankRanges : List UnitRange :=
  [(9, 13), (0x20, 0x20), (0xA0, 0xA0), (0x1680, 0x1680), (0x2000, 0x200A), (0x2028, 0x2029),
    (0x202F, 0x202F), (0x205F, 0x205F), (0x3000, 0x3000), (0xFEFF, 0xFEFF)]

/-- The line ends, which a dot does not match. -/
def lineEndRanges : List UnitRange := [(10, 10), (13, 13), (0x2028, 0x2029)]

structure UnitSet where
  ranges : List UnitRange
  /-- The set is what lies outside the ranges. -/
  inverted : Bool
  deriving Repr, DecidableEq, Inhabited

namespace UnitSet

/-- Whether a unit lies in one of the ranges. -/
def covers (s : UnitSet) (u : Nat) : Bool := s.ranges.any fun (a, b) => a ≤ u && u ≤ b

/-- Whether the set admits a unit, letter case ignored. -/
def admits (s : UnitSet) (u : Nat) : Bool := (Text.sameFold u).any s.covers != s.inverted

end UnitSet

/-- Whether a unit belongs to a word. -/
def isWordUnit (u : Nat) : Bool := wordRanges.any fun (a, b) => a ≤ u && u ≤ b

end PluginAudit.Pattern
