/-!
# Reading UTF-8

Bytes are read as text whatever they are: where they begin no character, or begin one and do not go
on with it, `U+FFFD` stands for the bytes that have been read in vain. A byte order mark is kept.
-/

namespace PluginAudit.Text

/-- A character of which not all bytes have been read. -/
structure Partial where
  /-- The number of bytes to come. -/
  missing : Nat
  bits : Nat
  low : UInt8 := 0x80
  high : UInt8 := 0xBF
  deriving Repr, DecidableEq, Inhabited

/-- The character that a byte begins, if it begins one of several bytes. -/
def Partial.start? (b : UInt8) : Option Partial :=
  if 0xC2 ≤ b && b ≤ 0xDF then some { missing := 1, bits := b.toNat - 0xC0 }
  else if 0xE0 ≤ b && b ≤ 0xEF then
    some {
      missing := 2
      bits := b.toNat - 0xE0
      low := if b = 0xE0 then 0xA0 else 0x80
      high := if b = 0xED then 0x9F else 0xBF }
  else if 0xF0 ≤ b && b ≤ 0xF4 then
    some {
      missing := 3
      bits := b.toNat - 0xF0
      low := if b = 0xF0 then 0x90 else 0x80
      high := if b = 0xF4 then 0x8F else 0xBF }
  else none

/-- Reads a byte where a character begins: what it writes, and what is to be gone on with. -/
def startByte (b : UInt8) : List Char × Option Partial :=
  if b < 0x80 then ([Char.ofNat b.toNat], none)
  else match Partial.start? b with
    | some p => ([], some p)
    | none => (['\uFFFD'], none)

/-- Reads a byte: what it writes, and what is to be gone on with. -/
def readByte (pending : Option Partial) (b : UInt8) : List Char × Option Partial :=
  match pending with
  | none => startByte b
  | some p =>
    if p.low ≤ b && b ≤ p.high then
      let bits := 64 * p.bits + (b.toNat - 0x80)
      if p.missing ≤ 1 then ([Char.ofNat bits], none)
      else ([], some { missing := p.missing - 1, bits := bits })
    else
      let (cs, next) := startByte b
      ('\uFFFD' :: cs, next)

/-- Reads bytes, the beginning of a character having been read. -/
def readBytes (pending : Option Partial) : List UInt8 → List Char
  | [] => if pending.isSome then ['\uFFFD'] else []
  | b :: bs =>
    let (cs, next) := readByte pending b
    cs ++ readBytes next bs

def ofUtf8 (bytes : ByteArray) : List Char := readBytes none bytes.data.toList

end PluginAudit.Text
