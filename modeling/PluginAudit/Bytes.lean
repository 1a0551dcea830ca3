/-!
# Little-endian words in bytes

Plugins and executables store their numbers with the least significant byte first. A word is read at
an offset only if all its bytes are inside.
-/

namespace PluginAudit.Bytes

/-- The 16-bit word at an offset. -/
def u16? (b : ByteArray) (i : Nat) : Option UInt16 :=
  if h : i + 2 ≤ b.size then some (b[i].toUInt16 ||| (b[i + 1].toUInt16 <<< 8)) else none

/-- The 32-bit word at an offset. -/
def u32? (b : ByteArray) (i : Nat) : Option UInt32 :=
  if h : i + 4 ≤ b.size then
    some (b[i].toUInt32 ||| (b[i + 1].toUInt32 <<< 8) ||| (b[i + 2].toUInt32 <<< 16) |||
      (b[i + 3].toUInt32 <<< 24))
  else none

/-- The bytes from one offset up to another, as far as there are any. -/
def slice (b : ByteArray) (start stop : Nat) : List UInt8 := (b.extract start stop).data.toList

/-- A 32-bit word is read exactly where all its bytes are inside. -/
theorem isSome_u32? {b : ByteArray} {i : Nat} : (u32? b i).isSome ↔ i + 4 ≤ b.size := by
  unfold u32?
  split <;> simp_all

end PluginAudit.Bytes
