import PluginAudit.Bytes

/-!
# Versions of executables

A program or library carries its file version and its product version in a block of 52 bytes that
begins with a signature and lies at an offset divisible by four. Where a signature stands elsewhere
or too close to the end, it is passed over, and the search goes on one byte further. The first
complete block counts; each version is four 16-bit halves of two words, the high half first.
-/

namespace PluginAudit.Executable

open Bytes

/-- The word a version block begins with. -/
def signature : UInt32 := 0xFEEF04BD

/-- The length of a version block. -/
def blockSize : Nat := 52

/-- The two versions of an executable. -/
structure Versions where
  fileVersion : String
  /-- The version of the product it belongs to. -/
  productVersion : String
  deriving Repr, DecidableEq, Inhabited

/-- The first offset from `i` on at which the signature stands. -/
def nextSignature? (b : ByteArray) (i : Nat) : Option Nat :=
  if i + 4 ≤ b.size then
    if u32? b i = some signature then some i else nextSignature? b (i + 1)
  else none
  termination_by b.size - i

/-- The signature that is found lies inside. -/
theorem bounds_of_nextSignature? {b : ByteArray} {i j : Nat} (h : nextSignature? b i = some j) :
    i ≤ j ∧ j + 4 ≤ b.size := by
  fun_induction nextSignature? b i with
  | case1 i hsize => cases h; exact ⟨Nat.le_refl _, hsize⟩
  | case2 i hsize hne ih => have := ih h; omega
  | case3 => cases h

/-- The offset of the first complete version block from `i` on. -/
def findBlock? (b : ByteArray) (i : Nat) : Option Nat :=
  match h : nextSignature? b i with
  | none => none
  | some j => if j % 4 = 0 ∧ j + blockSize ≤ b.size then some j else findBlock? b (j + 1)
  termination_by b.size - i
  decreasing_by have := bounds_of_nextSignature? h; omega

/-- The version written in two words. -/
def versionText (high low : UInt32) : String :=
  ".".intercalate ([high >>> 16, high &&& 0xFFFF, low >>> 16, low &&& 0xFFFF].map
    fun w => toString w.toNat)

/-- The version in the two words at an offset. -/
def versionAt? (b : ByteArray) (i : Nat) : Option String :=
  match u32? b i, u32? b (i + 4) with
  | some high, some low => some (versionText high low)
  | _, _ => none

/-- The versions of an executable, if it carries any. -/
def versions? (b : ByteArray) : Option Versions :=
  (findBlock? b 0).bind fun i =>
    match versionAt? b (i + 8), versionAt? b (i + 16) with
    | some f, some p => some ⟨f, p⟩
    | _, _ => none

end PluginAudit.Executable
