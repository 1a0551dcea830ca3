import Mathlib.Data.Nat.Digits.Lemmas
import Mathlib.Logic.Function.Iterate
import PluginAudit.Crc32

/-!
# The checksum bit by bit

By its definition, a cyclic redundancy check takes in a message one bit at a time (`takeBit`). The
register of `Crc32.step` takes in a byte at a time, with the help of a table. Both come to the same
(`checksum_eq_serial`), since a step without a message bit is linear in exclusive or: what eight of
them make of a register is what they make of its last byte, which the table holds, and the rest of
it, which only moves down.

The words of the register may as well be read as numbers with a sign, as long as a shift reads them
without one (`Signed`).
-/

namespace PluginAudit.Crc32

/-- The register after one more bit of a message: it moves down by one place, and takes in the
polynomial unless the bit that leaves it is that of the message. -/
def takeBit (r : Nat) (bit : Bool) : Nat :=
  if r.testBit 0 = bit then r / 2 else r / 2 ^^^ 0xEDB88320

/-- The bits of a byte, the least significant first. -/
def bitsOf (byte : UInt8) : List Bool := (List.range 8).map byte.toNat.testBit

/-- The checksum of a message, taken in bit by bit by a register that starts and ends inverted. -/
def serialChecksum (bits : List Bool) : Nat := bits.foldl takeBit 0xFFFFFFFF ^^^ 0xFFFFFFFF

/-! ## Steps without a message bit -/

/-- The register after a step without a message bit. -/
def advance (r : Nat) : Nat := takeBit r false

/-- What the bit that leaves the register puts back into it. -/
def feedback (bit : Bool) : Nat := if bit then 0xEDB88320 else 0

theorem advance_eq (r : Nat) : advance r = r / 2 ^^^ feedback (r.testBit 0) := by
  rw [advance, takeBit]
  cases r.testBit 0 with
  | false => exact (Nat.xor_zero _).symm
  | true => rfl

theorem feedback_xor (a b : Bool) : feedback (a ^^ b) = feedback a ^^^ feedback b := by
  revert a b
  decide

theorem advance_xor (a b : Nat) : advance (a ^^^ b) = advance a ^^^ advance b := by
  rw [advance_eq, advance_eq, advance_eq, Nat.testBit_xor, feedback_xor, Nat.xor_div_two]
  ac_rfl

theorem iterate_advance_xor (n a b : Nat) :
    advance^[n] (a ^^^ b) = advance^[n] a ^^^ advance^[n] b := by
  induction n generalizing a b with
  | zero => rfl
  | succ n ih => rw [Function.iterate_succ_apply, advance_xor, ih]; rfl

theorem advance_two_mul (m : Nat) : advance (2 * m) = m := by
  have hbit : (2 * m).testBit 0 = false := by simp [Nat.testBit_zero]
  have hhalf : 2 * m / 2 = m := Nat.mul_div_cancel_left m Nat.two_pos
  rw [advance_eq, hbit, hhalf]
  exact Nat.xor_zero m

/-- Places that are zero only move the rest of the register down. -/
theorem iterate_advance_mul (n m : Nat) : advance^[n] (2 ^ n * m) = m := by
  induction n with
  | zero => exact Nat.one_mul m
  | succ n ih => rw [Function.iterate_succ_apply, Nat.pow_succ', Nat.mul_assoc, advance_two_mul, ih]

/-! ## The bits of a message -/

/-- The number that bits write, the least significant first. -/
def valueOf (bits : List Bool) : Nat := Nat.ofDigits 2 (bits.map Bool.toNat)

theorem xor_two_mul (bit : Bool) (m : Nat) : bit.toNat ^^^ 2 * m = bit.toNat + 2 * m := by
  have hdiv : (bit.toNat ^^^ 2 * m) / 2 = m := by
    rw [Nat.xor_div_two, Nat.mul_div_cancel_left m Nat.two_pos]
    cases bit <;> simp
  have hmod : (bit.toNat ^^^ 2 * m) % 2 = bit.toNat := by
    have hxor := Nat.xor_mod_two_pow (a := bit.toNat) (b := 2 * m) (n := 1)
    rw [Nat.pow_one, Nat.mul_mod_right, Nat.xor_zero] at hxor
    rw [hxor]
    cases bit <;> rfl
  omega

theorem valueOf_cons (bit : Bool) (bits : List Bool) :
    valueOf (bit :: bits) = bit.toNat ^^^ 2 * valueOf bits := by
  rw [xor_two_mul, valueOf, List.map_cons, Nat.ofDigits_cons, valueOf]

theorem valueOf_bitsOf (byte : UInt8) : valueOf (bitsOf byte) = byte.toNat := by
  have hlt : byte.toNat < 256 := byte.toNat_lt
  have hbits : bitsOf byte = [0, 1, 2, 3, 4, 5, 6, 7].map byte.toNat.testBit := rfl
  simp only [valueOf, hbits, List.map_cons, List.map_nil, Nat.toNat_testBit, Nat.ofDigits_cons,
    Nat.ofDigits_nil]
  omega

/-- A bit of the message acts on the register as the last place of the register itself does. -/
theorem takeBit_eq_advance (r : Nat) (bit : Bool) : takeBit r bit = advance (r ^^^ bit.toNat) := by
  have hhalf : bit.toNat / 2 = 0 := by cases bit <;> rfl
  have hlast : bit.toNat.testBit 0 = bit := by cases bit <;> rfl
  rw [advance_eq, Nat.xor_div_two, hhalf, Nat.xor_zero, Nat.testBit_xor, hlast, takeBit]
  cases r.testBit 0 with
  | false => cases bit <;> simp [feedback]
  | true => cases bit <;> simp [feedback]

/-- The bits of a message may be put into the register all at once, before it moves on. -/
theorem foldl_takeBit (bits : List Bool) (r : Nat) :
    bits.foldl takeBit r = advance^[bits.length] (r ^^^ valueOf bits) := by
  induction bits generalizing r with
  | nil => exact (Nat.xor_zero r).symm
  | cons bit bits ih =>
    rw [List.foldl_cons, ih, List.length_cons, Function.iterate_succ_apply, valueOf_cons,
      ← Nat.xor_assoc, advance_xor, advance_two_mul, takeBit_eq_advance]

theorem foldl_bitsOf (byte : UInt8) (r : Nat) :
    (bitsOf byte).foldl takeBit r = advance^[8] (r ^^^ byte.toNat) := by
  rw [foldl_takeBit, valueOf_bitsOf]
  rfl

/-! ## The register of words -/

theorem toNat_and_one (c : UInt32) : (c &&& 1).toNat = c.toNat % 2 := by
  rw [UInt32.toNat_and]
  exact Nat.and_one_is_mod c.toNat

theorem and_one_eq_iff (c : UInt32) : c &&& 1 = 1 ↔ c.toNat.testBit 0 = true := by
  rw [← UInt32.toNat_inj, toNat_and_one, Nat.testBit_zero, decide_eq_true_eq]
  rfl

theorem toNat_bitStep (c : UInt32) : (bitStep c).toNat = advance c.toNat := by
  have hshift : (c >>> 1).toNat = c.toNat / 2 := by
    rw [UInt32.toNat_shiftRight]
    exact Nat.shiftRight_one c.toNat
  rw [advance_eq, bitStep]
  split
  · next h =>
    rw [(and_one_eq_iff c).1 h, UInt32.toNat_xor, hshift, Nat.xor_comm]
    rfl
  · next h =>
    rw [Bool.eq_false_iff.2 (mt (and_one_eq_iff c).2 h), hshift]
    exact (Nat.xor_zero _).symm

theorem toNat_bitSteps (n : Nat) (c : UInt32) : (bitSteps n c).toNat = advance^[n] c.toNat := by
  induction n generalizing c with
  | zero => rfl
  | succ n ih => rw [bitSteps, ih, toNat_bitStep, Function.iterate_succ_apply]

theorem eightSteps_eq (i : UInt8) : eightSteps i = bitSteps 8 i.toNat.toUInt32 := by
  simp [eightSteps, table]

theorem toNat_toUInt32 (i : UInt8) : i.toNat.toUInt32.toNat = i.toNat :=
  UInt32.toNat_ofNat_of_lt' (i.toNat_lt.trans (by decide))

theorem toNat_eightSteps (i : UInt8) : (eightSteps i).toNat = advance^[8] i.toNat := by
  rw [eightSteps_eq, toNat_bitSteps, toNat_toUInt32]

/-- The last places of a register and the rest of it make up the register. -/
theorem mul_xor_mod (n c : Nat) : 2 ^ n * (c / 2 ^ n) ^^^ c % 2 ^ n = c := by
  refine Nat.eq_of_testBit_eq fun i => ?_
  rw [Nat.testBit_xor, Nat.testBit_two_pow_mul, Nat.testBit_mod_two_pow, Nat.testBit_div_two_pow]
  by_cases h : i < n
  · simp [h, Nat.not_le_of_lt h]
  · simp [h, Nat.le_of_not_lt h]

/-- A step by a byte takes in the bits of the byte. -/
theorem toNat_step (c : UInt32) (byte : UInt8) :
    (step c byte).toNat = (bitsOf byte).foldl takeBit c.toNat := by
  have hshift : (c >>> 8).toNat = c.toNat / 2 ^ 8 := by
    rw [UInt32.toNat_shiftRight]
    exact Nat.shiftRight_eq_div_pow c.toNat 8
  have hindex : (c.toUInt8 ^^^ byte).toNat = c.toNat % 2 ^ 8 ^^^ byte.toNat := by
    rw [UInt8.toNat_xor, UInt32.toNat_toUInt8]
  calc (step c byte).toNat
      = advance^[8] (c.toNat % 2 ^ 8 ^^^ byte.toNat) ^^^ c.toNat / 2 ^ 8 := by
        rw [step, UInt32.toNat_xor, toNat_eightSteps, hindex, hshift]
    _ = advance^[8] (c.toNat % 2 ^ 8 ^^^ byte.toNat) ^^^
          advance^[8] (2 ^ 8 * (c.toNat / 2 ^ 8)) := by rw [iterate_advance_mul]
    _ = advance^[8] (2 ^ 8 * (c.toNat / 2 ^ 8) ^^^ c.toNat % 2 ^ 8 ^^^ byte.toNat) := by
        rw [← iterate_advance_xor, Nat.xor_comm, Nat.xor_assoc]
    _ = (bitsOf byte).foldl takeBit c.toNat := by rw [mul_xor_mod, foldl_bitsOf]

theorem toNat_foldl_step (bytes : List UInt8) (c : UInt32) :
    (bytes.foldl step c).toNat = (bytes.flatMap bitsOf).foldl takeBit c.toNat := by
  induction bytes generalizing c with
  | nil => rfl
  | cons byte bytes ih =>
    rw [List.foldl_cons, ih, toNat_step, List.flatMap_cons, List.foldl_append]

/-- The checksum of a content is that of its bits. -/
theorem toNat_checksum (content : ByteArray) :
    (checksum content).toNat = serialChecksum (content.data.toList.flatMap bitsOf) := by
  rw [checksum_eq_foldl, UInt32.toNat_xor, toNat_foldl_step]
  rfl

/-! ## Words with a sign -/

namespace Signed

/-- The word of a number, of which the last 32 places count. -/
def word (n : Int) : UInt32 := UInt32.ofBitVec (BitVec.ofInt 32 n)

/-- A word read as a number with a sign. -/
def signed (w : UInt32) : Int := w.toBitVec.toInt

def xor (a b : Int) : Int := signed (word a ^^^ word b)

def and (a b : Int) : Int := signed (word a &&& word b)

/-- A number moved down by some places. It is read without a sign, and the result has none. -/
def shift (a : Int) (places : UInt32) : Int := (word a >>> places).toNat

def bitStep (c : Int) : Int := if and c 1 ≠ 0 then xor 0xEDB88320 (shift c 1) else shift c 1

/-- What eight steps make of each byte, as numbers without a sign. -/
def table : Array Int := Array.ofFn fun i : Fin 256 => shift (bitStep^[8] i.val) 0

def step (c : Int) (byte : UInt8) : Int :=
  xor (table.getD (and (xor c byte.toNat) 0xFF).toNat 0) (shift c 8)

/-- The checksum, whose register holds numbers with a sign on the way. -/
def checksum (bytes : List UInt8) : Int := shift (xor (bytes.foldl step 0xFFFFFFFF) 0xFFFFFFFF) 0

/-! ### Numbers as words -/

theorem word_signed (w : UInt32) : word (signed w) = w :=
  congrArg UInt32.ofBitVec BitVec.ofInt_toInt

theorem word_ofNat (n : Nat) : word n = n.toUInt32 :=
  congrArg UInt32.ofBitVec (BitVec.ofInt_natCast 32 n)

theorem word_toNat (w : UInt32) : word w.toNat = w :=
  (word_ofNat w.toNat).trans UInt32.ofNat_toNat

theorem signed_eq_zero_iff {w : UInt32} : signed w = 0 ↔ w = 0 := by
  constructor
  · intro h
    rw [← word_signed w, h]
    rfl
  · rintro rfl
    rfl

theorem signed_of_lt {w : UInt32} (h : w.toNat < 2 ^ 31) : signed w = w.toNat := by
  have hw : w.toBitVec.toNat = w.toNat := rfl
  exact BitVec.toInt_eq_toNat_of_lt (by omega)

theorem word_xor (a b : Int) : word (xor a b) = word a ^^^ word b := word_signed _

theorem word_shift (a : Int) (places : UInt32) : word (shift a places) = word a >>> places :=
  word_toNat _

theorem shift_zero (a : Int) : shift a 0 = (word a).toNat := by simp [shift]

/-! ### The register of numbers -/

theorem word_bitStep (c : Int) : word (bitStep c) = Crc32.bitStep (word c) := by
  have hodd : and c 1 ≠ 0 ↔ word c &&& 1 = 1 := by
    have hand : and c 1 = signed (word c &&& 1) := rfl
    have hzero : (0 : UInt32).toNat = 0 := rfl
    have hone : (1 : UInt32).toNat = 1 := rfl
    rw [hand, Ne, signed_eq_zero_iff, ← UInt32.toNat_inj, ← UInt32.toNat_inj, toNat_and_one]
    omega
  rw [bitStep, Crc32.bitStep]
  split
  · next h => rw [if_pos (hodd.1 h), word_xor, word_shift]; rfl
  · next h => rw [if_neg (mt hodd.2 h), word_shift]

theorem word_iterate_bitStep (n : Nat) (c : Int) : word (bitStep^[n] c) = bitSteps n (word c) := by
  induction n generalizing c with
  | zero => rfl
  | succ n ih => rw [Function.iterate_succ_apply, ih, word_bitStep, bitSteps]

theorem table_getD (i : UInt8) : table.getD i.toNat 0 = (eightSteps i).toNat := by
  have hi : i.toNat < 256 := i.toNat_lt
  have hentry : table.getD i.toNat 0 = shift (bitStep^[8] i.toNat) 0 := by simp [table, hi]
  rw [hentry, shift_zero, word_iterate_bitStep, word_ofNat, eightSteps_eq]

/-- The entry that is looked up is that of the byte that is meant, whatever the sign. -/
theorem index_eq (c : Int) (byte : UInt8) :
    (and (xor c byte.toNat) 0xFF).toNat = ((word c).toUInt8 ^^^ byte).toNat := by
  have hlow : (word (xor c byte.toNat) &&& word 0xFF).toNat =
      ((word c).toUInt8 ^^^ byte).toNat := by
    have hmask : (word 0xFF).toNat = 2 ^ 8 - 1 := rfl
    rw [word_xor, word_ofNat, UInt32.toNat_and, UInt32.toNat_xor, hmask, toNat_toUInt32,
      Nat.and_two_pow_sub_one_eq_mod, Nat.xor_mod_two_pow, Nat.mod_eq_of_lt byte.toNat_lt,
      UInt8.toNat_xor, UInt32.toNat_toUInt8]
  have hlt := ((word c).toUInt8 ^^^ byte).toNat_lt
  rw [and, signed_of_lt (by omega), hlow, Int.toNat_natCast]

theorem word_step (c : Int) (byte : UInt8) : word (step c byte) = Crc32.step (word c) byte := by
  rw [step, index_eq, table_getD, word_xor, word_toNat, word_shift, Crc32.step]

theorem word_foldl_step (bytes : List UInt8) (c : Int) :
    word (bytes.foldl step c) = bytes.foldl Crc32.step (word c) := by
  induction bytes generalizing c with
  | nil => rfl
  | cons byte bytes ih => rw [List.foldl_cons, ih, word_step, List.foldl_cons]

theorem checksum_eq (content : ByteArray) :
    checksum content.data.toList = (Crc32.checksum content).toNat := by
  rw [checksum, shift_zero, word_xor, word_foldl_step, checksum_eq_foldl]
  rfl

end Signed

/-- The checksum by a table is the checksum bit by bit, a number of 32 places, and the same whether
the register holds numbers with a sign or without one. -/
theorem checksum_eq_serial (content : ByteArray) :
    (checksum content).toNat = serialChecksum (content.data.toList.flatMap bitsOf) ∧
      (checksum content).toNat < 2 ^ 32 ∧
      Signed.checksum content.data.toList = (checksum content).toNat :=
  ⟨toNat_checksum content, (checksum content).toNat_lt, Signed.checksum_eq content⟩

/-- The checksum of the nine digits, by which such checksums are told apart. -/
example : serialChecksum ("123456789".toUTF8.data.toList.flatMap bitsOf) = 0xCBF43926 := by
  decide +kernel

end PluginAudit.Crc32
