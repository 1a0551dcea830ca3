import Mathlib.Data.Nat.Bitwise
import Mathlib.Data.Set.Function
import PluginAudit.Proofs.SerialChecksum

/-!
# Changes that a checksum notices

A step of the register loses nothing: the bit that leaves it can be told from its highest place,
which only the polynomial sets (`testBit_advance`). So two registers that differ go on to differ,
and a message that was changed within 32 successive bits has another checksum, whatever stands
before and after them (`serialChecksum_ne`); within four bytes, for one (`checksum_ne_of_change`).
-/

namespace PluginAudit.Crc32

/-! ## Registers that differ -/

theorem feedback_lt (bit : Bool) : feedback bit < 2 ^ 32 := by
  revert bit
  decide

theorem advance_lt {r : Nat} (h : r < 2 ^ 32) : advance r < 2 ^ 32 := by
  rw [advance_eq]
  exact Nat.xor_lt_two_pow (by omega) (feedback_lt _)

/-- The highest place of a register is the bit that left it. -/
theorem testBit_advance {r : Nat} (h : r < 2 ^ 32) : (advance r).testBit 31 = r.testBit 0 := by
  have hhalf : (r / 2).testBit 31 = false := Nat.testBit_lt_two_pow (by omega)
  rw [advance_eq, Nat.testBit_xor, hhalf, Bool.false_xor]
  cases r.testBit 0 <;> decide

theorem injOn_advance : Set.InjOn advance (Set.Iio (2 ^ 32)) := by
  intro a ha b hb h
  have hlast : a.testBit 0 = b.testBit 0 := by
    rw [← testBit_advance ha, ← testBit_advance hb, h]
  have hhalf : a / 2 = b / 2 := by
    rw [advance_eq, advance_eq, hlast] at h
    exact Nat.xor_left_inj.1 h
  rw [Nat.testBit_zero, Nat.testBit_zero, decide_eq_decide] at hlast
  omega

theorem takeBit_lt {r : Nat} (h : r < 2 ^ 32) (bit : Bool) : takeBit r bit < 2 ^ 32 := by
  have hbit := bit.toNat_lt
  rw [takeBit_eq_advance]
  exact advance_lt (Nat.xor_lt_two_pow h (by omega))

theorem foldl_takeBit_lt (bits : List Bool) {r : Nat} (h : r < 2 ^ 32) :
    bits.foldl takeBit r < 2 ^ 32 := by
  induction bits generalizing r with
  | nil => exact h
  | cons bit bits ih => exact ih (takeBit_lt h bit)

/-- Registers that differ go on to differ. -/
theorem injOn_foldl_takeBit (bits : List Bool) :
    Set.InjOn (bits.foldl takeBit) (Set.Iio (2 ^ 32)) := by
  induction bits with
  | nil => exact fun a _ b _ h => h
  | cons bit bits ih =>
    intro a ha b hb h
    have hbit := bit.toNat_lt
    have htake : takeBit a bit = takeBit b bit := ih (takeBit_lt ha bit) (takeBit_lt hb bit) h
    rw [takeBit_eq_advance, takeBit_eq_advance] at htake
    exact Nat.xor_left_inj.1 (injOn_advance (Nat.xor_lt_two_pow ha (by omega))
      (Nat.xor_lt_two_pow hb (by omega)) htake)

/-! ## Bits that differ -/

theorem lt_two_of_mem_digits {bits : List Bool} : ∀ d ∈ bits.map Bool.toNat, d < 2 := by
  intro d hd
  obtain ⟨bit, -, rfl⟩ := List.mem_map.1 hd
  exact bit.toNat_lt

theorem valueOf_lt {bits : List Bool} (h : bits.length ≤ 32) : valueOf bits < 2 ^ 32 := by
  have hlt : valueOf bits < 2 ^ (bits.map Bool.toNat).length :=
    Nat.ofDigits_lt_base_pow_length Nat.one_lt_two lt_two_of_mem_digits
  rw [List.length_map] at hlt
  exact hlt.trans_le (Nat.pow_le_pow_right Nat.two_pos h)

theorem valueOf_inj {v w : List Bool} (hl : v.length = w.length) (h : valueOf v = valueOf w) :
    v = w := by
  have htoNat : Function.Injective Bool.toNat := by decide
  refine List.map_injective_iff.2 htoNat (Nat.ofDigits_inj_of_len_eq Nat.one_lt_two ?_
    lt_two_of_mem_digits lt_two_of_mem_digits h)
  rw [List.length_map, List.length_map, hl]

/-- A register tells messages of up to 32 bits apart. -/
theorem foldl_takeBit_inj {v w : List Bool} (hl : v.length = w.length) (hlen : v.length ≤ 32)
    {r : Nat} (hr : r < 2 ^ 32) (h : v.foldl takeBit r = w.foldl takeBit r) : v = w := by
  have hmaps : Set.MapsTo advance (Set.Iio (2 ^ 32)) (Set.Iio (2 ^ 32)) := fun _ => advance_lt
  rw [foldl_takeBit, foldl_takeBit, ← hl] at h
  have hx := injOn_advance.iterate hmaps v.length
    (Nat.xor_lt_two_pow hr (valueOf_lt hlen)) (Nat.xor_lt_two_pow hr (valueOf_lt (hl ▸ hlen))) h
  exact valueOf_inj hl (Nat.xor_right_inj.1 hx)

/-- A change within 32 successive bits changes the checksum. -/
theorem serialChecksum_ne {v w : List Bool} (hne : v ≠ w) (hl : v.length = w.length)
    (hlen : v.length ≤ 32) (before after : List Bool) :
    serialChecksum (before ++ v ++ after) ≠ serialChecksum (before ++ w ++ after) := by
  intro h
  have hstart : before.foldl takeBit 0xFFFFFFFF < 2 ^ 32 := foldl_takeBit_lt before (by decide)
  have hend := Nat.xor_left_inj.1 h
  rw [List.foldl_append, List.foldl_append, List.foldl_append, List.foldl_append] at hend
  have hmiddle := injOn_foldl_takeBit after (foldl_takeBit_lt v hstart) (foldl_takeBit_lt w hstart)
    hend
  exact hne (foldl_takeBit_inj hl hlen hstart hmiddle)

/-! ## Bytes that differ -/

theorem length_bitsOf (byte : UInt8) : (bitsOf byte).length = 8 := by
  rw [bitsOf, List.length_map, List.length_range]

theorem length_flatMap_bitsOf (bytes : List UInt8) :
    (bytes.flatMap bitsOf).length = 8 * bytes.length := by
  induction bytes with
  | nil => rfl
  | cons byte bytes ih =>
    rw [List.flatMap_cons, List.length_append, length_bitsOf, ih, List.length_cons]
    omega

theorem bitsOf_injective : Function.Injective bitsOf := by
  intro b c h
  rw [← UInt8.toNat_inj, ← valueOf_bitsOf, h, valueOf_bitsOf]

theorem flatMap_bitsOf_inj {v w : List UInt8} (hl : v.length = w.length)
    (h : v.flatMap bitsOf = w.flatMap bitsOf) : v = w := by
  induction v generalizing w with
  | nil => exact (List.length_eq_zero_iff.1 hl.symm).symm
  | cons b v ih =>
    cases w with
    | nil => cases hl
    | cons c w =>
      obtain ⟨hbits, hrest⟩ := List.append_inj h ((length_bitsOf b).trans (length_bitsOf c).symm)
      rw [bitsOf_injective hbits, ih (Nat.succ.inj hl) hrest]

/-- A change within four successive bytes changes the checksum of a content. -/
theorem checksum_ne_of_change {v w : ByteArray} (hne : v ≠ w) (hsize : v.size = w.size)
    (hfour : v.size ≤ 4) (before after : ByteArray) :
    checksum (before ++ v ++ after) ≠ checksum (before ++ w ++ after) := by
  have hl : v.data.toList.length = w.data.toList.length := by simpa using hsize
  have hbits : v.data.toList.flatMap bitsOf ≠ w.data.toList.flatMap bitsOf := by
    intro h
    exact hne (ByteArray.ext (Array.toList_inj.1 (flatMap_bitsOf_inj hl h)))
  have hlen : (v.data.toList.flatMap bitsOf).length ≤ 32 := by
    rw [length_flatMap_bitsOf]
    have hv : v.data.toList.length = v.size := by simp
    omega
  have hserial := serialChecksum_ne hbits
    (by rw [length_flatMap_bitsOf, length_flatMap_bitsOf, hl]) hlen
    (before.data.toList.flatMap bitsOf) (after.data.toList.flatMap bitsOf)
  have hparts (x : ByteArray) : (before ++ x ++ after).data.toList.flatMap bitsOf =
      before.data.toList.flatMap bitsOf ++ x.data.toList.flatMap bitsOf ++
        after.data.toList.flatMap bitsOf := by
    rw [ByteArray.toList_data_append, ByteArray.toList_data_append, List.flatMap_append,
      List.flatMap_append]
  intro h
  rw [← hparts, ← hparts, ← toNat_checksum, ← toNat_checksum, h] at hserial
  exact hserial rfl

theorem checksum_ne_of_change_flags :
    let v : ByteArray := ⟨#[0x81, 0, 0, 0]⟩
    let w : ByteArray := ⟨#[0x01, 0x02, 0, 0]⟩
    v ≠ w ∧ v.size = w.size ∧ v.size ≤ 4 ∧
      checksum ("TES4".toUTF8 ++ v ++ "WEAP".toUTF8) ≠
        checksum ("TES4".toUTF8 ++ w ++ "WEAP".toUTF8) := by
  intro v w
  have hne : v ≠ w := by decide
  exact ⟨hne, rfl, by decide, checksum_ne_of_change hne rfl (by decide) _ _⟩

end PluginAudit.Crc32
