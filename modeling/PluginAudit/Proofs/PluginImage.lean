import Mathlib.Data.Nat.Bitwise
import PluginAudit.Proofs.PluginSafety

/-!
# Plugins as they are meant

An `Image` is what a plugin says, apart from how it is laid out in bytes: a header of flags and
subrecords, and a `Forest` of records that may stand in groups, groups in groups included.
`Image.bytes` lays it out. Words whose values nobody reads are part of an image, since a file may
have anything there.
-/

namespace PluginAudit.Plugin

open Bytes

/-! ## Bytes at an offset -/

/-- The bytes of a file from an offset on begin with a list. -/
def HasBytes (b : ByteArray) (offset : Nat) (bs : List UInt8) : Prop :=
  ∃ before after, b.data.toList = before ++ bs ++ after ∧ before.length = offset

namespace HasBytes

variable {b : ByteArray} {offset : Nat} {bs xs ys : List UInt8}

theorem size (h : HasBytes b offset bs) : offset + bs.length ≤ b.size := by
  obtain ⟨before, after, hb, rfl⟩ := h
  have hsize : b.size = (before ++ bs ++ after).length := by rw [← hb]; rfl
  rw [hsize, List.length_append, List.length_append]
  omega

theorem left (h : HasBytes b offset (xs ++ ys)) : HasBytes b offset xs := by
  obtain ⟨before, after, hb, hlength⟩ := h
  exact ⟨before, ys ++ after, by rw [hb]; simp only [List.append_assoc], hlength⟩

theorem right (h : HasBytes b offset (xs ++ ys)) : HasBytes b (offset + xs.length) ys := by
  obtain ⟨before, after, hb, rfl⟩ := h
  exact ⟨before ++ xs, after, by rw [hb]; simp only [List.append_assoc], List.length_append⟩

theorem slice (h : HasBytes b offset bs) : slice b offset (offset + bs.length) = bs := by
  obtain ⟨before, after, hb, rfl⟩ := h
  simp [Bytes.slice, ByteArray.data_extract, Array.toList_extract, hb, List.extract_eq_take_drop]

theorem getElem? (h : HasBytes b offset bs) {i : Nat} (hi : i < bs.length) :
    b.data[offset + i]? = some bs[i] := by
  obtain ⟨before, after, hb, rfl⟩ := h
  rw [← Array.getElem?_toList, hb, List.append_assoc, List.getElem?_append_right (by omega),
    Nat.add_sub_cancel_left, List.getElem?_append_left hi, List.getElem?_eq_getElem hi]

theorem u16? {x y : UInt8} (h : HasBytes b offset [x, y]) :
    u16? b offset = some (x.toUInt16 ||| (y.toUInt16 <<< 8)) := by
  have hsize : offset + 2 ≤ b.size := h.size
  obtain ⟨_, hx⟩ := Array.getElem?_eq_some_iff.1 (h.getElem? (i := 0) Nat.zero_lt_two)
  obtain ⟨_, hy⟩ := Array.getElem?_eq_some_iff.1 (h.getElem? (i := 1) Nat.one_lt_two)
  rw [Bytes.u16?, dif_pos hsize]
  simp only [ByteArray.getElem_eq_getElem_data]
  exact congrArg some (congrArg₂ (fun x y : UInt8 => x.toUInt16 ||| (y.toUInt16 <<< 8)) hx hy)

theorem u32? {x y z t : UInt8} (h : HasBytes b offset [x, y, z, t]) :
    u32? b offset = some (x.toUInt32 ||| (y.toUInt32 <<< 8) ||| (z.toUInt32 <<< 16) |||
      (t.toUInt32 <<< 24)) := by
  have hsize : offset + 4 ≤ b.size := h.size
  obtain ⟨_, hx⟩ := Array.getElem?_eq_some_iff.1 (h.getElem? (i := 0) (by simp))
  obtain ⟨_, hy⟩ := Array.getElem?_eq_some_iff.1 (h.getElem? (i := 1) (by simp))
  obtain ⟨_, hz⟩ := Array.getElem?_eq_some_iff.1 (h.getElem? (i := 2) (by simp))
  obtain ⟨_, ht⟩ := Array.getElem?_eq_some_iff.1 (h.getElem? (i := 3) (by simp))
  rw [Bytes.u32?, dif_pos hsize]
  simp only [ByteArray.getElem_eq_getElem_data]
  simp only [Nat.add_zero] at hx
  rw [hx, hy, hz, ht]
  rfl

end HasBytes

/-! ## Words as bytes -/

/-- The two bytes of a number, the least significant first. -/
def le16 (n : Nat) : List UInt8 := [UInt8.ofNat n, UInt8.ofNat (n / 2 ^ 8)]

/-- The four bytes of a number, the least significant first. -/
def le32 (n : Nat) : List UInt8 :=
  [UInt8.ofNat n, UInt8.ofNat (n / 2 ^ 8), UInt8.ofNat (n / 2 ^ 16), UInt8.ofNat (n / 2 ^ 24)]

theorem length_le16 (n : Nat) : (le16 n).length = 2 := rfl

theorem length_le32 (n : Nat) : (le32 n).length = 4 := rfl

theorem toNat_word16 (x y : UInt8) :
    (x.toUInt16 ||| (y.toUInt16 <<< 8)).toNat = 2 ^ 8 * y.toNat + x.toNat := by
  have hx : x.toNat < 2 ^ 8 := x.toNat_lt
  have hy : y.toNat < 2 ^ 8 := y.toNat_lt
  have hshift : (y.toUInt16 <<< 8).toNat = 2 ^ 8 * y.toNat := by
    rw [UInt16.toNat_shiftLeft, Nat.shiftLeft_eq, Nat.mul_comm]
    exact Nat.mod_eq_of_lt (show 2 ^ 8 * y.toNat < 2 ^ 16 by omega)
  rw [UInt16.toNat_or, hshift, UInt8.toNat_toUInt16, Nat.or_comm, Nat.two_pow_add_eq_or_of_lt hx]

theorem toNat_shifted (x : UInt8) {k : Nat} (hk : k ≤ 24) :
    (x.toUInt32 <<< UInt32.ofNat k).toNat = 2 ^ k * x.toNat := by
  have hlt : 2 ^ k * x.toNat < 2 ^ 32 := by
    calc 2 ^ k * x.toNat
        < 2 ^ k * 2 ^ 8 := Nat.mul_lt_mul_of_pos_left x.toNat_lt (Nat.two_pow_pos k)
      _ ≤ 2 ^ 24 * 2 ^ 8 := Nat.mul_le_mul_right _ (Nat.pow_le_pow_right Nat.zero_lt_two hk)
  have hmod : (UInt32.ofNat k).toNat % 32 = k := by
    rw [UInt32.toNat_ofNat']
    omega
  rw [UInt32.toNat_shiftLeft, hmod, Nat.shiftLeft_eq, Nat.mul_comm, UInt8.toNat_toUInt32,
    Nat.mod_eq_of_lt hlt]

theorem toNat_word32 (x y z t : UInt8) :
    (x.toUInt32 ||| (y.toUInt32 <<< 8) ||| (z.toUInt32 <<< 16) ||| (t.toUInt32 <<< 24)).toNat =
      2 ^ 24 * t.toNat + (2 ^ 16 * z.toNat + (2 ^ 8 * y.toNat + x.toNat)) := by
  have hx : x.toNat < 2 ^ 8 := x.toNat_lt
  have hy : y.toNat < 2 ^ 8 := y.toNat_lt
  have hz : z.toNat < 2 ^ 8 := z.toNat_lt
  have hyx : 2 ^ 8 * y.toNat + x.toNat < 2 ^ 16 := by omega
  have hzyx : 2 ^ 16 * z.toNat + (2 ^ 8 * y.toNat + x.toNat) < 2 ^ 24 := by omega
  have hy8 : (y.toUInt32 <<< 8).toNat = 2 ^ 8 * y.toNat := toNat_shifted y (by decide)
  have hz16 : (z.toUInt32 <<< 16).toNat = 2 ^ 16 * z.toNat := toNat_shifted z (by decide)
  have ht24 : (t.toUInt32 <<< 24).toNat = 2 ^ 24 * t.toNat := toNat_shifted t (by decide)
  rw [UInt32.toNat_or, UInt32.toNat_or, UInt32.toNat_or, hy8, hz16, ht24, UInt8.toNat_toUInt32,
    Nat.or_comm x.toNat, ← Nat.two_pow_add_eq_or_of_lt hx, Nat.or_comm _ (2 ^ 16 * z.toNat),
    ← Nat.two_pow_add_eq_or_of_lt hyx, Nat.or_comm _ (2 ^ 24 * t.toNat),
    ← Nat.two_pow_add_eq_or_of_lt hzyx]

namespace HasBytes

variable {b : ByteArray} {offset n : Nat}

theorem word16 (h : HasBytes b offset (le16 n)) (hn : n < 2 ^ 16) (file : String) :
    word16 b file offset = .ok n := by
  have hword : ((UInt8.ofNat n).toUInt16 ||| ((UInt8.ofNat (n / 2 ^ 8)).toUInt16 <<< 8)).toNat =
      n := by
    rw [toNat_word16, UInt8.toNat_ofNat', UInt8.toNat_ofNat']
    omega
  rw [Plugin.word16, h.u16?]
  exact congrArg Except.ok hword

theorem u32?_le32 (h : HasBytes b offset (le32 n)) (hn : n < 2 ^ 32) :
    Bytes.u32? b offset = some (UInt32.ofNat n) := by
  rw [h.u32?]
  refine congrArg some (UInt32.toNat_inj.1 ?_)
  rw [toNat_word32, UInt8.toNat_ofNat', UInt8.toNat_ofNat', UInt8.toNat_ofNat',
    UInt8.toNat_ofNat', UInt32.toNat_ofNat']
  omega

theorem word32 (h : HasBytes b offset (le32 n)) (hn : n < 2 ^ 32) (file : String) :
    word32 b file offset = .ok (UInt32.ofNat n) := by
  rw [Plugin.word32, h.u32?_le32 hn]

theorem word {w : UInt32} (h : HasBytes b offset (le32 w.toNat)) (file : String) :
    Plugin.word32 b file offset = .ok w := by
  rw [h.word32 w.toNat_lt file, UInt32.ofNat_toNat]

end HasBytes

/-! ## Types -/

/-- A type: four characters of ASCII. -/
structure TypeCode where
  text : String
  length : text.toList.length = 4
  ascii : (text.toList.all fun c => c.toNat < 128) = true

namespace TypeCode

def bytes (t : TypeCode) : List UInt8 := t.text.toList.map fun c => UInt8.ofNat c.toNat

theorem length_bytes (t : TypeCode) : t.bytes.length = 4 := by rw [bytes, List.length_map, t.length]

end TypeCode

theorem HasBytes.typeAt {b : ByteArray} {offset : Nat} {t : TypeCode}
    (h : HasBytes b offset t.bytes) : typeAt b offset = t.text := by
  have hchar : ∀ c ∈ t.text.toList,
      Char.ofNat (UInt8.ofNat c.toNat &&& 0x7F).toNat = c := by
    intro c hc
    have hascii : c.toNat < 2 ^ 7 := of_decide_eq_true (List.all_eq_true.1 t.ascii c hc)
    have hclear : (UInt8.ofNat c.toNat &&& 0x7F).toNat = c.toNat := by
      rw [UInt8.toNat_and, UInt8.toNat_ofNat']
      exact (Nat.and_two_pow_sub_one_eq_mod _ 7).trans (by omega)
    rw [hclear, Char.ofNat_toNat]
  have hslice := h.slice
  rw [t.length_bytes] at hslice
  rw [Plugin.typeAt, hslice, TypeCode.bytes, List.map_map]
  exact (congrArg String.ofList ((List.map_congr_left hchar).trans (List.map_id _))).trans
    String.ofList_toList

/-! ## Images -/

/-- The 24 bytes that open a record or a group: its type, a size and four more words. -/
def opening (type : TypeCode) (size : Nat) (x y z t : UInt32) : List UInt8 :=
  type.bytes ++ (le32 size ++ (le32 x.toNat ++ (le32 y.toNat ++ (le32 z.toNat ++ le32 t.toNat))))

theorem length_opening (type : TypeCode) (size : Nat) (x y z t : UInt32) :
    (opening type size x y z t).length = 24 := by
  simp only [opening, List.length_append, type.length_bytes, length_le32]

/-- What is read of an opening. -/
theorem HasBytes.opening {b : ByteArray} {offset size : Nat} {type : TypeCode} {x y z t : UInt32}
    (h : HasBytes b offset (opening type size x y z t)) (hsize : size < 2 ^ 32) (file : String) :
    Plugin.typeAt b offset = type.text ∧
      (∃ w, Plugin.word32 b file (offset + 4) = .ok w ∧ w.toNat = size) ∧
      Plugin.word32 b file (offset + 8) = .ok x ∧ Plugin.word32 b file (offset + 12) = .ok y := by
  have h4 := h.right
  rw [type.length_bytes] at h4
  have h8 := h4.right
  have h12 := h8.right
  rw [length_le32] at h8 h12
  rw [length_le32] at h12
  have hnat : (UInt32.ofNat size).toNat = size := UInt32.toNat_ofNat_of_lt' hsize
  exact ⟨h.left.typeAt, ⟨_, h4.left.word32 hsize file, hnat⟩, h8.left.word file,
    h12.left.word file⟩

structure Subrecord where
  type : TypeCode
  payload : List UInt8
  /-- What stands in place of the 16-bit length of a payload that is too long for it. -/
  filler : UInt16
  /-- The type for lengths is not used otherwise. -/
  plain : type.text ≠ "XXXX"

namespace Subrecord

/-- The type of the subrecord that holds the length of the next. -/
def lengthType : TypeCode := ⟨"XXXX", by decide, by decide⟩

/-- A subrecord whose length is written in 16 bits, or as another number in place of it. -/
def framed (type : TypeCode) (length : Nat) (payload : List UInt8) : List UInt8 :=
  type.bytes ++ (le16 length ++ payload)

def bytes (s : Subrecord) : List UInt8 :=
  if s.payload.length < 2 ^ 16 then framed s.type s.payload.length s.payload
  else framed lengthType 4 (le32 s.payload.length) ++ framed s.type s.filler.toNat s.payload

end Subrecord

structure Record where
  type : TypeCode
  flags : UInt32
  formId : UInt32
  stamp : UInt32
  revision : UInt32
  data : List UInt8
  /-- The type of groups is not used for records. -/
  plain : type.text ≠ "GRUP"
  fits : data.length < 2 ^ 32

namespace Record

def bytes (r : Record) : List UInt8 :=
  opening r.type r.data.length r.flags r.formId r.stamp r.revision ++ r.data

end Record

/-- What a group says of itself, apart from its size. -/
structure Label where
  label : UInt32
  kind : UInt32
  stamp : UInt32
  revision : UInt32

/-- Records, one after the other or in groups. -/
inductive Forest where
  | nil
  | record (r : Record) (rest : Forest)
  | group (label : Label) (contents rest : Forest)

namespace Forest

def groupType : TypeCode := ⟨"GRUP", by decide, by decide⟩

def bytes : Forest → List UInt8
  | nil => []
  | record r rest => r.bytes ++ rest.bytes
  | group l contents rest =>
    opening groupType (24 + contents.bytes.length) l.label l.kind l.stamp l.revision ++
      (contents.bytes ++ rest.bytes)

/-- The records in the order of the file. -/
def records : Forest → List Record
  | nil => []
  | record r rest => r :: rest.records
  | group _ contents rest => contents.records ++ rest.records

/-- The sizes of the groups are words. -/
def Fits : Forest → Prop
  | nil => True
  | record _ rest => rest.Fits
  | group _ contents rest => 24 + contents.bytes.length < 2 ^ 32 ∧ contents.Fits ∧ rest.Fits

instance decidableFits : (f : Forest) → Decidable f.Fits
  | nil => isTrue trivial
  | record _ rest => decidableFits rest
  | group _ contents rest =>
    have := decidableFits contents
    have := decidableFits rest
    inferInstanceAs (Decidable (_ ∧ _ ∧ _))

end Forest

structure Image where
  flags : UInt32
  formId : UInt32
  stamp : UInt32
  revision : UInt32
  subrecords : List Subrecord
  body : Forest

namespace Image

/-- The type of the header record. -/
def headerType : TypeCode := ⟨"TES4", by decide, by decide⟩

/-- The bytes of the header's subrecords. -/
def header (p : Image) : List UInt8 := p.subrecords.flatMap Subrecord.bytes

def bytes (p : Image) : List UInt8 :=
  opening headerType p.header.length p.flags p.formId p.stamp p.revision ++
    (p.header ++ p.body.bytes)

/-- The sizes of the header and of the groups are words. -/
structure Fits (p : Image) : Prop where
  header : p.header.length < 2 ^ 32
  body : p.body.Fits

end Image

end PluginAudit.Plugin
