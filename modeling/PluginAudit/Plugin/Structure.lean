import PluginAudit.Bytes
import PluginAudit.Number.Binary64

/-!
# The structure of a plugin

A plugin is a header record followed by records and groups of them. `Structure.ofBytes` reads the
header's flags, version and masters and collects the identifiers of all records, entering groups
rather than skipping them; which records are new, and which identifiers a light or medium plugin may
use, follows from these and from the `Layout` of the game.

Types are compared after the top bit of each byte is cleared.
-/

namespace PluginAudit.Plugin

open Bytes

/-- Why bytes are not a plugin. -/
inductive Fault where
  /-- There are too few bytes for a header. -/
  | tooSmall (file : String)
  /-- The first record has another type. -/
  | headerType (type file : String)
  /-- The header record is longer than the file. -/
  | headerOverrun (file : String)
  /-- The header record ends within a subrecord's own header. -/
  | truncatedSubrecord (offset : Nat) (file : String)
  /-- A subrecord is longer than the header record. -/
  | subrecordOverrun (type file : String)
  /-- The file ends within a record's own header. -/
  | truncatedRecord (offset : Nat) (file : String)
  /-- A group is shorter than its own header or longer than the file. -/
  | groupSize (offset size : Nat) (file : String)
  /-- A record is longer than the file. -/
  | recordOverrun (type : String) (offset : Nat) (file : String)
  /-- A word was to be read where the file has none. -/
  | unreadable (offset : Nat) (file : String)
  /-- The host reports a fault of its own. -/
  | reported (text : String)
  deriving Repr, DecidableEq, Inhabited

def Fault.message : Fault → String
  | .tooSmall f => "File too small to be a plugin: " ++ f
  | .headerType t f => "Invalid plugin header type \"" ++ t ++ "\" in " ++ f
  | .headerOverrun f => "Header record extends beyond file bounds in " ++ f
  | .truncatedSubrecord o f => "Truncated subrecord at offset " ++ toString o ++ " in " ++ f
  | .subrecordOverrun t f => "Subrecord " ++ t ++ " extends beyond header record in " ++ f
  | .truncatedRecord o f => "Truncated record header at offset " ++ toString o ++ " in " ++ f
  | .groupSize o s f =>
    "Group at offset " ++ toString o ++ " has invalid size " ++ toString s ++ " in " ++ f
  | .recordOverrun t o f =>
    "Record " ++ t ++ " at offset " ++ toString o ++ " extends beyond file bounds in " ++ f
  | .unreadable o f =>
    "Failed to parse plugin \"" ++ f ++ "\": no word at offset " ++ toString o
  | .reported t => t

/-- How the games differ in marking and numbering records. -/
inductive Format where
  /-- Skyrim Special Edition and its relatives. -/
  | skyrimSE
  | fallout4
  | starfield
  deriving Repr, DecidableEq, Inhabited

namespace Format

def all : List Format := [skyrimSE, fallout4, starfield]

def name : Format → String
  | skyrimSE => "SkyrimSE"
  | fallout4 => "Fallout4"
  | starfield => "Starfield"

def ofName? (s : String) : Option Format := all.find? (·.name = s)

end Format

/-- What a format's flags mean and which identifiers its kinds of plugin may use. -/
structure Layout where
  /-- The header flag of light plugins. -/
  lightFlag : UInt32
  /-- The header flag of medium plugins, if there are any. -/
  mediumFlag? : Option UInt32
  /-- The header flag of updates, if there are any. -/
  updateFlag? : Option UInt32
  /-- The lowest object index a light plugin may use, by the version of its header. -/
  lightMinimum : Binary64 → Nat
  /-- The highest object index a light plugin may use. -/
  lightMaximum : Nat
  /-- The highest object index a medium plugin may use. -/
  mediumMaximum : Nat

def Format.layout : Format → Layout
  | .skyrimSE =>
    ⟨0x200, none, none, fun v => if v.atLeast 171 100 then 0 else 0x800, 0xFFF, 0⟩
  | .fallout4 =>
    ⟨0x200, none, none, fun v => if v.atLeast 1 1 then 1 else 0x800, 0xFFF, 0⟩
  | .starfield => ⟨0x100, some 0x400, some 0x200, fun _ => 0, 0xFFF, 0xFFFF⟩

/-- The facts read from a plugin. -/
structure Structure where
  /-- The type of the header record. -/
  headerType : String
  /-- The version of the header, in hundredths. -/
  headerVersion : Binary64
  /-- The plugins this one builds on. -/
  masters : List String
  isMaster : Bool
  isLight : Bool
  isMedium : Bool
  isUpdate : Bool
  /-- Every new record has an identifier a light plugin may use. -/
  isValidAsLight : Bool
  /-- Every new record has an identifier a medium plugin may use. -/
  isValidAsMedium : Bool
  /-- There are masters and no new records. -/
  isValidAsUpdate : Bool
  recordCount : Nat
  newRecordCount : Nat
  deriving Repr, DecidableEq, Inhabited

/-- The length of the header that opens a record or a group. -/
def recordHeaderSize : Nat := 24

/-- The length of the header that opens a subrecord. -/
def subrecordHeaderSize : Nat := 6

/-- The four characters of a type, the top bit of each byte cleared. -/
def typeAt (b : ByteArray) (offset : Nat) : String :=
  String.ofList ((slice b offset (offset + 4)).map fun x => Char.ofNat (x &&& 0x7F).toNat)

/-- Refuses bytes that do not begin with a header record. -/
def checkHeader (b : ByteArray) (file : String) : Except Fault Unit :=
  if b.size < recordHeaderSize then .error (.tooSmall file)
  else if typeAt b 0 ≠ "TES4" then .error (.headerType (typeAt b 0) file)
  else .ok ()

/-- The 16-bit word at an offset of a file. -/
def word16 (b : ByteArray) (file : String) (offset : Nat) : Except Fault Nat :=
  match u16? b offset with
  | some w => .ok w.toNat
  | none => .error (.unreadable offset file)

/-- The 32-bit word at an offset of a file. -/
def word32 (b : ByteArray) (file : String) (offset : Nat) : Except Fault UInt32 :=
  match u32? b offset with
  | some w => .ok w
  | none => .error (.unreadable offset file)

/-- A name of a master: one character per byte, without the zero bytes it ends with. -/
def masterName (bytes : List UInt8) : String :=
  String.ofList (((bytes.reverse.dropWhile (· == 0)).reverse).map fun x => Char.ofNat x.toNat)

/-- What the subrecords of a header tell. -/
structure HeaderFacts where
  version : Binary64 := .zero
  masters : List String := []
  deriving Repr, DecidableEq, Inhabited

/-- What one subrecord adds to the facts, and the length it sets for the next. -/
def readSubrecord (b : ByteArray) (file : String) (type : String) (start length : Nat)
    (facts : HeaderFacts) : Except Fault (HeaderFacts × Option Nat) :=
  if type = "XXXX" ∧ length = 4 then do
    let w ← word32 b file start
    return (facts, some w.toNat)
  else if type = "HEDR" ∧ 4 ≤ length then do
    let w ← word32 b file start
    return ({ facts with version := (Binary64.ofBits32 w).roundHundredths }, none)
  else if type = "MAST" then
    .ok ({ facts with masters := facts.masters ++ [masterName (slice b start (start + length))] },
      none)
  else .ok (facts, none)

/-- The length of the subrecord at an offset: the one set before it, or else its own. -/
def subrecordLength (b : ByteArray) (file : String) (offset : Nat) :
    Option Nat → Except Fault Nat
  | some n => .ok n
  | none => word16 b file (offset + 4)

/-- Reads the subrecords from an offset to the end of the header record. A subrecord of type `XXXX`
holds the length of the one after it. -/
def readSubrecords (b : ByteArray) (file : String) (stop offset : Nat) (oversized : Option Nat)
    (facts : HeaderFacts) : Except Fault HeaderFacts :=
  if offset < stop then
    if stop < offset + subrecordHeaderSize then .error (.truncatedSubrecord offset file)
    else
      let type := typeAt b offset
      match subrecordLength b file offset oversized with
      | .error e => .error e
      | .ok length =>
        let start := offset + subrecordHeaderSize
        if stop < start + length then .error (.subrecordOverrun type file)
        else match readSubrecord b file type start length facts with
          | .error e => .error e
          | .ok (facts, next) => readSubrecords b file stop (start + length) next facts
  else .ok facts
  termination_by stop - offset
  decreasing_by simp only [subrecordHeaderSize] at *; omega

/-- The identifiers of the records from an offset on, after those found before it. Groups are
entered. -/
def readFormIds (b : ByteArray) (file : String) (offset : Nat) (found : Array UInt32) :
    Except Fault (Array UInt32) :=
  if offset < b.size then
    if b.size < offset + recordHeaderSize then .error (.truncatedRecord offset file)
    else
      let type := typeAt b offset
      match word32 b file (offset + 4) with
      | .error e => .error e
      | .ok size =>
        if type = "GRUP" then
          if size.toNat < recordHeaderSize ∨ b.size < offset + size.toNat then
            .error (.groupSize offset size.toNat file)
          else readFormIds b file (offset + recordHeaderSize) found
        else
          let stop := offset + recordHeaderSize + size.toNat
          if b.size < stop then .error (.recordOverrun type offset file)
          else match word32 b file (offset + 12) with
            | .error e => .error e
            | .ok formId => readFormIds b file stop (found.push formId)
  else .ok found
  termination_by b.size - offset
  decreasing_by all_goals simp only [recordHeaderSize] at *; omega

/-- The part of an identifier that numbers a record within its plugin. -/
def objectIndex (formId : UInt32) : Nat := (formId &&& 0xFFFFFF).toNat

/-- The object indexes of the records that are not overrides of a master's. -/
def newIndexes (masterCount : Nat) (formIds : List UInt32) : List Nat :=
  (formIds.filter fun f : UInt32 => masterCount ≤ (f >>> 24).toNat).map objectIndex

/-- Whether a header carries a flag. -/
def hasFlag (flags flag : UInt32) : Bool := flags &&& flag != 0

namespace Structure

/-- The facts that follow from the header and the identifiers. -/
def build (layout : Layout) (flags : UInt32) (header : HeaderFacts) (formIds : List UInt32) :
    Structure :=
  let new := newIndexes header.masters.length formIds
  { headerType := "TES4"
    headerVersion := header.version
    masters := header.masters
    isMaster := hasFlag flags 1
    isLight := hasFlag flags layout.lightFlag
    isMedium := layout.mediumFlag?.any (hasFlag flags)
    isUpdate := layout.updateFlag?.any (hasFlag flags)
    isValidAsLight :=
      new.all fun i => layout.lightMinimum header.version ≤ i && i ≤ layout.lightMaximum
    isValidAsMedium := layout.mediumFlag?.isSome && new.all (· ≤ layout.mediumMaximum)
    isValidAsUpdate := layout.updateFlag?.isSome && !header.masters.isEmpty && new.isEmpty
    recordCount := formIds.length
    newRecordCount := new.length }

/-- The structure of a plugin's bytes. -/
def ofBytes (b : ByteArray) (file : String) (format : Format) : Except Fault Structure := do
  checkHeader b file
  let size ← word32 b file 4
  let flags ← word32 b file 8
  let stop := recordHeaderSize + size.toNat
  if b.size < stop then .error (.headerOverrun file)
  let header ← readSubrecords b file stop recordHeaderSize none {}
  let formIds ← readFormIds b file stop #[]
  return build format.layout flags header formIds.toList

end Structure

/-- Whether bytes begin with the header record of a master. -/
def isMasterFlagged (b : ByteArray) (file : String) : Except Fault Bool := do
  checkHeader b file
  let flags ← word32 b file 8
  return hasFlag flags 1

end PluginAudit.Plugin
