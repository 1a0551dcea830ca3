/-!
# CRC-32

The checksum by which metadata names the state of a file: the cyclic redundancy check with the
reflected polynomial `0xEDB88320`, its register starting and ending inverted. `table` holds what
eight single-bit steps do to a byte, so that `step` takes a whole byte at once.
-/

namespace PluginAudit.Crc32

def polynomial : UInt32 := 0xEDB88320

/-- One step of the register by one bit. -/
def bitStep (c : UInt32) : UInt32 :=
  if c &&& 1 = 1 then polynomial ^^^ (c >>> 1) else c >>> 1

/-- A number of steps by one bit. -/
def bitSteps : Nat → UInt32 → UInt32
  | 0, c => c
  | n + 1, c => bitSteps n (bitStep c)

/-- What eight steps make of each byte. -/
def table : Array UInt32 := Array.ofFn fun i : Fin 256 => bitSteps 8 i.val.toUInt32

/-- The table has an entry for each byte. -/
theorem toNat_lt_size_table (i : UInt8) : i.toNat < table.size := by
  simpa [table] using i.toNat_lt

/-- What eight steps make of a byte. -/
def eightSteps (i : UInt8) : UInt32 :=
  have : i.toNat < table.size := toNat_lt_size_table i
  table[i.toNat]

/-- The register after one more byte. -/
def step (c : UInt32) (byte : UInt8) : UInt32 := eightSteps (c.toUInt8 ^^^ byte) ^^^ (c >>> 8)

/-- The register after the bytes from an offset on. -/
def run (b : ByteArray) (i : Nat) (c : UInt32) : UInt32 :=
  if h : i < b.size then run b (i + 1) (step c b[i]) else c
  termination_by b.size - i

def checksum (content : ByteArray) : UInt32 := run content 0 0xFFFFFFFF ^^^ 0xFFFFFFFF

/-- The register takes in the bytes one after the other. -/
theorem run_eq_foldl (b : ByteArray) (i : Nat) (c : UInt32) :
    run b i c = (b.data.toList.drop i).foldl step c := by
  fun_induction run b i c with
  | case1 i c h ih =>
    have hd : i < b.data.toList.length := by simpa using h
    rw [ih, List.drop_eq_getElem_cons hd]
    rfl
  | case2 i c h =>
    rw [List.drop_eq_nil_of_le (by simpa using Nat.le_of_not_lt h)]
    rfl

/-- The checksum of a content is a fold over its bytes. -/
theorem checksum_eq_foldl (content : ByteArray) :
    checksum content = content.data.toList.foldl step 0xFFFFFFFF ^^^ 0xFFFFFFFF := by
  rw [checksum, run_eq_foldl, List.drop_zero]

/-- The checksum of nothing is zero. -/
theorem checksum_of_size {content : ByteArray} (h : content.size = 0) : checksum content = 0 := by
  have hempty : content = ByteArray.empty := ByteArray.size_eq_zero_iff.1 h
  rw [hempty]
  decide +kernel

end PluginAudit.Crc32
