import PluginAudit.Text.CaseTable

/-!
# Letter case

Plugin names, file names and version words are compared in lower case, by the full mapping of
Unicode: the dotted capital `İ` becomes two characters, and a capital sigma at the end of a word
becomes the final `ς`. Patterns compare single 16-bit units by upper case instead (`foldUnit`);
there no unit outside ASCII is ever equal to one inside.
-/

namespace PluginAudit.Text

def isCased (c : Char) : Bool := inRanges casedRanges c.toNat

/-- Whether a character is passed over in looking for a cased neighbour. -/
def isCaseIgnorable (c : Char) : Bool := inRanges caseIgnorableRanges c.toNat

/-- Whether the first character that counts is cased. -/
def startsCased : List Char → Bool
  | [] => false
  | c :: cs => if isCaseIgnorable c then startsCased cs else isCased c

/-- The lower case of a character that no neighbour influences. -/
def lowerChar (c : Char) : Char :=
  if c.toNat < 0x80 then
    if 'A' ≤ c && c ≤ 'Z' then Char.ofNat (c.toNat + 32) else c
  else Char.ofNat (CaseRun.map lowerRuns c.toNat)

/-- The lower case of a text that stands after a cased character or not. -/
def lowerAfter (afterCased : Bool) : List Char → List Char
  | [] => []
  | c :: cs =>
    if c.toNat < 0x80 then
      lowerChar c :: lowerAfter (if isCaseIgnorable c then afterCased else isCased c) cs
    else
      let here :=
        if c == 'Σ' then [if afterCased && !startsCased cs then 'ς' else 'σ']
        else if c == 'İ' then ['i', '\u0307']
        else [lowerChar c]
      here ++ lowerAfter (if isCaseIgnorable c then afterCased else isCased c) cs

/-- The lower case of a text. -/
def lower (cs : List Char) : List Char := lowerAfter false cs

/-- The lower case of a string. -/
def lowerString (s : String) : String := String.ofList (lower s.toList)

/-- The upper case by which patterns compare a 16-bit unit. -/
def foldUnit (u : Nat) : Nat :=
  if u < 0x80 then if 0x61 ≤ u && u ≤ 0x7A then u - 32 else u
  else CaseRun.map upperRuns u

/-- The units that compare equal to a given one. -/
def sameFold (u : Nat) : List Nat :=
  let up := foldUnit u
  if up < 0x80 then
    if 0x41 ≤ up && up ≤ 0x5A then [up, up + 32] else [up]
  else up :: CaseRun.sources upperRuns up

end PluginAudit.Text
