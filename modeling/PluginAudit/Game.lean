import PluginAudit.Plugin.Structure
import PluginAudit.Text.Case

/-!
# Games

The games whose plugins can be checked, each with the format of its plugins if they have structural
checks at all.
-/

namespace PluginAudit

structure Game where
  id : String
  name : String
  /-- The format of its plugins; none for games without structural checks. -/
  format? : Option Plugin.Format
  deriving Repr, DecidableEq, Inhabited

namespace Game

def all : List Game := [
  ⟨"morrowind", "Morrowind", none⟩,
  ⟨"oblivion", "Oblivion", none⟩,
  ⟨"nehrim", "Nehrim", none⟩,
  ⟨"skyrim", "Skyrim", none⟩,
  ⟨"enderal", "Enderal", none⟩,
  ⟨"skyrimse", "Skyrim Special Edition", some .skyrimSE⟩,
  ⟨"skyrimvr", "Skyrim VR", some .skyrimSE⟩,
  ⟨"enderalse", "Enderal Special Edition", some .skyrimSE⟩,
  ⟨"fallout3", "Fallout 3", none⟩,
  ⟨"falloutnv", "New Vegas", none⟩,
  ⟨"fallout4", "Fallout 4", some .fallout4⟩,
  ⟨"fallout4vr", "Fallout 4 VR", some .fallout4⟩,
  ⟨"starfield", "Starfield", some .starfield⟩]

/-- The game that is checked unless another is chosen. -/
def defaultId : String := "skyrimse"

/-- The game of an identifier as written. -/
def ofId? (id : String) : Option Game := all.find? (·.id = id)

/-- The game of an identifier in any case. -/
def find? (id : String) : Option Game := ofId? (Text.lowerString id)

end Game

end PluginAudit
