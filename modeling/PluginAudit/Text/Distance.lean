/-!
# How far texts are apart

The distance of two texts is the number of characters that have to be removed, added, replaced or
exchanged with their neighbour to make one of the other, no part being changed twice. Each row of
the table belongs to a beginning of the first text and holds its distances to the beginnings of the
second.
-/

namespace PluginAudit.Text

variable {α : Type} [DecidableEq α]

/-- The last two rows of the table, and the character of the earlier one. -/
structure Rows (α : Type) where
  /-- The row before the last, and the character that the last one is about. -/
  earlier : Option (List Nat × α)
  last : List Nat

/-- The rest of a row: `left` is the entry before it, `above` the part of the row above from that
entry on, and `crossed` the part of the row above that, if the last two characters may be exchanged;
`before` is the character of the second text before the rest. -/
def rowFrom (a : α) (before : Option α) (left : Nat) (above : List Nat)
    (crossed : Option (List Nat × α)) : List α → List Nat
  | [] => []
  | b :: bs =>
    let diagonal := above.headD 0
    let up := (above.drop 1).headD 0
    let plain := min (min (up + 1) (left + 1)) (diagonal + if a = b then 0 else 1)
    let entry := match crossed, before with
      | some (row, a'), some b' => if a = b' ∧ a' = b then min plain (row.headD 0 + 1) else plain
      | _, _ => plain
    let crossed := match before with
      | none => crossed
      | some _ => crossed.map fun (row, a') => (row.drop 1, a')
    entry :: rowFrom a (some b) entry (above.drop 1) crossed bs

/-- Adds the row of one more character. -/
def nextRow (bs : List α) (r : Rows α) (a : α) : Rows α :=
  let left := r.last.headD 0 + 1
  { earlier := some (r.last, a)
    last := left :: rowFrom a none left r.last r.earlier bs }

def distance (as bs : List α) : Nat :=
  (as.foldl (nextRow bs) ⟨none, List.range (bs.length + 1)⟩).last.getLastD 0

end PluginAudit.Text
