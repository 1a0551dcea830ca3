import PluginAudit.Text.Search

/-!
# Quoted literals

Before the calls of a condition are looked for, every quoted literal is taken out and the text
`{n}` left in its place, `n` being its number in the condition. `mask` does that and `restore` puts
the literals back; neither quotes nor braces outside a complete literal or placeholder mean
anything.
-/

namespace PluginAudit.Condition

open Text

/-- A condition without its literals, and the literals with their quotes. -/
structure Masked where
  /-- The text with a placeholder for each literal. -/
  text : List Char
  literals : List (List Char)
  deriving Repr, DecidableEq, Inhabited

namespace Literal

/-- Whether a character opens and closes literals. -/
def isQuote (c : Char) : Bool := c == '"' || c == '\''

/-- What stands before the next `quote` and what after it, if there is one. -/
def closing? (quote : Char) : List Char → Option (List Char × List Char)
  | [] => none
  | c :: cs =>
    if c = quote then some ([], cs) else (closing? quote cs).map fun (i, r) => (c :: i, r)

/-- What follows the closing quote is shorter than the text. -/
theorem length_lt_of_closing? {quote : Char} {cs inside rest : List Char}
    (h : closing? quote cs = some (inside, rest)) : rest.length < cs.length := by
  induction cs generalizing inside rest with
  | nil => simp [closing?] at h
  | cons c cs ih =>
    by_cases hc : c = quote
    · simp only [closing?, hc, if_true, Option.some.injEq, Prod.mk.injEq] at h
      simp [← h.2]
    · simp only [closing?, hc, if_false, Option.map_eq_some_iff] at h
      obtain ⟨⟨i, r⟩, hr, he⟩ := h
      cases he
      exact Nat.lt_succ_of_lt (ih hr)

/-- The decimal digits of a number. -/
def numeral (n : Nat) : List Char := (toString n).toList

/-- What is written for the literal of a given number. -/
def placeholder (n : Nat) : List Char := '{' :: numeral n ++ ['}']

/-- Takes the literals out of a text, the first of them having number `next`. -/
def maskFrom (next : Nat) : List Char → Masked
  | [] => ⟨[], []⟩
  | c :: cs =>
    if isQuote c then
      match h : closing? c cs with
      | some (inside, rest) =>
        have := length_lt_of_closing? h
        let m := maskFrom (next + 1) rest
        ⟨placeholder next ++ m.text, (c :: inside ++ [c]) :: m.literals⟩
      | none =>
        let m := maskFrom next cs
        ⟨c :: m.text, m.literals⟩
    else
      let m := maskFrom next cs
      ⟨c :: m.text, m.literals⟩
  termination_by cs => cs.length

/-- Takes the literals out of a condition. -/
def mask (condition : List Char) : Masked := maskFrom 0 condition

/-- Puts literals back for their placeholders. -/
def restore (literals : List (List Char)) (cs : List Char) : List Char := fill literals cs

end Literal

end PluginAudit.Condition
