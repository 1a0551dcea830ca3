import PluginAudit.Text.Utf16

/-!
# Texts shown in messages

An argument that is refused is shown in quotes, with the codes of characters that do not print, line
by line if it is long, and as far as 128 units.
-/

namespace PluginAudit.Text

/-- The quote a text is shown in: the first of three that is not in it, or else the first. The third
is not used around a dollar sign with a brace after it. -/
def quoteFor (cs : List Char) : Char :=
  if '\'' ∉ cs then '\''
  else if '"' ∉ cs then '"'
  else if '\x60' ∉ cs ∧ ('$', '{') ∉ cs.zip cs.tail then '\x60'
  else '\''

/-- A hexadecimal digit in upper case. -/
def upperHexDigit (n : Nat) : Char := Char.ofNat (if n < 10 then 48 + n else 55 + n)

/-- How a character is shown between quotes. -/
def shownChar (quote c : Char) : List Char :=
  if c = quote then ['\\', c]
  else match c with
    | '\\' => ['\\', '\\']
    | '\n' => ['\\', 'n']
    | '\r' => ['\\', 'r']
    | '\t' => ['\\', 't']
    | '\x08' => ['\\', 'b']
    | '\x0c' => ['\\', 'f']
    | c =>
      if c.toNat < 32 ∨ 127 ≤ c.toNat ∧ c.toNat < 160 then
        ['\\', 'x', upperHexDigit (c.toNat / 16), upperHexDigit (c.toNat % 16)]
      else [c]

/-- A text in quotes. -/
def quotation (cs : List Char) : List Char :=
  quoteFor cs :: (cs.flatMap (shownChar (quoteFor cs)) ++ [quoteFor cs])

/-- The lines of a text, each with the line feed that ends it. -/
def linesOf : List Char → List (List Char)
  | [] => []
  | c :: cs =>
    if c = '\n' then [c] :: linesOf cs
    else match linesOf cs with
      | [] => [[c]]
      | line :: rest => (c :: line) :: rest

/-- How an argument of a call is shown in the message that refuses it. -/
def shownArgument (text : String) : String :=
  let cs := text.toList
  let lines := if 76 < (units cs).length then linesOf cs else [cs]
  let shown := [' ', '+', '\n', ' ', ' '].intercalate (lines.map quotation)
  if 128 < (units shown).length then
    String.ofList (ofUnits ((units shown).take 128)) ++ "..."
  else String.ofList shown

end PluginAudit.Text
