import PluginAudit.Condition.Fault
import PluginAudit.Text.Blank

/-!
# Boolean expressions

What is left of a condition once every call is replaced by its answer: the words `True`, `False`,
`not`, `and`, `or` and parentheses. `Token.read` cuts the text, `Expression.read` builds the tree
by the grammar

    disjunction := conjunction ("or" conjunction)*
    conjunction := negation ("and" negation)*
    negation    := "not" negation | operand
    operand     := "True" | "False" | "(" disjunction ")"

and `Expression.eval` is its truth value. Reading looks at the words twice: first with all
parentheses taken away, which is how a foreign word is found, then with the parentheses as tokens.
-/

namespace PluginAudit.Condition

open Text

/-- A token of a boolean expression. -/
inductive Token where
  | constant (value : Bool)
  /-- The word `not`. -/
  | not
  /-- The word `and`. -/
  | and
  /-- The word `or`. -/
  | or
  | opening
  | closing
  deriving Repr, DecidableEq, Inhabited

namespace Token

def text : Token → String
  | constant true => "True"
  | constant false => "False"
  | not => "not"
  | and => "and"
  | or => "or"
  | opening => "("
  | closing => ")"

/-- The words an expression may contain. -/
def words : List Token := [constant true, constant false, and, or, not]

/-- The token of a word, if it is one an expression may contain. -/
def ofWord? (word : List Char) : Option Token := words.find? (·.text.toList = word)

/-- Whether a character is a parenthesis. -/
def isParenthesis (c : Char) : Bool := c == '(' || c == ')'

/-- The first foreign word of a text whose parentheses are left out, so that a word may be pieced
together around them. -/
def foreignWord? (cs : List Char) : Option (List Char) :=
  (Text.words isBlank (cs.filter (!isParenthesis ·))).find? (ofWord? · |>.isNone)

/-- The pieces of a text: parentheses, and the longest runs of other characters that are not
blank. -/
def pieces : List Char → List (List Char)
  | [] => []
  | c :: cs =>
    if isBlank c then pieces cs
    else if isParenthesis c then [c] :: pieces cs
    else match cs with
      | [] => [[c]]
      | d :: _ =>
        if isBlank d || isParenthesis d then [c] :: pieces cs
        else match pieces cs with
          | [] => [[c]]
          | p :: ps => (c :: p) :: ps

def ofPiece? : List Char → Option Token
  | ['('] => some opening
  | [')'] => some closing
  | word => ofWord? word

/-- The tokens of a text, or the first piece that is none. -/
def read (cs : List Char) : Except Fault (List Token) :=
  (pieces cs).mapM fun p =>
    match ofPiece? p with
    | some t => .ok t
    | none => .error (.invalidToken (String.ofList p))

end Token

inductive Expression where
  | constant (value : Bool)
  | not (operand : Expression)
  | and (left right : Expression)
  | or (left right : Expression)
  deriving Repr, DecidableEq, Inhabited

namespace Expression

/-- The truth value of an expression. -/
def eval : Expression → Bool
  | constant b => b
  | not e => !e.eval
  | and l r => l.eval && r.eval
  | or l r => l.eval || r.eval

/-- Why a token list is no expression. -/
inductive Defect where
  /-- This token may not stand here. -/
  | unexpected (token : Token)
  | unclosed
  /-- An operand is missing at the end. -/
  | ended
  deriving Repr, DecidableEq, Inhabited

/-- An expression read from the front of a token list, with the tokens after it. -/
abbrev Reading (tokens : List Token) :=
  Except Defect (Expression × { rest : List Token // rest.length < tokens.length })

mutual

/-- Reads conjunctions joined by `or`. -/
def readDisjunction (ts : List Token) : Reading ts :=
  match readConjunction ts with
  | .error d => .error d
  | .ok (l, ⟨rest, h⟩) =>
    match readDisjuncts l rest with
    | .error d => .error d
    | .ok (e, ⟨rest', h'⟩) => .ok (e, ⟨rest', Nat.lt_of_le_of_lt h' h⟩)
  termination_by (ts.length, 3)

/-- Reads the further conjunctions of a disjunction that begins with `left`. -/
def readDisjuncts (left : Expression) (ts : List Token) :
    Except Defect (Expression × { rest : List Token // rest.length ≤ ts.length }) :=
  match ts with
  | .or :: ts' =>
    match readConjunction ts' with
    | .error d => .error d
    | .ok (r, ⟨rest, h⟩) =>
      match readDisjuncts (.or left r) rest with
      | .error d => .error d
      | .ok (e, ⟨rest', h'⟩) => .ok (e, ⟨rest', by simp only [List.length_cons]; omega⟩)
  | ts => .ok (left, ⟨ts, Nat.le_refl _⟩)
  termination_by (ts.length, 3)

/-- Reads negations joined by `and`. -/
def readConjunction (ts : List Token) : Reading ts :=
  match readNegation ts with
  | .error d => .error d
  | .ok (l, ⟨rest, h⟩) =>
    match readConjuncts l rest with
    | .error d => .error d
    | .ok (e, ⟨rest', h'⟩) => .ok (e, ⟨rest', Nat.lt_of_le_of_lt h' h⟩)
  termination_by (ts.length, 2)

/-- Reads the further negations of a conjunction that begins with `left`. -/
def readConjuncts (left : Expression) (ts : List Token) :
    Except Defect (Expression × { rest : List Token // rest.length ≤ ts.length }) :=
  match ts with
  | .and :: ts' =>
    match readNegation ts' with
    | .error d => .error d
    | .ok (r, ⟨rest, h⟩) =>
      match readConjuncts (.and left r) rest with
      | .error d => .error d
      | .ok (e, ⟨rest', h'⟩) => .ok (e, ⟨rest', by simp only [List.length_cons]; omega⟩)
  | ts => .ok (left, ⟨ts, Nat.le_refl _⟩)
  termination_by (ts.length, 2)

/-- Reads an operand after any number of `not`. -/
def readNegation (ts : List Token) : Reading ts :=
  match ts with
  | .not :: ts' =>
    match readNegation ts' with
    | .error d => .error d
    | .ok (e, ⟨rest, h⟩) => .ok (.not e, ⟨rest, by simp only [List.length_cons]; omega⟩)
  | .constant b :: ts' => .ok (.constant b, ⟨ts', by simp⟩)
  | .opening :: ts' =>
    match readDisjunction ts' with
    | .error d => .error d
    | .ok (e, ⟨.closing :: rest, h⟩) =>
      .ok (e, ⟨rest, by simp only [List.length_cons] at h ⊢; omega⟩)
    | .ok _ => .error .unclosed
  | [] => .error .ended
  | t :: _ => .error (.unexpected t)
  termination_by (ts.length, 1)

end

/-- The expression that a token list as a whole writes. -/
def ofTokens (ts : List Token) : Except Defect Expression :=
  match readDisjunction ts with
  | .error d => .error d
  | .ok (e, ⟨[], _⟩) => .ok e
  | .ok (_, ⟨t :: _, _⟩) => .error (.unexpected t)

/-- The fault that a defect is in a given source text. -/
def Defect.fault (source : String) : Defect → Fault
  | unexpected t => .unexpectedToken source t.text
  | unclosed => .missingParenthesis source
  | ended => .unexpectedEnd source

/-- Refuses a text with a foreign word, whatever its shape. -/
def checkWords (source : String) : Except Fault Unit :=
  match Token.foreignWord? source.toList with
  | some w => .error (.invalidToken (String.ofList w))
  | none => .ok ()

/-- The expression that a text writes. -/
def read (source : String) : Except Fault Expression := do
  checkWords source
  let ts ← Token.read source.toList
  match ofTokens ts with
  | .ok e => .ok e
  | .error d => .error (d.fault source)

/-- The truth value of the expression that a text writes. -/
def evalText (source : String) : Except Fault Bool := eval <$> read source

end Expression

end PluginAudit.Condition
