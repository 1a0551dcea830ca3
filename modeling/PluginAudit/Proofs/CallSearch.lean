import PluginAudit.Proofs.BooleanGrammar
import PluginAudit.Proofs.WrittenCalls

/-!
# Finding the calls of a condition

A condition is laid out in parts: blanks, words and parentheses, calls. `Laid` says where a part may
stand: between two words or calls there has to be a blank, and a call has to come first or right
after a blank or an opening parenthesis.

Searching the masked text of such parts for the calls of a function finds those that are among the
parts and no others (`argumentsIn_line`): the name of one function may end with that of another, but
a call is not looked for inside a name, nor does anything in the arguments look like one.
-/

namespace PluginAudit.Condition

open Text

/-- A part of a condition; the arguments of a call are given as pieces of some kind. -/
inductive Part (α : Type) where
  | blank (c : Char)
  | token (t : Token)
  | call (c : Call) (args : List α)

/-- Parts that may follow each other. It is told from what stands before them whether there has been
a blank since the last word or call, and whether a call may stand here. -/
inductive Laid {α : Type} : Bool → Bool → List (Part α) → Prop where
  | done {spaced fresh : Bool} : Laid spaced fresh []
  | blank {spaced fresh : Bool} {c : Char} {ps : List (Part α)} (hc : isBlank c = true)
      (h : Laid true true ps) : Laid spaced fresh (.blank c :: ps)
  | opening {spaced fresh : Bool} {ps : List (Part α)} (h : Laid spaced true ps) :
      Laid spaced fresh (.token .opening :: ps)
  | closing {spaced fresh : Bool} {ps : List (Part α)} (h : Laid spaced false ps) :
      Laid spaced fresh (.token .closing :: ps)
  | word {fresh : Bool} {t : Token} {ps : List (Part α)} (ht : t ∈ Token.words)
      (h : Laid false false ps) : Laid true fresh (.token t :: ps)
  | call {c : Call} {args : List α} {ps : List (Part α)} (h : Laid false false ps) :
      Laid true true (.call c args :: ps)

namespace Part

def pieces {α : Type} (char : Char → α) : Part α → List α
  | blank c => [char c]
  | token t => t.text.toList.map char
  | call c args => c.function.name.toList.map char ++ char '(' :: (args ++ [char ')'])

def call? {α : Type} : Part α → Option (Call × List α)
  | call c args => some (c, args)
  | _ => none

end Part

/-- The calls among parts, with their arguments. -/
def callsOf {α : Type} (ps : List (Part α)) : List (Call × List α) := ps.filterMap Part.call?

def chunks (ps : List (Part Chunk)) : List Chunk := ps.flatMap (Part.pieces .char)

/-- The pieces of a masked condition. -/
def glyphs (ps : List (Part Glyph)) : List Glyph := ps.flatMap (Part.pieces .char)

/-- The text of a masked condition. -/
def line (ps : List (Part Glyph)) : List Char := Glyph.texts (glyphs ps)

/-- Parts with their literals masked, the first of them having number `next`. -/
def maskParts (next : Nat) : List (Part Chunk) → List (Part Glyph)
  | [] => []
  | .blank c :: ps => .blank c :: maskParts next ps
  | .token t :: ps => .token t :: maskParts next ps
  | .call c args :: ps =>
    .call c (number next args) :: maskParts (next + (Chunk.literals args).length) ps

/-! ## The masked text -/

theorem number_map_char (n : Nat) (cs : List Char) : number n (cs.map .char) = cs.map .char := by
  induction cs with
  | nil => rfl
  | cons c cs ih => exact congrArg (.char c :: ·) ih

theorem literals_map_char (cs : List Char) : Chunk.literals (cs.map .char) = [] := by
  induction cs with
  | nil => rfl
  | cons c cs ih => exact ih

theorem literals_call (c : Call) (args : List Chunk) :
    Chunk.literals (Part.pieces .char (.call c args)) = Chunk.literals args := by
  have hp : Part.pieces .char (.call c args) =
      c.function.name.toList.map .char ++ ([Chunk.char '('] ++ (args ++ [.char ')'])) := rfl
  rw [hp, literals_append, literals_map_char, literals_append, literals_append]
  exact List.append_nil _

/-- Numbering the pieces is masking the parts. -/
theorem number_chunks (n : Nat) (ps : List (Part Chunk)) :
    number n (chunks ps) = glyphs (maskParts n ps) := by
  induction ps generalizing n with
  | nil => rfl
  | cons p ps ih =>
    have hc : chunks (p :: ps) = p.pieces .char ++ chunks ps := rfl
    rw [hc, number_append]
    cases p with
    | blank c => exact congrArg (.char c :: ·) (ih n)
    | token t =>
      have hl : Chunk.literals (Part.pieces .char (.token t)) = [] := literals_map_char _
      rw [hl, List.length_nil, Nat.add_zero, ih]
      exact congrArg (· ++ glyphs (maskParts n ps)) (number_map_char n _)
    | call c args =>
      have hn : number n (Part.pieces .char (.call c args)) =
          Part.pieces .char (.call c (number n args)) := by
        have hp : Part.pieces .char (.call c args) =
            c.function.name.toList.map .char ++ ([Chunk.char '('] ++ (args ++ [.char ')'])) := rfl
        rw [hp, number_append, number_map_char, literals_map_char, number_append, number_append]
        rfl
      rw [literals_call, ih, hn]
      rfl

theorem line_blank (c : Char) (ps : List (Part Glyph)) : line (.blank c :: ps) = c :: line ps :=
  rfl

theorem texts_map_char (cs : List Char) : Glyph.texts (cs.map .char) = cs := by
  induction cs with
  | nil => rfl
  | cons c cs ih => exact congrArg (c :: ·) ih

theorem line_token (t : Token) (ps : List (Part Glyph)) :
    line (.token t :: ps) = t.text.toList ++ line ps := by
  have hg : glyphs (.token t :: ps) = t.text.toList.map .char ++ glyphs ps := rfl
  rw [line, hg, texts_append, texts_map_char, line]

theorem line_call (c : Call) (args : List Glyph) (ps : List (Part Glyph)) :
    line (.call c args :: ps) =
      c.function.name.toList ++ '(' :: (Glyph.texts args ++ ')' :: line ps) := by
  have hg : glyphs (.call c args :: ps) = c.function.name.toList.map .char ++
      (.char '(' :: (args ++ [.char ')'])) ++ glyphs ps := rfl
  rw [line, hg, texts_append, texts_append, texts_map_char]
  simp [Glyph.texts, Glyph.text, line]

/-! ## Looking for a function -/

namespace FunctionCall

/-- The arguments found from a place on, where a call may stand or not. -/
def scan (fresh : Bool) (name cs : List Char) : List (List Char) :=
  if fresh then argumentsIn name cs else argumentsAfter name cs

theorem argumentsAfter_cons (name : List Char) (c : Char) (cs : List Char) :
    argumentsAfter name (c :: cs) = scan (mayPrecede c) name cs := by
  rw [argumentsAfter.eq_def, scan, argumentsIn]
  simp only
  split
  · split <;> simp_all
  · rfl

theorem scan_of_here?_eq_none {name cs : List Char} (h : here? name cs = none) (fresh : Bool) :
    scan fresh name cs = argumentsAfter name cs := by
  cases fresh with
  | false => rfl
  | true => rw [scan, if_pos rfl, argumentsIn, h]

theorem scan_of_here?_eq_some {name cs args rest : List Char}
    (h : here? name cs = some (args, rest)) :
    scan true name cs = args :: argumentsAfter name rest := by
  rw [scan, if_pos rfl, argumentsIn, h]

theorem argumentsAfter_append {name w : List Char} (hw : ∀ c ∈ w, mayPrecede c = false)
    (cs : List Char) : argumentsAfter name (w ++ cs) = argumentsAfter name cs := by
  induction w with
  | nil => rfl
  | cons c w ih =>
    rw [List.cons_append, argumentsAfter_cons, hw c List.mem_cons_self]
    exact ih fun d hd => hw d (List.mem_cons_of_mem _ hd)

theorem here?_eq_none_of_not_mem {name : List Char} (hn : name ≠ []) {c : Char} (hc : c ∉ name)
    (cs : List Char) : here? name (c :: cs) = none := by
  cases name with
  | nil => exact absurd rfl hn
  | cons d name =>
    have hd : d ≠ c := fun h => hc (h ▸ List.mem_cons_self)
    simp [here?, afterStart?, hd]

/-- No call begins before a closing parenthesis that comes before every opening one. -/
theorem here?_eq_none_of_closing {name a : List Char} (hn : ')' ∉ name) (ha : '(' ∉ a)
    (cs : List Char) : here? name (a ++ ')' :: cs) = none := by
  have hs : afterStart? (name ++ ['(']) (a ++ ')' :: cs) = none := by
    refine Option.eq_none_iff_forall_ne_some.2 fun rest h => ?_
    have he := afterStart?_eq_some_iff.1 h
    have hu : '(' ∉ a ++ [')'] := by simp [ha]
    obtain ⟨b, rfl, -⟩ := eq_append_of_not_mem hu (by simpa using he)
    simp at hn
  rw [here?, hs]
  rfl

theorem scan_closing {name a : List Char} (hn : ')' ∉ name) (ha : '(' ∉ a) (fresh : Bool)
    (cs : List Char) : scan fresh name (a ++ ')' :: cs) = argumentsAfter name cs := by
  induction a generalizing fresh with
  | nil =>
    have hh : here? name ([] ++ ')' :: cs) = none := here?_eq_none_of_closing hn ha cs
    rw [scan_of_here?_eq_none hh, List.nil_append, argumentsAfter_cons]
    rfl
  | cons c a ih =>
    have ha' : '(' ∉ a := fun h => ha (List.mem_cons_of_mem _ h)
    rw [scan_of_here?_eq_none (here?_eq_none_of_closing hn ha cs), List.cons_append,
      argumentsAfter_cons, ih ha']

theorem here?_self {name a : List Char} (ha : ∀ c ∈ a, c ≠ ')' ∧ isLineEnd c = false)
    (cs : List Char) : here? name (name ++ '(' :: (a ++ ')' :: cs)) = some (a, cs) := by
  have hs : afterStart? (name ++ ['(']) (name ++ '(' :: (a ++ ')' :: cs)) =
      some (a ++ ')' :: cs) := afterStart?_eq_some_iff.2 (by simp)
  rw [here?, hs]
  exact upTo?_append ha [] cs

/-! ## Names and words -/

theorem name_ne_nil (f : Function) : f.name.toList ≠ [] := by
  cases f <;> decide

theorem plain_of_mem_name (f : Function) : ∀ c ∈ f.name.toList,
    isBlank c = false ∧ c ≠ '(' ∧ c ≠ ')' ∧ c ≠ '{' ∧ Literal.isQuote c = false :=
  List.all_iff_forall_prop.1 (by cases f <;> decide)

theorem mayPrecede_of_mem_name (f : Function) : ∀ c ∈ f.name.toList, mayPrecede c = false := by
  intro c hc
  obtain ⟨hb, ho, -⟩ := plain_of_mem_name f c hc
  rw [mayPrecede, hb, Bool.false_or]
  simpa using ho

theorem isWordChar_of_mem_word {t : Token} (ht : t ∈ Token.words) :
    ∀ c ∈ t.text.toList, isWordChar c = true := by
  have hall : ∀ t ∈ Token.words, t.text.toList.all isWordChar = true := by decide
  exact List.all_eq_true.1 (hall t ht)

theorem mayPrecede_of_isWordChar {c : Char} (h : isWordChar c = true) : mayPrecede c = false := by
  simp only [isWordChar, Token.isParenthesis, Bool.and_eq_true, Bool.not_eq_true',
    Bool.or_eq_false_iff] at h
  rw [mayPrecede, h.1, h.2.1]
  rfl

theorem brace_not_mem_name (f : Function) : '{' ∉ f.name.toList ++ ['('] := by
  intro h
  rcases List.mem_append.1 h with h | h
  · exact (plain_of_mem_name f _ h).2.2.2.1 rfl
  · exact absurd h (by decide)

/-- No function is called like a word. -/
theorem here?_word (f : Function) {t : Token} (ht : t ∈ Token.words) (cs : List Char) :
    here? f.name.toList (t.text.toList ++ cs) = none := by
  simp only [Token.words, List.mem_cons, List.not_mem_nil, or_false] at ht
  rcases ht with rfl | rfl | rfl | rfl | rfl <;> cases f <;> rfl

/-- A call of one function is not one of another, even if one name begins with the other. -/
theorem here?_other {f g : Function} (h : f ≠ g) (cs : List Char) :
    here? f.name.toList (g.name.toList ++ '(' :: cs) = none := by
  cases f <;> cases g <;> first | exact absurd rfl h | rfl

theorem scan_nil (f : Function) (fresh : Bool) : scan fresh f.name.toList [] = [] := by
  have hh : here? f.name.toList [] = none := by cases f <;> rfl
  rw [scan_of_here?_eq_none hh, argumentsAfter.eq_def]

/-- A call is found where it stands, and with it nothing else up to its end. -/
theorem scan_call (f g : Function) {args : List Char}
    (ha : ∀ d ∈ args, d ≠ '(' ∧ d ≠ ')' ∧ isLineEnd d = false) (rest : List Char) :
    scan true f.name.toList (g.name.toList ++ '(' :: (args ++ ')' :: rest)) =
      (if g = f then [args] else []) ++ argumentsAfter f.name.toList rest := by
  by_cases hf : g = f
  · rw [if_pos hf, ← hf]
    exact scan_of_here?_eq_some (here?_self (fun d hd => (ha d hd).2) _)
  · have hclosing : ')' ∉ f.name.toList := fun h => (plain_of_mem_name f _ h).2.2.1 rfl
    rw [if_neg hf, scan_of_here?_eq_none (here?_other (Ne.symm hf) _),
      argumentsAfter_append (mayPrecede_of_mem_name g), argumentsAfter_cons]
    exact scan_closing hclosing (fun h => (ha _ h).1 rfl) _ _

/-! ## The calls among parts -/

/-- The masked arguments of calls, in which nothing looks like a call. -/
def Masks (ps : List (Part Glyph)) : Prop :=
  ∀ x ∈ callsOf ps, ∀ c ∈ Glyph.texts x.2, c ≠ '(' ∧ c ≠ ')' ∧ isLineEnd c = false

theorem scan_line (f : Function) {ps : List (Part Glyph)} (hm : Masks ps) {spaced fresh : Bool}
    (h : Laid spaced fresh ps) :
    scan fresh f.name.toList (line ps) =
      ((callsOf ps).filter fun x => x.1.function = f).map fun x => Glyph.texts x.2 := by
  have hname := plain_of_mem_name f
  have hne := name_ne_nil f
  induction h with
  | done =>
    rw [line, glyphs, List.flatMap_nil, Glyph.texts, List.flatMap_nil, scan_nil]
    rfl
  | @blank _ _ c ps hc _ ih =>
    have hh : here? f.name.toList (c :: line ps) = none :=
      here?_eq_none_of_not_mem hne (fun h => by simp [(hname c h).1] at hc) _
    have hp : mayPrecede c = true := by rw [mayPrecede, hc, Bool.true_or]
    rw [line_blank, scan_of_here?_eq_none hh, argumentsAfter_cons, hp]
    exact ih hm
  | @opening _ _ ps _ ih =>
    have hh : here? f.name.toList ('(' :: line ps) = none :=
      here?_eq_none_of_not_mem hne (fun h => (hname _ h).2.1 rfl) _
    rw [line_token]
    show scan _ _ ('(' :: line ps) = _
    rw [scan_of_here?_eq_none hh, argumentsAfter_cons]
    exact ih hm
  | @closing _ _ ps _ ih =>
    rw [line_token]
    show scan _ _ ([] ++ ')' :: line ps) = _
    rw [scan_closing (fun h => (hname _ h).2.2.1 rfl) List.not_mem_nil]
    exact ih hm
  | @word _ t ps ht _ ih =>
    have hw : ∀ c ∈ t.text.toList, mayPrecede c = false := fun c hc =>
      mayPrecede_of_isWordChar (isWordChar_of_mem_word ht c hc)
    rw [line_token, scan_of_here?_eq_none (here?_word f ht _), argumentsAfter_append hw]
    exact ih hm
  | @call c args ps _ ih =>
    have ha : ∀ d ∈ Glyph.texts args, d ≠ '(' ∧ d ≠ ')' ∧ isLineEnd d = false :=
      hm (c, args) List.mem_cons_self
    have hm' : Masks ps := fun x hx => hm x (List.mem_cons_of_mem _ hx)
    have hc : callsOf (.call c args :: ps) = (c, args) :: callsOf ps := rfl
    have ih' : argumentsAfter f.name.toList (line ps) = _ := ih hm'
    rw [line_call, hc, scan_call f c.function ha, ih']
    by_cases hf : c.function = f
    · rw [if_pos hf, List.filter_cons_of_pos (by simpa using hf)]
      rfl
    · rw [if_neg hf, List.filter_cons_of_neg (by simpa using hf)]
      rfl

/-- Searching for a function finds its calls, from left to right. -/
theorem argumentsIn_line (f : Function) {ps : List (Part Glyph)} (hm : Masks ps) {spaced : Bool}
    (h : Laid spaced true ps) :
    argumentsIn f.name.toList (line ps) =
      ((callsOf ps).filter fun x => x.1.function = f).map fun x => Glyph.texts x.2 :=
  scan_line f hm h

/-! ## All calls -/

/-- A call with its arguments as they are found. -/
def ofMasked (literals : List (List Char)) (f : Function) (args : List Char) : FunctionCall :=
  ⟨f, Literal.restore literals args, f.name.toList ++ '(' :: args ++ [')']⟩

/-- A call as it is found. -/
def found (literals : List (List Char)) (x : Call × List Glyph) : FunctionCall :=
  ofMasked literals x.1.function (Glyph.texts x.2)

/-- A list taken apart by keys is the same up to order. -/
theorem flatMap_filter_perm {α κ : Type} [DecidableEq κ] (key : α → κ) {ks : List κ}
    (hk : ks.Nodup) (xs : List α) (hx : ∀ x ∈ xs, key x ∈ ks) :
    (ks.flatMap fun k => xs.filter fun x => key x = k).Perm xs := by
  induction ks generalizing xs with
  | nil =>
    cases xs with
    | nil => exact .nil
    | cons x xs => exact absurd (hx x List.mem_cons_self) List.not_mem_nil
  | cons k ks ih =>
    obtain ⟨hnot, hk⟩ := List.nodup_cons.1 hk
    -- the other keys see only what is left without this one
    have hrest : (ks.flatMap fun l => xs.filter fun x => key x = l) =
        ks.flatMap fun l => (xs.filter fun x => !decide (key x = k)).filter fun x => key x = l := by
      refine List.flatMap_congr fun l hl => ?_
      rw [List.filter_filter]
      refine List.filter_congr fun x _ => ?_
      have hkl : l ≠ k := fun h => hnot (h ▸ hl)
      by_cases h : key x = l
      · simp [h, hkl]
      · simp [h]
    have hleft : ∀ x ∈ xs.filter (fun x => !decide (key x = k)), key x ∈ ks := by
      intro x h
      obtain ⟨hm, hne⟩ := List.mem_filter.1 h
      exact (List.mem_cons.1 (hx x hm)).resolve_left (by simpa using hne)
    rw [List.flatMap_cons, hrest]
    exact (List.Perm.append_left _ (ih hk _ hleft)).trans (List.filter_append_perm _ xs)

/-- All calls of a masked condition are found, each once, though not from left to right. -/
theorem findAll_perm {β : Type} {m : Masked} {function : β → Function} {args : β → List Char}
    {ys : List β} (h : ∀ f : Function, argumentsIn f.name.toList m.text =
      (ys.filter fun y => function y = f).map args) :
    ∃ xs : List β, xs.Perm ys ∧
      findAll m = xs.map fun y => ofMasked m.literals (function y) (args y) := by
  have hmem : ∀ y ∈ ys, function y ∈ Function.all := fun y _ => by
    cases function y <;> decide
  have hnodup : Function.all.Nodup := by decide
  refine ⟨_, flatMap_filter_perm function hnodup ys hmem, ?_⟩
  rw [findAll, List.map_flatMap]
  refine List.flatMap_congr fun f _ => ?_
  rw [find, h f, List.map_map]
  refine List.map_congr_left fun y hy => ?_
  have hf : function y = f := by simpa using (List.mem_filter.1 hy).2
  rw [Function.comp_apply, ofMasked, hf]

theorem findAll_line {ps : List (Part Glyph)} (hm : Masks ps) {spaced : Bool}
    (h : Laid spaced true ps) (literals : List (List Char)) :
    ∃ xs : List (Call × List Glyph), xs.Perm (callsOf ps) ∧
      findAll ⟨line ps, literals⟩ = xs.map (found literals) := by
  have hfind : ∀ f : Function, argumentsIn f.name.toList (Masked.mk (line ps) literals).text =
      ((callsOf ps).filter fun x => x.1.function = f).map fun x => Glyph.texts x.2 :=
    fun f => argumentsIn_line f hm h
  exact findAll_perm hfind

end FunctionCall

end PluginAudit.Condition
