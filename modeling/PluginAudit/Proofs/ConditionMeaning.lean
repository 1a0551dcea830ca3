import PluginAudit.Host.Memory
import PluginAudit.Proofs.AnsweredCalls

/-!
# The meaning of a condition

A `Formula` is what a condition means: truth values and calls, combined. `Formula.Spelled` puts it
into words and parentheses, as many of them as one likes beyond those that are needed;
`Formula.Writes` lays these out as a text. Whatever is in the literals of such a text, its
evaluation asks for every call and yields the truth value of the formula (`evaluate_written`).
-/

namespace PluginAudit.Condition

open Text Inspection

/-! ## Formulas -/

/-- A boolean combination of truth values and calls. -/
inductive Formula where
  | constant (value : Bool)
  | call (c : Call)
  | not (operand : Formula)
  | and (left right : Formula)
  | or (left right : Formula)

namespace Formula

/-- The truth value, given those of the calls. -/
def eval (value : Call → Bool) : Formula → Bool
  | constant b => b
  | call c => value c
  | not f => !f.eval value
  | and f g => f.eval value && g.eval value
  | or f g => f.eval value || g.eval value

/-- The calls, from left to right. -/
def calls : Formula → List Call
  | constant _ => []
  | call c => [c]
  | not f => f.calls
  | and f g => f.calls ++ g.calls
  | or f g => f.calls ++ g.calls

end Formula

/-- A word, a parenthesis or a call. -/
inductive Symbol where
  | token (t : Token)
  | call (c : Call)

namespace Symbol

/-- The token that a symbol becomes once the calls are answered. -/
def answer (value : Call → Bool) : Symbol → Token
  | token t => t
  | call c => .constant (value c)

def call? : Symbol → Option Call
  | token _ => none
  | call c => some c

end Symbol

inductive Level where
  /-- Operands of `or`, joined. -/
  | disjunction
  /-- Operands of `and`, joined. -/
  | conjunction
  | negation

/-- The part of the grammar for a level. -/
def Level.category : Level → Category
  | disjunction => .disjunction
  | conjunction => .conjunction
  | negation => .negation

namespace Formula

/-- A formula put into words; `not` binds more strongly than `and`, and `and` than `or`. -/
inductive Spelled : Level → Formula → List Symbol → Prop where
  | constant (b : Bool) : Spelled .negation (.constant b) [.token (.constant b)]
  | call (c : Call) : Spelled .negation (.call c) [.call c]
  | parenthesized {f : Formula} {ss : List Symbol} (h : Spelled .disjunction f ss) :
      Spelled .negation f (.token .opening :: (ss ++ [.token .closing]))
  | not {f : Formula} {ss : List Symbol} (h : Spelled .negation f ss) :
      Spelled .negation (.not f) (.token .not :: ss)
  | ofNegation {f : Formula} {ss : List Symbol} (h : Spelled .negation f ss) :
      Spelled .conjunction f ss
  | and {f g : Formula} {ss ts : List Symbol} (hf : Spelled .conjunction f ss)
      (hg : Spelled .conjunction g ts) : Spelled .conjunction (.and f g) (ss ++ .token .and :: ts)
  | ofConjunction {f : Formula} {ss : List Symbol} (h : Spelled .conjunction f ss) :
      Spelled .disjunction f ss
  | or {f g : Formula} {ss ts : List Symbol} (hf : Spelled .disjunction f ss)
      (hg : Spelled .disjunction g ts) : Spelled .disjunction (.or f g) (ss ++ .token .or :: ts)

end Formula

/-- The symbol that a part is, unless it is a blank. -/
def Part.symbol? {α : Type} : Part α → Option Symbol
  | blank _ => none
  | token t => some (.token t)
  | call c _ => some (.call c)

/-- A text that writes a formula: its symbols laid out in parts, the arguments of each call written
as they may be. -/
def Formula.Writes (f : Formula) (text : String) : Prop :=
  ∃ ps : List (Part Chunk), f.Spelled .disjunction (ps.filterMap Part.symbol?) ∧
    Laid true true ps ∧ (∀ x ∈ callsOf ps, x.1.Written x.2) ∧
    text.toList = Chunk.texts (chunks ps)

/-! ## Spelling and the grammar -/

theorem Derives.conjuncts_and {us vs : List Token} {b c : Bool} (hu : Derives .conjuncts us b)
    (hv : Derives .conjunction vs c) : Derives .conjuncts (us ++ .and :: vs) (b && c) := by
  generalize hcat : Category.conjuncts = category at hu
  induction hu with
  | noConjunct =>
    cases hv with
    | conjunction first more =>
      rw [Bool.true_and]
      exact .conjunct first more
  | conjunct first _ _ ih =>
    rw [List.cons_append, List.append_assoc, Bool.and_assoc]
    exact .conjunct first (ih hcat)
  | _ => cases hcat

theorem Derives.and {ts us : List Token} {a b : Bool} (ht : Derives .conjunction ts a)
    (hu : Derives .conjunction us b) : Derives .conjunction (ts ++ .and :: us) (a && b) := by
  cases ht with
  | conjunction first more =>
    rw [List.append_assoc, Bool.and_assoc]
    exact .conjunction first (more.conjuncts_and hu)

theorem Derives.disjuncts_or {us vs : List Token} {b c : Bool} (hu : Derives .disjuncts us b)
    (hv : Derives .disjunction vs c) : Derives .disjuncts (us ++ .or :: vs) (b || c) := by
  generalize hcat : Category.disjuncts = category at hu
  induction hu with
  | noDisjunct =>
    cases hv with
    | disjunction first more =>
      rw [Bool.false_or]
      exact .disjunct first more
  | disjunct first _ _ ih =>
    rw [List.cons_append, List.append_assoc, Bool.or_assoc]
    exact .disjunct first (ih hcat)
  | _ => cases hcat

theorem Derives.or {ts us : List Token} {a b : Bool} (ht : Derives .disjunction ts a)
    (hu : Derives .disjunction us b) : Derives .disjunction (ts ++ .or :: us) (a || b) := by
  cases ht with
  | disjunction first more =>
    rw [List.append_assoc, Bool.or_assoc]
    exact .disjunction first (more.disjuncts_or hu)

theorem Derives.ofNegation {ts : List Token} {a : Bool} (h : Derives .negation ts a) :
    Derives .conjunction ts a := by
  have hc := Derives.conjunction h .noConjunct
  rwa [List.append_nil, Bool.and_true] at hc

theorem Derives.ofConjunction {ts : List Token} {a : Bool} (h : Derives .conjunction ts a) :
    Derives .disjunction ts a := by
  have hd := Derives.disjunction h .noDisjunct
  rwa [List.append_nil, Bool.or_false] at hd

theorem derives_of_spelled (value : Call → Bool) {level : Level} {f : Formula}
    {ss : List Symbol} (h : f.Spelled level ss) :
    Derives level.category (ss.map (Symbol.answer value)) (f.eval value) := by
  induction h with
  | constant b => exact .plain (.constant b)
  | call c => exact .plain (.constant (value c))
  | parenthesized _ ih =>
    rw [List.map_cons, List.map_append]
    exact .plain (.parenthesized ih)
  | not _ ih => exact .not ih
  | ofNegation _ ih => exact ih.ofNegation
  | and _ _ ih ih' =>
    rw [List.map_append]
    exact .and ih ih'
  | ofConjunction _ ih => exact ih.ofConjunction
  | or _ _ ih ih' =>
    rw [List.map_append]
    exact .or ih ih'

theorem calls_of_spelled {level : Level} {f : Formula} {ss : List Symbol}
    (h : f.Spelled level ss) : ss.filterMap Symbol.call? = f.calls := by
  induction h with
  | constant b => rfl
  | call c => rfl
  | @parenthesized f ss _ ih =>
    show List.filterMap Symbol.call? (ss ++ [.token .closing]) = f.calls
    rw [List.filterMap_append, ih]
    exact List.append_nil _
  | not _ ih => exact ih
  | ofNegation _ ih => exact ih
  | @and f g ss ts _ _ ih ih' =>
    rw [List.filterMap_append, ih]
    exact congrArg (f.calls ++ ·) ih'
  | ofConjunction _ ih => exact ih
  | @or f g ss ts _ _ ih ih' =>
    rw [List.filterMap_append, ih]
    exact congrArg (f.calls ++ ·) ih'

/-! ## The text without calls -/

/-- The token that a part is. -/
def Part.token? {α : Type} : Part α → Option Token
  | token t => some t
  | _ => none

/-- After a word, and before the next blank, no word goes on. -/
theorem head_line {ps : List (Part Glyph)} {fresh : Bool} (h : Laid false fresh ps) :
    ∀ c, (line ps).head? = some c → isWordChar c = false := by
  intro c hc
  cases h with
  | done => cases hc
  | blank hb =>
    cases hc
    simp [isWordChar, hb]
  | opening =>
    cases hc
    rfl
  | closing =>
    cases hc
    rfl

theorem word_ne_nil : ∀ t ∈ Token.words, t.text.toList ≠ [] := by
  decide

/-- The tokens of a text without calls are those of its parts. -/
theorem cut_line {spaced fresh : Bool} {ps : List (Part Glyph)} (h : Laid spaced fresh ps)
    (hc : callsOf ps = []) :
    Cut (line ps) ((ps.filterMap Part.token?).map (·.text.toList)) := by
  induction h with
  | done => exact .done
  | blank hb _ ih => exact .blank hb (ih hc)
  | opening _ ih =>
    rw [line_token]
    exact .parenthesis rfl (ih hc)
  | closing _ ih =>
    rw [line_token]
    exact .parenthesis rfl (ih hc)
  | @word _ t ps ht h ih =>
    rw [line_token]
    exact .word (word_ne_nil t ht) (FunctionCall.isWordChar_of_mem_word ht) (head_line h) (ih hc)
  | call => cases hc

def withoutParentheses (cs : List Char) : List Char := cs.filter (!Token.isParenthesis ·)

theorem withoutParentheses_blank {c : Char} (hc : isBlank c = true) (cs : List Char) :
    withoutParentheses (c :: cs) = c :: withoutParentheses cs := by
  refine List.filter_cons_of_pos ?_
  by_contra h
  have hp : Token.isParenthesis c = true := by simpa using h
  rw [Token.isBlank_of_isParenthesis hp] at hc
  cases hc

theorem withoutParentheses_word {t : Token} (ht : t ∈ Token.words) (cs : List Char) :
    withoutParentheses (t.text.toList ++ cs) = t.text.toList ++ withoutParentheses cs := by
  rw [withoutParentheses, List.filter_append]
  refine congrArg (· ++ withoutParentheses cs) (List.filter_eq_self.2 fun c hc => ?_)
  have hw : isWordChar c = true := FunctionCall.isWordChar_of_mem_word ht c hc
  exact (Bool.and_eq_true_iff.1 hw).2

/-- After a word, a blank comes before anything but parentheses. -/
theorem head_withoutParentheses {spaced fresh : Bool} {ps : List (Part Glyph)}
    (h : Laid spaced fresh ps) (hs : spaced = false) :
    ∀ c, (withoutParentheses (line ps)).head? = some c → isBlank c = true := by
  induction h with
  | done => exact fun c hc => by cases hc
  | blank hb _ _ =>
    intro c hc
    rw [line_blank, withoutParentheses_blank hb] at hc
    cases hc
    exact hb
  | opening _ ih => exact ih hs
  | closing _ ih => exact ih hs
  | word => cases hs
  | call => cases hs

/-- The words of a text without calls are not pieced together around parentheses. -/
theorem words_line {spaced fresh : Bool} {ps : List (Part Glyph)} (h : Laid spaced fresh ps)
    (hc : callsOf ps = []) :
    ∀ w ∈ Text.words isBlank (withoutParentheses (line ps)),
      ∃ t ∈ Token.words, t.text.toList = w := by
  induction h with
  | done => exact fun w hw => by cases hw
  | blank hb _ ih =>
    rw [line_blank, withoutParentheses_blank hb, words_sep hb]
    exact ih hc
  | opening _ ih => exact ih hc
  | closing _ ih => exact ih hc
  | @word _ t ps ht h ih =>
    have hblank : ∀ c ∈ t.text.toList, isBlank c = false := by
      intro c hm
      have hw : isWordChar c = true := FunctionCall.isWordChar_of_mem_word ht c hm
      simpa using (Bool.and_eq_true_iff.1 hw).1
    intro w hw
    rw [line_token, withoutParentheses_word ht,
      words_append hblank (word_ne_nil t ht) (head_withoutParentheses h rfl)] at hw
    rcases List.mem_cons.1 hw with rfl | hw
    · exact ⟨t, ht, rfl⟩
    · exact ih hc w hw
  | call => cases hc

/-- A text without calls has the value of its tokens. -/
theorem evalText_line {ps : List (Part Glyph)} (h : Laid true true ps) (hc : callsOf ps = [])
    {v : Bool} (hd : Derives .disjunction (ps.filterMap Part.token?) v) :
    Expression.evalText (String.ofList (line ps)) = .ok v := by
  refine Expression.evalText_eq_ok_iff.2 ⟨fun w hw => ?_, ps.filterMap Part.token?, ?_, hd⟩
  · rw [String.toList_ofList] at hw
    obtain ⟨t, ht, rfl⟩ := words_line h hc w hw
    have hall : ∀ t ∈ Token.words, t.text ∈ ["True", "False", "and", "or", "not"] := by decide
    rw [String.ofList_toList]
    exact hall t ht
  · rw [String.toList_ofList]
    exact cut_line h hc

/-! ## From the text to the calls and back -/

theorem laid_maskParts {spaced fresh : Bool} {ps : List (Part Chunk)} (h : Laid spaced fresh ps)
    (n : Nat) : Laid spaced fresh (maskParts n ps) := by
  induction h generalizing n with
  | done => exact .done
  | blank hc _ ih => exact .blank hc (ih n)
  | opening _ ih => exact .opening (ih n)
  | closing _ ih => exact .closing (ih n)
  | word ht _ ih => exact .word ht (ih n)
  | call _ ih => exact .call (ih _)

theorem laid_answered {α : Type} (value : Call → Bool) {spaced fresh : Bool} {ps : List (Part α)}
    (h : Laid spaced fresh ps) : Laid spaced fresh (ps.map (Part.answered value)) := by
  induction h with
  | done => exact .done
  | blank hc _ ih => exact .blank hc ih
  | opening _ ih => exact .opening ih
  | closing _ ih => exact .closing ih
  | word ht _ ih => exact .word ht ih
  | @call c _ _ _ ih => exact .word (by cases value c <;> decide) ih

theorem symbols_maskParts (n : Nat) (ps : List (Part Chunk)) :
    (maskParts n ps).filterMap Part.symbol? = ps.filterMap Part.symbol? := by
  induction ps generalizing n with
  | nil => rfl
  | cons p ps ih =>
    cases p with
    | blank c => exact ih n
    | token t => exact congrArg (.token t :: ·) (ih n)
    | call c args => exact congrArg (.call c :: ·) (ih _)

theorem tokens_answered {α : Type} (value : Call → Bool) (ps : List (Part α)) :
    (ps.map (Part.answered value)).filterMap Part.token? =
      (ps.filterMap Part.symbol?).map (Symbol.answer value) := by
  induction ps with
  | nil => rfl
  | cons p ps ih =>
    cases p with
    | blank c => exact ih
    | token t => exact congrArg (t :: ·) ih
    | call c args => exact congrArg (.constant (value c) :: ·) ih

theorem callsOf_answered {α : Type} (value : Call → Bool) (ps : List (Part α)) :
    callsOf (ps.map (Part.answered value)) = [] := by
  refine List.filterMap_eq_nil_iff.2 fun p hp => ?_
  obtain ⟨q, -, rfl⟩ := List.mem_map.1 hp
  cases q <;> rfl

theorem calls_symbols {α : Type} (ps : List (Part α)) :
    (ps.filterMap Part.symbol?).filterMap Symbol.call? = (callsOf ps).map (·.1) := by
  induction ps with
  | nil => rfl
  | cons p ps ih =>
    cases p with
    | blank c => exact ih
    | token t => exact ih
    | call c args => exact congrArg (c :: ·) ih

theorem chunks_cons (p : Part Chunk) (ps : List (Part Chunk)) :
    chunks (p :: ps) = p.pieces .char ++ chunks ps := rfl

theorem isPlain_map_char {cs : List Char} (h : ∀ c ∈ cs, Literal.isQuote c = false ∧ c ≠ '{') :
    ∀ x ∈ cs.map Chunk.char, x.IsPlain := by
  intro x hx
  obtain ⟨c, hc, rfl⟩ := List.mem_map.1 hx
  exact h c hc

theorem plain_of_isBlank {c : Char} (h : isBlank c = true) :
    Literal.isQuote c = false ∧ c ≠ '{' := by
  constructor
  · by_contra hq
    rw [Bool.not_eq_false, Literal.isQuote, Bool.or_eq_true, beq_iff_eq, beq_iff_eq] at hq
    rcases hq with rfl | rfl <;> cases h
  · rintro rfl
    cases h

/-- Outside of its literals, a condition has neither quotes nor opening braces. -/
theorem isPlain_of_laid {spaced fresh : Bool} {ps : List (Part Chunk)} (h : Laid spaced fresh ps)
    (hw : ∀ x ∈ callsOf ps, x.1.Written x.2) : ∀ x ∈ chunks ps, x.IsPlain := by
  induction h with
  | done => exact fun x hx => by cases hx
  | @blank _ _ c ps hc _ ih =>
    rw [chunks_cons, List.forall_mem_append]
    have hb : ∀ c' ∈ [c], Literal.isQuote c' = false ∧ c' ≠ '{' := by
      simpa using plain_of_isBlank hc
    exact ⟨isPlain_map_char hb, ih hw⟩
  | opening _ ih =>
    rw [chunks_cons, List.forall_mem_append]
    exact ⟨isPlain_map_char (plain_of_token _), ih hw⟩
  | closing _ ih =>
    rw [chunks_cons, List.forall_mem_append]
    exact ⟨isPlain_map_char (plain_of_token _), ih hw⟩
  | @word _ t ps _ _ ih =>
    rw [chunks_cons, List.forall_mem_append]
    exact ⟨isPlain_map_char (plain_of_token t), ih hw⟩
  | @call c args ps _ ih =>
    have hargs : ∀ x ∈ args, x.IsPlain := fun x hx =>
      (Call.isArgument_of_written (hw (c, args) List.mem_cons_self) x hx).isPlain
    have hname : ∀ d ∈ c.function.name.toList, Literal.isQuote d = false ∧ d ≠ '{' := by
      intro d hd
      obtain ⟨-, -, -, hb, hq⟩ := FunctionCall.plain_of_mem_name c.function d hd
      exact ⟨hq, hb⟩
    rw [chunks_cons, List.forall_mem_append]
    refine ⟨?_, ih fun x hx => hw x (List.mem_cons_of_mem _ hx)⟩
    rw [Part.pieces, List.forall_mem_append, List.forall_mem_cons, List.forall_mem_append]
    have hopening : Chunk.IsPlain (.char '(') := plain_of_token .opening '(' List.mem_cons_self
    exact ⟨isPlain_map_char hname, hopening, hargs, isPlain_map_char (plain_of_token .closing)⟩

/-- A masked call stands for the call that was masked. -/
theorem restore_of_mem {ps : List (Part Chunk)} (hp : ∀ x ∈ chunks ps, x.IsPlain)
    (before after : List (List Char)) {x : Call × List Glyph}
    (hx : x ∈ callsOf (maskParts before.length ps)) :
    ∃ args, (x.1, args) ∈ callsOf ps ∧ (∃ n, x.2 = number n args) ∧
      Literal.restore (before ++ Chunk.literals (chunks ps) ++ after) (Glyph.texts x.2) =
        Chunk.texts args := by
  induction ps generalizing before with
  | nil => cases hx
  | cons p ps ih =>
    rw [chunks_cons, List.forall_mem_append] at hp
    have ih' := fun before => ih hp.2 before
    rw [chunks_cons, literals_append]
    cases p with
    | blank c =>
      obtain ⟨args, hm, h⟩ := ih' before hx
      exact ⟨args, hm, h⟩
    | token t =>
      obtain ⟨args, hm, h⟩ := ih' before hx
      have hl : Chunk.literals (Part.pieces .char (.token t)) = [] := literals_map_char _
      rw [hl]
      exact ⟨args, hm, h⟩
    | call c args =>
      rw [literals_call]
      rcases List.mem_cons.1 hx with rfl | hx
      · refine ⟨args, List.mem_cons_self, ⟨_, rfl⟩, ?_⟩
        have hargs : ∀ x ∈ args, x.IsPlain := fun x hx => hp.1 x (by simp [Part.pieces, hx])
        have hr := restore_number hargs before (Chunk.literals (chunks ps) ++ after)
        rwa [← List.append_assoc, List.append_assoc before] at hr
      · have hb : before.length + (Chunk.literals args).length =
            (before ++ Chunk.literals args).length := List.length_append.symm
        rw [hb] at hx
        obtain ⟨args', hm, hn, h⟩ := ih' (before ++ Chunk.literals args) hx
        rw [List.append_assoc before] at h
        exact ⟨args', List.mem_cons_of_mem _ hm, hn, h⟩

section

variable {ps : List (Part Chunk)} (h : Laid true true ps)
  (hw : ∀ x ∈ callsOf ps, x.1.Written x.2)
include h hw

/-- A masked call is read as the call that was written. -/
theorem read_of_mem {x : Call × List Glyph} (hx : x ∈ callsOf (maskParts 0 ps)) :
    Call.read x.1.function
      (Literal.restore (Chunk.literals (chunks ps)) (Glyph.texts x.2)) = .ok x.1 := by
  obtain ⟨args, hm, -, hr⟩ := restore_of_mem (isPlain_of_laid h hw) [] [] hx
  rw [List.nil_append, List.append_nil] at hr
  rw [hr]
  exact Call.read_written (hw _ hm)

theorem masks_maskParts : FunctionCall.Masks (maskParts 0 ps) := by
  intro x hx
  obtain ⟨args, hm, ⟨n, hn⟩, -⟩ := restore_of_mem (isPlain_of_laid h hw) [] [] hx
  rw [hn]
  exact masked_isArgument (Call.isArgument_of_written (hw _ hm)) n

/-- The calls of a condition can be told apart by their literals. -/
theorem distinct_maskParts : Distinct (maskParts 0 ps) := by
  have hp : ∀ x ∈ chunks ps, x.IsPlain := isPlain_of_laid h hw
  refine ⟨?_, ?_, fun x hx => ?_⟩
  · rw [← number_chunks]
    exact isPlain_of_mem_number hp 0
  · rw [← number_chunks, slots_number]
    exact List.nodup_range'
  · obtain ⟨args, hm, ⟨n, hn⟩, -⟩ := restore_of_mem hp [] [] hx
    have hl : Chunk.literals args ≠ [] := Call.literals_ne_nil_of_written (hw _ hm)
    rw [hn, slots_number]
    simpa [List.range'_eq_nil_iff] using hl

end

/-! ## Evaluation -/

section

variable {host : Host.Fixed} {dirs : Host.Directories} {context : Option Package}
  {known : Option Facts}

theorem outcome_evaluateBody (condition : String) :
    outcome host known (evaluateBody dirs context condition) =
      outcome host known (answerCalls dirs context (Literal.mask condition.toList).text
        (FunctionCall.findAll (Literal.mask condition.toList))) >>= fun text =>
          (Expression.evalText (String.ofList text)).mapError .condition := by
  have hreport (text : String) (b : Bool) :
      Composed false context (Inspection.report (.evaluated text b)) :=
    .report _ (by simp [Log.Event.level])
  have hend (text : String) (b : Bool) : Composed false context
      (Inspection.report (.evaluated text b) >>= fun _ => pure b) :=
    .bind (hreport text b) fun _ => .pure b
  unfold evaluateBody
  rw [Composed.outcome_bind (composed_answerCalls ..) fun text =>
    .bind (.ofFault _) fun b => hend (String.ofList text) b]
  refine congrArg _ (funext fun text => ?_)
  rw [Composed.outcome_bind (.ofFault _) fun b => hend (String.ofList text) b, outcome_ofFault]
  cases (Expression.evalText (String.ofList text)).mapError Failure.condition <;> rfl

variable (host dirs context known) in
/-- The body of an evaluation answers the calls that were written, in some order, and evaluates what
is left. -/
theorem outcome_evaluateBody_laid {ps : List (Part Chunk)} (hl : Laid true true ps)
    (hw : ∀ x ∈ callsOf ps, x.1.Written x.2) {text : String}
    (ht : text.toList = Chunk.texts (chunks ps)) :
    ∃ xs : List (Call × List Glyph), xs.Perm (callsOf (maskParts 0 ps)) ∧
      outcome host known (evaluateBody dirs context text) =
        outcome host known (answerCalls dirs context (line (maskParts 0 ps))
          (xs.map (FunctionCall.found (Chunk.literals (chunks ps))))) >>= fun text =>
            (Expression.evalText (String.ofList text)).mapError .condition := by
  have hmask : Literal.mask text.toList =
      ⟨line (maskParts 0 ps), Chunk.literals (chunks ps)⟩ := by
    rw [ht, mask_texts (isPlain_of_laid hl hw), number_chunks, line]
  obtain ⟨xs, hp, hfind⟩ := FunctionCall.findAll_line (masks_maskParts hl hw)
    (laid_maskParts hl 0) (Chunk.literals (chunks ps))
  refine ⟨xs, hp, ?_⟩
  rw [outcome_evaluateBody, hmask, hfind]

theorem outcome_evaluate (condition : String) :
    outcome host known (evaluate dirs context condition) =
      match outcome host known (evaluateBody dirs context condition) with
      | .ok b => .ok b
      | .error (.condition f) => .error (.condition (.inCondition condition f))
      | .error f => .error f := by
  rw [evaluate, Inspection.outcome_bind]
  show outcome host known (tryCatch _ _) = _
  rw [Inspection.outcome_tryCatch]
  cases outcome host known (evaluateBody dirs context condition) with
  | ok b => rfl
  | error f => cases f <;> rfl

theorem outcome_evaluate_of_ok {condition : String} {v : Bool}
    (h : outcome host known (evaluateBody dirs context condition) = .ok v) :
    outcome host known (evaluate dirs context condition) = .ok v := by
  rw [outcome_evaluate, h]

theorem outcome_evaluate_of_error {condition : String} {f : Failure}
    (h : outcome host known (evaluateBody dirs context condition) = .error f) :
    ∃ f, outcome host known (evaluate dirs context condition) = .error f := by
  rw [outcome_evaluate, h]
  cases f <;> exact ⟨_, rfl⟩

end

/-- If every call has a value, a condition has the value of the formula that it writes; if a call
fails, so does the condition, wherever the call stands. -/
theorem evaluate_written {f : Formula} {text : String} (h : f.Writes text) (host : Host.Fixed)
    (dirs : Host.Directories) (context : Option Package) (known : Option Facts) :
    (∀ value : Call → Bool,
      (∀ c ∈ f.calls, outcome host known (c.holds dirs context) = .ok (value c)) →
        outcome host known (evaluate dirs context text) = .ok (f.eval value)) ∧
      ((∃ c ∈ f.calls, ∃ e, outcome host known (c.holds dirs context) = .error e) →
        ∃ e, outcome host known (evaluate dirs context text) = .error e) := by
  obtain ⟨ps, hs, hl, hw, ht⟩ := h
  obtain ⟨xs, hp, hbody⟩ := outcome_evaluateBody_laid host dirs context known hl hw ht
  have hcalls : (callsOf (maskParts 0 ps)).map (·.1) = f.calls := by
    rw [← calls_symbols, symbols_maskParts, calls_of_spelled hs]
  have hread : ∀ x ∈ xs, Call.read x.1.function
      (Literal.restore (Chunk.literals (chunks ps)) (Glyph.texts x.2)) = .ok x.1 :=
    fun x hx => read_of_mem hl hw (hp.mem_iff.1 hx)
  constructor
  · intro value hv
    have hvx : ∀ x ∈ xs, outcome host known (x.1.holds dirs context) = .ok (value x.1) := by
      intro x hx
      refine hv x.1 ?_
      rw [← hcalls]
      exact List.mem_map_of_mem (hp.mem_iff.1 hx)
    have hd := derives_of_spelled value hs
    rw [← symbols_maskParts 0, ← tokens_answered] at hd
    have htext : Expression.evalText (String.ofList
        (line ((maskParts 0 ps).map (Part.answered value)))) = .ok (f.eval value) :=
      evalText_line (laid_answered value (laid_maskParts hl 0)) (callsOf_answered value _) hd
    refine outcome_evaluate_of_ok ?_
    rw [hbody, outcome_answerCalls (distinct_maskParts hl hw) hp hread hvx]
    simp only [bind, Except.bind]
    rw [htext]
    rfl
  · rintro ⟨c, hc, e, he⟩
    rw [← hcalls] at hc
    obtain ⟨x, hx, rfl⟩ := List.mem_map.1 hc
    have hm : FunctionCall.found (Chunk.literals (chunks ps)) x ∈
        xs.map (FunctionCall.found (Chunk.literals (chunks ps))) :=
      List.mem_map_of_mem (hp.mem_iff.2 hx)
    obtain ⟨e', he'⟩ := outcome_answerCalls_error (hread x (hp.mem_iff.2 hx)) he hm
      (line (maskParts 0 ps))
    refine outcome_evaluate_of_error (f := e') ?_
    rw [hbody, he']
    rfl

/-- Literals may look like anything, and no call is passed over. -/
theorem evaluate_written_sample :
    let host : Host.Memory := { active := some ["or many({0}"] }
    let f : Formula := .and (.call (.active "or many({0}")) (.not (.call (.isMaster "a.esp")))
    let text := "(active(\"or many({0}\")) and not is_master(\"a.esp\")"
    let g : Formula := .or (.constant true) (.call (.file "../../x"))
    let text' := "True or file(\"../../x\")"
    f.Writes text ∧ g.Writes text' ∧
      outcome host.answer none (evaluate host.directories none text) = .ok true ∧
      ∃ e, outcome host.answer none (evaluate host.directories none text') = .error e := by
  intro host f text g text'
  have hf : f.Writes text := by
    refine ⟨[.token .opening, .call (.active "or many({0}") (quoted "or many({0}"),
      .token .closing, .blank ' ', .token .and, .blank ' ', .token .not, .blank ' ',
      .call (.isMaster "a.esp") (quoted "a.esp")], ?_, ?_, ?_, ?_⟩
    · exact .ofConjunction (.and (.ofNegation (.parenthesized (.ofConjunction (.ofNegation
        (.call _))))) (.ofNegation (.not (.call _))))
    · exact .opening (.call (.closing (.blank rfl (.word (by decide) (.blank rfl
        (.word (by decide) (.blank rfl (.call .done))))))))
    · intro x hx
      rcases List.mem_cons.1 hx with rfl | hx
      · exact ⟨⟨by decide, by decide⟩, rfl⟩
      · rw [List.mem_singleton.1 hx]
        exact ⟨⟨by decide, by decide⟩, rfl⟩
    · decide +kernel
  have hg : g.Writes text' := by
    refine ⟨[.token (.constant true), .blank ' ', .token .or, .blank ' ',
      .call (.file "../../x") (quoted "../../x")], ?_, ?_, ?_, ?_⟩
    · exact .or (.ofConjunction (.ofNegation (.constant true)))
        (.ofConjunction (.ofNegation (.call _)))
    · exact .word (by decide) (.blank rfl (.word (by decide) (.blank rfl (.call .done))))
    · intro x hx
      rw [List.mem_singleton.1 hx]
      exact ⟨⟨by decide, by decide⟩, rfl⟩
    · decide +kernel
  have hv : ∀ c ∈ f.calls, outcome host.answer none (c.holds host.directories none) =
      .ok (decide (c = .active "or many({0}")) := by
    intro c hc
    rcases List.mem_cons.1 hc with rfl | hc
    · decide +kernel
    · rw [List.mem_singleton.1 hc]
      decide +kernel
  have he : outcome host.answer none (Call.holds host.directories none (.file "../../x")) =
      .error (.condition (.outsideGame "../../x")) := by
    decide +kernel
  refine ⟨hf, hg, (evaluate_written hf host.answer host.directories none none).1 _ hv, ?_⟩
  exact (evaluate_written hg host.answer host.directories none none).2
    ⟨_, List.mem_singleton_self _, _, he⟩

end PluginAudit.Condition
