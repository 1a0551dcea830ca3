import PluginAudit.Proofs.QuotedArguments

/-!
# The pieces of a condition

A condition whose calls all have results is made of pieces: the calls that are found in it, each
with its answer, and the spans between them (`exists_found`). Evaluating it is evaluating the text
in which the word of its answer stands for each call (`outcome_evaluateBody_found`).

The same pieces are found with something before or after them, as long as no name of a function with
an opening parenthesis is left once the calls are answered (`found_of_placed`): a call that was not
found because it does not end might end there.
-/

namespace PluginAudit.Condition

open Text Literal Argument Inspection FunctionCall Piece

/-! ## What is between the parentheses of a call -/

namespace Span

/-- A character that cutting and restoring leave alone, or a literal that ends at its last quote. -/
def IsPlain : Span → Prop
  | char c => isQuote c = false ∧ c ≠ '{'
  | literal q content => isQuote q = true ∧ q ∉ content

/-- What may stand between the parentheses of a call that is read. -/
def IsArgument : Span → Prop
  | char c => isQuote c = false ∧ c ≠ '{' ∧ c ≠ '(' ∧ c ≠ ')' ∧ isLineEnd c = false
  | literal q content => isQuote q = true ∧ q ∉ content

theorem IsArgument.isPlain {x : Span} (h : x.IsArgument) : x.IsPlain := by
  cases x with
  | char c => exact ⟨h.1, h.2.1⟩
  | literal q content => exact h

/-- Spans that are cut nowhere else are what their text is cut into. -/
theorem cut_texts {xs : List Span} (h : ∀ x ∈ xs, x.IsPlain) : cut (texts xs) = xs := by
  induction xs with
  | nil => exact cut_nil
  | cons x xs ih =>
    have hx := h x List.mem_cons_self
    have ih' := ih fun y hy => h y (List.mem_cons_of_mem _ hy)
    cases x with
    | char c =>
      have ht : texts (char c :: xs) = c :: texts xs := rfl
      rw [ht, cut_char fun hq => absurd hq (by simp [hx.1]), ih']
    | literal q content =>
      have ht : texts (literal q content :: xs) = q :: (content ++ q :: texts xs) := by
        simp [texts, text]
      rw [ht, cut_literal hx.1 hx.2, ih']

theorem texts_map_char (cs : List Char) : texts (cs.map char) = cs := by
  induction cs with
  | nil => rfl
  | cons c cs ih => exact congrArg (c :: ·) ih

theorem mem_texts {c : Char} {xs : List Span} (h : char c ∈ xs) : c ∈ texts xs :=
  List.mem_flatMap.2 ⟨char c, h, List.mem_singleton_self c⟩

theorem Lexed.part {xs ys : List Span} (h : xs <:+: ys) (hy : Lexed ys) : Lexed xs := by
  obtain ⟨before, after, rfl⟩ := h
  exact hy.left.right

theorem Lexed.literal {xs : List Span} (h : Lexed xs) {q : Char} {content : List Char}
    (hm : literal q content ∈ xs) : isQuote q = true ∧ q ∉ content := by
  obtain ⟨ys, zs, rfl⟩ := List.append_of_mem hm
  exact h.right.1

end Span

/-- A character of a text is in one of its parts, unless it is a comma between them. -/
theorem mem_splitAfter {cs : List Char} {c : Char} (h : c ∈ cs) (quoted : Bool) :
    c = ',' ∨ ∃ p ∈ splitAfter quoted cs, c ∈ p := by
  induction cs generalizing quoted with
  | nil => cases h
  | cons d cs ih =>
    cases hs : splitAfter quoted (d :: cs) with
    | nil => exact absurd hs (splitAfter_ne_nil _ _)
    | cons p ps =>
      rcases splitAfter_cons_cases hs with ⟨rfl, rfl, rfl⟩ | ⟨p', rfl, hs'⟩
      · rcases List.mem_cons.1 h with rfl | h
        · exact .inl rfl
        · obtain hc | ⟨p, hp, hc⟩ := ih h false
          · exact .inl hc
          · exact .inr ⟨p, List.mem_cons_of_mem _ hp, hc⟩
      · rcases List.mem_cons.1 h with rfl | h
        · exact .inr ⟨_, List.mem_cons_self, List.mem_cons_self⟩
        · obtain hc | ⟨p, hp, hc⟩ := ih h (if d = '"' then !quoted else quoted)
          · exact .inl hc
          · rw [hs'] at hp
            rcases List.mem_cons.1 hp with rfl | hp
            · exact .inr ⟨_, List.mem_cons_self, List.mem_cons_of_mem _ hc⟩
            · exact .inr ⟨p, List.mem_cons_of_mem _ hp, hc⟩

/-- Outside of its literals, a text that is read as arguments has blanks, commas and characters that
checksums and comparators are written with. -/
theorem char_of_split {ss : List String} {as bs : List (List Char)}
    (hr : List.Forall₂ (fun s a => readString a = .ok s) ss as)
    (hb : ∀ b ∈ bs, ∀ c ∈ b, isBareChar c = true) {xs : List Span} (hx : Span.Lexed xs)
    (hs : split (Span.texts xs) = as ++ bs) {c : Char} (hc : .char c ∈ xs) :
    isBlank c = true ∨ c = ',' ∨ isBareChar c = true := by
  induction hr generalizing xs with
  | nil =>
    obtain hcomma | ⟨p, hp, hcp⟩ := mem_splitAfter (Span.mem_texts hc) false
    · exact .inr (.inl hcomma)
    · have hpart : trim p ∈ bs := by
        rw [List.nil_append, split] at hs
        rw [← hs]
        exact List.mem_map_of_mem hp
      obtain hblank | htrim := mem_trim hcp
      · exact .inl hblank
      · exact .inr (.inr (hb _ hpart c htrim))
  | cons ha has ih =>
    have hquotes {s : String} {place : List Span} (h : Quotes s place) (hc : .char c ∈ place) :
        isBlank c = true := by
      obtain ⟨q, l, r, hblank, rfl⟩ := h
      have hm : c ∈ l ++ r := by simpa using hc
      exact hblank c hm
    obtain ⟨place, hplace, ⟨rfl, -⟩ | ⟨zs, rfl, hps⟩⟩ := quotes_of_split_cons ha hx hs
    · exact .inl (hquotes hplace hc)
    · rcases List.mem_append.1 hc with hc | hc
      · exact .inl (hquotes hplace hc)
      · rcases List.mem_cons.1 hc with he | hc
        · cases he
          exact .inr (.inl rfl)
        · exact ih hx.right.2 hps.symm hc

section

variable {f : Function} {xs : List Span} {call : Call} (hx : Span.Lexed xs)
  (h : Call.read f (Span.texts xs) = .ok call)
include hx h

theorem isArgument_of_read (hxs : ∀ c, .char c ∈ xs → c ≠ ')' ∧ isLineEnd c = false) :
    ∀ x ∈ xs, x.IsArgument := by
  intro x hm
  cases x with
  | char c =>
    obtain ⟨-, as, bs, hs, has, hbs⟩ := strings_of_read h
    obtain ⟨hclosing, hline⟩ := hxs c hm
    rcases char_of_split has hbs hx hs hm with hb | rfl | hb
    · obtain ⟨hq, ho⟩ := plain_of_isBlank hb
      have hp : c ≠ '(' := fun hp => absurd hb (by rw [hp]; decide)
      exact ⟨hq, ho, hp, hclosing, hline⟩
    · exact ⟨rfl, by decide, by decide, hclosing, hline⟩
    · obtain ⟨-, -, ho, hq, hp, -⟩ := meaning_of_isBareChar hb
      exact ⟨hq, ho, hp, hclosing, hline⟩
  | literal q content => exact hx.literal hm

/-- Every call that is read has a literal. -/
theorem literals_ne_nil_of_read : Span.literals xs ≠ [] := by
  obtain ⟨-, as, bs, hs, has, -⟩ := strings_of_read h
  have hlit {s : String} {place : List Span} (hq : Quotes s place) (rest : List Span) :
      Span.literals (place ++ rest) ≠ [] := by
    obtain ⟨q, l, r, -, rfl⟩ := hq
    simp [Span.literals, Span.literal?]
  have hne : call.strings ≠ [] := by cases call <;> exact List.cons_ne_nil _ _
  obtain ⟨s, ss, hss⟩ := List.exists_cons_of_ne_nil hne
  rw [hss] at has
  cases has with
  | cons ha has =>
    obtain ⟨place, hplace, ⟨rfl, -⟩ | ⟨zs, rfl, -⟩⟩ := quotes_of_split_cons ha hx hs
    · simpa using hlit hplace []
    · exact hlit hplace _

end

/-! ## Masking -/

namespace Span

/-- Spans with their literals masked, the first of them having number `next`. -/
def glyphs (next : Nat) : List Span → List Glyph
  | [] => []
  | char c :: xs => .char c :: glyphs next xs
  | literal _ _ :: xs => .slot next :: glyphs (next + 1) xs

/-- Whether a placeholder is written outside of literals. -/
def WritesPlaceholder (xs : List Span) : Prop :=
  ∃ ds, ds ≠ [] ∧ (∀ d ∈ ds, isDigit d = true) ∧ ('{' :: ds ++ ['}']).map char <:+: xs

theorem WritesPlaceholder.mono {xs ys : List Span} (h : xs <:+: ys) (hw : WritesPlaceholder xs) :
    WritesPlaceholder ys := by
  obtain ⟨ds, hne, hdigit, hd⟩ := hw
  exact ⟨ds, hne, hdigit, hd.trans h⟩

theorem not_writesPlaceholder {xs : List Span} (h : char '{' ∉ xs) : ¬ WritesPlaceholder xs := by
  rintro ⟨ds, -, -, hd⟩
  exact h (hd.subset List.mem_cons_self)

theorem writesPlaceholder_of_forges {count : Nat} {xs : List Span} (h : Forges count xs) :
    WritesPlaceholder xs := by
  obtain ⟨ys, ds, zs, rfl, hne, hdigit, -⟩ := h
  exact ⟨ds, hne, hdigit, ⟨ys, zs, rfl⟩⟩

theorem texts_glyphs (n : Nat) (xs : List Span) : Glyph.texts (glyphs n xs) = masked n xs := by
  induction xs generalizing n with
  | nil => rfl
  | cons x xs ih =>
    cases x with
    | char c => exact congrArg (c :: ·) (ih n)
    | literal q content => exact congrArg (placeholder n ++ ·) (ih (n + 1))

theorem slots_glyphs (n : Nat) (xs : List Span) :
    Glyph.slots (glyphs n xs) = List.range' n (literals xs).length := by
  induction xs generalizing n with
  | nil => rfl
  | cons x xs ih =>
    cases x with
    | char c => exact ih n
    | literal q content => exact congrArg (n :: ·) (ih (n + 1))

theorem glyphs_append (n : Nat) (xs ys : List Span) :
    glyphs n (xs ++ ys) = glyphs n xs ++ glyphs (n + (literals xs).length) ys := by
  induction xs generalizing n with
  | nil => rfl
  | cons x xs ih =>
    cases x with
    | char c => exact congrArg (.char c :: ·) (ih n)
    | literal q content =>
      rw [length_literals_cons]
      exact congrArg (.slot n :: ·) (ih (n + 1))

theorem glyphs_map_char (n : Nat) (cs : List Char) : glyphs n (cs.map char) = cs.map .char := by
  induction cs with
  | nil => rfl
  | cons c cs ih => exact congrArg (.char c :: ·) ih

/-- Characters that stand in a masked text stand in the text itself. -/
theorem infix_of_glyphs {w : List Char} {n : Nat} {xs : List Span}
    (h : w.map .char <:+: glyphs n xs) : w.map char <:+: xs := by
  have hstart {w : List Char} {n : Nat} {xs : List Span} (h : w.map .char <+: glyphs n xs) :
      w.map char <+: xs := by
    induction w generalizing xs with
    | nil => exact List.nil_prefix
    | cons c w ih =>
      obtain ⟨gs, hg⟩ := h
      cases xs with
      | nil => cases hg
      | cons x xs =>
        cases x with
        | char d =>
          obtain ⟨hd, ht⟩ := List.cons.inj hg
          cases hd
          exact List.cons_prefix_cons.2 ⟨rfl, ih ⟨gs, ht⟩⟩
        | literal q content => cases (List.cons.inj hg).1
  induction xs generalizing n with
  | nil =>
    have hw : w = [] := by simpa [glyphs] using h
    rw [hw]
    exact List.nil_infix
  | cons x xs ih =>
    have hcons {m : Nat} (h' : w.map .char <:+: glyphs m xs) : w.map char <:+: x :: xs :=
      (ih h').trans (List.suffix_cons x xs).isInfix
    cases x with
    | char c =>
      rcases List.infix_cons_iff.1 h with h' | h'
      · exact (hstart (n := n) h').isInfix
      · exact hcons h'
    | literal q content =>
      rcases List.infix_cons_iff.1 h with h' | h'
      · exact (hstart (n := n) h').isInfix
      · exact hcons h'

theorem not_forged_glyphs {xs : List Span} (h : ¬ WritesPlaceholder xs) (n : Nat) :
    ¬ Glyph.Forged (glyphs n xs) := by
  rintro ⟨ds, hne, hdigit, hd⟩
  exact h ⟨ds, hne, hdigit, infix_of_glyphs hd⟩

/-- Once they are masked, arguments contain neither parentheses nor line ends. -/
theorem masked_arguments {xs : List Span} (h : ∀ x ∈ xs, x.IsArgument) (n : Nat) :
    ∀ c ∈ masked n xs, c ≠ '(' ∧ c ≠ ')' ∧ isLineEnd c = false := by
  induction xs generalizing n with
  | nil => exact fun c hc => by cases hc
  | cons x xs ih =>
    have ih' := fun n => ih (fun y hy => h y (List.mem_cons_of_mem _ hy)) n
    have hx := h x List.mem_cons_self
    intro c hc
    cases x with
    | char d =>
      rcases List.mem_cons.1 hc with rfl | hc
      · exact hx.2.2
      · exact ih' n c hc
    | literal q content =>
      rcases List.mem_append.1 hc with hc | hc
      · exact (meaning_of_mem_placeholder hc).2
      · exact ih' (n + 1) c hc

/-- Whether a call may stand right after a span. -/
def opens : Span → Bool
  | char c => mayPrecede c
  | literal _ _ => false

end Span

namespace Piece

/-- Pieces with their literals masked, the first of them having number `next`. -/
def masked (next : Nat) : List (Piece Span) → List (Piece Glyph)
  | [] => []
  | single (.char c) :: ps => single (.char c) :: masked next ps
  | single (.literal _ _) :: ps => single (.slot next) :: masked (next + 1) ps
  | call c :: ps =>
    call ⟨c.function, Span.glyphs next c.args, c.answer⟩ ::
      masked (next + (Span.literals c.args).length) ps

/-- The spans that pieces are made of. -/
def spans (ps : List (Piece Span)) : List Span := ps.flatMap (parts .char)

theorem spans_append (ps qs : List (Piece Span)) : spans (ps ++ qs) = spans ps ++ spans qs :=
  List.flatMap_append

theorem spans_cons (p : Piece Span) (ps : List (Piece Span)) :
    spans (p :: ps) = p.parts .char ++ spans ps := rfl

theorem literals_call (c : Asked Span) :
    Span.literals (parts .char (call c)) = Span.literals c.args := by
  have hp : parts .char (call c) =
      c.function.name.toList.map .char ++ ([Span.char '('] ++ (c.args ++ [.char ')'])) := rfl
  rw [hp, Span.literals_append, Span.literals_map_char, Span.literals_append,
    Span.literals_append]
  exact List.append_nil _

/-- Masking the pieces is masking what they are made of. -/
theorem parts_masked (n : Nat) (ps : List (Piece Span)) :
    (masked n ps).flatMap (parts .char) = Span.glyphs n (spans ps) := by
  induction ps generalizing n with
  | nil => rfl
  | cons p ps ih =>
    cases p with
    | single x =>
      cases x with
      | char c => exact congrArg (.char c :: ·) (ih n)
      | literal q content => exact congrArg (.slot n :: ·) (ih (n + 1))
    | call c =>
      have hg : Span.glyphs n (parts .char (call c)) =
          parts .char (call ⟨c.function, Span.glyphs n c.args, c.answer⟩) := by
        have hp : parts .char (call c) = c.function.name.toList.map .char ++
            ([Span.char '('] ++ (c.args ++ [.char ')'])) := rfl
        rw [hp, Span.glyphs_append, Span.glyphs_map_char, Span.literals_map_char,
          Span.glyphs_append, Span.glyphs_append]
        rfl
      rw [spans_cons, Span.glyphs_append, literals_call, hg, ← ih]
      rfl

/-- A masked call stands for the call that was masked. -/
theorem restore_of_mem_asked {ps : List (Piece Span)} (h : ¬ Span.WritesPlaceholder (spans ps))
    (before after : List (List Char)) {c : Asked Glyph}
    (hc : c ∈ asked (masked before.length ps)) :
    ∃ d ∈ asked ps, ∃ k, c = ⟨d.function, Span.glyphs k d.args, d.answer⟩ ∧
      restore (before ++ Span.literals (spans ps) ++ after) (Span.masked k d.args) =
        Span.texts d.args := by
  induction ps generalizing before with
  | nil => cases hc
  | cons p ps ih =>
    have hps : ¬ Span.WritesPlaceholder (spans ps) := fun hw =>
      h (hw.mono (List.suffix_append (p.parts .char) _).isInfix)
    have ih' := fun before => ih hps before
    rw [spans_cons, Span.literals_append]
    cases p with
    | single x =>
      cases x with
      | char a =>
        obtain ⟨d, hd, k, hk⟩ := ih' before hc
        exact ⟨d, hd, k, hk⟩
      | literal q content =>
        have hb : before.length + 1 = (before ++ [q :: content ++ [q]]).length := by simp
        have hc' : c ∈ asked (masked (before.length + 1) ps) := hc
        rw [hb] at hc'
        obtain ⟨d, hd, k, hk, hr⟩ := ih' (before ++ [q :: content ++ [q]]) hc'
        refine ⟨d, hd, k, hk, ?_⟩
        rwa [List.append_assoc before] at hr
    | call d =>
      rw [literals_call]
      rcases List.mem_cons.1 hc with rfl | hc
      · refine ⟨d, List.mem_cons_self, before.length, rfl, ?_⟩
        have hargs : d.args <:+: spans (call d :: ps) := by
          refine ⟨d.function.name.toList.map .char ++ [.char '('], .char ')' :: spans ps, ?_⟩
          simp [spans_cons, parts]
        have hf := @Span.fill_masked d.args before (Span.literals (spans ps) ++ after)
          fun hf => h ((Span.writesPlaceholder_of_forges hf).mono hargs)
        rwa [← List.append_assoc, List.append_assoc before] at hf
      · have hb : before.length + (Span.literals d.args).length =
            (before ++ Span.literals d.args).length := List.length_append.symm
        rw [hb] at hc
        obtain ⟨e, he, k, hk, hr⟩ := ih' (before ++ Span.literals d.args) hc
        refine ⟨e, List.mem_cons_of_mem _ he, k, hk, ?_⟩
        rwa [List.append_assoc before] at hr

end Piece

/-! ## Where calls stand -/

/-- Pieces that may follow each other. It is told from what stands before them whether a call may
stand here. -/
inductive Placed : Bool → List (Piece Span) → Prop where
  | done {fresh : Bool} : Placed fresh []
  | single {fresh : Bool} {x : Span} {ps : List (Piece Span)} (h : Placed x.opens ps) :
      Placed fresh (.single x :: ps)
  | call {c : Asked Span} {ps : List (Piece Span)} (h : Placed false ps) :
      Placed true (.call c :: ps)

theorem Placed.append {fresh : Bool} {ps qs : List (Piece Span)} (h : Placed fresh ps)
    (hq : ∀ fresh, Placed fresh qs) : Placed fresh (ps ++ qs) := by
  induction h with
  | done => exact hq _
  | single _ ih => exact .single ih
  | call _ ih => exact .call ih

theorem placed_ofChars (cs : List Char) (fresh : Bool) : Placed fresh (ofChars .char cs) := by
  induction cs generalizing fresh with
  | nil => exact .done
  | cons c cs ih => exact .single (ih _)

/-- The arguments of the calls of one function. -/
def argumentsOf (f : Function) (cs : List (Asked Glyph)) : List (List Char) :=
  (cs.filter fun c => c.function = f).map fun c => Glyph.texts c.args

theorem argumentsOf_cons (f : Function) (c : Asked Glyph) (cs : List (Asked Glyph)) :
    argumentsOf f (c :: cs) =
      (if c.function = f then [Glyph.texts c.args] else []) ++ argumentsOf f cs := by
  by_cases hf : c.function = f
  · rw [if_pos hf, argumentsOf, List.filter_cons_of_pos (by simpa using hf)]
    rfl
  · rw [if_neg hf, argumentsOf, List.filter_cons_of_neg (by simpa using hf)]
    rfl

/-- A span at which no call begins is passed over. -/
theorem scan_span {name : List Char} {fresh : Bool} {n : Nat} {x : Span} {xs : List Span}
    (h : fresh = true → here? name (Span.masked n (x :: xs)) = none) :
    scan fresh name (Span.masked n (x :: xs)) =
      scan x.opens name (Span.masked (n + (Span.literals [x]).length) xs) := by
  have ha : scan fresh name (Span.masked n (x :: xs)) =
      argumentsAfter name (Span.masked n (x :: xs)) := by
    cases fresh with
    | false => rfl
    | true => exact scan_of_here?_eq_none (h rfl) true
  rw [ha]
  cases x with
  | char c => exact argumentsAfter_cons name c _
  | literal q content =>
    refine argumentsAfter_append (fun c hc => ?_) _
    obtain ⟨hb, hp, -⟩ := meaning_of_mem_placeholder hc
    rw [mayPrecede, hb, Bool.false_or]
    simpa using hp

theorem masked_call (n : Nat) (c : Asked Span) (xs : List Span) :
    Span.masked n (parts .char (.call c) ++ xs) = c.function.name.toList ++
      '(' :: (Span.masked n c.args ++
        ')' :: Span.masked (n + (Span.literals c.args).length) xs) := by
  have hp : parts .char (.call c) ++ xs = c.function.name.toList.map .char ++
      ([Span.char '('] ++ (c.args ++ ([.char ')'] ++ xs))) := by
    simp [parts]
  rw [hp, Span.masked_append, Span.masked_map_char, Span.literals_map_char, Span.masked_append,
    Span.masked_append, Span.masked_append]
  rfl

/-- A call that stands where it may is found. -/
theorem scan_spans_call (f : Function) {c : Asked Span} (hc : ∀ x ∈ c.args, x.IsArgument) (n : Nat)
    (xs : List Span) :
    scan true f.name.toList (Span.masked n (parts .char (.call c) ++ xs)) =
      (if c.function = f then [Span.masked n c.args] else []) ++
        scan false f.name.toList (Span.masked (n + (Span.literals c.args).length) xs) := by
  rw [masked_call]
  exact scan_call f c.function (Span.masked_arguments hc n) _

/-- What pieces are once their calls are answered. -/
def answeredText (ps : List (Piece Span)) : List Char := Span.texts (ps.flatMap (answered .char))

theorem answeredText_cons (p : Piece Span) (ps : List (Piece Span)) :
    answeredText (p :: ps) = Span.texts (p.answered .char) ++ answeredText ps :=
  Span.texts_append _ _

theorem answeredText_append (ps qs : List (Piece Span)) :
    answeredText (ps ++ qs) = answeredText ps ++ answeredText qs := by
  rw [answeredText, List.flatMap_append, Span.texts_append]
  rfl

/-- A name with its parenthesis is left as it is where no call is. -/
theorem name_prefix_answeredText {w : List Char} (hw : ∀ c ∈ w, mayPrecede c = false)
    {ps : List (Piece Span)} (h : Placed false ps) {xs : List Span}
    (hs : spans ps = (w ++ ['(']).map .char ++ xs) : w ++ ['('] <+: answeredText ps := by
  induction w generalizing ps with
  | nil =>
    cases h with
    | done => cases hs
    | single h =>
      obtain ⟨rfl, -⟩ := List.cons.inj hs
      exact List.cons_prefix_cons.2 ⟨rfl, List.nil_prefix⟩
  | cons c w ih =>
    cases h with
    | done => cases hs
    | @single _ _ ps h =>
      obtain ⟨rfl, ht⟩ := List.cons.inj hs
      have hfalse : Span.opens (.char c) = false := hw c List.mem_cons_self
      rw [hfalse] at h
      have hrest : w ++ ['('] <+: answeredText ps :=
        ih (fun d hd => hw d (List.mem_cons_of_mem _ hd)) h ht
      exact List.cons_prefix_cons.2 ⟨rfl, hrest⟩

/-! ## Finding the calls among pieces -/

section

variable (host : Host.Fixed) (dirs : Host.Directories) (context : Option Package)
  (known : Option Facts)

/-- A call that is read from what is between its parentheses and has the answer that it is given. -/
structure Asked.Sound (c : Asked Span) : Prop where
  arguments : ∀ x ∈ c.args, x.IsArgument
  literals : Span.literals c.args ≠ []
  answered : ∃ call, Call.read c.function (Span.texts c.args) = .ok call ∧
    outcome host known (call.holds dirs context) = .ok c.answer

/-- Pieces whose calls, and no others, are found in their masked text, the first literal of which
has number `n`. -/
structure Found (fresh : Bool) (n : Nat) (ps : List (Piece Span)) : Prop where
  placed : Placed fresh ps
  sound : ∀ c ∈ asked ps, c.Sound host dirs context known
  scan : ∀ f : Function, scan fresh f.name.toList (Span.masked n (spans ps)) =
    argumentsOf f (asked (masked n ps))

end

section

variable {host : Host.Fixed} {dirs : Host.Directories} {context : Option Package}
  {known : Option Facts}

theorem Found.nil (fresh : Bool) (n : Nat) : Found host dirs context known fresh n [] where
  placed := .done
  sound _ hc := by cases hc
  scan f := scan_nil f fresh

theorem Found.call {n : Nat} {c : Asked Span} {ps : List (Piece Span)}
    (hc : c.Sound host dirs context known)
    (h : Found host dirs context known false (n + (Span.literals c.args).length) ps) :
    Found host dirs context known true n (.call c :: ps) where
  placed := .call h.placed
  sound := List.forall_mem_cons.2 ⟨hc, h.sound⟩
  scan f := by
    have hm : asked (masked n (.call c :: ps)) =
        ⟨c.function, Span.glyphs n c.args, c.answer⟩ ::
          asked (masked (n + (Span.literals c.args).length) ps) := rfl
    rw [spans_cons, scan_spans_call f hc.arguments, h.scan f, hm, argumentsOf_cons,
      Span.texts_glyphs]

theorem Found.single {fresh : Bool} {n : Nat} {x : Span} {ps : List (Piece Span)}
    (hx : fresh = true → ∀ f : Function,
      here? f.name.toList (Span.masked n (x :: spans ps)) = none)
    (h : Found host dirs context known x.opens (n + (Span.literals [x]).length) ps) :
    Found host dirs context known fresh n (.single x :: ps) where
  placed := .single h.placed
  sound := h.sound
  scan f := by
    refine (scan_span fun hf => hx hf f).trans ((h.scan f).trans ?_)
    cases x <;> rfl

/-- The calls among pieces are found, and no others, if no name of a function is left with a
parenthesis. -/
theorem found_of_placed {fresh : Bool} {ps : List (Piece Span)} (h : Placed fresh ps)
    (hc : ∀ c ∈ asked ps, c.Sound host dirs context known)
    (hf : ∀ f : Function, ¬ f.name.toList ++ ['('] <:+: answeredText ps) (n : Nat) :
    Found host dirs context known fresh n ps := by
  induction h generalizing n with
  | done => exact .nil _ n
  | @single fresh x ps h ih =>
    have hrest : ∀ f : Function, ¬ f.name.toList ++ ['('] <:+: answeredText ps := fun f hi =>
      hf f (hi.trans (List.suffix_append x.text (answeredText ps)).isInfix)
    refine .single (fun _ f => Option.eq_none_iff_forall_ne_some.2 fun r hr => hf f ?_)
      (ih hc hrest _)
    obtain ⟨hm, -⟩ := eq_of_here? hr
    obtain ⟨xs, hxs, -⟩ := Span.eq_of_masked_eq_append (brace_not_mem_name f)
      (b := r.1 ++ ')' :: r.2) (by simpa using hm)
    exact (name_prefix_answeredText (mayPrecede_of_mem_name f) (.single h) hxs).isInfix
  | @call c ps _ ih =>
    rw [answeredText_cons] at hf
    have hrest : ∀ f : Function, ¬ f.name.toList ++ ['('] <:+: answeredText ps := fun f hi =>
      hf f (hi.trans (List.suffix_append _ _).isInfix)
    have hrest' := ih (fun d hd => hc d (List.mem_cons_of_mem _ hd)) hrest
    exact .call (hc c List.mem_cons_self) (hrest' _)

/-! ## Taking a condition apart -/

/-- Where a call begins in a masked text, it begins in the text itself. -/
theorem spans_of_here? {f : Function} {n : Nat} {xs : List Span} {args rest : List Char}
    (h : here? f.name.toList (Span.masked n xs) = some (args, rest)) :
    ∃ inside tail, Span.masked n inside = args ∧
      (∀ c, .char c ∈ inside → c ≠ ')' ∧ isLineEnd c = false) ∧
      ∀ v, xs = parts .char (.call ⟨f, inside, v⟩) ++ tail := by
  obtain ⟨hm, hargs⟩ := eq_of_here? h
  obtain ⟨zs, rfl, hz⟩ := Span.eq_of_masked_eq_append (brace_not_mem_name f)
    (b := args ++ ')' :: rest) (by simpa using hm)
  obtain ⟨inside, tail, rfl, hi, -⟩ :=
    Span.eq_of_masked_eq_middle (not_mem_placeholder rfl (by decide) (by decide)) hz
  exact ⟨inside, tail, hi, fun c hc => hargs c (hi ▸ Span.mem_masked hc n), by simp [parts]⟩

/-- A call that has a result has it as its answer. -/
theorem sound_of_result {f : Function} {inside : List Span} {v : Bool} (hx : Span.Lexed inside)
    (hu : ¬ Span.WritesPlaceholder inside)
    (hc : ∀ c, .char c ∈ inside → c ≠ ')' ∧ isLineEnd c = false) (before after : List (List Char))
    (hv : (ofMasked (before ++ Span.literals inside ++ after) f
      (Span.masked before.length inside)).result host known dirs context = .ok v) :
    Asked.Sound host dirs context known ⟨f, inside, v⟩ := by
  obtain ⟨call, hread, hholds⟩ := read_of_result hv
  have hfill := Span.fill_masked before after fun hf => hu (Span.writesPlaceholder_of_forges hf)
  have hcall : Call.read f (Span.texts inside) = .ok call := by
    rw [← hfill]
    exact hread
  exact ⟨isArgument_of_read hx hcall hc, literals_ne_nil_of_read hx hcall, call, hcall, hholds⟩

/-- A text whose calls all have results is made of pieces: these calls, and single spans. -/
theorem exists_found {literals : List (List Char)} {xs : List Span} (hx : Span.Lexed xs)
    (hu : ¬ Span.WritesPlaceholder xs) (before after : List (List Char))
    (hl : literals = before ++ Span.literals xs ++ after) (fresh : Bool)
    (hr : ∀ f : Function, ∀ args ∈ scan fresh f.name.toList (Span.masked before.length xs),
      ∃ v, (ofMasked literals f args).result host known dirs context = .ok v) :
    ∃ ps, spans ps = xs ∧ Found host dirs context known fresh before.length ps := by
  -- on the length of what is left, since a call takes many spans at once
  induction hn : xs.length using Nat.strongRecOn generalizing xs before fresh with
  | ind k ih =>
    subst hn
    by_cases hcall : fresh = true ∧ ∃ (f : Function) (args rest : List Char),
        here? f.name.toList (Span.masked before.length xs) = some (args, rest)
    · obtain ⟨rfl, f, args, rest, hh⟩ := hcall
      obtain ⟨v, hv⟩ := hr f args (by rw [scan_of_here?_eq_some hh]; exact List.mem_cons_self)
      obtain ⟨inside, tail, rfl, hclose, hparts⟩ := spans_of_here? hh
      obtain rfl := hparts v
      have hinside : inside <:+: parts .char (.call ⟨f, inside, v⟩) ++ tail :=
        ⟨(f.name.toList ++ ['(']).map .char, .char ')' :: tail, by simp [parts]⟩
      have htail : tail <:+: parts .char (.call ⟨f, inside, v⟩) ++ tail :=
        (List.suffix_append _ tail).isInfix
      rw [Span.literals_append, Piece.literals_call] at hl
      have hsound : Asked.Sound host dirs context known ⟨f, inside, v⟩ :=
        sound_of_result (hx.part hinside) (fun hw => hu (hw.mono hinside)) hclose before
          (Span.literals tail ++ after) (by simpa [hl] using hv)
      have hlt : tail.length < (parts .char (.call ⟨f, inside, v⟩) ++ tail).length := by
        simp only [parts, List.length_append, List.length_cons]
        omega
      obtain ⟨ps, hps, hfound⟩ := ih _ hlt (hx.part htail) (fun hw => hu (hw.mono htail))
        (before ++ Span.literals inside) (by simpa using hl) false (fun g args hg => hr g args (by
          rw [scan_spans_call g hsound.arguments]
          rw [List.length_append] at hg
          exact List.mem_append_right _ hg)) rfl
      rw [List.length_append] at hfound
      exact ⟨.call ⟨f, inside, v⟩ :: ps, by rw [spans_cons, hps], .call hsound hfound⟩
    · cases xs with
      | nil => exact ⟨[], rfl, .nil fresh _⟩
      | cons x xs =>
        have hhere : fresh = true → ∀ f : Function,
            here? f.name.toList (Span.masked before.length (x :: xs)) = none := fun hfresh f =>
          Option.eq_none_iff_forall_ne_some.2 fun r hr => hcall ⟨hfresh, f, r.1, r.2, hr⟩
        have htail : xs <:+: x :: xs := (List.suffix_cons x xs).isInfix
        have hl' : literals = before ++ Span.literals [x] ++ Span.literals xs ++ after := by
          have hcons : Span.literals (x :: xs) = Span.literals [x] ++ Span.literals xs :=
            Span.literals_append [x] xs
          rw [hl, hcons, ← List.append_assoc before]
        obtain ⟨ps, rfl, hfound⟩ := ih _ (Nat.lt_succ_self _) (hx.part htail)
          (fun hw => hu (hw.mono htail)) (before ++ Span.literals [x]) hl' x.opens
          (fun g args hg => hr g args (by
            rw [scan_span fun hf => hhere hf g]
            rwa [List.length_append] at hg)) rfl
        rw [List.length_append] at hfound
        exact ⟨.single x :: ps, rfl, .single hhere hfound⟩

/-! ## Evaluating -/

theorem Found.apart {fresh : Bool} {ps : List (Piece Span)}
    (h : Found host dirs context known fresh 0 ps) (hu : ¬ Span.WritesPlaceholder (spans ps)) :
    Apart (masked 0 ps) := by
  constructor
  · rw [parts_masked]
    exact Span.not_forged_glyphs hu 0
  · rw [parts_masked, Span.slots_glyphs]
    exact List.nodup_range'
  · intro c hc
    obtain ⟨d, hd, k, rfl, -⟩ := restore_of_mem_asked hu [] [] hc
    have hl : Span.literals d.args ≠ [] := (h.sound d hd).literals
    rw [Span.slots_glyphs]
    simpa [List.range'_eq_nil_iff] using hl

theorem Found.result {fresh : Bool} {ps : List (Piece Span)}
    (h : Found host dirs context known fresh 0 ps) (hu : ¬ Span.WritesPlaceholder (spans ps))
    {c : Asked Glyph} (hc : c ∈ asked (masked 0 ps)) :
    (c.found (Span.literals (spans ps))).result host known dirs context = .ok c.answer := by
  obtain ⟨d, hd, k, rfl, hr⟩ := restore_of_mem_asked hu [] [] hc
  obtain ⟨call, hread, hholds⟩ := (h.sound d hd).answered
  rw [List.nil_append, List.append_nil] at hr
  have hcall : Call.read d.function
      (restore (Span.literals (spans ps)) (Glyph.texts (Span.glyphs k d.args))) = .ok call := by
    rw [Span.texts_glyphs, hr, hread]
  exact (FunctionCall.result_of_read hcall).trans hholds

/-- Evaluating a condition is answering the calls among its pieces, and evaluating what they
become. -/
theorem outcome_evaluateBody_found {text : String} {ps : List (Piece Span)}
    (hcut : Span.cut text.toList = spans ps) (hu : ¬ Span.WritesPlaceholder (spans ps))
    (h : Found host dirs context known true 0 ps) :
    outcome host known (evaluateBody dirs context text) =
      (Expression.evalText (String.ofList
        (Glyph.texts ((masked 0 ps).flatMap (answered .char))))).mapError .condition := by
  have hmask : mask text.toList = ⟨Span.masked 0 (spans ps), Span.literals (spans ps)⟩ := by
    rw [mask, Span.maskFrom_eq, hcut]
  have hscan : ∀ f : Function, argumentsIn f.name.toList
      (Masked.mk (Span.masked 0 (spans ps)) (Span.literals (spans ps))).text =
        ((asked (masked 0 ps)).filter fun c => c.function = f).map fun c => Glyph.texts c.args :=
    h.scan
  obtain ⟨cs, hp, hfind⟩ := findAll_perm hscan
  have hanswered := outcome_answerCalls_asked (h.apart hu) hp
    fun c hc => h.result hu (hp.mem_iff.1 hc)
  rw [parts_masked, Span.texts_glyphs] at hanswered
  rw [outcome_evaluateBody, hmask, hfind]
  show outcome host known (answerCalls dirs context _ (cs.map (Asked.found _))) >>= _ = _
  rw [hanswered]
  rfl

end

end PluginAudit.Condition
