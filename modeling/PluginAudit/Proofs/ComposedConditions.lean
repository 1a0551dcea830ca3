import PluginAudit.Proofs.ConditionPieces

/-!
# Conditions put together

A condition with a value is made of pieces, and what the pieces become once the calls are answered
spells an expression of that value (`outlined_of_evaluate`, `evaluate_of_outlined`). Such texts can
be put in parentheses and joined with blanks and words, whatever is in their literals: no quote, no
call and no placeholder reaches from one of them into the next. So the value of two conditions
joined by `and` or `or`, and of one after `not`, is that of the expression (`evaluate_composed`).
-/

namespace PluginAudit.Condition

open Text Literal Inspection FunctionCall Piece

/-! ## Texts that spell tokens -/

/-- A text whose words and parentheses are given tokens. -/
structure Spells (cs : List Char) (ts : List Token) : Prop where
  /-- With the parentheses deleted, each word is one of the five. -/
  words : ∀ w ∈ Text.words isBlank (withoutParentheses cs),
    String.ofList w ∈ ["True", "False", "and", "or", "not"]
  cut : Cut cs (ts.map (·.text.toList))

theorem writes_iff {s : String} {v : Bool} :
    Expression.Writes s v ↔ ∃ ts, Spells s.toList ts ∧ Derives .disjunction ts v := by
  constructor
  · rintro ⟨hw, ts, hc, hd⟩
    exact ⟨ts, ⟨hw, hc⟩, hd⟩
  · rintro ⟨ts, ⟨hw, hc⟩, hd⟩
    exact ⟨hw, ts, hc, hd⟩

/-- Texts are cut one after the other, unless a word goes on from one into the next. -/
theorem Cut.append {cs ds : List Char} {ps qs : List (List Char)} (h : Cut cs ps) (h' : Cut ds qs)
    (hd : ∀ c, ds.head? = some c → isWordChar c = false) : Cut (cs ++ ds) (ps ++ qs) := by
  induction h with
  | done => exact h'
  | blank hc _ ih => exact .blank hc ih
  | parenthesis hc _ ih => exact .parenthesis hc ih
  | @word w rest ps hw hc hr _ ih =>
    rw [List.append_assoc]
    refine .word hw hc (fun c hh => ?_) ih
    cases rest with
    | nil => exact hd c hh
    | cons d rest => exact hr c hh

theorem isWordChar_of_isBlank {c : Char} (h : isBlank c = true) : isWordChar c = false := by
  rw [isWordChar, h]
  rfl

theorem isWordChar_of_isParenthesis {c : Char} (h : Token.isParenthesis c = true) :
    isWordChar c = false := by
  rw [isWordChar, h, Bool.not_true, Bool.and_false]

theorem Cut.mem {cs : List Char} {ps : List (List Char)} (h : Cut cs ps) {c : Char} (hc : c ∈ cs) :
    isBlank c = true ∨ ∃ p ∈ ps, c ∈ p := by
  induction h with
  | done => cases hc
  | blank hb _ ih =>
    rcases List.mem_cons.1 hc with rfl | hc
    · exact .inl hb
    · exact ih hc
  | parenthesis _ _ ih =>
    rcases List.mem_cons.1 hc with rfl | hc
    · exact .inr ⟨_, List.mem_cons_self, List.mem_cons_self⟩
    · exact (ih hc).imp_right fun ⟨p, hp, hm⟩ => ⟨p, List.mem_cons_of_mem _ hp, hm⟩
  | word _ _ _ _ ih =>
    rcases List.mem_append.1 hc with hc | hc
    · exact .inr ⟨_, List.mem_cons_self, hc⟩
    · exact (ih hc).imp_right fun ⟨p, hp, hm⟩ => ⟨p, List.mem_cons_of_mem _ hp, hm⟩

/-- A word before an opening parenthesis ends one of the pieces. -/
theorem Cut.ends {cs u w v : List Char} {ps : List (List Char)} (h : Cut cs ps) (hw : w ≠ [])
    (hc : ∀ c ∈ w, isWordChar c = true) (he : cs = u ++ (w ++ '(' :: v)) : ∃ p ∈ ps, w <:+ p := by
  obtain ⟨d, w', rfl⟩ := List.exists_cons_of_ne_nil hw
  have hd : isWordChar d = true := hc d List.mem_cons_self
  induction h generalizing u with
  | done => simp at he
  | @blank c cs ps hb _ ih =>
    cases u with
    | nil =>
      cases (List.cons.inj he).1
      rw [isWordChar_of_isBlank hb] at hd
      cases hd
    | cons e u => exact ih (List.cons.inj he).2
  | @parenthesis c cs ps hp _ ih =>
    cases u with
    | nil =>
      cases (List.cons.inj he).1
      rw [isWordChar_of_isParenthesis hp] at hd
      cases hd
    | cons e u =>
      obtain ⟨p, hm, hs⟩ := ih (List.cons.inj he).2
      exact ⟨p, List.mem_cons_of_mem _ hm, hs⟩
  | @word x rest ps _ hx hr _ ih =>
    rcases List.append_eq_append_iff.1 he with ⟨z, rfl, hz⟩ | ⟨z, rfl, hz⟩
    · obtain ⟨p, hm, hs⟩ := ih hz
      exact ⟨p, List.mem_cons_of_mem _ hm, hs⟩
    · -- the run ends where the word does, for the parenthesis is no part of it
      have hparenthesis : '(' ∉ z := fun hm => by
        have hword := hx '(' (List.mem_append_right _ hm)
        cases hword
      obtain ⟨a, ha, hrest⟩ := eq_append_of_not_mem hparenthesis hz.symm
      cases a with
      | nil =>
        rw [List.append_nil] at ha
        exact ⟨_, List.mem_cons_self, ha ▸ List.suffix_append u z⟩
      | cons e a =>
        have hword : isWordChar e = true := hc e (by rw [ha]; simp)
        rw [hr e (by rw [hrest]; rfl)] at hword
        cases hword

namespace Spells

variable {cs ds : List Char} {ts us : List Token}

theorem blank {c : Char} (hc : isBlank c = true) (h : Spells cs ts) : Spells (c :: cs) ts where
  words := by
    rw [withoutParentheses_blank hc, words_sep hc]
    exact h.words
  cut := .blank hc h.cut

/-- Texts with a blank between them spell the tokens of both. -/
theorem spaced {c : Char} (hc : isBlank c = true) (h : Spells cs ts) (h' : Spells ds us) :
    Spells (cs ++ c :: ds) (ts ++ us) where
  words w hw := by
    have hf : withoutParentheses (cs ++ c :: ds) =
        withoutParentheses cs ++ c :: withoutParentheses ds := by
      rw [← withoutParentheses_blank hc]
      exact List.filter_append ..
    rw [hf, words_append_sep hc] at hw
    rcases List.mem_append.1 hw with hw | hw
    · exact h.words w hw
    · exact h'.words w hw
  cut := by
    rw [List.map_append]
    refine h.cut.append (.blank hc h'.cut) ?_
    rintro _ ⟨⟩
    exact isWordChar_of_isBlank hc

theorem parenthesized (h : Spells cs ts) :
    Spells ('(' :: (cs ++ [')'])) (.opening :: (ts ++ [.closing])) where
  words := by
    have hf : withoutParentheses ('(' :: (cs ++ [')'])) = withoutParentheses cs := by
      have hclosing : withoutParentheses [')'] = [] := rfl
      refine (List.filter_append ..).trans ?_
      exact (congrArg (withoutParentheses cs ++ ·) hclosing).trans (List.append_nil _)
    rw [hf]
    exact h.words
  cut := by
    rw [List.map_cons, List.map_append]
    refine .parenthesis rfl (h.cut.append (.parenthesis rfl .done) ?_)
    rintro _ ⟨⟩
    rfl

theorem word {t : Token} (ht : t ∈ Token.words) : Spells t.text.toList [t] where
  words := by
    revert t
    decide
  cut := by
    have hc := Cut.word (word_ne_nil t ht) (isWordChar_of_mem_word ht) (by simp) .done
    rwa [List.append_nil] at hc

/-- Neither quotes nor braces are spelled. -/
theorem plain (h : Spells cs ts) : ∀ c ∈ cs, isQuote c = false ∧ c ≠ '{' := by
  intro c hc
  rcases h.cut.mem hc with hb | ⟨p, hp, hm⟩
  · exact plain_of_isBlank hb
  · obtain ⟨t, -, rfl⟩ := List.mem_map.1 hp
    exact plain_of_token t c hm

/-- No name of a function is spelled before an opening parenthesis. -/
theorem not_name (h : Spells cs ts) (f : Function) : ¬ f.name.toList ++ ['('] <:+: cs := by
  rintro ⟨u, v, he⟩
  have hname : ∀ c ∈ f.name.toList, isWordChar c = true := by
    intro c hc
    obtain ⟨hb, ho, hcl, -⟩ := plain_of_mem_name f c hc
    simp [isWordChar, Token.isParenthesis, hb, ho, hcl]
  obtain ⟨p, hp, hs⟩ := h.cut.ends (name_ne_nil f) hname (u := u) (v := v) (by simp [← he])
  obtain ⟨t, -, rfl⟩ := List.mem_map.1 hp
  have hnone : ¬ f.name.toList <:+ t.text.toList := by
    cases t with
    | constant b => cases b <;> cases f <;> decide
    | _ => cases f <;> decide
  exact hnone hs

end Spells

/-! ## Outlines -/

section

variable (host : Host.Fixed) (dirs : Host.Directories) (context : Option Package)
  (known : Option Facts)

/-- Pieces whose calls have answers, and which spell given tokens once the calls are answered. -/
structure Outline (ps : List (Piece Span)) (ts : List Token) : Prop where
  placed : Placed true ps
  sound : ∀ c ∈ asked ps, c.Sound host dirs context known
  /-- There are literals in calls only. -/
  bare : ∀ x, .single x ∈ ps → ∃ c, x = .char c
  spells : Spells (answeredText ps) ts

/-- A text that has an outline. -/
def Outlined (cs : List Char) (ts : List Token) : Prop :=
  ∃ ps, cs = Span.texts (spans ps) ∧ Outline host dirs context known ps ts

end

section

variable {host : Host.Fixed} {dirs : Host.Directories} {context : Option Package}
  {known : Option Facts}

/-- The spans of an outline are what its text is cut into. -/
theorem Outline.isPlain {ps : List (Piece Span)} {ts : List Token}
    (h : Outline host dirs context known ps ts) : ∀ x ∈ spans ps, x.IsPlain := by
  have hchars {cs : List Char} (hcs : ∀ c ∈ cs, isQuote c = false ∧ c ≠ '{') :
      ∀ x ∈ cs.map Span.char, x.IsPlain := by
    intro x hx
    obtain ⟨c, hc, rfl⟩ := List.mem_map.1 hx
    exact hcs c hc
  intro x hx
  obtain ⟨p, hp, hxp⟩ := List.mem_flatMap.1 hx
  cases p with
  | single y =>
    obtain rfl := List.mem_singleton.1 hxp
    obtain ⟨c, rfl⟩ := h.bare x hp
    have hm : .char c ∈ ps.flatMap (answered Span.char) :=
      List.mem_flatMap.2 ⟨_, hp, List.mem_singleton_self _⟩
    exact h.spells.plain c (Span.mem_texts hm)
  | call c =>
    have hname : ∀ d ∈ c.function.name.toList, isQuote d = false ∧ d ≠ '{' := by
      intro d hd
      obtain ⟨-, -, -, hb, hq⟩ := plain_of_mem_name c.function d hd
      exact ⟨hq, hb⟩
    have hargs : ∀ y ∈ c.args, y.IsPlain := fun y hy =>
      ((h.sound c (mem_asked.2 hp)).arguments y hy).isPlain
    have hall : ∀ y ∈ parts Span.char (.call c), y.IsPlain := by
      rw [parts, List.forall_mem_append, List.forall_mem_cons, List.forall_mem_append]
      exact ⟨hchars hname, plain_of_token .opening '(' List.mem_cons_self, hargs,
        hchars (plain_of_token .closing)⟩
    exact hall x hxp

/-- Without literals outside of calls, the answered text is the same masked or not. -/
theorem answeredText_masked {ps : List (Piece Span)} (h : ∀ x, .single x ∈ ps → ∃ c, x = .char c)
    (n : Nat) : Glyph.texts ((masked n ps).flatMap (answered .char)) = answeredText ps := by
  induction ps generalizing n with
  | nil => rfl
  | cons p ps ih =>
    have ih' := fun n => ih (fun x hx => h x (List.mem_cons_of_mem _ hx)) n
    cases p with
    | single x =>
      obtain ⟨c, rfl⟩ := h x List.mem_cons_self
      exact congrArg (c :: ·) (ih' n)
    | call c =>
      have hm : Glyph.texts ((masked n (.call c :: ps)).flatMap (answered .char)) =
          Glyph.texts ((Token.constant c.answer).text.toList.map .char) ++
            Glyph.texts ((masked (n + (Span.literals c.args).length) ps).flatMap
              (answered .char)) := texts_append _ _
      rw [hm, ih', answeredText_cons, answered, Span.texts_map_char, Condition.texts_map_char]

theorem bare_of_brace {ps : List (Piece Span)} {n : Nat}
    (h : '{' ∉ Glyph.texts ((masked n ps).flatMap (answered .char))) :
    ∀ x, .single x ∈ ps → ∃ c, x = .char c := by
  induction ps generalizing n with
  | nil => exact fun x hx => by cases hx
  | cons p ps ih =>
    intro x hx
    cases p with
    | single y =>
      cases y with
      | char c =>
        rcases List.mem_cons.1 hx with hx | hx
        · cases hx
          exact ⟨c, rfl⟩
        · exact ih (n := n) (fun hm => h (List.mem_cons_of_mem c hm)) x hx
      | literal q content => exact absurd List.mem_cons_self h
    | call c =>
      rcases List.mem_cons.1 hx with hx | hx
      · cases hx
      · refine ih (n := n + (Span.literals c.args).length) (fun hm => h ?_) x hx
        have hm : Glyph.texts ((masked n (.call c :: ps)).flatMap (answered .char)) = _ :=
          texts_append (answered .char _) _
        rw [hm]
        exact List.mem_append_right _ ‹_›

/-- A condition with an outline has the value of its tokens. -/
theorem evaluate_of_outlined {text : String} {ts : List Token} {v : Bool}
    (h : Outlined host dirs context known text.toList ts) (hd : Derives .disjunction ts v) :
    outcome host known (evaluate dirs context text) = .ok v := by
  obtain ⟨ps, htext, ho⟩ := h
  have hcut : Span.cut text.toList = spans ps := by rw [htext, Span.cut_texts ho.isPlain]
  have hfound : Found host dirs context known true 0 ps :=
    found_of_placed ho.placed ho.sound ho.spells.not_name 0
  have hwrites : Expression.Writes (String.ofList (answeredText ps)) v := by
    refine writes_iff.2 ⟨ts, ?_, hd⟩
    rw [String.toList_ofList]
    exact ho.spells
  have hu : ¬ Span.WritesPlaceholder (spans ps) :=
    Span.not_writesPlaceholder fun hm => (ho.isPlain _ hm).2 rfl
  refine outcome_evaluate_of_ok ?_
  rw [outcome_evaluateBody_found hcut hu hfound,
    answeredText_masked ho.bare, Expression.evalText_eq_ok_iff.2 hwrites]
  rfl

/-- A condition that has a value, and writes no placeholder, has an outline. -/
theorem outlined_of_evaluate {text : String} {v : Bool}
    (hu : ¬ Span.WritesPlaceholder (Span.cut text.toList))
    (h : outcome host known (evaluate dirs context text) = .ok v) :
    ∃ ts, Outlined host dirs context known text.toList ts ∧ Derives .disjunction ts v := by
  have hmask : mask text.toList =
      ⟨Span.masked 0 (Span.cut text.toList), Span.literals (Span.cut text.toList)⟩ :=
    Span.maskFrom_eq 0 _
  have hresults : ∀ f : Function, ∀ args ∈ argumentsIn f.name.toList
      (Span.masked 0 (Span.cut text.toList)),
      ∃ v, (ofMasked (Span.literals (Span.cut text.toList)) f args).result
        host known dirs context = .ok v := by
    intro f args hargs
    refine result_of_outcome_evaluate h _ ?_
    have hf : f ∈ Function.all := by cases f <;> decide
    rw [hmask]
    exact List.mem_flatMap.2 ⟨f, hf, List.mem_map_of_mem hargs⟩
  obtain ⟨ps, hps, hfound⟩ := exists_found (Span.lexed_cut text.toList) hu [] []
    (List.append_nil _).symm true hresults
  have hbody := outcome_evaluateBody_of_ok h
  rw [← hps] at hu
  rw [outcome_evaluateBody_found hps.symm hu hfound] at hbody
  cases he : Expression.evalText (String.ofList
      (Glyph.texts ((masked 0 ps).flatMap (answered .char)))) with
  | error f => rw [he] at hbody; cases hbody
  | ok w =>
    rw [he] at hbody
    cases hbody
    obtain ⟨ts, hspells, hd⟩ := writes_iff.1 (Expression.evalText_eq_ok_iff.1 he)
    rw [String.toList_ofList] at hspells
    have hbare := bare_of_brace fun hm => (hspells.plain _ hm).2 rfl
    rw [answeredText_masked hbare] at hspells
    refine ⟨ts, ⟨ps, ?_, hfound.placed, hfound.sound, hbare, hspells⟩, hd⟩
    rw [hps, Span.texts_cut]

/-! ## Putting conditions together -/

namespace Outlined

variable {cs ds : List Char} {ts us : List Token}

theorem parenthesized (h : Outlined host dirs context known cs ts) :
    Outlined host dirs context known ('(' :: (cs ++ [')'])) (.opening :: (ts ++ [.closing])) := by
  obtain ⟨ps, rfl, h⟩ := h
  refine ⟨.single (.char '(') :: (ps ++ [.single (.char ')')]), ?_, ?_, ?_, ?_, ?_⟩
  · rw [spans_cons, spans_append, Span.texts_append, Span.texts_append]
    rfl
  · exact .single (h.placed.append fun _ => .single .done)
  · intro c hc
    have hm : c ∈ asked (ps ++ [.single (.char ')')]) := hc
    rw [asked_append] at hm
    exact h.sound c (by simpa [asked, call?] using hm)
  · intro x hx
    rcases List.mem_cons.1 hx with hx | hx
    · cases hx
      exact ⟨'(', rfl⟩
    · rcases List.mem_append.1 hx with hx | hx
      · exact h.bare x hx
      · cases List.mem_singleton.1 hx
        exact ⟨')', rfl⟩
  · rw [answeredText_cons, answeredText_append]
    exact h.spells.parenthesized

theorem spaced (h : Outlined host dirs context known cs ts)
    (h' : Outlined host dirs context known ds us) :
    Outlined host dirs context known (cs ++ ' ' :: ds) (ts ++ us) := by
  obtain ⟨ps, rfl, h⟩ := h
  obtain ⟨qs, rfl, h'⟩ := h'
  refine ⟨ps ++ .single (.char ' ') :: qs, ?_, ?_, ?_, ?_, ?_⟩
  · rw [spans_append, Span.texts_append]
    rfl
  · exact h.placed.append fun _ => .single h'.placed
  · intro c hc
    rw [asked_append] at hc
    rcases List.mem_append.1 hc with hc | hc
    · exact h.sound c hc
    · exact h'.sound c hc
  · intro x hx
    rcases List.mem_append.1 hx with hx | hx
    · exact h.bare x hx
    · rcases List.mem_cons.1 hx with hx | hx
      · cases hx
        exact ⟨' ', rfl⟩
      · exact h'.bare x hx
  · rw [answeredText_append]
    exact h.spells.spaced rfl h'.spells

theorem word {t : Token} (ht : t ∈ Token.words) :
    Outlined host dirs context known t.text.toList [t] := by
  refine ⟨ofChars .char t.text.toList, ?_, ?_, ?_, ?_, ?_⟩
  · rw [spans, parts_ofChars, Span.texts_map_char]
  · exact placed_ofChars _ true
  · intro c hc
    rw [asked_ofChars] at hc
    cases hc
  · intro x hx
    obtain ⟨c, -, hc⟩ := List.mem_map.1 hx
    cases hc
    exact ⟨c, rfl⟩
  · rw [answeredText, answered_ofChars, Span.texts_map_char]
    exact .word ht

theorem joined (h : Outlined host dirs context known cs ts)
    (h' : Outlined host dirs context known ds us) {t : Token} (ht : t ∈ Token.words) :
    Outlined host dirs context known
      ('(' :: (cs ++ [')']) ++ ' ' :: (t.text.toList ++ ' ' :: '(' :: (ds ++ [')'])))
      (.opening :: (ts ++ [.closing]) ++ t :: .opening :: (us ++ [.closing])) :=
  h.parenthesized.spaced ((word ht).spaced h'.parenthesized)

end Outlined

end

/-- Conditions compose: whatever is in the literals of two conditions that have values, as long as
neither writes a placeholder outside of them, joining the conditions joins their values. -/
theorem evaluate_composed (host : Host.Fixed) (dirs : Host.Directories) (context : Option Package)
    (known : Option Facts) {left right : String} {a b : Bool}
    (hleft : ¬ Span.WritesPlaceholder (Span.cut left.toList))
    (hright : ¬ Span.WritesPlaceholder (Span.cut right.toList))
    (ha : outcome host known (evaluate dirs context left) = .ok a)
    (hb : outcome host known (evaluate dirs context right) = .ok b) :
    outcome host known (evaluate dirs context ("(" ++ left ++ ") and (" ++ right ++ ")")) =
      .ok (a && b) ∧
    outcome host known (evaluate dirs context ("(" ++ left ++ ") or (" ++ right ++ ")")) =
      .ok (a || b) ∧
    outcome host known (evaluate dirs context ("not (" ++ left ++ ")")) = .ok (!a) := by
  obtain ⟨ts, hts, hda⟩ := outlined_of_evaluate hleft ha
  obtain ⟨us, hus, hdb⟩ := outlined_of_evaluate hright hb
  have hn : Derives .negation (.opening :: (ts ++ [.closing])) a := .plain (.parenthesized hda)
  have hn' : Derives .negation (.opening :: (us ++ [.closing])) b := .plain (.parenthesized hdb)
  have hand : Token.and ∈ Token.words := by decide
  have hor : Token.or ∈ Token.words := by decide
  have hnot : Token.not ∈ Token.words := by decide
  refine ⟨?_, ?_, ?_⟩
  · have ht : ("(" ++ left ++ ") and (" ++ right ++ ")").toList = '(' :: (left.toList ++ [')']) ++
        ' ' :: (Token.and.text.toList ++ ' ' :: '(' :: (right.toList ++ [')'])) := by
      simp [Token.text]
    have ho := hts.joined hus hand
    rw [← ht] at ho
    exact evaluate_of_outlined ho (hn.ofNegation.and hn'.ofNegation).ofConjunction
  · have ht : ("(" ++ left ++ ") or (" ++ right ++ ")").toList = '(' :: (left.toList ++ [')']) ++
        ' ' :: (Token.or.text.toList ++ ' ' :: '(' :: (right.toList ++ [')'])) := by
      simp [Token.text]
    have ho := hts.joined hus hor
    rw [← ht] at ho
    exact evaluate_of_outlined ho
      (hn.ofNegation.ofConjunction.or hn'.ofNegation.ofConjunction)
  · have ht : ("not (" ++ left ++ ")").toList =
        Token.not.text.toList ++ ' ' :: '(' :: (left.toList ++ [')']) := by
      simp [Token.text]
    have ho := (Outlined.word hnot).spaced hts.parenthesized
    rw [← ht] at ho
    exact evaluate_of_outlined ho (Derives.not hn).ofNegation.ofConjunction

/-- What looks like a placeholder in a literal stays in it. -/
theorem evaluate_composed_sample :
    let host : Host.Memory := { files := [("/game/Data/a.esp", ⟨#[0x78]⟩)] }
    let value (condition : String) :=
      outcome host.answer none (evaluate host.directories none condition)
    let left := "active( \"{0}, )\" )"
    let right := "file('a.esp')"
    ¬ Span.WritesPlaceholder (Span.cut left.toList) ∧
      ¬ Span.WritesPlaceholder (Span.cut right.toList) ∧
      value left = .ok false ∧ value right = .ok true ∧
      value ("(" ++ left ++ ") and (" ++ right ++ ")") = .ok false ∧
      value ("(" ++ left ++ ") or (" ++ right ++ ")") = .ok true ∧
      value ("not (" ++ left ++ ")") = .ok true := by
  intro host value left right
  have hleft : ¬ Span.WritesPlaceholder (Span.cut left.toList) :=
    Span.not_writesPlaceholder (by decide +kernel)
  have hright : ¬ Span.WritesPlaceholder (Span.cut right.toList) :=
    Span.not_writesPlaceholder (by decide +kernel)
  have hconstant (b : Bool) : Derives .disjunction [.constant b] b :=
    (Derives.plain (.constant b)).ofNegation.ofConjunction
  have ha : value left = .ok false := by
    have hanswered : outcome host.answer none (answerCalls host.directories none
        (mask left.toList).text (findAll (mask left.toList))) = .ok "False".toList := by
      decide +kernel
    exact outcome_evaluate_of_derives hanswered (by decide +kernel) (by decide +kernel)
      (hconstant false)
  have hb : value right = .ok true := by
    have hanswered : outcome host.answer none (answerCalls host.directories none
        (mask right.toList).text (findAll (mask right.toList))) = .ok "True".toList := by
      decide +kernel
    exact outcome_evaluate_of_derives hanswered (by decide +kernel) (by decide +kernel)
      (hconstant true)
  exact ⟨hleft, hright, ha, hb,
    evaluate_composed host.answer host.directories none none hleft hright ha hb⟩

end PluginAudit.Condition
