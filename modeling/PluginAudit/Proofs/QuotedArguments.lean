import PluginAudit.Proofs.CallSites
import PluginAudit.Proofs.ConditionMeaning

/-!
# String arguments are literals of their call

What a condition passes to one of its functions as a string is the content of a literal between the
parentheses of that call, and a call that holds anything else where a string is due ends the
evaluation with a fault (`evaluate_quoted`). This is so at every place where nothing is forged, and
it is not so at a place where the placeholder of a literal is written outside of quotes: that reads
as the literal, although it stands elsewhere (`evaluate_forged`).

The parts of a call are cut at commas that may be inside of a literal in single quotes, and quotes
without a partner may be anywhere. What carries the argument is that a part which reads as a string
begins with a quote; since the spans are cut, that quote begins a literal, and the part ends with
it (`Span.quotes_of_splitAfter`).
-/

namespace PluginAudit.Condition

open Text Literal Argument Inspection

/-! ## Strings and their places -/

/-- The string arguments of a call. -/
def Call.strings : Call → List String
  | file path => [path]
  | readable path => [path]
  | active plugin => [plugin]
  | many pattern => [pattern]
  | manyActive pattern => [pattern]
  | isMaster plugin => [plugin]
  | checksum path _ => [path]
  | version path given _ => [path, given]
  | productVersion path given _ => [path, given]

/-- The number of strings a function takes; they are the first of its arguments. -/
def Function.strings : Function → Nat
  | version => 2
  | productVersion => 2
  | _ => 1

theorem length_strings (c : Call) : c.strings.length = c.function.strings := by
  cases c <;> rfl

/-- What stands where a call takes a string, between parentheses and commas. -/
def CallSite.stringPlaces {cs : List Char} (x : CallSite cs) : List (List Span) :=
  (x.inside.splitOn (.char ',')).take x.function.strings

/-- Whether there is a literal of a given content and, but for blanks, nothing else. -/
def Quotes (s : String) (place : List Span) : Prop :=
  ∃ (q : Char) (l r : List Char), (∀ c ∈ l ++ r, isBlank c = true) ∧
    place = l.map .char ++ .literal q s.toList :: r.map .char

theorem Quotes.blank {s : String} {place : List Span} (h : Quotes s place) {c : Char}
    (hc : isBlank c = true) : Quotes s (.char c :: place) := by
  obtain ⟨q, l, r, hb, rfl⟩ := h
  refine ⟨q, c :: l, r, ?_, rfl⟩
  intro d hd
  rcases List.mem_cons.1 hd with rfl | hd
  · exact hc
  · exact hb d hd

theorem Quotes.comma_not_mem {s : String} {place : List Span} (h : Quotes s place) :
    .char ',' ∉ place := by
  obtain ⟨q, l, r, hb, rfl⟩ := h
  have hcomma : ',' ∉ l ++ r := fun h => absurd (hb _ h) (by decide)
  simpa using hcomma

/-! ## The parts of a text -/

/-- A text begins with a comma that ends the empty first part, or with the first part's first
character. -/
theorem splitAfter_cons_cases {quoted : Bool} {c : Char} {cs p : List Char}
    {ps : List (List Char)} (h : splitAfter quoted (c :: cs) = p :: ps) :
    (c = ',' ∧ p = [] ∧ ps = splitAfter false cs) ∨
      ∃ p', p = c :: p' ∧ splitAfter (if c = '"' then !quoted else quoted) cs = p' :: ps := by
  by_cases hc : c ≠ ',' ∨ quoted = true
  · rw [splitAfter_cons hc] at h
    cases hs : splitAfter (if c = '"' then !quoted else quoted) cs with
    | nil => exact absurd hs (splitAfter_ne_nil _ _)
    | cons p' ps' =>
      rw [hs] at h
      cases h
      exact .inr ⟨p', rfl, rfl⟩
  · simp only [not_or, not_not, Bool.not_eq_true] at hc
    obtain ⟨rfl, rfl⟩ := hc
    cases h
    exact .inl ⟨rfl, rfl, rfl⟩

/-- The first part is a beginning of the text. -/
theorem eq_append_of_splitAfter {quoted : Bool} {cs p : List Char} {ps : List (List Char)}
    (h : splitAfter quoted cs = p :: ps) : ∃ rest, cs = p ++ rest := by
  induction cs generalizing quoted p with
  | nil =>
    cases h
    exact ⟨[], rfl⟩
  | cons c cs ih =>
    rcases splitAfter_cons_cases h with ⟨rfl, rfl, -⟩ | ⟨p', rfl, h'⟩
    · exact ⟨',' :: cs, rfl⟩
    · obtain ⟨rest, rfl⟩ := ih h'
      exact ⟨rest, rfl⟩

/-- What follows a beginning of the first part is cut as it is in the text. -/
theorem splitAfter_of_append {quoted : Bool} {u v p : List Char} {ps : List (List Char)}
    (h : splitAfter quoted (u ++ v) = (u ++ p) :: ps) :
    ∃ quoted', splitAfter quoted' v = p :: ps := by
  induction u generalizing quoted with
  | nil => exact ⟨quoted, h⟩
  | cons c u ih =>
    rcases splitAfter_cons_cases h with ⟨-, hp, -⟩ | ⟨p', hp, h'⟩
    · cases hp
    · cases hp
      exact ih h'

theorem eq_of_unquote? {c : Char} {cs content : List Char}
    (h : unquote? (c :: cs) = some content) :
    isQuote c = true ∧ c ∉ content ∧ cs = content ++ [c] := by
  rw [unquote?] at h
  split at h
  · next hq =>
    split at h
    · next inside hc =>
      cases h
      obtain ⟨hn, rfl⟩ := eq_of_closing? hc
      exact ⟨hq, hn, rfl⟩
    · cases h
  · cases h

/-! ## A part that reads as a string -/

theorem isBlank_of_isQuote {q : Char} (hq : isQuote q = true) : isBlank q = false := by
  rw [isQuote, Bool.or_eq_true, beq_iff_eq, beq_iff_eq] at hq
  rcases hq with rfl | rfl <;> decide

theorem ne_comma_of_isQuote {q : Char} (hq : isQuote q = true) : q ≠ ',' := by
  rintro rfl
  exact absurd hq (by decide)

namespace Span

/-- A blank part is made of blanks outside of literals, and ends with the text or before a comma. -/
theorem eq_of_splitAfter_blank {quoted : Bool} {xs : List Span} (hx : Lexed xs) {p : List Char}
    {ps : List (List Char)} (hs : splitAfter quoted (texts xs) = p :: ps)
    (hp : ∀ c ∈ p, isBlank c = true) :
    xs = p.map char ∧ ps = [] ∨
      ∃ zs, xs = p.map char ++ char ',' :: zs ∧ ps = splitAfter false (texts zs) := by
  induction xs generalizing p with
  | nil =>
    cases hs
    exact .inl ⟨rfl, rfl⟩
  | cons x xs ih =>
    cases x with
    | char c =>
      rcases splitAfter_cons_cases hs with ⟨rfl, rfl, rfl⟩ | ⟨p', rfl, hs'⟩
      · exact .inr ⟨xs, rfl, rfl⟩
      · have hb : isBlank c = true := hp c List.mem_cons_self
        have hquote : c ≠ '"' := fun h => absurd hb (by rw [h]; decide)
        rw [if_neg hquote] at hs'
        rcases ih hx.2 hs' fun d hd => hp d (List.mem_cons_of_mem _ hd) with
          ⟨rfl, rfl⟩ | ⟨zs, rfl, rfl⟩
        · exact .inl ⟨rfl, rfl⟩
        · exact .inr ⟨zs, rfl, rfl⟩
    | literal q content =>
      have hq : isQuote q = true := hx.1.1
      obtain ⟨p', rfl, -⟩ :=
        (splitAfter_cons_cases hs).resolve_left fun h => ne_comma_of_isQuote hq h.1
      have hb : isBlank q = true := hp q List.mem_cons_self
      rw [isBlank_of_isQuote hq] at hb
      cases hb

/-- If the first part reads as a string, the spans begin with a literal among blanks, up to the end
or to the next comma outside of literals. -/
theorem quotes_of_splitAfter {xs : List Span} (hx : Lexed xs) {p content : List Char}
    {ps : List (List Char)} (hs : splitAfter false (texts xs) = p :: ps)
    (hu : unquote? (trim p) = some content) :
    ∃ place, Quotes (String.ofList content) place ∧
      (xs = place ∧ ps = [] ∨
        ∃ zs, xs = place ++ char ',' :: zs ∧ ps = splitAfter false (texts zs)) := by
  induction xs generalizing p with
  | nil =>
    cases hs
    cases hu
  | cons x xs ih =>
    cases x with
    | char c =>
      rcases splitAfter_cons_cases hs with ⟨-, rfl, -⟩ | ⟨p', rfl, hs'⟩
      · cases hu
      cases hb : isBlank c with
      | true =>
        have hquote : c ≠ '"' := fun h => absurd hb (by rw [h]; decide)
        rw [if_neg hquote] at hs'
        rw [trim_blank hb] at hu
        obtain ⟨place, hplace, hrest⟩ := ih hx.2 hs' hu
        refine ⟨char c :: place, hplace.blank hb, ?_⟩
        rcases hrest with ⟨rfl, rfl⟩ | ⟨zs, rfl, rfl⟩
        · exact .inl ⟨rfl, rfl⟩
        · exact .inr ⟨zs, rfl, rfl⟩
      | false =>
        -- a quote outside of literals has no partner with which it could be read
        rw [trim_cons hb] at hu
        obtain ⟨hq, -, htrim⟩ := eq_of_unquote? hu
        obtain ⟨r, -, hp⟩ := exists_eq_trimEnd_append p'
        obtain ⟨rest, ht⟩ : ∃ rest, texts xs = p' ++ rest := eq_append_of_splitAfter hs'
        refine absurd ?_ (hx.1 hq)
        rw [ht, hp, htrim]
        simp
    | literal q t =>
      obtain ⟨⟨hq, hqt⟩, hx⟩ := hx
      have ht : texts (literal q t :: xs) = q :: (t ++ q :: texts xs) := by
        simp [texts, text]
      rw [ht] at hs
      obtain ⟨p', rfl, hs'⟩ :=
        (splitAfter_cons_cases hs).resolve_left fun h => ne_comma_of_isQuote hq h.1
      rw [trim_cons (isBlank_of_isQuote hq)] at hu
      obtain ⟨-, hqc, htrim⟩ := eq_of_unquote? hu
      obtain ⟨r, hr, hp⟩ := exists_eq_trimEnd_append p'
      rw [htrim, List.append_assoc, List.singleton_append] at hp
      obtain ⟨rest, htext⟩ := eq_append_of_splitAfter hs'
      -- the part ends with the literal, for its quote is the first after the content on both sides
      rw [hp, List.append_assoc, List.cons_append] at htext
      obtain ⟨rfl, -⟩ := append_inj_of_not_mem hqt hqc htext
      obtain ⟨quoted', hs''⟩ := splitAfter_of_append (u := t ++ [q]) (p := r) (v := texts xs)
        (by simpa [hp] using hs')
      refine ⟨literal q t :: r.map char, ⟨q, [], r, hr, by simp⟩, ?_⟩
      rcases eq_of_splitAfter_blank hx hs'' hr with ⟨rfl, rfl⟩ | ⟨zs, rfl, rfl⟩
      · exact .inl ⟨rfl, rfl⟩
      · exact .inr ⟨zs, rfl, rfl⟩

end Span

theorem unquote?_of_readString {cs : List Char} {s : String} (h : readString cs = .ok s) :
    unquote? cs = some s.toList := by
  rw [readString] at h
  split at h
  · next content hc =>
    split at h
    · cases h
    · cases h
      rw [hc, String.toList_ofList]
  · cases h

/-- If the first of the arguments reads as a string, a literal stands alone in its place. -/
theorem quotes_of_split_cons {s : String} {a : List Char} {as : List (List Char)}
    (ha : readString a = .ok s) {xs : List Span} (hx : Span.Lexed xs)
    (hs : split (Span.texts xs) = a :: as) :
    ∃ place, Quotes s place ∧
      (xs = place ∧ as = [] ∨
        ∃ zs, xs = place ++ .char ',' :: zs ∧ as = split (Span.texts zs)) := by
  cases hp : splitAfter false (Span.texts xs) with
  | nil => exact absurd hp (splitAfter_ne_nil _ _)
  | cons p ps =>
    rw [split, hp] at hs
    obtain ⟨rfl, rfl⟩ := List.cons.inj hs
    obtain ⟨place, hplace, hrest⟩ :=
      Span.quotes_of_splitAfter hx hp (unquote?_of_readString ha)
    rw [String.ofList_toList] at hplace
    refine ⟨place, hplace, ?_⟩
    rcases hrest with ⟨rfl, rfl⟩ | ⟨zs, rfl, rfl⟩
    · exact .inl ⟨rfl, rfl⟩
    · exact .inr ⟨zs, rfl, rfl⟩

/-- Arguments that read as strings, the first ones of a call, are literals standing alone. -/
theorem quotes_of_split {ss : List String} {as bs : List (List Char)}
    (hr : List.Forall₂ (fun s a => readString a = .ok s) ss as) {xs : List Span}
    (hx : Span.Lexed xs) (hs : split (Span.texts xs) = as ++ bs) :
    List.Forall₂ Quotes ss ((xs.splitOn (.char ',')).take ss.length) := by
  induction hr generalizing xs with
  | nil => exact .nil
  | @cons s a ss as ha has ih =>
    obtain ⟨place, hplace, ⟨rfl, hps⟩ | ⟨zs, rfl, hps⟩⟩ := quotes_of_split_cons ha hx hs
    · obtain ⟨rfl, -⟩ := List.append_eq_nil_iff.1 hps
      cases has
      rw [List.splitOn_eq_singleton hplace.comma_not_mem]
      exact .cons hplace .nil
    · rw [List.splitOn_append_cons_self_of_not_mem hplace.comma_not_mem]
      exact .cons hplace (ih hx.right.2 hps.symm)

/-! ## What a call is read from -/

theorem exists_of_map_eq_ok {α β : Type} {g : α → β} {r : Except Fault α} {b : β}
    (h : g <$> r = .ok b) : ∃ a, r = .ok a ∧ g a = b := by
  cases r with
  | error f => cases h
  | ok a =>
    cases h
    exact ⟨a, rfl, rfl⟩

theorem isBareChar_of_readChecksum {cs : List Char} {crc : UInt32}
    (h : readChecksum cs = .ok crc) : ∀ c ∈ cs, isBareChar c = true := by
  rw [readChecksum] at h
  split at h
  · cases h
  · next n hv =>
    obtain ⟨mark, hm, hcs⟩ := exists_hexMark cs
    intro c hc
    rw [hcs] at hc
    exact isBareChar_of_checksum hm hv c hc

theorem isBareChar_of_readComparator {cs : List Char} {sign : Comparator}
    (h : readComparator cs = .ok sign) : ∀ c ∈ cs, isBareChar c = true := by
  rw [readComparator] at h
  split at h
  · next sign' hs =>
    have hsymbol : sign'.symbol = String.ofList cs := by simpa using List.find?_some hs
    have hcs : sign'.symbol.toList = cs := by rw [hsymbol, String.toList_ofList]
    rw [← hcs]
    exact isBareChar_of_symbol sign'
  · cases h

theorem strings_of_readVersionArgs {a b c : List Char} {path given : String} {sign : Comparator}
    (h : Call.readVersionArgs a b c = .ok (path, given, sign)) :
    List.Forall₂ (fun s a => readString a = .ok s) [path, given] [a, b] ∧
      ∀ d ∈ c, isBareChar d = true := by
  rw [Call.readVersionArgs] at h
  cases hc : readComparator c with
  | error f => rw [hc] at h; cases h
  | ok sign' =>
    cases ha : readString a with
    | error f => rw [hc, ha] at h; cases h
    | ok path' =>
      cases hb : readString b with
      | error f => rw [hc, ha, hb] at h; cases h
      | ok given' =>
        rw [hc, ha, hb] at h
        cases h
        exact ⟨.cons ha (.cons hb .nil), isBareChar_of_readComparator hc⟩

/-- The strings of a call are read from the first of its arguments; the others are bare. -/
theorem strings_of_read {f : Function} {rawArgs : List Char} {call : Call}
    (h : Call.read f rawArgs = .ok call) :
    call.function = f ∧ ∃ as bs, split rawArgs = as ++ bs ∧
      List.Forall₂ (fun s a => readString a = .ok s) call.strings as ∧
      ∀ b ∈ bs, ∀ c ∈ b, isBareChar c = true := by
  unfold Call.read at h
  simp only at h
  split at h
  case h_7 a b hargs =>
    cases ha : readString a with
    | error f => rw [ha] at h; cases h
    | ok path =>
      cases hb : readChecksum b with
      | error f => rw [ha, hb] at h; cases h
      | ok crc =>
        rw [ha, hb] at h
        cases h
        exact ⟨rfl, [a], [b], hargs, .cons ha .nil, by simpa using isBareChar_of_readChecksum hb⟩
  case h_8 a b c hargs =>
    obtain ⟨⟨path, given, sign⟩, hread, rfl⟩ := exists_of_map_eq_ok h
    obtain ⟨hstrings, hsign⟩ := strings_of_readVersionArgs hread
    exact ⟨rfl, [a, b], [c], hargs, hstrings, by simpa using hsign⟩
  case h_9 a b c hargs =>
    obtain ⟨⟨path, given, sign⟩, hread, rfl⟩ := exists_of_map_eq_ok h
    obtain ⟨hstrings, hsign⟩ := strings_of_readVersionArgs hread
    exact ⟨rfl, [a, b], [c], hargs, hstrings, by simpa using hsign⟩
  case h_10 => cases h
  -- the functions of one string
  all_goals
    next a hargs =>
      obtain ⟨path, ha, rfl⟩ := exists_of_map_eq_ok h
      exact ⟨rfl, [a], [], hargs, .cons ha .nil, by simp⟩

theorem exists_of_mem_right {α β : Type} {R : α → β → Prop} {as : List α} {bs : List β}
    (h : List.Forall₂ R as bs) {b : β} (hb : b ∈ bs) : ∃ a, R a b := by
  induction h with
  | nil => cases hb
  | cons hr _ ih =>
    rcases List.mem_cons.1 hb with rfl | hb
    · exact ⟨_, hr⟩
    · exact ih hb

/-- Where nothing is forged, the strings of a call are the literals that stand in their places. -/
theorem CallSite.quotes_of_read {cs : List Char} {x : CallSite cs} (hx : ¬ x.Forged) {call : Call}
    (h : Call.read x.found.function x.found.rawArgs = .ok call) :
    List.Forall₂ Quotes call.strings x.stringPlaces := by
  rw [rawArgs_found hx] at h
  obtain ⟨hf, as, bs, hs, has, -⟩ := strings_of_read h
  have hquotes := quotes_of_split has x.lexed_inside hs
  rw [length_strings, hf] at hquotes
  exact hquotes

/-! ## Evaluating -/

section

variable {host : Host.Fixed} {dirs : Host.Directories} {context : Option Package}
  {known : Option Facts}

/-- A call that has a result was read, and the result is the value of what was read. -/
theorem read_of_result {call : FunctionCall} {v : Bool}
    (h : call.result host known dirs context = .ok v) :
    ∃ c, Call.read call.function call.rawArgs = .ok c ∧
      outcome host known (c.holds dirs context) = .ok v := by
  cases hr : Call.read call.function call.rawArgs with
  | error f =>
    rw [FunctionCall.result_of_unread hr] at h
    cases h
  | ok c =>
    rw [FunctionCall.result_of_read hr] at h
    exact ⟨c, rfl, h⟩

theorem outcome_evaluateBody_of_ok {condition : String} {b : Bool}
    (h : outcome host known (evaluate dirs context condition) = .ok b) :
    outcome host known (evaluateBody dirs context condition) = .ok b := by
  rw [outcome_evaluate] at h
  split at h
  · next b' hb => rw [hb, h]
  · cases h
  · cases h

/-- If a condition has a value, all its calls have values. -/
theorem result_of_outcome_evaluate {condition : String} {b : Bool}
    (h : outcome host known (evaluate dirs context condition) = .ok b) :
    ∀ call ∈ FunctionCall.findAll (mask condition.toList),
      ∃ v, call.result host known dirs context = .ok v := by
  have hbody := outcome_evaluateBody_of_ok h
  rw [outcome_evaluateBody] at hbody
  cases ha : outcome host known (answerCalls dirs context (mask condition.toList).text
      (FunctionCall.findAll (mask condition.toList))) with
  | error f => rw [ha] at hbody; cases hbody
  | ok text => exact result_of_outcome_answerCalls ha

/-- A condition with a call that cannot be read is refused, unless a call before it fails. -/
theorem outcome_evaluate_unread {condition : String} {call : FunctionCall} {g : Fault}
    (hr : Call.read call.function call.rawArgs = .error g) {calls calls' : List FunctionCall}
    (hcalls : FunctionCall.findAll (mask condition.toList) = calls ++ call :: calls') :
    ∃ f, outcome host known (evaluate dirs context condition) = .error f ∧
      ((∃ g, f = .condition (.inCondition condition g)) ∨
        ∃ y ∈ calls, ∃ c, Call.read y.function y.rawArgs = .ok c ∧
          outcome host known (c.holds dirs context) = .error f) := by
  have hresult : call.result host known dirs context = .error (.condition g) :=
    FunctionCall.result_of_unread hr
  obtain ⟨f, hf, hcause⟩ :=
    outcome_answerCalls_stops hresult calls calls' (mask condition.toList).text
  have hbody : outcome host known (evaluateBody dirs context condition) = .error f := by
    rw [outcome_evaluateBody, hcalls, hf]
    rfl
  rw [outcome_evaluate, hbody]
  by_cases hcond : ∃ g, f = .condition g
  · obtain ⟨g, rfl⟩ := hcond
    exact ⟨_, rfl, .inl ⟨g, rfl⟩⟩
  · have hown : f ≠ .condition g := fun h => hcond ⟨g, h⟩
    obtain ⟨y, hy, hfail⟩ := hcause.resolve_left hown
    refine ⟨f, ?_, .inr ⟨y, hy, ?_⟩⟩
    · cases f with
      | condition g => exact absurd ⟨g, rfl⟩ hcond
      | _ => rfl
    · cases hread : Call.read y.function y.rawArgs with
      | error g =>
        rw [FunctionCall.result_of_unread hread] at hfail
        exact absurd ⟨g, (Except.error.inj hfail).symm⟩ hcond
      | ok c =>
        rw [FunctionCall.result_of_read hread] at hfail
        exact ⟨c, rfl, hfail⟩

end

/-- The value of a condition whose answered text has these tokens. -/
theorem outcome_evaluate_of_derives {host : Host.Fixed} {dirs : Host.Directories}
    {context : Option Package} {known : Option Facts} {condition text : String}
    {ts : List Token} {v : Bool}
    (ha : outcome host known (answerCalls dirs context (mask condition.toList).text
      (FunctionCall.findAll (mask condition.toList))) = .ok text.toList)
    (hw : Token.foreignWord? text.toList = none) (ht : Token.read text.toList = .ok ts)
    (hd : Derives .disjunction ts v) :
    outcome host known (evaluate dirs context condition) = .ok v := by
  obtain ⟨e, he, hv⟩ := Expression.ofTokens_eq_ok_iff.2 hd
  have hread : Expression.read text = .ok e := Expression.read_eq_ok_iff.2 ⟨hw, ts, ht, he⟩
  have heval : Expression.evalText text = .ok v :=
    Expression.evalText_eq_ok_iff_read.2 ⟨e, hread, hv⟩
  refine outcome_evaluate_of_ok ?_
  rw [outcome_evaluateBody, ha]
  simp only [bind, Except.bind, String.ofList_toList]
  rw [heval]
  rfl

theorem derives_or (a b : Bool) :
    Derives .disjunction [.constant a, .or, .constant b] (a || b) := by
  have hterm (c : Bool) : Derives .disjunction [.constant c] c :=
    (Derives.plain (.constant c)).ofNegation.ofConjunction
  exact (hterm a).or (hterm b)

/-- Every call that is found stands somewhere in the condition. At a place where nothing is forged,
its strings are the literals that stand in their places, if the condition has a value; and it has
none if something else stands there, but is refused, unless a call that is answered before fails. -/
theorem evaluate_quoted (host : Host.Fixed) (dirs : Host.Directories) (context : Option Package)
    (known : Option Facts) (condition : String) :
    let calls := FunctionCall.findAll (mask condition.toList)
    (∀ call ∈ calls, ∃ x : CallSite condition.toList, x.found = call) ∧
    ∀ x : CallSite condition.toList, x.found ∈ calls → ¬ x.Forged →
      (∀ b, outcome host known (evaluate dirs context condition) = .ok b →
        ∃ call v, Call.read x.function x.found.rawArgs = .ok call ∧
          outcome host known (call.holds dirs context) = .ok v ∧
          List.Forall₂ Quotes call.strings x.stringPlaces) ∧
      ((∃ place ∈ x.stringPlaces, ∀ s, ¬ Quotes s place) →
        ∃ f, outcome host known (evaluate dirs context condition) = .error f ∧
          ((∃ g, f = .condition (.inCondition condition g)) ∨
            ∃ before after, calls = before ++ x.found :: after ∧
              ∃ y ∈ before, ∃ call, Call.read y.function y.rawArgs = .ok call ∧
                outcome host known (call.holds dirs context) = .error f)) := by
  intro calls
  refine ⟨fun call hc => exists_callSite hc, fun x hx hforged => ⟨fun b hb => ?_, ?_⟩⟩
  · obtain ⟨v, hresult⟩ := result_of_outcome_evaluate hb x.found hx
    obtain ⟨call, hr, hv⟩ := read_of_result hresult
    exact ⟨call, v, hr, hv, CallSite.quotes_of_read hforged hr⟩
  · rintro ⟨place, hplace, hnot⟩
    obtain ⟨before, after, hcalls⟩ := List.append_of_mem hx
    cases hr : Call.read x.found.function x.found.rawArgs with
    | ok call =>
      obtain ⟨s, hs⟩ := exists_of_mem_right (CallSite.quotes_of_read hforged hr) hplace
      exact absurd hs (hnot s)
    | error g =>
      obtain ⟨f, hf, hcause⟩ := outcome_evaluate_unread hr hcalls
      refine ⟨f, hf, ?_⟩
      rcases hcause with hrefused | hfailed
      · exact .inl hrefused
      · exact .inr ⟨before, after, hcalls, hfailed⟩

/-- A literal may look like a placeholder and hold what ends a call; a string without quotes is
refused. -/
theorem evaluate_quoted_sample :
    let host : Host.Memory := { files := [("/game/Data/a.esp", ⟨#[0x78]⟩)] }
    let condition := "active( \"{0}, )\" ) or file('a.esp')"
    let condition' := "file(\"a.esp\") or file(a.esp)"
    (∃ x : CallSite condition.toList,
      x.found ∈ FunctionCall.findAll (mask condition.toList) ∧ ¬ x.Forged ∧
      outcome host.answer none (evaluate host.directories none condition) = .ok true ∧
      ∃ call v, Call.read x.function x.found.rawArgs = .ok call ∧
        outcome host.answer none (call.holds host.directories none) = .ok v ∧
        List.Forall₂ Quotes call.strings x.stringPlaces) ∧
    ∃ x : CallSite condition'.toList,
      x.found ∈ FunctionCall.findAll (mask condition'.toList) ∧ ¬ x.Forged ∧
      (∃ place ∈ x.stringPlaces, ∀ s, ¬ Quotes s place) ∧
      ∃ f, outcome host.answer none (evaluate host.directories none condition') = .error f ∧
        ((∃ g, f = .condition (.inCondition condition' g)) ∨
          ∃ before after, FunctionCall.findAll (mask condition'.toList) =
              before ++ x.found :: after ∧
            ∃ y ∈ before, ∃ call, Call.read y.function y.rawArgs = .ok call ∧
              outcome host.answer none (call.holds host.directories none) = .error f) := by
  intro host condition condition'
  constructor
  · have heval :
        outcome host.answer none (evaluate host.directories none condition) = .ok true := by
      have ha : outcome host.answer none (answerCalls host.directories none
          (mask condition.toList).text (FunctionCall.findAll (mask condition.toList))) =
            .ok "False or True".toList := by decide +kernel
      exact outcome_evaluate_of_derives ha (by decide +kernel) (by decide +kernel)
        (derives_or false true)
    let x : CallSite condition.toList := {
      function := .active
      before := []
      inside := [.char ' ', .literal '"' "{0}, )".toList, .char ' ']
      after := " or file(".toList.map .char ++ [.literal '\'' "a.esp".toList, .char ')']
      eq := by decide +kernel
      opens := by simp
      closes := by
        intro c hc
        have hblank : c = ' ' := by simpa using hc
        subst hblank
        decide }
    have hfound : x.found ∈ FunctionCall.findAll (mask condition.toList) := by decide +kernel
    have hforged : ¬ x.Forged := Span.not_forges (by decide +kernel)
    exact ⟨x, hfound, hforged, heval,
      ((evaluate_quoted host.answer host.directories none none condition).2 x hfound hforged).1
        true heval⟩
  · let x : CallSite condition'.toList := {
      function := .file
      before := "file(".toList.map .char ++ .literal '"' "a.esp".toList :: ") or ".toList.map .char
      inside := "a.esp".toList.map .char
      after := []
      eq := by decide +kernel
      opens := by
        rintro y ⟨⟩
        exact ⟨' ', rfl, rfl⟩
      closes := by
        have hall : ∀ c ∈ "a.esp".toList, c ≠ ')' ∧ isLineEnd c = false :=
          List.all_iff_forall_prop.1 (by decide)
        exact fun c hc => hall c (Span.char_mem_map_char.1 hc) }
    have hfound : x.found ∈ FunctionCall.findAll (mask condition'.toList) := by decide +kernel
    have hforged : ¬ x.Forged := Span.not_forges (by decide +kernel)
    have hplace : ∃ place ∈ x.stringPlaces, ∀ s, ¬ Quotes s place := by
      refine ⟨"a.esp".toList.map .char, by decide +kernel, ?_⟩
      rintro s ⟨q, l, r, -, h⟩
      have hq : Span.literal q s.toList ∈ "a.esp".toList.map .char := by
        rw [h]
        simp
      simp at hq
    exact ⟨x, hfound, hforged, hplace,
      ((evaluate_quoted host.answer host.directories none none condition').2 x hfound hforged).2
        hplace⟩

/-- A placeholder outside of quotes reads as a literal that stands in another call. -/
theorem evaluate_forged :
    let host : Host.Memory := { files := [("/game/Data/a.esp", ⟨#[0x78]⟩)] }
    let condition := "file({0}) or file(\"a.esp\")"
    ∃ x : CallSite condition.toList,
      x.found ∈ FunctionCall.findAll (mask condition.toList) ∧
      x.stringPlaces = ["{0}".toList.map .char] ∧ (∀ s, ¬ Quotes s ("{0}".toList.map .char)) ∧
      Call.read x.function x.found.rawArgs = .ok (.file "a.esp") ∧
      outcome host.answer none (evaluate host.directories none condition) = .ok true := by
  intro host condition
  refine ⟨⟨.file, [], "{0}".toList.map .char,
    " or file(".toList.map .char ++ [.literal '"' "a.esp".toList, .char ')'], ?_, ?_, ?_⟩,
    ?_, ?_, ?_, ?_, ?_⟩
  · decide +kernel
  · simp
  · have hall : ∀ c ∈ "{0}".toList, c ≠ ')' ∧ isLineEnd c = false :=
      List.all_iff_forall_prop.1 (by decide)
    exact fun c hc => hall c (Span.char_mem_map_char.1 hc)
  · decide +kernel
  · decide +kernel
  · rintro s ⟨q, l, r, -, h⟩
    have hq : Span.literal q s.toList ∈ "{0}".toList.map .char := by
      rw [h]
      simp
    simp at hq
  · decide +kernel
  · have ha : outcome host.answer none (answerCalls host.directories none
        (mask condition.toList).text (FunctionCall.findAll (mask condition.toList))) =
          .ok "True or True".toList := by decide +kernel
    exact outcome_evaluate_of_derives ha (by decide +kernel) (by decide +kernel)
      (derives_or true true)

end PluginAudit.Condition
