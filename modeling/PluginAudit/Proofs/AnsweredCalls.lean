import PluginAudit.Condition.Evaluation
import PluginAudit.Proofs.CallSearch
import PluginAudit.Proofs.ConditionSteps

/-!
# Answering the calls of a condition

Each call that is answered is replaced by the word of its value, wherever its text occurs. A
condition is given by its pieces, which are calls and whatever stands between them. The invariant
`Apart` says that the calls still to be answered can be told apart by the placeholders in them; so
the text of a call occurs once, the other calls stay as they are, and in whatever order the calls
are answered, every one of them ends as the word of its own value (`outcome_answerCalls_asked`). A
call that fails ends the evaluation, wherever it stands (`outcome_answerCalls_error`).
-/

namespace PluginAudit.Condition

open Text Inspection

/-! ## Pieces -/

/-- A call with what is between its parentheses, given as things of some kind, and its answer. -/
structure Asked (α : Type) where
  function : Function
  args : List α
  answer : Bool

/-- A piece of a condition: something that stands by itself, or a call. -/
inductive Piece (α : Type) where
  | single (x : α)
  | call (c : Asked α)

namespace Piece

variable {α : Type} {char : Char → α}

/-- What a piece is made of. -/
def parts (char : Char → α) : Piece α → List α
  | single x => [x]
  | call c => c.function.name.toList.map char ++ char '(' :: (c.args ++ [char ')'])

/-- What a piece is made of once the calls are answered. -/
def answered (char : Char → α) : Piece α → List α
  | single x => [x]
  | call c => (Token.constant c.answer).text.toList.map char

def call? : Piece α → Option (Asked α)
  | single _ => none
  | call c => some c

/-- The calls among pieces. -/
def asked (ps : List (Piece α)) : List (Asked α) := ps.filterMap call?

def ofChars (char : Char → α) (cs : List Char) : List (Piece α) := cs.map fun c => single (char c)

theorem asked_append (ps qs : List (Piece α)) : asked (ps ++ qs) = asked ps ++ asked qs :=
  List.filterMap_append

theorem mem_asked {ps : List (Piece α)} {c : Asked α} : c ∈ asked ps ↔ call c ∈ ps := by
  rw [asked, List.mem_filterMap]
  constructor
  · rintro ⟨p, hp, h⟩
    cases p with
    | single x => cases h
    | call d =>
      cases h
      exact hp
  · exact fun h => ⟨_, h, rfl⟩

theorem parts_ofChars (cs : List Char) : (ofChars char cs).flatMap (parts char) = cs.map char := by
  rw [ofChars, List.flatMap_map]
  exact List.map_eq_flatMap.symm

theorem answered_ofChars (cs : List Char) :
    (ofChars char cs).flatMap (answered char) = cs.map char := by
  rw [ofChars, List.flatMap_map]
  exact List.map_eq_flatMap.symm

theorem asked_ofChars (cs : List Char) : asked (ofChars char cs) = [] := by
  induction cs with
  | nil => rfl
  | cons c cs ih => exact ih

/-- Without calls, nothing is answered. -/
theorem answered_of_asked_eq_nil {ps : List (Piece α)} (h : asked ps = []) :
    ps.flatMap (answered char) = ps.flatMap (parts char) := by
  refine List.flatMap_congr fun p hp => ?_
  cases p with
  | single x => rfl
  | call c =>
    have hm : c ∈ asked ps := mem_asked.2 hp
    rw [h] at hm
    cases hm

end Piece

open Piece

/-! ## Calls that can be told apart -/

/-- Pieces of a masked condition whose calls differ by their placeholders. -/
structure Apart (ps : List (Piece Glyph)) : Prop where
  unforged : ¬ Glyph.Forged (ps.flatMap (parts .char))
  nodup : (Glyph.slots (ps.flatMap (parts .char))).Nodup
  slots : ∀ c ∈ asked ps, Glyph.slots c.args ≠ []

theorem plain_of_token (t : Token) :
    ∀ c ∈ t.text.toList, Literal.isQuote c = false ∧ c ≠ '{' := by
  refine List.all_iff_forall_prop.1 ?_
  cases t with
  | constant b => cases b <;> decide
  | _ => decide

theorem slots_map_char (cs : List Char) : Glyph.slots (cs.map .char) = [] := by
  induction cs with
  | nil => rfl
  | cons c cs ih => exact ih

theorem slots_call (c : Asked Glyph) :
    Glyph.slots (parts .char (.call c)) = Glyph.slots c.args := by
  have hp : parts .char (.call c) =
      c.function.name.toList.map .char ++ ([Glyph.char '('] ++ (c.args ++ [.char ')'])) := rfl
  rw [hp, slots_append, slots_map_char, slots_append, slots_append]
  exact List.append_nil _

theorem texts_call (c : Asked Glyph) :
    Glyph.texts (parts .char (.call c)) =
      c.function.name.toList ++ '(' :: Glyph.texts c.args ++ [')'] := by
  have hp : parts .char (.call c) =
      c.function.name.toList.map .char ++ .char '(' :: (c.args ++ [.char ')']) := rfl
  rw [hp, texts_append, texts_map_char]
  simp [Glyph.texts, Glyph.text]

/-- A part of a list is on one side of something that is not in it. -/
theorem infix_of_infix_append_cons {α : Type} {m a b : List α} {x : α} (hx : x ∉ m)
    (h : m <:+: a ++ x :: b) : m <:+: a ∨ m <:+: b := by
  obtain ⟨s, t, h⟩ := h
  rw [List.append_assoc] at h
  rcases List.append_eq_append_iff.1 h with ⟨w, rfl, hw⟩ | ⟨w, rfl, hw⟩
  · obtain ⟨a', rfl, -⟩ := eq_append_of_not_mem hx hw
    exact .inl ⟨s, a', by simp⟩
  · cases w with
    | nil =>
      cases m with
      | nil => exact .inl List.nil_infix
      | cons y m =>
        cases (List.cons.inj hw).1
        exact absurd List.mem_cons_self hx
    | cons y w =>
      obtain ⟨rfl, rfl⟩ := List.cons.inj hw
      exact .inr ⟨w, t, by simp⟩

theorem infix_of_infix_append {α : Type} {m a w b : List α} (hw : ∀ x ∈ w, x ∉ m) (hne : w ≠ [])
    (h : m <:+: a ++ (w ++ b)) : m <:+: a ∨ m <:+: b := by
  induction w generalizing a with
  | nil => exact absurd rfl hne
  | cons x w ih =>
    rcases infix_of_infix_append_cons (hw x List.mem_cons_self) h with h | h
    · exact .inl h
    · by_cases hn : w = []
      · exact .inr (by rwa [hn] at h)
      · rcases ih (a := []) (fun y hy => hw y (List.mem_cons_of_mem _ hy)) hn h with h | h
        · exact .inl (h.trans List.nil_infix)
        · exact .inr h

theorem word_ne_digit (b : Bool) :
    ∀ c ∈ (Token.constant b).text.toList, c ≠ '{' ∧ c ≠ '}' ∧ isDigit c = false :=
  List.all_iff_forall_prop.1 (by cases b <;> decide)

/-- The word of an answer completes no placeholder. -/
theorem not_forged_word {as bs : List Glyph} {b : Bool} (ha : ¬ Glyph.Forged as)
    (hb : ¬ Glyph.Forged bs) :
    ¬ Glyph.Forged (as ++ ((Token.constant b).text.toList.map .char ++ bs)) := by
  rintro ⟨ds, hne, hdigit, hd⟩
  have hword : ∀ g ∈ (Token.constant b).text.toList.map Glyph.char,
      g ∉ ('{' :: ds ++ ['}']).map .char := by
    intro g hg hm
    obtain ⟨c, hc, rfl⟩ := List.mem_map.1 hg
    obtain ⟨d, hd, he⟩ := List.mem_map.1 hm
    cases he
    obtain ⟨ho, hcl, hdig⟩ := word_ne_digit b c hc
    rcases List.mem_append.1 hd with hd | hd
    · rcases List.mem_cons.1 hd with rfl | hd
      · exact ho rfl
      · rw [hdigit c hd] at hdig
        cases hdig
    · exact hcl (List.mem_singleton.1 hd)
  have hnil : (Token.constant b).text.toList.map Glyph.char ≠ [] := by cases b <;> decide
  rcases infix_of_infix_append hword hnil hd with h | h
  · exact ha ⟨ds, hne, hdigit, h⟩
  · exact hb ⟨ds, hne, hdigit, h⟩

/-- Answering one call leaves the others apart. -/
theorem Apart.answer {ps qs : List (Piece Glyph)} {c : Asked Glyph}
    (h : Apart (ps ++ .call c :: qs)) :
    Apart (ps ++ (ofChars Glyph.char (Token.constant c.answer).text.toList ++ qs)) := by
  obtain ⟨hu, hn, hs⟩ := h
  rw [List.flatMap_append, List.flatMap_cons] at hu hn
  constructor
  · rw [List.flatMap_append, List.flatMap_append, parts_ofChars]
    exact not_forged_word (fun hf => hu (hf.mono (List.prefix_append _ _).isInfix))
      fun hf => hu (hf.mono ((List.suffix_append _ _).trans (List.suffix_append _ _)).isInfix)
  · rw [List.flatMap_append, List.flatMap_append, parts_ofChars]
    refine hn.sublist ?_
    rw [slots_append, slots_append, slots_append, slots_append, slots_map_char]
    exact (List.Sublist.refl _).append ((List.nil_sublist _).append (List.Sublist.refl _))
  · intro d hd
    refine hs d ?_
    rw [asked_append, asked_append, asked_ofChars] at hd
    rw [asked_append]
    rcases List.mem_append.1 hd with hd | hd
    · exact List.mem_append_left _ hd
    · exact List.mem_append_right _ (List.mem_cons_of_mem _ hd)

/-- The text of a call is replaced where the call stands, and nowhere else. -/
theorem replaceAll_call {ps qs : List (Piece Glyph)} {c : Asked Glyph}
    (h : Apart (ps ++ .call c :: qs)) :
    replaceAll (c.function.name.toList ++ '(' :: Glyph.texts c.args ++ [')'])
      (Token.constant c.answer).text.toList
      (Glyph.texts ((ps ++ .call c :: qs).flatMap (parts .char))) =
      Glyph.texts ((ps ++ (ofChars Glyph.char (Token.constant c.answer).text.toList ++ qs)).flatMap
        (parts .char)) := by
  have hs : Glyph.slots (parts .char (.call c)) ≠ [] := by
    rw [slots_call]
    exact h.slots c (mem_asked.2 (List.mem_append_right _ List.mem_cons_self))
  have hg : (ps ++ .call c :: qs).flatMap (parts .char) =
      ps.flatMap (parts .char) ++ parts .char (.call c) ++ qs.flatMap (parts .char) := by
    rw [List.flatMap_append, List.flatMap_cons, List.append_assoc]
  have hu := h.unforged
  have hn := h.nodup
  rw [hg] at hu hn
  rw [← texts_call, hg, replaceAll_texts hu hn hs, List.flatMap_append, List.flatMap_append,
    parts_ofChars, texts_append, texts_append, texts_map_char, List.append_assoc]

/-! ## Answering one call after the other -/

variable {host : Host.Fixed} {dirs : Host.Directories} {context : Option Package}
  {known : Option Facts}

theorem outcome_ofFault {α : Type} (r : Except Fault α) :
    outcome host known (ofFault r) = r.mapError .condition := by
  cases r <;> rfl

/-- What comes of a call by itself: of reading it and asking for its value. -/
def FunctionCall.result (host : Host.Fixed) (known : Option Facts) (dirs : Host.Directories)
    (context : Option Package) (call : FunctionCall) : Except Failure Bool :=
  (Call.read call.function call.rawArgs).mapError .condition >>= fun c =>
    outcome host known (c.holds dirs context)

theorem FunctionCall.result_of_read {call : FunctionCall} {c : Call}
    (h : Call.read call.function call.rawArgs = .ok c) :
    call.result host known dirs context = outcome host known (c.holds dirs context) := by
  rw [result, h]
  rfl

theorem FunctionCall.result_of_unread {call : FunctionCall} {f : Fault}
    (h : Call.read call.function call.rawArgs = .error f) :
    call.result host known dirs context = .error (.condition f) := by
  rw [result, h]
  rfl

theorem outcome_answerCalls_cons (text : List Char) (call : FunctionCall)
    (calls : List FunctionCall) :
    outcome host known (answerCalls dirs context text (call :: calls)) =
      call.result host known dirs context >>= fun b =>
        outcome host known (answerCalls dirs context
          (replaceAll call.callText (Token.constant b).text.toList text) calls) := by
  have hword (b : Bool) :
      (if b then "True" else "False").toList = (Token.constant b).text.toList := by
    cases b <;> rfl
  have hreport (c : Call) (b : Bool) : Composed false context (Inspection.report
      (.called call.function.name (String.ofList call.rawArgs) b)) :=
    .report _ (by simp [Log.Event.level])
  have hrest (text : List Char) : Composed false context (answerCalls dirs context text calls) :=
    composed_answerCalls dirs text calls
  rw [answerCalls, Composed.outcome_bind (.ofFault _) fun c =>
    .bind (composed_holds dirs c) fun b => .bind (hreport c b) fun _ => hrest _, outcome_ofFault,
    FunctionCall.result, bind_assoc]
  refine congrArg _ (funext fun c => ?_)
  rw [Composed.outcome_bind (composed_holds dirs c) fun b => .bind (hreport c b) fun _ => hrest _]
  refine congrArg _ (funext fun b => ?_)
  rw [Composed.outcome_bind (hreport c b) fun _ => hrest _, hword]
  rfl

/-- A call as it is found. -/
def Asked.found (literals : List (List Char)) (c : Asked Glyph) : FunctionCall :=
  .ofMasked literals c.function (Glyph.texts c.args)

/-- In whatever order the calls are answered, each becomes the word of its value. -/
theorem outcome_answerCalls_asked {literals : List (List Char)} {cs : List (Asked Glyph)}
    {ps : List (Piece Glyph)} (h : Apart ps) (hp : cs.Perm (asked ps))
    (hr : ∀ c ∈ cs, (c.found literals).result host known dirs context = .ok c.answer) :
    outcome host known (answerCalls dirs context (Glyph.texts (ps.flatMap (parts .char)))
      (cs.map (Asked.found literals))) = .ok (Glyph.texts (ps.flatMap (answered .char))) := by
  -- on the calls still to be answered; the pieces change with each of them, but stay `Apart`
  induction cs generalizing ps with
  | nil =>
    have hnil : asked ps = [] := List.nil_perm.1 hp
    rw [answered_of_asked_eq_nil hnil]
    rfl
  | cons c cs ih =>
    obtain ⟨qs, rs, rfl⟩ :=
      List.append_of_mem (mem_asked.1 (hp.mem_iff.1 (List.mem_cons_self (a := c))))
    have hperm : cs.Perm
        (asked (qs ++ (ofChars Glyph.char (Token.constant c.answer).text.toList ++ rs))) := by
      rw [asked_append] at hp
      rw [asked_append, asked_append, asked_ofChars, List.nil_append]
      exact (hp.trans List.perm_middle).cons_inv
    have ih' := ih h.answer hperm fun d hd => hr d (List.mem_cons_of_mem _ hd)
    rw [List.map_cons, outcome_answerCalls_cons, hr c List.mem_cons_self]
    show outcome host known (answerCalls dirs context (replaceAll _ _ _) _) = _
    rw [Asked.found, FunctionCall.ofMasked, replaceAll_call h, ih']
    simp only [List.flatMap_append, List.flatMap_cons, answered_ofChars]
    rfl

/-- Calls that are all answered have results. -/
theorem result_of_outcome_answerCalls {text answered : List Char} {calls : List FunctionCall}
    (h : outcome host known (answerCalls dirs context text calls) = .ok answered) :
    ∀ call ∈ calls, ∃ v, call.result host known dirs context = .ok v := by
  induction calls generalizing text with
  | nil => exact fun call hc => by cases hc
  | cons call calls ih =>
    rw [outcome_answerCalls_cons] at h
    cases hv : call.result host known dirs context with
    | error f => rw [hv] at h; cases h
    | ok v =>
      rw [hv] at h
      intro call' hm
      rcases List.mem_cons.1 hm with rfl | hm
      · exact ⟨v, hv⟩
      · exact ih h call' hm

/-- A call without a result ends the evaluation, unless one before it does. -/
theorem outcome_answerCalls_stops {call : FunctionCall} {f : Failure}
    (h : call.result host known dirs context = .error f) (calls calls' : List FunctionCall)
    (text : List Char) :
    ∃ g, outcome host known (answerCalls dirs context text (calls ++ call :: calls')) = .error g ∧
      (g = f ∨ ∃ y ∈ calls, y.result host known dirs context = .error g) := by
  induction calls generalizing text with
  | nil =>
    rw [List.nil_append, outcome_answerCalls_cons, h]
    exact ⟨f, rfl, .inl rfl⟩
  | cons y calls ih =>
    rw [List.cons_append, outcome_answerCalls_cons]
    cases hy : y.result host known dirs context with
    | error g => exact ⟨g, rfl, .inr ⟨y, List.mem_cons_self, hy⟩⟩
    | ok b =>
      obtain ⟨g, hg, hcause⟩ := ih (replaceAll y.callText (Token.constant b).text.toList text)
      refine ⟨g, hg, ?_⟩
      rcases hcause with hf | ⟨z, hz, hfail⟩
      · exact .inl hf
      · exact .inr ⟨z, List.mem_cons_of_mem _ hz, hfail⟩

/-- A call that fails ends the evaluation. -/
theorem outcome_answerCalls_error {call : FunctionCall} {c : Call} {f : Failure}
    (hr : Call.read call.function call.rawArgs = .ok c)
    (hc : outcome host known (c.holds dirs context) = .error f) {calls : List FunctionCall}
    (h : call ∈ calls) (text : List Char) :
    ∃ f, outcome host known (answerCalls dirs context text calls) = .error f := by
  obtain ⟨before, after, rfl⟩ := List.append_of_mem h
  have hresult : call.result host known dirs context = .error f := by
    rw [FunctionCall.result_of_read hr, hc]
  obtain ⟨g, hg, -⟩ := outcome_answerCalls_stops hresult before after text
  exact ⟨g, hg⟩

/-! ## Parts as pieces -/

/-- Masked parts whose calls differ by their placeholders. -/
structure Distinct (ps : List (Part Glyph)) : Prop where
  plain : ∀ g ∈ glyphs ps, g.IsPlain
  nodup : (Glyph.slots (glyphs ps)).Nodup
  slots : ∀ x ∈ callsOf ps, Glyph.slots x.2 ≠ []

namespace Part

/-- A part with its call, if it is one, replaced by the word of its value. -/
def answered {α : Type} (value : Call → Bool) : Part α → Part α
  | .call c _ => .token (.constant (value c))
  | p => p

/-- The pieces of a part, given the values of calls. -/
def asPieces (value : Call → Bool) : Part Glyph → List (Piece Glyph)
  | blank c => [.single (.char c)]
  | token t => ofChars .char t.text.toList
  | call c args => [.call ⟨c.function, args, value c⟩]

theorem parts_asPieces (value : Call → Bool) (ps : List (Part Glyph)) :
    (ps.flatMap (asPieces value)).flatMap (parts .char) = glyphs ps := by
  rw [List.flatMap_assoc, glyphs]
  refine List.flatMap_congr fun p _ => ?_
  cases p with
  | blank c => rfl
  | token t => exact parts_ofChars _
  | call c args => exact List.flatMap_singleton ..

theorem answered_asPieces (value : Call → Bool) (ps : List (Part Glyph)) :
    (ps.flatMap (asPieces value)).flatMap (Piece.answered .char) =
      glyphs (ps.map (answered value)) := by
  rw [List.flatMap_assoc, glyphs, List.flatMap_map]
  refine List.flatMap_congr fun p _ => ?_
  cases p with
  | blank c => rfl
  | token t => exact answered_ofChars _
  | call c args => exact List.flatMap_singleton ..

theorem asked_asPieces (value : Call → Bool) (ps : List (Part Glyph)) :
    asked (ps.flatMap (asPieces value)) =
      (callsOf ps).map fun x => ⟨x.1.function, x.2, value x.1⟩ := by
  induction ps with
  | nil => rfl
  | cons p ps ih =>
    rw [List.flatMap_cons, asked_append, ih]
    cases p with
    | blank c => rfl
    | token t => rw [asPieces, asked_ofChars]; rfl
    | call c args => rfl

end Part

theorem Distinct.apart {ps : List (Part Glyph)} (h : Distinct ps) (value : Call → Bool) :
    Apart (ps.flatMap (Part.asPieces value)) := by
  constructor
  · rw [Part.parts_asPieces]
    exact Glyph.not_forged_of_isPlain h.plain
  · rw [Part.parts_asPieces]
    exact h.nodup
  · intro c hc
    rw [Part.asked_asPieces] at hc
    obtain ⟨x, hx, rfl⟩ := List.mem_map.1 hc
    exact h.slots x hx

/-- The calls among parts become the words of their values. -/
theorem outcome_answerCalls {literals : List (List Char)} {value : Call → Bool}
    {xs : List (Call × List Glyph)} {ps : List (Part Glyph)} (h : Distinct ps)
    (hp : xs.Perm (callsOf ps))
    (hr : ∀ x ∈ xs, Call.read x.1.function
      (Literal.restore literals (Glyph.texts x.2)) = .ok x.1)
    (hv : ∀ x ∈ xs, outcome host known (x.1.holds dirs context) = .ok (value x.1)) :
    outcome host known (answerCalls dirs context (line ps)
      (xs.map (FunctionCall.found literals))) = .ok (line (ps.map (Part.answered value))) := by
  let ask (x : Call × List Glyph) : Asked Glyph := ⟨x.1.function, x.2, value x.1⟩
  have hperm : (xs.map ask).Perm (asked (ps.flatMap (Part.asPieces value))) := by
    rw [Part.asked_asPieces]
    exact hp.map ask
  have hresult : ∀ c ∈ xs.map ask,
      (c.found literals).result host known dirs context = .ok c.answer := by
    intro c hc
    obtain ⟨x, hx, rfl⟩ := List.mem_map.1 hc
    have hread : Call.read ((ask x).found literals).function ((ask x).found literals).rawArgs =
        .ok x.1 := hr x hx
    rw [FunctionCall.result_of_read hread]
    exact hv x hx
  have hanswered := outcome_answerCalls_asked (h.apart value) hperm hresult
  rw [Part.parts_asPieces, Part.answered_asPieces, List.map_map] at hanswered
  exact hanswered

end PluginAudit.Condition
