import PluginAudit.Proofs.ComposedConditions

/-!
# Placeholders that name no literal

A placeholder that is written outside of quotes and has the number of no literal is not restored and
belongs to no call that is read. Replacing the calls by their answers leaves it in the text
(`infix_replaceAll`), and there it is refused. So a condition with a value writes a placeholder only
if this forges a literal (`not_writesPlaceholder_of_ok`).
-/

namespace PluginAudit.Condition

open Text Literal Inspection FunctionCall

/-- Whether a literal of a condition is named, outside of quotes, by its placeholder. -/
def ForgesLiteral (text : String) : Prop :=
  Span.Forges (Span.literals (Span.cut text.toList)).length (Span.cut text.toList)

/-! ## Replacing beside a placeholder -/

/-- Whether every brace in a text opens something in braces, but not the given digits. -/
def Avoids (ds cs : List Char) : Prop :=
  ∀ a b, cs = a ++ '{' :: b → ∃ e rest, b = e ++ '}' :: rest ∧ '}' ∉ e ∧ e ≠ ds

theorem Avoids.tail {ds cs : List Char} {c : Char} (h : Avoids ds (c :: cs)) : Avoids ds cs :=
  fun a b he => h (c :: a) b (congrArg (c :: ·) he)

theorem infix_of_infix_cons {α : Type} {w cs : List α} {c : α} (hc : c ∉ w) (h : w <:+: c :: cs) :
    w <:+: cs := by
  rcases List.infix_cons_iff.1 h with hp | h
  · cases w with
    | nil => exact List.nil_infix
    | cons d w =>
      obtain ⟨rfl, -⟩ := List.cons_prefix_cons.1 hp
      exact absurd List.mem_cons_self hc
  · exact h

/-- A text without the first character of what is replaced stays. -/
theorem replaceAllFrom_append {o : Char} {u : List Char} (ho : o ∉ u) (os new v : List Char) :
    replaceAllFrom o os new (u ++ v) = u ++ replaceAllFrom o os new v := by
  induction u with
  | nil => rfl
  | cons c u ih =>
    simp only [List.mem_cons, not_or] at ho
    rw [List.cons_append, replaceAllFrom.eq_def]
    simp only [if_neg (Ne.symm ho.1), ih ho.2, List.cons_append]

section

variable {ds : List Char} (hd : ∀ d ∈ ds, isDigit d = true)
include hd

theorem closing_not_mem_digits : '}' ∉ ds := fun h => absurd (hd _ h) (by decide)

/-- What avoids a placeholder ends before it or begins after it. -/
theorem infix_of_avoids {os rest : List Char} (ha : Avoids ds os)
    (h : '{' :: ds ++ ['}'] <:+: os ++ rest) : '{' :: ds ++ ['}'] <:+: rest := by
  obtain ⟨u, v, h⟩ := h
  rw [List.append_assoc] at h
  rcases List.append_eq_append_iff.1 h with ⟨z, rfl, hz⟩ | ⟨z, rfl, rfl⟩
  · cases z with
    | nil => exact ⟨[], v, hz⟩
    | cons c z =>
      obtain ⟨rfl, hz'⟩ := List.cons.inj hz
      obtain ⟨e, tail, rfl, hclosing, hne⟩ := ha u z rfl
      have hdigits : ds ++ '}' :: v = e ++ '}' :: (tail ++ rest) := by simpa using hz'
      exact absurd (append_inj_of_not_mem (closing_not_mem_digits hd) hclosing hdigits).1.symm hne
  · exact ⟨z, v, List.append_assoc ..⟩

/-- A placeholder stays where texts are replaced that avoid it. -/
theorem infix_replaceAll {o : Char} {os cs : List Char} (new : List Char)
    (ho : o ∉ '{' :: ds ++ ['}']) (ha : Avoids ds os) (h : '{' :: ds ++ ['}'] <:+: cs) :
    '{' :: ds ++ ['}'] <:+: replaceAll (o :: os) new cs := by
  show _ <:+: replaceAllFrom o os new cs
  have hbehind {c : Char} {cs : List Char} (hw : '{' :: ds ++ ['}'] <:+: cs) :
      '{' :: ds ++ ['}'] <:+: c :: cs := hw.trans (List.suffix_cons c cs).isInfix
  induction cs using replaceAllFrom.induct o os with
  | case1 => simp at h
  | case2 cs rest hr _ ih =>
    obtain rfl := afterStart?_eq_some_iff.1 hr
    have hrest := ih (infix_of_avoids hd ha (infix_of_infix_cons ho h))
    rw [replaceAllFrom.eq_def]
    simp only [if_true]
    split
    · next rest' hr' =>
      rw [hr] at hr'
      cases hr'
      exact hrest.trans (List.suffix_append _ _).isInfix
    · next hr' =>
      rw [hr] at hr'
      cases hr'
  | case3 cs hr ih =>
    have hrest := ih (infix_of_infix_cons ho h)
    rw [replaceAllFrom.eq_def]
    simp only [if_true]
    split
    · next rest' hr' =>
      rw [hr] at hr'
      cases hr'
    · exact hbehind hrest
  | case4 c cs hc ih =>
    rcases List.infix_cons_iff.1 h with ⟨v, hv⟩ | h
    · rw [← hv, replaceAllFrom_append ho]
      exact (List.prefix_append _ _).isInfix
    · rw [replaceAllFrom.eq_def]
      simp only [if_neg hc]
      exact hbehind (ih h)

end

/-! ## Calls beside a placeholder -/

theorem Span.Forges.mono {count : Nat} {xs ys : List Span} (h : xs <:+: ys)
    (hf : Span.Forges count xs) : Span.Forges count ys := by
  obtain ⟨before, after, rfl⟩ := h
  obtain ⟨us, ds, vs, rfl, hds⟩ := hf
  exact ⟨before ++ us, ds, vs ++ after, by simp, hds⟩

/-- In masked spans that have no braces of their own, every brace opens the placeholder of a
literal. -/
theorem exists_numeral_of_brace {n : Nat} {xs : List Span} (hx : .char '{' ∉ xs) {a b : List Char}
    (h : Span.masked n xs = a ++ '{' :: b) :
    ∃ k rest, k < n + (Span.literals xs).length ∧ b = numeral k ++ '}' :: rest := by
  induction xs generalizing n a with
  | nil => simp [Span.masked] at h
  | cons x xs ih =>
    obtain ⟨hne, hxs⟩ := not_or.1 (mt List.mem_cons.2 hx)
    cases x with
    | char c =>
      cases a with
      | nil =>
        obtain ⟨rfl, -⟩ := List.cons.inj h
        exact absurd rfl hne
      | cons d a => exact ih hxs (List.cons.inj h).2
    | literal q content =>
      have hlength := Span.length_literals_cons q content xs n
      have hm : '{' :: (numeral n ++ ['}'] ++ Span.masked (n + 1) xs) = a ++ '{' :: b := h
      cases a with
      | nil =>
        obtain ⟨-, rfl⟩ := List.cons.inj hm
        exact ⟨n, Span.masked (n + 1) xs, by omega, List.append_assoc ..⟩
      | cons d a =>
        have hbrace : '{' ∉ numeral n ++ ['}'] := by simp [(brace_not_mem_numeral n).1]
        obtain ⟨a', -, hrest⟩ := eq_append_of_not_mem hbrace (List.cons.inj hm).2
        obtain ⟨k, rest, hk, rfl⟩ := ih hxs hrest
        exact ⟨k, rest, by omega, rfl⟩

/-- A call that is read avoids every placeholder that names no literal. -/
theorem avoids_callText {cs : List Char} {x : CallSite cs} (hx : .char '{' ∉ x.inside)
    {ds : List Char} (hds : (Span.literals (Span.cut cs)).length ≤ numeralValue ds) :
    Avoids ds x.found.callText := by
  intro a b h
  have hname : '{' ∉ x.function.name.toList ++ ['('] := brace_not_mem_name x.function
  have hcall : (x.function.name.toList ++ ['(']) ++
      Span.masked (Span.literals x.before).length (x.inside ++ [.char ')']) = a ++ '{' :: b := by
    rw [← h, Span.masked_append]
    simp [CallSite.found, CallSite.maskedInside, Span.masked]
  obtain ⟨a', -, hinside⟩ := eq_append_of_not_mem hname hcall
  obtain ⟨k, rest, hk, rfl⟩ := exists_numeral_of_brace (by simpa using hx) hinside
  refine ⟨numeral k, rest, rfl, (brace_not_mem_numeral k).2, ?_⟩
  rintro rfl
  have hclosing (xs : List Span) : Span.literals (.char ')' :: xs) = Span.literals xs := rfl
  have hnil : Span.literals [] = [] := rfl
  rw [numeralValue_numeral, x.eq] at hds
  simp only [Span.literals_append, Span.literals_map_char, hclosing, hnil, List.length_append,
    List.length_nil] at hds hk
  omega

/-! ## What is left of a condition -/

section

variable {host : Host.Fixed} {dirs : Host.Directories} {context : Option Package}
  {known : Option Facts}

theorem not_mem_placeholder_of_mem_name {f : Function} {ds : List Char}
    (hd : ∀ d ∈ ds, isDigit d = true) {c : Char} (hc : c ∈ f.name.toList) :
    c ∉ '{' :: ds ++ ['}'] := by
  have hall : ∀ c ∈ f.name.toList, isDigit c = false ∧ c ≠ '{' ∧ c ≠ '}' :=
    List.all_iff_forall_prop.1 (by cases f <;> decide)
  obtain ⟨hdigit, hopening, hclosing⟩ := hall c hc
  intro hm
  rcases List.mem_cons.1 hm with he | hm
  · exact hopening he
  · rcases List.mem_append.1 hm with hm | hm
    · rw [hd c hm] at hdigit
      cases hdigit
    · exact hclosing (List.mem_singleton.1 hm)

/-- Answering calls that avoid a placeholder leaves it in the text. -/
theorem infix_of_answerCalls {ds : List Char} (hd : ∀ d ∈ ds, isDigit d = true)
    {calls : List FunctionCall}
    (hc : ∀ call ∈ calls, ∃ o os, call.callText = o :: os ∧ o ∉ '{' :: ds ++ ['}'] ∧ Avoids ds os)
    {text answered : List Char} (h : '{' :: ds ++ ['}'] <:+: text)
    (ho : outcome host known (answerCalls dirs context text calls) = .ok answered) :
    '{' :: ds ++ ['}'] <:+: answered := by
  induction calls generalizing text with
  | nil =>
    cases ho
    exact h
  | cons call calls ih =>
    obtain ⟨⟨o, os, htext, hout, ha⟩, hcalls⟩ := List.forall_mem_cons.1 hc
    rw [outcome_answerCalls_cons, htext] at ho
    cases hv : call.result host known dirs context with
    | error f => rw [hv] at ho; cases ho
    | ok v =>
      rw [hv] at ho
      exact ih hcalls (infix_replaceAll hd _ hout ha h) ho

/-- No call that is read has a brace outside of literals, if no literal is forged. -/
theorem brace_not_mem_inside {text : String} (hf : ¬ ForgesLiteral text)
    {x : CallSite text.toList} {call : Call}
    (hr : Call.read x.found.function x.found.rawArgs = .ok call) : .char '{' ∉ x.inside := by
  have hinside : x.inside <:+: Span.cut text.toList := by
    refine ⟨x.before ++ (x.function.name.toList ++ ['(']).map .char, .char ')' :: x.after, ?_⟩
    rw [x.eq]
    simp
  rw [CallSite.rawArgs_found fun h => hf (h.mono hinside)] at hr
  obtain ⟨-, as, bs, hs, has, hbs⟩ := strings_of_read hr
  intro hm
  rcases char_of_split has hbs x.lexed_inside hs hm with hb | hc | hb
  · exact absurd hb (by decide)
  · exact absurd hc (by decide)
  · exact absurd hb (by decide)

/-- A condition with a value writes a placeholder only if this forges a literal. -/
theorem not_writesPlaceholder_of_ok {text : String} {v : Bool} (hf : ¬ ForgesLiteral text)
    (hv : outcome host known (evaluate dirs context text) = .ok v) :
    ¬ Span.WritesPlaceholder (Span.cut text.toList) := by
  rintro ⟨ds, hne, hdigit, hinfix⟩
  have hds : (Span.literals (Span.cut text.toList)).length ≤ numeralValue ds := by
    obtain ⟨us, vs, hcut⟩ := hinfix
    refine Nat.le_of_not_lt fun hlt => hf ⟨us, ds, vs, hcut.symm, hne, hdigit, hlt⟩
  have hmask : mask text.toList =
      ⟨Span.masked 0 (Span.cut text.toList), Span.literals (Span.cut text.toList)⟩ :=
    Span.maskFrom_eq 0 _
  have hmasked : '{' :: ds ++ ['}'] <:+: (mask text.toList).text := by
    obtain ⟨us, vs, hcut⟩ := hinfix
    rw [hmask, ← hcut, Span.masked_append, Span.masked_append, Span.masked_map_char]
    exact ⟨_, _, rfl⟩
  have hcalls : ∀ call ∈ findAll (mask text.toList), ∃ o os, call.callText = o :: os ∧
      o ∉ '{' :: ds ++ ['}'] ∧ Avoids ds os := by
    intro call hcall
    obtain ⟨w, hw⟩ := result_of_outcome_evaluate hv call hcall
    obtain ⟨c, hr, -⟩ := read_of_result hw
    obtain ⟨x, rfl⟩ := exists_callSite hcall
    have ha := avoids_callText (brace_not_mem_inside hf hr) hds
    obtain ⟨o, os, hname⟩ := List.exists_cons_of_ne_nil (name_ne_nil x.function)
    have htext : x.found.callText = o :: (os ++ '(' :: x.maskedInside ++ [')']) := by
      rw [CallSite.found, hname]
      rfl
    rw [htext] at ha
    have ho : o ∈ x.function.name.toList := by
      rw [hname]
      exact List.mem_cons_self
    exact ⟨o, _, htext, not_mem_placeholder_of_mem_name hdigit ho, ha.tail⟩
  have hbody := outcome_evaluateBody_of_ok hv
  rw [outcome_evaluateBody] at hbody
  cases hanswered : outcome host known (answerCalls dirs context (mask text.toList).text
      (findAll (mask text.toList))) with
  | error f => rw [hanswered] at hbody; cases hbody
  | ok answered =>
    have hleft := infix_of_answerCalls hdigit hcalls hmasked hanswered
    rw [hanswered] at hbody
    have hvalue : (Expression.evalText (String.ofList answered)).mapError Failure.condition =
      .ok v := hbody
    cases he : Expression.evalText (String.ofList answered) with
    | error f =>
      rw [he] at hvalue
      cases hvalue
    | ok w =>
      obtain ⟨ts, hspells, -⟩ := writes_iff.1 (Expression.evalText_eq_ok_iff.1 he)
      rw [String.toList_ofList] at hspells
      exact (hspells.plain '{' (hleft.subset List.mem_cons_self)).2 rfl

end

end PluginAudit.Condition
