import PluginAudit.Proofs.CallSearch

/-!
# Where the calls of a condition stand

Masking cuts any condition, well formed or not, into spans: the quoted literals, found from left to
right, and the characters outside of them (`cut`). A call is searched for in the masked condition,
but its name, its parentheses and what is between them are spans of the condition itself. A
`CallSite` is such a place, and every call that is found has one (`exists_callSite`).

The text between the parentheses of a call is got back from the masked one (`fill_masked`), unless
it is forged: a placeholder that the author of the condition wrote outside of quotes cannot be told
from that of a literal, which may stand anywhere in the condition (`Forges`).
-/

namespace PluginAudit.Condition

open Text Literal

/-- A piece of a condition as masking finds it. -/
inductive Span where
  /-- A character outside of literals. -/
  | char (c : Char)
  | literal (quote : Char) (content : List Char)
  deriving Repr, DecidableEq

namespace Span

def text : Span → List Char
  | char c => [c]
  | literal q content => q :: content ++ [q]

def literal? : Span → Option (List Char)
  | char _ => none
  | literal q content => some (q :: content ++ [q])

def texts (xs : List Span) : List Char := xs.flatMap text

def literals (xs : List Span) : List (List Char) := xs.filterMap literal?

/-- Spans with placeholders for their literals, the first of which has number `next`. -/
def masked (next : Nat) : List Span → List Char
  | [] => []
  | char c :: xs => c :: masked next xs
  | literal _ _ :: xs => placeholder next ++ masked (next + 1) xs

/-- The spans of a text. A literal begins with a quote that has another one of its kind after it,
and ends with the next of them. -/
def cut : List Char → List Span
  | [] => []
  | c :: cs =>
    if isQuote c then
      match h : closing? c cs with
      | some (inside, rest) =>
        have := length_lt_of_closing? h
        literal c inside :: cut rest
      | none => char c :: cut cs
    else char c :: cut cs
  termination_by cs => cs.length

/-- What is known of spans that were cut: the content of a literal is without its quote, and after a
quote outside of literals there is no other of its kind. -/
def Lexed : List Span → Prop
  | [] => True
  | char c :: xs => (isQuote c = true → c ∉ texts xs) ∧ Lexed xs
  | literal q content :: xs => (isQuote q = true ∧ q ∉ content) ∧ Lexed xs

/-! ## Cutting a text -/

theorem texts_append (xs ys : List Span) : texts (xs ++ ys) = texts xs ++ texts ys :=
  List.flatMap_append

theorem char_mem_map_char {c : Char} {cs : List Char} : char c ∈ cs.map char ↔ c ∈ cs := by
  simp

/-- A text is empty, or begins with a character outside of literals, or with a literal. -/
@[elab_as_elim]
theorem cut_induction {motive : List Char → Prop} (nil : motive [])
    (char : ∀ c cs, (isQuote c = true → c ∉ cs) → motive cs → motive (c :: cs))
    (literal : ∀ q content rest, isQuote q = true → q ∉ content → motive rest →
      motive (q :: (content ++ q :: rest))) (cs : List Char) : motive cs := by
  induction cs using cut.induct with
  | case1 => exact nil
  | case2 c cs hq content rest h _ ih =>
    obtain ⟨hn, rfl⟩ := eq_of_closing? h
    exact literal c content rest hq hn ih
  | case3 c cs _ h ih => exact char c cs (fun _ => not_mem_of_closing? h) ih
  | case4 c cs hq ih => exact char c cs (fun h => absurd h hq) ih

theorem cut_nil : cut [] = [] := by
  rw [cut.eq_def]

theorem cut_char {c : Char} {cs : List Char} (h : isQuote c = true → c ∉ cs) :
    cut (c :: cs) = char c :: cut cs := by
  rw [cut.eq_def]
  by_cases hq : isQuote c = true
  · have hn := closing?_eq_none (h hq)
    grind
  · simp only [hq]
    rfl

theorem cut_literal {q : Char} {content : List Char} (hq : isQuote q = true) (h : q ∉ content)
    (rest : List Char) : cut (q :: (content ++ q :: rest)) = literal q content :: cut rest := by
  have hn := closing?_append h rest
  rw [cut.eq_def]
  grind

theorem texts_cut (cs : List Char) : texts (cut cs) = cs := by
  induction cs using cut_induction with
  | nil => rw [cut_nil]; rfl
  | char c cs h ih => rw [cut_char h]; exact congrArg (c :: ·) ih
  | literal q content rest hq h ih =>
    have hl : texts (literal q content :: cut rest) = q :: (content ++ [q]) ++ texts (cut rest) :=
      rfl
    rw [cut_literal hq h, hl, ih]
    simp

theorem lexed_cut (cs : List Char) : Lexed (cut cs) := by
  induction cs using cut_induction with
  | nil => rw [cut_nil]; trivial
  | char c cs h ih => rw [cut_char h]; exact ⟨by rwa [texts_cut], ih⟩
  | literal q content rest hq h ih => rw [cut_literal hq h]; exact ⟨⟨hq, h⟩, ih⟩

/-- Spans of which that is known are the spans of their text. -/
theorem Lexed.cut_texts {xs : List Span} (h : Lexed xs) : cut (texts xs) = xs := by
  induction xs with
  | nil => exact cut_nil
  | cons x xs ih =>
    cases x with
    | char c => exact (cut_char h.1).trans (congrArg _ (ih h.2))
    | literal q content =>
      have ht : texts (.literal q content :: xs) = q :: (content ++ q :: texts xs) := by
        simp [texts, text]
      rw [ht, cut_literal h.1.1 h.1.2, ih h.2]

/-- Masking a text is masking its spans. -/
theorem maskFrom_eq (n : Nat) (cs : List Char) :
    maskFrom n cs = ⟨masked n (cut cs), literals (cut cs)⟩ := by
  induction cs using cut_induction generalizing n with
  | nil => rw [cut_nil, maskFrom.eq_def]; rfl
  | char c cs h ih => rw [maskFrom_char h, cut_char h, ih]; rfl
  | literal q content rest hq h ih =>
    rw [maskFrom_literal hq h, cut_literal hq h, ih]
    rfl

/-! ## Parts of the spans -/

theorem Lexed.left {xs ys : List Span} (h : Lexed (xs ++ ys)) : Lexed xs := by
  induction xs with
  | nil => trivial
  | cons x xs ih =>
    cases x with
    | char c =>
      have hc : c ∈ texts xs → c ∈ texts (xs ++ ys) := fun hc => by
        rw [texts_append]
        exact List.mem_append_left _ hc
      exact ⟨fun hq hm => h.1 hq (hc hm), ih h.2⟩
    | literal q content => exact ⟨h.1, ih h.2⟩

theorem Lexed.right {xs ys : List Span} (h : Lexed (xs ++ ys)) : Lexed ys := by
  induction xs with
  | nil => exact h
  | cons x xs ih =>
    cases x with
    | char c => exact ih h.2
    | literal q content => exact ih h.2

theorem literals_append (xs ys : List Span) :
    literals (xs ++ ys) = literals xs ++ literals ys :=
  List.filterMap_append

theorem literals_map_char (cs : List Char) : literals (cs.map char) = [] := by
  induction cs with
  | nil => rfl
  | cons c cs ih => exact ih

theorem length_literals_cons (q : Char) (content : List Char) (xs : List Span) (n : Nat) :
    n + (literals (literal q content :: xs)).length = n + 1 + (literals xs).length := by
  have hl : literals (literal q content :: xs) = (q :: content ++ [q]) :: literals xs := rfl
  rw [hl, List.length_cons]
  omega

theorem masked_append (n : Nat) (xs ys : List Span) :
    masked n (xs ++ ys) = masked n xs ++ masked (n + (literals xs).length) ys := by
  induction xs generalizing n with
  | nil => rfl
  | cons x xs ih =>
    cases x with
    | char c => exact congrArg (c :: ·) (ih n)
    | literal q content =>
      rw [length_literals_cons, List.cons_append, masked, masked, ih, List.append_assoc]

theorem masked_map_char (n : Nat) (cs : List Char) : masked n (cs.map char) = cs := by
  induction cs with
  | nil => rfl
  | cons c cs ih => exact congrArg (c :: ·) ih

theorem mem_masked {c : Char} {xs : List Span} (h : char c ∈ xs) (n : Nat) : c ∈ masked n xs := by
  induction xs generalizing n with
  | nil => cases h
  | cons x xs ih =>
    cases x with
    | char d =>
      rcases List.mem_cons.1 h with he | h
      · cases he
        exact List.mem_cons_self
      · exact List.mem_cons_of_mem _ (ih h n)
    | literal q content =>
      rcases List.mem_cons.1 h with he | h
      · cases he
      · exact List.mem_append_right _ (ih h (n + 1))

/-- Where a masked text begins with characters that are not part of a placeholder, the text itself
begins with them. -/
theorem eq_of_masked_eq_append {w : List Char} (hw : '{' ∉ w) {n : Nat} {xs : List Span}
    {b : List Char} (h : masked n xs = w ++ b) :
    ∃ zs, xs = w.map char ++ zs ∧ masked n zs = b := by
  induction w generalizing xs with
  | nil => exact ⟨xs, rfl, h⟩
  | cons c w ih =>
    simp only [List.mem_cons, not_or] at hw
    cases xs with
    | nil => cases h
    | cons x xs =>
      cases x with
      | char d =>
        obtain ⟨rfl, ht⟩ := List.cons.inj h
        obtain ⟨zs, rfl, hz⟩ := ih hw.2 ht
        exact ⟨zs, rfl, hz⟩
      | literal q content => exact absurd (List.cons.inj h).1 hw.1

/-- Where a character that is in no placeholder stands in a masked text, it stands in the text
itself. -/
theorem eq_of_masked_eq_middle {c : Char} (hc : ∀ k, c ∉ placeholder k) {n : Nat}
    {xs : List Span} {a b : List Char} (h : masked n xs = a ++ c :: b) :
    ∃ ys zs, xs = ys ++ char c :: zs ∧ masked n ys = a ∧
      masked (n + (literals ys).length) zs = b := by
  induction xs generalizing n a with
  | nil => simp [masked] at h
  | cons x xs ih =>
    cases x with
    | char d =>
      have hd : d :: masked n xs = a ++ c :: b := h
      cases a with
      | nil =>
        obtain ⟨rfl, ht⟩ := List.cons.inj hd
        exact ⟨[], xs, rfl, rfl, ht⟩
      | cons e a =>
        obtain ⟨rfl, ht⟩ := List.cons.inj hd
        obtain ⟨ys, zs, rfl, rfl, hz⟩ := ih ht
        exact ⟨char d :: ys, zs, rfl, rfl, hz⟩
    | literal q content =>
      have hp : placeholder n ++ masked (n + 1) xs = a ++ c :: b := h
      obtain ⟨a', rfl, ht⟩ := eq_append_of_not_mem (hc n) hp
      obtain ⟨ys, zs, rfl, rfl, hz⟩ := ih ht
      refine ⟨literal q content :: ys, zs, rfl, rfl, ?_⟩
      rwa [length_literals_cons]

/-! ## Restoring -/

/-- Whether one of so many literals is named, outside of quotes, by its placeholder. -/
def Forges (count : Nat) (xs : List Span) : Prop :=
  ∃ ys ds zs, xs = ys ++ ('{' :: ds ++ ['}']).map char ++ zs ∧ ds ≠ [] ∧
    (∀ d ∈ ds, isDigit d = true) ∧ numeralValue ds < count

theorem Forges.cons {count : Nat} {xs : List Span} (h : Forges count xs) (x : Span) :
    Forges count (x :: xs) := by
  obtain ⟨ys, ds, zs, rfl, hd⟩ := h
  exact ⟨x :: ys, ds, zs, rfl, hd⟩

theorem not_forges {count : Nat} {xs : List Span} (h : char '{' ∉ xs) : ¬ Forges count xs := by
  rintro ⟨ys, ds, zs, rfl, -⟩
  simp at h

/-- The placeholders of a part of a text become its literals again, if none is forged there. -/
theorem fill_masked {xs : List Span} (before after : List (List Char))
    (h : ¬ Forges (before ++ literals xs ++ after).length xs) :
    fill (before ++ literals xs ++ after) (masked before.length xs) = texts xs := by
  induction xs generalizing before with
  | nil => rw [masked, fill.eq_def]; rfl
  | cons x xs ih =>
    cases x with
    | char c =>
      have hl : literals (char c :: xs) = literals xs := rfl
      have hm : masked before.length (char c :: xs) = c :: masked before.length xs := rfl
      rw [hl] at h ⊢
      rw [hm, fill_cons, ih before fun hf => h (hf.cons _)]
      · rfl
      · rintro rfl ds rest hd
        obtain ⟨hne, hdigit, he⟩ := eq_of_placeholderDigits? hd
        obtain ⟨zs, rfl, -⟩ := eq_of_masked_eq_append (w := ds ++ ['}'])
          (brace_not_mem_digits hdigit) (by simpa using he)
        refine Nat.le_of_not_lt fun hlt => h ⟨[], ds, zs, by simp, hne, hdigit, ?_⟩
        exact hlt
    | literal q content =>
      have hl : before ++ literals (literal q content :: xs) ++ after =
          (before ++ [q :: content ++ [q]]) ++ literals xs ++ after := by
        simp [literals, literal?]
      have hb : (before ++ [q :: content ++ [q]]).length = before.length + 1 := List.length_append
      have hi := ih (before ++ [q :: content ++ [q]])
      rw [← hl, hb] at hi
      have hm : masked before.length (literal q content :: xs) =
          placeholder before.length ++ masked (before.length + 1) xs := rfl
      rw [hm, fill_slot, hi fun hf => h (hf.cons _)]
      simp [literals, literal?, texts, text]

end Span

/-! ## Places of calls -/

open FunctionCall

/-- A place in a text at which a call stands. -/
structure CallSite (cs : List Char) where
  function : Function
  before : List Span
  /-- What is between the parentheses of the call. -/
  inside : List Span
  after : List Span
  eq : Span.cut cs =
    before ++ (function.name.toList ++ ['(']).map .char ++ (inside ++ .char ')' :: after)
  /-- It stands at the beginning, or after a blank or an opening parenthesis. -/
  opens : ∀ x ∈ before.getLast?, ∃ c, x = .char c ∧ mayPrecede c = true
  /-- It ends with the first closing parenthesis, on the same line. -/
  closes : ∀ c, .char c ∈ inside → c ≠ ')' ∧ isLineEnd c = false

namespace CallSite

variable {cs : List Char}

/-- Whether a literal is named by its placeholder between the parentheses of the call. -/
def Forged (x : CallSite cs) : Prop := Span.Forges (Span.literals (Span.cut cs)).length x.inside

/-- What is between the parentheses, masked. -/
def maskedInside (x : CallSite cs) : List Char :=
  Span.masked (Span.literals x.before).length x.inside

/-- The call as it is found in the masked text. -/
def found (x : CallSite cs) : FunctionCall where
  function := x.function
  rawArgs := restore (Span.literals (Span.cut cs)) x.maskedInside
  callText := x.function.name.toList ++ '(' :: x.maskedInside ++ [')']

theorem lexed_inside (x : CallSite cs) : Span.Lexed x.inside := by
  have h := Span.lexed_cut cs
  rw [x.eq] at h
  exact h.right.left

/-- What is read as the arguments of a call is what is written between its parentheses. -/
theorem rawArgs_found {x : CallSite cs} (h : ¬ x.Forged) :
    x.found.rawArgs = Span.texts x.inside := by
  have hl : Span.literals (Span.cut cs) =
      Span.literals x.before ++ Span.literals x.inside ++ Span.literals x.after := by
    have ha : Span.literals (.char ')' :: x.after) = Span.literals x.after := rfl
    rw [x.eq, Span.literals_append, Span.literals_append, Span.literals_append,
      Span.literals_map_char, ha, List.append_nil, List.append_assoc]
  rw [Forged, hl] at h
  show fill (Span.literals (Span.cut cs)) _ = _
  rw [hl]
  exact Span.fill_masked _ _ h

end CallSite

/-- What is read up to a closing parenthesis has none in it and is on one line. -/
theorem eq_of_upTo? {cs args rest : List Char} (h : upTo? [')'] cs = some (args, rest)) :
    cs = args ++ ')' :: rest ∧ ∀ c ∈ args, c ≠ ')' ∧ isLineEnd c = false := by
  induction cs generalizing args with
  | nil => cases h
  | cons c cs ih =>
    rw [upTo?, afterStart?] at h
    by_cases hc : ')' = c
    · rw [if_pos hc] at h
      cases h
      exact ⟨by rw [hc]; rfl, fun d hd => by cases hd⟩
    · rw [if_neg hc] at h
      cases hl : isLineEnd c with
      | true =>
        simp only [hl, if_true] at h
        cases h
      | false =>
        simp only [hl, Bool.false_eq_true, if_false] at h
        obtain ⟨⟨args', rest'⟩, h', he⟩ := Option.map_eq_some_iff.1 h
        cases he
        obtain ⟨rfl, hargs⟩ := ih h'
        refine ⟨rfl, fun d hd => ?_⟩
        rcases List.mem_cons.1 hd with rfl | hd
        · exact ⟨Ne.symm hc, hl⟩
        · exact hargs d hd

theorem eq_of_here? {name cs args rest : List Char} (h : here? name cs = some (args, rest)) :
    cs = name ++ '(' :: (args ++ ')' :: rest) ∧ ∀ c ∈ args, c ≠ ')' ∧ isLineEnd c = false := by
  obtain ⟨ds, hs, hds⟩ := Option.bind_eq_some_iff.1 h
  obtain ⟨rfl, hargs⟩ := eq_of_upTo? hds
  refine ⟨?_, hargs⟩
  rw [afterStart?_eq_some_iff.1 hs]
  simp

/-- Where the arguments of a call are found, a call stands. -/
theorem eq_of_mem_argumentsAfter {name args cs : List Char} (h : args ∈ argumentsAfter name cs) :
    ∃ a c b, cs = a ++ c :: (name ++ '(' :: (args ++ ')' :: b)) ∧ mayPrecede c = true ∧
      ∀ c ∈ args, c ≠ ')' ∧ isLineEnd c = false := by
  induction cs using argumentsAfter.induct name with
  | case1 => rw [argumentsAfter.eq_def] at h; cases h
  | case2 c cs hp args' rest hh _ ih =>
    obtain ⟨rfl, hargs⟩ := eq_of_here? hh
    rw [argumentsAfter_cons, hp, scan_of_here?_eq_some hh] at h
    rcases List.mem_cons.1 h with rfl | h
    · exact ⟨[], c, rest, rfl, hp, hargs⟩
    · obtain ⟨a, d, b, rfl, hd⟩ := ih h
      exact ⟨c :: (name ++ '(' :: (args' ++ ')' :: a)), d, b, by simp, hd⟩
  | case3 c cs hp hh ih =>
    rw [argumentsAfter_cons, scan_of_here?_eq_none hh] at h
    obtain ⟨a, d, b, rfl, hd⟩ := ih h
    exact ⟨c :: a, d, b, rfl, hd⟩
  | case4 c cs hp ih =>
    rw [argumentsAfter_cons, Bool.eq_false_iff.2 hp] at h
    obtain ⟨a, d, b, rfl, hd⟩ := ih h
    exact ⟨c :: a, d, b, rfl, hd⟩

theorem eq_of_mem_argumentsIn {name args cs : List Char} (h : args ∈ argumentsIn name cs) :
    ∃ a b, cs = a ++ (name ++ '(' :: (args ++ ')' :: b)) ∧
      (∀ c ∈ a.getLast?, mayPrecede c = true) ∧ ∀ c ∈ args, c ≠ ')' ∧ isLineEnd c = false := by
  rw [argumentsIn] at h
  split at h
  · next args' rest hh =>
    obtain ⟨rfl, hargs⟩ := eq_of_here? hh
    rcases List.mem_cons.1 h with rfl | hm
    · exact ⟨[], rest, rfl, by simp, hargs⟩
    · obtain ⟨a, c, b, rfl, hc, hargs⟩ := eq_of_mem_argumentsAfter hm
      refine ⟨name ++ '(' :: (args' ++ ')' :: a) ++ [c], b, by simp, ?_, hargs⟩
      rw [List.getLast?_concat]
      rintro _ ⟨⟩
      exact hc
  · obtain ⟨a, c, b, rfl, hc, hargs⟩ := eq_of_mem_argumentsAfter h
    exact ⟨a ++ [c], b, by simp, by simpa using hc, hargs⟩

/-- What the masked text may have right before a call, the text itself has. -/
theorem Span.opens_of_masked {ys : List Span}
    (h : ∀ c ∈ (masked 0 ys).getLast?, mayPrecede c = true) :
    ∀ x ∈ ys.getLast?, ∃ c, x = .char c ∧ mayPrecede c = true := by
  intro x hx
  obtain ⟨ys, rfl⟩ := List.getLast?_eq_some_iff.1 hx
  rw [masked_append] at h
  cases x with
  | char c => exact ⟨c, rfl, h c (by simp [masked])⟩
  | literal q content =>
    have hp (k : Nat) : masked k [literal q content] = ('{' :: numeral k) ++ ['}'] :=
      List.append_nil _
    rw [hp, ← List.append_assoc, List.getLast?_concat] at h
    exact absurd (h '}' rfl) (by decide)

/-- Every call that is found stands somewhere. -/
theorem exists_callSite {cs : List Char} {call : FunctionCall} (h : call ∈ findAll (mask cs)) :
    ∃ x : CallSite cs, x.found = call := by
  obtain ⟨f, -, hf⟩ := List.mem_flatMap.1 h
  obtain ⟨args, hargs, rfl⟩ := List.mem_map.1 hf
  have hmask : mask cs = ⟨Span.masked 0 (Span.cut cs), Span.literals (Span.cut cs)⟩ :=
    Span.maskFrom_eq 0 cs
  rw [hmask] at hargs ⊢
  obtain ⟨a, b, htext, hopens, hcloses⟩ := eq_of_mem_argumentsIn hargs
  obtain ⟨d, name, hname⟩ := List.exists_cons_of_ne_nil (name_ne_nil f)
  have hplain : ∀ c ∈ f.name.toList, c ≠ '{' ∧ ∀ k, c ∉ placeholder k := by
    intro c hc
    have hall : ∀ c ∈ f.name.toList, isDigit c = false ∧ c ≠ '{' ∧ c ≠ '}' :=
      List.all_iff_forall_prop.1 (by cases f <;> decide)
    obtain ⟨hd, ho, hb⟩ := hall c hc
    exact ⟨ho, not_mem_placeholder hd ho hb⟩
  rw [hname] at htext hplain
  -- the name, its parenthesis and the one that closes are in no placeholder
  obtain ⟨ys, zs, hcut, hys, hzs⟩ :=
    Span.eq_of_masked_eq_middle (hplain d List.mem_cons_self).2 htext
  have hw : '{' ∉ name ++ ['('] := by
    intro hm
    rcases List.mem_append.1 hm with hm | hm
    · exact (hplain _ (List.mem_cons_of_mem _ hm)).1 rfl
    · exact absurd hm (by decide)
  rw [Nat.zero_add] at hzs
  obtain ⟨zs, rfl, hrest⟩ :=
    Span.eq_of_masked_eq_append hw (b := args ++ ')' :: b) (by simpa using hzs)
  obtain ⟨inside, after, rfl, hinside, -⟩ :=
    Span.eq_of_masked_eq_middle (not_mem_placeholder rfl (by decide) (by decide)) hrest
  refine ⟨⟨f, ys, inside, after, ?_, Span.opens_of_masked (hys ▸ hopens), fun c hc => ?_⟩, ?_⟩
  · rw [hcut, hname]
    simp
  · exact hcloses c (hinside ▸ Span.mem_masked hc _)
  · simp [CallSite.found, CallSite.maskedInside, hinside]

end PluginAudit.Condition
