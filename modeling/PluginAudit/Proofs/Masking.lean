import PluginAudit.Condition.Literal
import Mathlib.Data.List.Nodup

/-!
# Masked texts

A condition as its author sees it is a list of chunks: characters, and literals in double quotes. A
masked condition is a list of glyphs: characters, and the placeholders of literals. Masking numbers
the literals (`mask_texts`), restoring puts them back (`restore_number`).

Placeholders can be told apart from everything around them, unless one is written in characters
(`Glyph.Forged`): wherever one occurs in a text of glyphs, it is one of the glyphs
(`eq_of_slot_occurs`). So a text that contains a placeholder occurs at most once, and replacing its
occurrences replaces that one (`replaceAll_texts`).
-/

namespace PluginAudit.Condition

open Text Literal

inductive Chunk where
  | char (c : Char)
  | literal (content : List Char)

namespace Chunk

def text : Chunk → List Char
  | char c => [c]
  | literal content => '"' :: content ++ ['"']

def literal? : Chunk → Option (List Char)
  | char _ => none
  | literal content => some ('"' :: content ++ ['"'])

/-- A character that masking and restoring leave alone, or a literal that ends at its last quote. -/
def IsPlain : Chunk → Prop
  | char c => isQuote c = false ∧ c ≠ '{'
  | literal content => '"' ∉ content

def texts (xs : List Chunk) : List Char := xs.flatMap text

def literals (xs : List Chunk) : List (List Char) := xs.filterMap literal?

end Chunk

/-- A piece of a masked condition. -/
inductive Glyph where
  | char (c : Char)
  | slot (n : Nat)

namespace Glyph

def text : Glyph → List Char
  | char c => [c]
  | slot n => placeholder n

def slot? : Glyph → Option Nat
  | char _ => none
  | slot n => some n

/-- No opening brace but that of a placeholder. -/
def IsPlain (g : Glyph) : Prop := g ≠ char '{'

/-- What a piece stands for, given the literals. -/
def restored (literals : List (List Char)) : Glyph → List Char
  | char c => [c]
  | slot n => (literals[n]?).getD (placeholder n)

def texts (gs : List Glyph) : List Char := gs.flatMap text

/-- The numbers of the placeholders among pieces. -/
def slots (gs : List Glyph) : List Nat := gs.filterMap slot?

/-- Whether characters write a placeholder. -/
def Forged (gs : List Glyph) : Prop :=
  ∃ ds, ds ≠ [] ∧ (∀ d ∈ ds, isDigit d = true) ∧ ('{' :: ds ++ ['}']).map char <:+: gs

end Glyph

/-- Pieces with their literals masked, the first of them having number `next`. -/
def number (next : Nat) : List Chunk → List Glyph
  | [] => []
  | .char c :: xs => .char c :: number next xs
  | .literal _ :: xs => .slot next :: number (next + 1) xs

/-! ## Numerals -/

theorem numeral_eq (n : Nat) : numeral n = Nat.toDigits 10 n := by
  rw [numeral, Nat.toString_eq_ofList_toDigits, String.toList_ofList]

theorem isDigit_of_mem_numeral {n : Nat} {c : Char} (h : c ∈ numeral n) : isDigit c = true := by
  rw [numeral_eq] at h
  have hd : c.isDigit = true := Nat.isDigit_of_mem_toDigits (by decide) (by decide) h
  simpa [Char.isDigit, isDigit, Char.le_def] using hd

theorem numeral_ne_nil (n : Nat) : numeral n ≠ [] := by
  rw [numeral_eq]
  exact Nat.toDigits_ne_nil

theorem numeralValue_numeral (n : Nat) : numeralValue (numeral n) = n := by
  rw [numeral_eq]
  exact Nat.ofDigitChars_ten_toDigits

theorem numeral_injective {m n : Nat} (h : numeral m = numeral n) : m = n := by
  rw [← numeralValue_numeral m, h, numeralValue_numeral]

theorem brace_not_mem_numeral (n : Nat) : '{' ∉ numeral n ∧ '}' ∉ numeral n :=
  ⟨fun h => absurd (isDigit_of_mem_numeral h) (by decide),
    fun h => absurd (isDigit_of_mem_numeral h) (by decide)⟩

theorem not_mem_placeholder {c : Char} (hd : isDigit c = false) (ho : c ≠ '{') (hc : c ≠ '}')
    (k : Nat) : c ∉ placeholder k := by
  intro h
  rcases List.mem_cons.1 h with rfl | h
  · exact ho rfl
  rcases List.mem_append.1 h with h | h
  · exact absurd (isDigit_of_mem_numeral h) (by simp [hd])
  · exact hc (List.mem_singleton.1 h)

/-! ## Masking -/

theorem closing?_append {q : Char} {content : List Char} (h : q ∉ content) (rest : List Char) :
    closing? q (content ++ q :: rest) = some (content, rest) := by
  induction content with
  | nil => simp [closing?]
  | cons c content ih =>
    simp only [List.mem_cons, not_or] at h
    rw [List.cons_append, closing?, if_neg (Ne.symm h.1), ih h.2]
    rfl

theorem eq_of_closing? {q : Char} {cs content rest : List Char}
    (h : closing? q cs = some (content, rest)) : q ∉ content ∧ cs = content ++ q :: rest := by
  induction cs generalizing content with
  | nil => cases h
  | cons c cs ih =>
    rw [closing?] at h
    by_cases hc : c = q
    · rw [if_pos hc] at h
      cases h
      exact ⟨List.not_mem_nil, by rw [hc]; rfl⟩
    · rw [if_neg hc] at h
      obtain ⟨⟨content', rest'⟩, h', he⟩ := Option.map_eq_some_iff.1 h
      cases he
      obtain ⟨hq, rfl⟩ := ih h'
      exact ⟨by simp [Ne.symm hc, hq], rfl⟩

theorem not_mem_of_closing? {q : Char} {cs : List Char} (h : closing? q cs = none) : q ∉ cs := by
  intro hq
  obtain ⟨content, rest, rfl, hn⟩ := List.eq_append_cons_of_mem hq
  rw [closing?_append hn] at h
  cases h

theorem closing?_eq_none {q : Char} {cs : List Char} (h : q ∉ cs) : closing? q cs = none := by
  refine Option.eq_none_iff_forall_ne_some.2 fun r hr => ?_
  obtain ⟨-, rfl⟩ := eq_of_closing? hr
  simp at h

theorem maskFrom_char {c : Char} {cs : List Char} (h : isQuote c = true → c ∉ cs) (n : Nat) :
    maskFrom n (c :: cs) = ⟨c :: (maskFrom n cs).text, (maskFrom n cs).literals⟩ := by
  rw [maskFrom.eq_def]
  by_cases hq : isQuote c = true
  · have hn := closing?_eq_none (h hq)
    grind
  · simp [hq]

theorem maskFrom_literal {q : Char} {content : List Char} (hq : isQuote q = true)
    (h : q ∉ content) (n : Nat) (cs : List Char) :
    maskFrom n (q :: (content ++ q :: cs)) =
      ⟨placeholder n ++ (maskFrom (n + 1) cs).text,
        (q :: content ++ [q]) :: (maskFrom (n + 1) cs).literals⟩ := by
  have hn := closing?_append h cs
  rw [maskFrom.eq_def]
  grind

theorem maskFrom_texts {xs : List Chunk} (h : ∀ x ∈ xs, x.IsPlain) (n : Nat) :
    maskFrom n (Chunk.texts xs) = ⟨Glyph.texts (number n xs), Chunk.literals xs⟩ := by
  induction xs generalizing n with
  | nil => rw [Chunk.texts, List.flatMap_nil, maskFrom.eq_def]; rfl
  | cons x xs ih =>
    have hx := h x List.mem_cons_self
    have ih' := fun n => ih (fun y hy => h y (List.mem_cons_of_mem _ hy)) n
    cases x with
    | char c =>
      have ht : Chunk.texts (.char c :: xs) = c :: Chunk.texts xs := rfl
      rw [ht, maskFrom_char fun hq => by simp [hx.1] at hq, ih']
      rfl
    | literal content =>
      have ht : Chunk.texts (.literal content :: xs) =
          '"' :: (content ++ '"' :: Chunk.texts xs) := by
        simp [Chunk.texts, Chunk.text]
      rw [ht, maskFrom_literal rfl hx, ih']
      rfl

theorem mask_texts {xs : List Chunk} (h : ∀ x ∈ xs, x.IsPlain) :
    mask (Chunk.texts xs) = ⟨Glyph.texts (number 0 xs), Chunk.literals xs⟩ :=
  maskFrom_texts h 0

/-! ## Numbering -/

theorem literals_append (xs ys : List Chunk) :
    Chunk.literals (xs ++ ys) = Chunk.literals xs ++ Chunk.literals ys :=
  List.filterMap_append

theorem number_append (n : Nat) (xs ys : List Chunk) :
    number n (xs ++ ys) = number n xs ++ number (n + (Chunk.literals xs).length) ys := by
  induction xs generalizing n with
  | nil => rfl
  | cons x xs ih =>
    cases x with
    | char c => exact congrArg (.char c :: ·) (ih n)
    | literal content =>
      have hl : n + (Chunk.literals (.literal content :: xs)).length =
          n + 1 + (Chunk.literals xs).length := by
        simp [Chunk.literals, Chunk.literal?]
        omega
      rw [hl]
      exact congrArg (.slot n :: ·) (ih (n + 1))

theorem slots_number (n : Nat) (xs : List Chunk) :
    Glyph.slots (number n xs) = List.range' n (Chunk.literals xs).length := by
  induction xs generalizing n with
  | nil => rfl
  | cons x xs ih =>
    cases x with
    | char c => exact ih n
    | literal content => exact congrArg (n :: ·) (ih (n + 1))

theorem isPlain_of_mem_number {xs : List Chunk} (h : ∀ x ∈ xs, x.IsPlain) (n : Nat) :
    ∀ g ∈ number n xs, g.IsPlain := by
  induction xs generalizing n with
  | nil => exact fun g hg => by cases hg
  | cons x xs ih =>
    have ih' := fun n => ih (fun y hy => h y (List.mem_cons_of_mem _ hy)) n
    intro g hg
    cases x with
    | char c =>
      rcases List.mem_cons.1 hg with rfl | hg
      · have hc : c ≠ '{' := (h _ List.mem_cons_self).2
        simpa [Glyph.IsPlain] using hc
      · exact ih' n g hg
    | literal content =>
      rcases List.mem_cons.1 hg with rfl | hg
      · simp [Glyph.IsPlain]
      · exact ih' (n + 1) g hg

/-! ## Restoring -/

theorem placeholderDigits?_digits {ds : List Char} (hne : ds ≠ [])
    (hd : ∀ d ∈ ds, isDigit d = true) (rest : List Char) :
    placeholderDigits? (ds ++ '}' :: rest) = some (ds, rest) := by
  have ht : (ds ++ '}' :: rest).takeWhile isDigit = ds := by
    rw [List.takeWhile_append_of_pos hd, List.takeWhile_cons_of_neg (by decide), List.append_nil]
  have hr : (ds ++ '}' :: rest).dropWhile isDigit = '}' :: rest := by
    rw [List.dropWhile_append_of_pos hd, List.dropWhile_cons_of_neg (by decide)]
  obtain ⟨e, es, rfl⟩ := List.exists_cons_of_ne_nil hne
  rw [placeholderDigits?, ht, hr]
  rfl

/-- What is put in place of a placeholder, be it that of a literal or not. -/
theorem fill_placeholder {ds : List Char} (hne : ds ≠ []) (hd : ∀ d ∈ ds, isDigit d = true)
    (items : List (List Char)) (rest : List Char) :
    fill items ('{' :: (ds ++ '}' :: rest)) =
      (items[numeralValue ds]?).getD ('{' :: ds ++ ['}']) ++ fill items rest := by
  have hdigits := placeholderDigits?_digits hne hd rest
  rw [fill.eq_def]
  simp only [if_true]
  split
  · next ds' rest' h =>
    rw [hdigits] at h
    cases h
    rfl
  · next h =>
    rw [hdigits] at h
    cases h

theorem fill_slot (items : List (List Char)) (n : Nat) (rest : List Char) :
    fill items (placeholder n ++ rest) =
      (items[n]?).getD (placeholder n) ++ fill items rest := by
  have hp : placeholder n ++ rest = '{' :: (numeral n ++ '}' :: rest) := by simp [placeholder]
  rw [hp, fill_placeholder (numeral_ne_nil n) fun d hd => isDigit_of_mem_numeral hd,
    numeralValue_numeral]
  rfl

theorem eq_of_placeholderDigits? {cs ds rest : List Char}
    (h : placeholderDigits? cs = some (ds, rest)) :
    ds ≠ [] ∧ (∀ d ∈ ds, isDigit d = true) ∧ cs = ds ++ '}' :: rest := by
  unfold placeholderDigits? at h
  split at h
  · next d ds' rest' ht hr =>
    cases h
    have hd : (cs.takeWhile isDigit).all isDigit = true := List.all_takeWhile
    refine ⟨List.cons_ne_nil _ _, ?_, ?_⟩
    · rw [ht] at hd
      exact List.all_eq_true.1 hd
    · rw [← ht, ← hr, List.takeWhile_append_dropWhile]
  · cases h

theorem brace_not_mem_digits {ds : List Char} (h : ∀ d ∈ ds, isDigit d = true) :
    '{' ∉ ds ++ ['}'] := by
  intro hm
  rcases List.mem_append.1 hm with hm | hm
  · exact absurd (h _ hm) (by decide)
  · exact absurd hm (by decide)

theorem fill_append {u : List Char} (hu : '{' ∉ u) (items : List (List Char)) (v : List Char) :
    fill items (u ++ v) = u ++ fill items v := by
  induction u with
  | nil => rfl
  | cons c u ih =>
    simp only [List.mem_cons, not_or] at hu
    rw [List.cons_append, fill.eq_def]
    simp only [if_neg (Ne.symm hu.1), ih hu.2, List.cons_append]

/-- A character that does not begin the placeholder of an item stays. -/
theorem fill_cons {items : List (List Char)} {c : Char} {cs : List Char}
    (h : c = '{' → ∀ ds rest, placeholderDigits? cs = some (ds, rest) →
      items.length ≤ numeralValue ds) :
    fill items (c :: cs) = c :: fill items cs := by
  rw [fill.eq_def]
  by_cases hc : c = '{'
  · simp only [if_pos hc]
    split
    · next ds rest hd =>
      obtain ⟨-, hdigit, rfl⟩ := eq_of_placeholderDigits? hd
      have hn : items[numeralValue ds]? = none := List.getElem?_eq_none (h hc ds rest hd)
      have hr := fill_append (brace_not_mem_digits hdigit) items rest
      rw [List.append_assoc, List.singleton_append] at hr
      rw [hn, hr, hc]
      rfl
    · rfl
  · simp only [if_neg hc]

theorem fill_texts {gs : List Glyph} (h : ∀ g ∈ gs, g.IsPlain) (items : List (List Char)) :
    fill items (Glyph.texts gs) = gs.flatMap (Glyph.restored items) := by
  induction gs with
  | nil => rw [Glyph.texts, List.flatMap_nil, fill.eq_def]; rfl
  | cons g gs ih =>
    have ih' := ih fun g hg => h g (List.mem_cons_of_mem _ hg)
    have ht : Glyph.texts (g :: gs) = g.text ++ Glyph.texts gs := rfl
    rw [ht, List.flatMap_cons]
    cases g with
    | char c =>
      have hc : c ≠ '{' := fun hc => h _ List.mem_cons_self (hc ▸ rfl)
      rw [Glyph.text, List.singleton_append, fill_cons fun h => absurd h hc, ih']
      rfl
    | slot n => rw [Glyph.text, fill_slot, ih', Glyph.restored]

theorem restored_number (before after : List (List Char)) (xs : List Chunk) :
    (number before.length xs).flatMap
      (Glyph.restored (before ++ Chunk.literals xs ++ after)) = Chunk.texts xs := by
  induction xs generalizing before with
  | nil => rfl
  | cons x xs ih =>
    cases x with
    | char c => exact congrArg (c :: ·) (ih before)
    | literal content =>
      have hb : before ++ Chunk.literals (.literal content :: xs) ++ after =
          (before ++ ['"' :: content ++ ['"']]) ++ Chunk.literals xs ++ after := by
        simp [Chunk.literals, Chunk.literal?]
      have hi := ih (before ++ ['"' :: content ++ ['"']])
      rw [List.length_append, List.length_singleton] at hi
      rw [hb, number, List.flatMap_cons, hi]
      simp [Glyph.restored, Chunk.texts, Chunk.text]

/-- Restoring puts the literals of a part of a text back. -/
theorem restore_number {xs : List Chunk} (h : ∀ x ∈ xs, x.IsPlain)
    (before after : List (List Char)) :
    restore (before ++ Chunk.literals xs ++ after) (Glyph.texts (number before.length xs)) =
      Chunk.texts xs := by
  rw [restore, fill_texts (isPlain_of_mem_number h _), restored_number]

/-! ## Replacing -/

theorem replaceAll_of_not_occurs {old cs : List Char} (new : List Char)
    (h : ∀ before after, cs ≠ before ++ old ++ after) : replaceAll old new cs = cs := by
  cases old with
  | nil => rfl
  | cons o os =>
    induction cs with
    | nil => rw [replaceAll, replaceAllFrom.eq_def]
    | cons c cs ih =>
      have ih' : replaceAllFrom o os new cs = cs :=
        ih fun before after he => h (c :: before) after (by rw [he]; rfl)
      rw [replaceAll, replaceAllFrom.eq_def]
      simp only [ih']
      split
      · next hc =>
        split
        · next rest hr =>
          refine absurd ?_ (h [] rest)
          rw [hc, afterStart?_eq_some_iff.1 hr]
          rfl
        · rfl
      · rfl

/-- A text that occurs once is replaced there. -/
theorem replaceAll_of_occurs_once {old : List Char} (ho : old ≠ []) (new a b : List Char)
    (h : ∀ before after, a ++ old ++ b = before ++ old ++ after → before = a) :
    replaceAll old new (a ++ old ++ b) = a ++ new ++ b := by
  cases old with
  | nil => exact absurd rfl ho
  | cons o os =>
    induction a with
    | nil =>
      have hb : replaceAll (o :: os) new b = b := by
        refine replaceAll_of_not_occurs new fun before after he => ?_
        have := h (o :: os ++ before) after (by simp [he])
        simp at this
      rw [replaceAll] at hb
      rw [List.nil_append, List.nil_append, List.cons_append, replaceAll, replaceAllFrom.eq_def]
      simp only [if_true]
      split
      · next rest hr =>
        have he := afterStart?_eq_some_iff.1 hr
        rw [← List.append_cancel_left he, hb]
      · next hr =>
        rw [afterStart?_eq_some_iff.2 rfl] at hr
        cases hr
    | cons c a ih =>
      have ih' := ih fun before after he =>
        (List.cons.inj (h (c :: before) after (by simp [he]))).2
      rw [replaceAll] at ih'
      rw [replaceAll, List.cons_append, List.cons_append, replaceAllFrom.eq_def]
      simp only [ih']
      split
      · next hc =>
        split
        · next rest hr =>
          have he := h [] rest (by
            rw [List.cons_append, List.cons_append, afterStart?_eq_some_iff.1 hr, hc]
            rfl)
          cases he
        · rfl
      · rfl

theorem append_inj_of_not_mem {α : Type} {c : α} {u v s t : List α} (hu : c ∉ u) (hv : c ∉ v)
    (h : u ++ c :: s = v ++ c :: t) : u = v ∧ s = t := by
  rcases List.append_eq_append_iff.1 h with ⟨w, rfl, hw⟩ | ⟨w, rfl, hw⟩
  · cases w with
    | nil => exact ⟨by simp, (List.cons.inj hw).2⟩
    | cons d w =>
      cases (List.cons.inj hw).1
      exact absurd (by simp) hv
  · cases w with
    | nil => exact ⟨by simp, (List.cons.inj hw).2.symm⟩
    | cons d w =>
      cases (List.cons.inj hw).1
      exact absurd (by simp) hu

theorem eq_append_of_not_mem {α : Type} {c : α} {u a s t : List α} (hu : c ∉ u)
    (h : u ++ s = a ++ c :: t) : ∃ a', a = u ++ a' ∧ s = a' ++ c :: t := by
  rcases List.append_eq_append_iff.1 h with ⟨w, rfl, hw⟩ | ⟨w, rfl, hw⟩
  · exact ⟨w, rfl, hw⟩
  · cases w with
    | nil => exact ⟨[], by simp, hw.symm⟩
    | cons d w =>
      cases (List.cons.inj hw).1
      exact absurd (by simp) hu

namespace Glyph

theorem not_forged_of_isPlain {gs : List Glyph} (h : ∀ g ∈ gs, g.IsPlain) : ¬ Forged gs := by
  rintro ⟨ds, -, -, hd⟩
  have hm : char '{' ∈ gs := hd.subset List.mem_cons_self
  exact h _ hm rfl

theorem Forged.mono {gs hs : List Glyph} (h : gs <:+: hs) (hf : Forged gs) : Forged hs := by
  obtain ⟨ds, hne, hdigit, hd⟩ := hf
  exact ⟨ds, hne, hdigit, hd.trans h⟩

/-- Where a text begins with characters that are not part of a placeholder, they are glyphs. -/
theorem eq_of_texts_eq_append {w : List Char} (hw : '{' ∉ w) {gs : List Glyph} {b : List Char}
    (h : texts gs = w ++ b) : ∃ hs, gs = w.map char ++ hs ∧ texts hs = b := by
  induction w generalizing gs with
  | nil => exact ⟨gs, rfl, h⟩
  | cons c w ih =>
    simp only [List.mem_cons, not_or] at hw
    cases gs with
    | nil => cases h
    | cons g gs =>
      cases g with
      | char d =>
        obtain ⟨rfl, ht⟩ := List.cons.inj h
        obtain ⟨hs, rfl, hb⟩ := ih hw.2 ht
        exact ⟨hs, rfl, hb⟩
      | slot k => exact absurd (List.cons.inj h).1.symm (Ne.symm hw.1)

end Glyph

/-- Wherever a placeholder occurs in a text of pieces, it is one of them. -/
theorem eq_of_slot_occurs {gs : List Glyph} (hp : ¬ Glyph.Forged gs) {a b : List Char} {k : Nat}
    (h : Glyph.texts gs = a ++ placeholder k ++ b) :
    ∃ xs ys, gs = xs ++ .slot k :: ys ∧ Glyph.texts xs = a := by
  have hk : a ++ placeholder k ++ b = a ++ '{' :: (numeral k ++ '}' :: b) := by simp [placeholder]
  rw [hk] at h
  clear hk
  induction gs generalizing a with
  | nil => simp [Glyph.texts] at h
  | cons g gs ih =>
    have ih' := fun {a} => ih (fun hf => hp (hf.mono (List.suffix_cons g gs).isInfix)) (a := a)
    cases g with
    | char c =>
      have h' : c :: Glyph.texts gs = a ++ '{' :: (numeral k ++ '}' :: b) := h
      cases a with
      | nil =>
        -- the characters of the placeholder would be glyphs themselves
        obtain ⟨rfl, ht⟩ := List.cons.inj h'
        have hb : '{' ∉ numeral k ++ ['}'] := by simp [(brace_not_mem_numeral k).1]
        obtain ⟨hs, rfl, -⟩ := Glyph.eq_of_texts_eq_append hb (b := b) (by simpa using ht)
        refine absurd ⟨numeral k, numeral_ne_nil k, fun d => isDigit_of_mem_numeral, ?_⟩ hp
        exact ⟨[], hs, rfl⟩
      | cons d a =>
        obtain ⟨rfl, ht⟩ := List.cons.inj h'
        obtain ⟨xs, ys, rfl, hx⟩ := ih' ht
        exact ⟨.char c :: xs, ys, rfl, congrArg (c :: ·) hx⟩
    | slot j =>
      have h' : '{' :: (numeral j ++ '}' :: Glyph.texts gs) =
          a ++ '{' :: (numeral k ++ '}' :: b) := by
        rw [← h]
        simp [Glyph.texts, Glyph.text, placeholder]
      cases a with
      | nil =>
        have hn : numeral j = numeral k :=
          (append_inj_of_not_mem (brace_not_mem_numeral j).2 (brace_not_mem_numeral k).2
            (List.cons.inj h').2).1
        exact ⟨[], gs, by rw [numeral_injective hn]; rfl, rfl⟩
      | cons d a =>
        obtain ⟨rfl, ht⟩ := List.cons.inj h'
        -- the occurrence cannot begin inside this placeholder, which has no second brace
        have hb : '{' ∉ numeral j ++ ['}'] := by simp [(brace_not_mem_numeral j).1]
        obtain ⟨a', rfl, ha⟩ := eq_append_of_not_mem hb (by simpa using ht)
        obtain ⟨xs, ys, rfl, rfl⟩ := ih' ha
        exact ⟨.slot j :: xs, ys, rfl, by simp [Glyph.texts, Glyph.text, placeholder]⟩

theorem slots_append (gs gs' : List Glyph) :
    Glyph.slots (gs ++ gs') = Glyph.slots gs ++ Glyph.slots gs' :=
  List.filterMap_append

theorem texts_append (gs gs' : List Glyph) :
    Glyph.texts (gs ++ gs') = Glyph.texts gs ++ Glyph.texts gs' :=
  List.flatMap_append

theorem mem_slots {gs : List Glyph} {k : Nat} : k ∈ Glyph.slots gs ↔ Glyph.slot k ∈ gs := by
  rw [Glyph.slots, List.mem_filterMap]
  constructor
  · rintro ⟨g, hg, hk⟩
    cases g with
    | char c => cases hk
    | slot n =>
      cases hk
      exact hg
  · exact fun h => ⟨_, h, rfl⟩

/-- A text that contains a placeholder is replaced where it stands, and nowhere else. -/
theorem replaceAll_texts {as os bs : List Glyph} (hp : ¬ Glyph.Forged (as ++ os ++ bs))
    (hn : (Glyph.slots (as ++ os ++ bs)).Nodup) (ho : Glyph.slots os ≠ []) (new : List Char) :
    replaceAll (Glyph.texts os) new (Glyph.texts (as ++ os ++ bs)) =
      Glyph.texts as ++ new ++ Glyph.texts bs := by
  obtain ⟨k, hk⟩ := List.exists_mem_of_ne_nil _ ho
  obtain ⟨us, vs, rfl⟩ := List.append_of_mem (mem_slots.1 hk)
  have he : as ++ (us ++ .slot k :: vs) ++ bs = (as ++ us) ++ .slot k :: (vs ++ bs) := by simp
  have hnot : Glyph.slot k ∉ as ++ us ∧ Glyph.slot k ∉ vs ++ bs := by
    rw [he, slots_append] at hn
    have hm : (Glyph.slots (as ++ us) ++ k :: Glyph.slots (vs ++ bs)).Nodup := hn
    rw [List.nodup_middle, List.nodup_cons, List.mem_append, not_or] at hm
    exact ⟨fun h => hm.1.1 (mem_slots.2 h), fun h => hm.1.2 (mem_slots.2 h)⟩
  have hne : Glyph.texts (us ++ .slot k :: vs) ≠ [] := by
    simp [Glyph.texts, Glyph.text, placeholder]
  rw [texts_append (as ++ _), texts_append as]
  refine replaceAll_of_occurs_once hne new _ _ fun before after hb => ?_
  -- an occurrence holds the placeholder, which stands in one place only
  have hs : Glyph.texts (as ++ (us ++ .slot k :: vs) ++ bs) =
      (before ++ Glyph.texts us) ++ placeholder k ++ (Glyph.texts vs ++ after) := by
    rw [texts_append (as ++ _), texts_append as, hb]
    simp [Glyph.texts, Glyph.text]
  obtain ⟨xs, ys, hxs, hx⟩ := eq_of_slot_occurs hp hs
  rw [he] at hxs
  obtain ⟨rfl, -, -⟩ := (List.append_cons_inj_of_notMem hnot.1 hnot.2).1 hxs
  rw [texts_append] at hx
  exact (List.append_cancel_right hx).symm

end PluginAudit.Condition
