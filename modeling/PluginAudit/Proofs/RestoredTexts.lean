import PluginAudit.Proofs.CallSites

/-!
# Texts that masking and restoring give back

Restoring a masked text puts a literal in the place of every placeholder that has the number of one,
also of those that the author of the text wrote. So the text comes back if and only if none of these
stands outside of its literals (`restore_mask_eq_iff`). What the literals contain does not matter,
nor does a brace beside a literal or a quote without a partner.
-/

namespace PluginAudit.Condition

open Text Literal

namespace Span

variable {xs : List Span}

/-! ## Outside of literals -/

/-- What a span has outside of literals: its character, or only the place of a literal. -/
def outside : Span → Option Char
  | char c => some c
  | literal _ _ => none

/-- There is one way to tell the literals of a text from the characters outside of them. -/
theorem eq_cut_iff {cs : List Char} : Lexed xs ∧ texts xs = cs ↔ xs = cut cs := by
  constructor
  · rintro ⟨hx, rfl⟩
    exact hx.cut_texts.symm
  · rintro rfl
    exact ⟨lexed_cut cs, texts_cut cs⟩

theorem map_outside_eq_iff {cs : List Char} : xs.map outside = cs.map some ↔ xs = cs.map char := by
  constructor
  · intro h
    induction xs generalizing cs with
    | nil => rw [List.map_eq_nil_iff.1 h.symm]; rfl
    | cons x xs ih =>
      cases cs with
      | nil => cases h
      | cons c cs =>
        obtain ⟨hx, hxs⟩ := List.cons.inj h
        cases x with
        | char d =>
          cases hx
          exact congrArg (char c :: ·) (ih hxs)
        | literal q content => cases hx
  · rintro rfl
    exact List.map_map

/-- Whether a literal is named by its placeholder can be seen outside of the literals. -/
theorem forges_iff_outside {count : Nat} : Forges count xs ↔
    ∃ ds, isNumeral ds = true ∧ numeralValue ds < count ∧
      ('{' :: ds ++ ['}']).map some <:+: xs.map outside := by
  have hnumeral (ds : List Char) :
      isNumeral ds = true ↔ ds ≠ [] ∧ ∀ d ∈ ds, isDigit d = true := by simp [isNumeral]
  constructor
  · rintro ⟨ys, ds, zs, rfl, hne, hdigit, hlt⟩
    refine ⟨ds, (hnumeral ds).2 ⟨hne, hdigit⟩, hlt, ys.map outside, zs.map outside, ?_⟩
    rw [← map_outside_eq_iff.2 rfl, ← List.map_append, ← List.map_append]
  · rintro ⟨ds, hds, hlt, us, vs, h⟩
    obtain ⟨hne, hdigit⟩ := (hnumeral ds).1 hds
    obtain ⟨ws, zs, rfl, hws, -⟩ := List.map_eq_append_iff.1 h.symm
    obtain ⟨ys, ws, rfl, -, hws⟩ := List.map_eq_append_iff.1 hws
    exact ⟨ys, ds, zs, by rw [map_outside_eq_iff.1 hws], hne, hdigit, hlt⟩

/-! ## Forged placeholders -/

/-- A placeholder that is forged begins with the first span or stands behind it. -/
theorem Forges.cases_cons {count : Nat} {x : Span} (h : Forges count (x :: xs)) :
    Forges count xs ∨ x = char '{' ∧ ∃ ds zs, xs = (ds ++ ['}']).map char ++ zs ∧ ds ≠ [] ∧
      (∀ d ∈ ds, isDigit d = true) ∧ numeralValue ds < count := by
  obtain ⟨ys, ds, zs, he, hds⟩ := h
  cases ys with
  | nil =>
    obtain ⟨rfl, rfl⟩ := List.cons.inj he
    exact .inr ⟨rfl, ds, zs, rfl, hds⟩
  | cons y ys =>
    obtain ⟨-, rfl⟩ := List.cons.inj he
    exact .inl ⟨ys, ds, zs, rfl, hds⟩

theorem placeholderDigits?_masked {ds : List Char} (hne : ds ≠ [])
    (hdigit : ∀ d ∈ ds, isDigit d = true) (n : Nat) (zs : List Span) :
    placeholderDigits? (masked n ((ds ++ ['}']).map char ++ zs)) = some (ds, masked n zs) := by
  rw [masked_append, masked_map_char, literals_map_char, List.append_assoc]
  exact placeholderDigits?_digits hne hdigit _

/-- Whether texts are not empty and begin with something else than a placeholder. -/
def BeginOtherwise (items : List (List Char)) : Prop :=
  ∀ l ∈ items, ∃ c rest, l = c :: rest ∧ c ≠ '{'

theorem Lexed.beginOtherwise (hx : Lexed xs) : BeginOtherwise (literals xs) := by
  intro l hl
  induction xs with
  | nil => cases hl
  | cons x xs ih =>
    cases x with
    | char c => exact ih hx.2 hl
    | literal q content =>
      rcases List.mem_cons.1 hl with rfl | hl
      · refine ⟨q, _, rfl, ?_⟩
        rintro rfl
        exact absurd hx.1.1 (by decide)
      · exact ih hx.2 hl

/-- Where the placeholder of a literal begins, the restored text goes on with the literal. -/
theorem fill_ne_of_placeholder {items : List (List Char)} (hitems : BeginOtherwise items)
    {cs ds rest : List Char} (hd : placeholderDigits? cs = some (ds, rest))
    (hlt : numeralValue ds < items.length) (t : List Char) : fill items ('{' :: cs) ≠ '{' :: t := by
  obtain ⟨hne, hdigit, rfl⟩ := eq_of_placeholderDigits? hd
  obtain ⟨c, l, hl, hc⟩ := hitems _ (List.getElem_mem hlt)
  rw [fill_placeholder hne hdigit, List.getElem?_eq_getElem hlt, hl]
  exact fun he => hc (List.cons.inj he).1

/-- The restored text departs from the one that was masked where the first forged placeholder
begins. -/
theorem fill_masked_ne (before after : List (List Char))
    (hitems : BeginOtherwise (before ++ literals xs ++ after))
    (h : Forges (before ++ literals xs ++ after).length xs) :
    fill (before ++ literals xs ++ after) (masked before.length xs) ≠ texts xs := by
  induction xs generalizing before with
  | nil =>
    obtain ⟨ys, ds, zs, he, -⟩ := h
    simp at he
  | cons x xs ih =>
    cases x with
    | char c =>
      have hl : literals (char c :: xs) = literals xs := rfl
      have hm : masked before.length (char c :: xs) = c :: masked before.length xs := rfl
      have ht : texts (char c :: xs) = c :: texts xs := rfl
      rw [hl] at hitems h ⊢
      rw [hm, ht]
      by_cases hopens : c = '{' ∧ ∃ ds rest,
          placeholderDigits? (masked before.length xs) = some (ds, rest) ∧
            numeralValue ds < (before ++ literals xs ++ after).length
      · obtain ⟨rfl, ds, rest, hd, hlt⟩ := hopens
        exact fill_ne_of_placeholder hitems hd hlt _
      · rw [fill_cons fun hc ds rest hd =>
          Nat.le_of_not_lt fun hlt => hopens ⟨hc, ds, rest, hd, hlt⟩]
        rcases h.cases_cons with h | ⟨hc, ds, zs, rfl, hne, hdigit, hlt⟩
        · exact fun he => ih before hitems h (List.cons.inj he).2
        · cases hc
          have hd := placeholderDigits?_masked hne hdigit before.length zs
          exact absurd ⟨rfl, ds, _, hd, hlt⟩ hopens
    | literal q content =>
      have hl : before ++ literals (literal q content :: xs) ++ after =
          (before ++ [q :: content ++ [q]]) ++ literals xs ++ after := by
        simp [literals, literal?]
      have hb : (before ++ [q :: content ++ [q]]).length = before.length + 1 := List.length_append
      have hm : masked before.length (literal q content :: xs) =
          placeholder before.length ++ masked (before.length + 1) xs := rfl
      have ht : texts (literal q content :: xs) = (q :: content ++ [q]) ++ texts xs := rfl
      rcases h.cases_cons with h | ⟨hc, -⟩
      · rw [hl] at hitems h ⊢
        have hi := ih _ hitems h
        rw [hb] at hi
        have hitem : ((before ++ [q :: content ++ [q]]) ++ literals xs ++ after)[before.length]? =
            some (q :: content ++ [q]) := by simp
        rw [hm, ht, fill_slot, hitem]
        exact fun he => hi (List.append_cancel_left he)
      · cases hc

end Span

/-- A text comes back from masking and restoring if and only if, outside of its literals, of which
there is one reading, no numeral in braces is the number of a literal. -/
theorem restore_mask_eq_iff (cs : List Char) :
    (∀ xs, Span.Lexed xs ∧ Span.texts xs = cs ↔ xs = Span.cut cs) ∧
      (restore (mask cs).literals (mask cs).text = cs ↔
        ∀ ds, isNumeral ds = true →
          ('{' :: ds ++ ['}']).map some <:+: (Span.cut cs).map Span.outside →
          (Span.literals (Span.cut cs)).length ≤ numeralValue ds) := by
  have hmask : mask cs = ⟨Span.masked 0 (Span.cut cs), Span.literals (Span.cut cs)⟩ :=
    Span.maskFrom_eq 0 cs
  have hall : [] ++ Span.literals (Span.cut cs) ++ [] = Span.literals (Span.cut cs) := by simp
  have hforges : restore (mask cs).literals (mask cs).text = cs ↔
      ¬ Span.Forges (Span.literals (Span.cut cs)).length (Span.cut cs) := by
    have hbegin := (Span.lexed_cut cs).beginOtherwise
    rw [hmask, restore]
    rw [← hall] at hbegin ⊢
    constructor
    · intro he hf
      have hne := Span.fill_masked_ne [] [] hbegin hf
      rw [Span.texts_cut] at hne
      exact hne he
    · intro hf
      have he := Span.fill_masked [] [] hf
      rwa [Span.texts_cut] at he
  refine ⟨fun xs => Span.eq_cut_iff, hforges.trans ?_⟩
  rw [Span.forges_iff_outside]
  simp only [not_exists, not_and]
  exact forall_congr' fun ds => forall_congr' fun _ =>
    ⟨fun h hi => Nat.le_of_not_lt fun hlt => h hlt hi, fun h hlt hi => absurd (h hi) (by omega)⟩

end PluginAudit.Condition
