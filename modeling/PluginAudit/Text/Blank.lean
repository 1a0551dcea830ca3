/-!
# Blanks, fields and trimming

The white space that separates the words of a condition, surrounds the parts of a version and ends
the lines of a load order is one and the same set: the five ASCII control characters from tab to
carriage return, the space, the no-break space, the byte order mark, the two line separators and
the space separators of Unicode. Neither the next-line control `U+0085` nor the zero-width space
`U+200B` belongs to it.

Texts are lists of characters. `fields` cuts one at every separator and keeps empty fields, so that
nothing of the text is lost; `words` drops the empty ones. What is trimmed are exactly the blanks on
both sides (`exists_eq_append_trim`, `trim_between`).
-/

namespace PluginAudit.Text

/-- Whether a character is white space. -/
def isBlank (c : Char) : Bool :=
  let n := c.toNat
  (9 ≤ n && n ≤ 13) || n == 0x20 || n == 0xA0 || n == 0x1680 || (0x2000 ≤ n && n ≤ 0x200A) ||
    n == 0x2028 || n == 0x2029 || n == 0x202F || n == 0x205F || n == 0x3000 || n == 0xFEFF

/-- Whether a character ends a line; such a character is not matched by a pattern's dot. -/
def isLineEnd (c : Char) : Bool :=
  c == '\n' || c == '\r' || c.toNat == 0x2028 || c.toNat == 0x2029

/-- Drops the blanks a text starts with. -/
def trimStart (cs : List Char) : List Char := cs.dropWhile isBlank

/-- Drops the blanks a text ends with. -/
def trimEnd (cs : List Char) : List Char := (cs.reverse.dropWhile isBlank).reverse

/-- Drops the blanks on both sides. -/
def trim (cs : List Char) : List Char := trimEnd (trimStart cs)

/-- The parts of a text between its separators; there is always one more than there are
separators. -/
def fields (sep : Char → Bool) : List Char → List (List Char)
  | [] => [[]]
  | c :: cs =>
    if sep c then [] :: fields sep cs
    else match fields sep cs with
      | [] => [[c]]
      | f :: fs => (c :: f) :: fs

/-- The non-empty parts of a text between its separators. -/
def words (sep : Char → Bool) (cs : List Char) : List (List Char) :=
  (fields sep cs).filter (!·.isEmpty)

/-- A text has at least one field. -/
theorem fields_ne_nil (sep : Char → Bool) (cs : List Char) : fields sep cs ≠ [] := by
  cases cs with
  | nil => simp [fields]
  | cons c cs =>
    unfold fields
    split
    · simp
    · split <;> simp

theorem sep_eq_false_of_mem_fields {sep : Char → Bool} {cs f : List Char} {c : Char}
    (hf : f ∈ fields sep cs) (hc : c ∈ f) : sep c = false := by
  induction cs generalizing f with
  | nil => simp_all [fields]
  | cons d ds ih =>
    unfold fields at hf
    split at hf
    · cases hf with
      | head => cases hc
      | tail _ h => exact ih h hc
    · next hd =>
      split at hf
      · next he => exact absurd he (fields_ne_nil sep ds)
      · next g gs he =>
        cases hf with
        | head =>
          cases hc with
          | head => simpa using hd
          | tail _ h => exact ih (he ▸ List.mem_cons_self) h
        | tail _ h => exact ih (he ▸ List.mem_cons_of_mem _ h) hc

/-- A text without separators belongs to the first field of what it is put before. -/
theorem fields_append {sep : Char → Bool} {w : List Char} (hw : ∀ c ∈ w, sep c = false)
    {cs f : List Char} {fs : List (List Char)} (h : fields sep cs = f :: fs) :
    fields sep (w ++ cs) = (w ++ f) :: fs := by
  induction w with
  | nil => exact h
  | cons c w ih =>
    have hc : ¬ sep c = true := by simp [hw c List.mem_cons_self]
    rw [List.cons_append, fields, if_neg hc, ih fun d hd => hw d (List.mem_cons_of_mem _ hd)]
    rfl

/-- A separator ends the first field. -/
theorem fields_sep {sep : Char → Bool} {c : Char} (hc : sep c = true) (cs : List Char) :
    fields sep (c :: cs) = [] :: fields sep cs := by
  rw [fields, if_pos hc]

/-- A separator keeps what is before it apart from what is after it. -/
theorem words_append_sep {sep : Char → Bool} {c : Char} (hc : sep c = true) (cs ds : List Char) :
    words sep (cs ++ c :: ds) = words sep cs ++ words sep ds := by
  have hf : fields sep (cs ++ c :: ds) = fields sep cs ++ fields sep ds := by
    induction cs with
    | nil => exact fields_sep hc ds
    | cons d cs ih =>
      rw [List.cons_append, fields, fields, ih]
      cases he : fields sep cs with
      | nil => exact absurd he (fields_ne_nil sep cs)
      | cons f fs => split <;> rfl
  rw [words, hf, List.filter_append, words, words]

/-- A separator belongs to no word. -/
theorem words_sep {sep : Char → Bool} {c : Char} (hc : sep c = true) (cs : List Char) :
    words sep (c :: cs) = words sep cs :=
  words_append_sep hc [] cs

/-- A word ends where the text does, or at the next separator. -/
theorem words_append {sep : Char → Bool} {w : List Char} (hw : ∀ c ∈ w, sep c = false)
    (hne : w ≠ []) {cs : List Char} (hcs : ∀ c, cs.head? = some c → sep c = true) :
    words sep (w ++ cs) = w :: words sep cs := by
  have hf : ∃ fs, fields sep cs = [] :: fs := by
    cases cs with
    | nil => exact ⟨[], rfl⟩
    | cons c cs => exact ⟨_, fields_sep (hcs c rfl) cs⟩
  obtain ⟨fs, hf⟩ := hf
  rw [words, fields_append hw hf, List.append_nil, List.filter_cons_of_pos (by simpa using hne),
    words, hf, List.filter_cons_of_neg (by simp)]

/-- Only the characters of a text matter for where it is cut. -/
theorem fields_congr {sep sep' : Char → Bool} {cs : List Char} (h : ∀ c ∈ cs, sep c = sep' c) :
    fields sep cs = fields sep' cs := by
  induction cs with
  | nil => rfl
  | cons c cs ih =>
    rw [fields, fields, h c List.mem_cons_self, ih fun d hd => h d (List.mem_cons_of_mem _ hd)]

/-- A character that is no separator stands in a word. -/
theorem exists_mem_words {sep : Char → Bool} {c : Char} {cs : List Char} (hc : sep c = false)
    (h : c ∈ cs) : ∃ w ∈ words sep cs, c ∈ w := by
  have hfield : ∃ f ∈ fields sep cs, c ∈ f := by
    induction cs with
    | nil => cases h
    | cons d cs ih =>
      rcases List.mem_cons.1 h with rfl | h
      · rw [fields, hc, if_neg Bool.false_ne_true]
        split
        · exact ⟨_, List.mem_cons_self, List.mem_cons_self⟩
        · exact ⟨_, List.mem_cons_self, List.mem_cons_self⟩
      · obtain ⟨f, hf, hcf⟩ := ih h
        unfold fields
        split
        · exact ⟨f, List.mem_cons_of_mem _ hf, hcf⟩
        · split
          · next hnil => exact absurd hnil (fields_ne_nil sep cs)
          · next g gs hg =>
            rw [hg] at hf
            rcases List.mem_cons.1 hf with rfl | hf
            · exact ⟨_, List.mem_cons_self, List.mem_cons_of_mem _ hcf⟩
            · exact ⟨f, List.mem_cons_of_mem _ hf, hcf⟩
  obtain ⟨f, hf, hcf⟩ := hfield
  refine ⟨f, List.mem_filter.2 ⟨hf, ?_⟩, hcf⟩
  cases f with
  | nil => cases hcf
  | cons => rfl

section Separators

variable {sep : Char → Bool} {seps : List Char} (hs : ∀ c ∈ seps, sep c = true)
include hs

/-- Separators before a text belong to no word. -/
theorem words_seps_append (cs : List Char) : words sep (seps ++ cs) = words sep cs := by
  induction seps with
  | nil => rfl
  | cons c seps ih =>
    rw [List.cons_append, words_sep (hs c List.mem_cons_self)]
    exact ih fun d hd => hs d (List.mem_cons_of_mem _ hd)

/-- One or more separators keep what is before them apart from what is after them. -/
theorem words_append_seps (hne : seps ≠ []) (cs ds : List Char) :
    words sep (cs ++ (seps ++ ds)) = words sep cs ++ words sep ds := by
  cases seps with
  | nil => exact absurd rfl hne
  | cons c seps =>
    rw [List.cons_append, words_append_sep (hs c List.mem_cons_self),
      words_seps_append fun d hd => hs d (List.mem_cons_of_mem _ hd)]

/-- Separators after a text belong to no word. -/
theorem words_append_seps_end (cs : List Char) : words sep (cs ++ seps) = words sep cs := by
  by_cases hne : seps = []
  · rw [hne, List.append_nil]
  · have hcut := words_append_seps hs hne cs []
    rwa [List.append_nil, show words sep [] = [] from rfl, List.append_nil] at hcut

end Separators

/-! ## Trimming -/

theorem trim_eq_self {cs : List Char} (h : ∀ c, cs.head? = some c → isBlank c = false)
    (h' : ∀ c, cs.getLast? = some c → isBlank c = false) : trim cs = cs := by
  have hs : trimStart cs = cs := by
    cases cs with
    | nil => rfl
    | cons c cs => exact List.dropWhile_cons_of_neg (by simp [h c rfl])
  rw [trim, hs, trimEnd]
  cases hr : cs.reverse with
  | nil => rw [List.reverse_eq_nil_iff.1 hr]; rfl
  | cons c rs =>
    have hc : isBlank c = false := h' c (by rw [List.getLast?_eq_head?_reverse, hr]; rfl)
    rw [List.dropWhile_cons_of_neg (by simp [hc]), ← hr, List.reverse_reverse]

/-- A text that neither begins nor ends with a blank stays what it is. -/
theorem trim_enclosed {c d : Char} (hc : isBlank c = false) (hd : isBlank d = false)
    (cs : List Char) : trim (c :: cs ++ [d]) = c :: cs ++ [d] := by
  refine trim_eq_self (fun e he => ?_) fun e he => ?_
  · cases he
    exact hc
  · rw [List.getLast?_append] at he
    cases he
    exact hd

theorem trim_blank {c : Char} (hc : isBlank c = true) (cs : List Char) :
    trim (c :: cs) = trim cs := by
  rw [trim, trim, trimStart, List.dropWhile_cons_of_pos hc, trimStart]

theorem trim_cons {c : Char} (hc : isBlank c = false) (cs : List Char) :
    trim (c :: cs) = c :: trimEnd cs := by
  have hs : trimStart (c :: cs) = c :: cs := List.dropWhile_cons_of_neg (by simp [hc])
  have hd : [c].dropWhile isBlank = [c] := List.dropWhile_cons_of_neg (by simp [hc])
  rw [trim, hs, trimEnd, trimEnd, List.reverse_cons, List.dropWhile_append, hd]
  by_cases he : (cs.reverse.dropWhile isBlank).isEmpty = true
  · rw [if_pos he, List.isEmpty_iff.1 he]
    rfl
  · rw [if_neg he, List.reverse_append]
    rfl

/-- What is dropped at the end of a text is blank. -/
theorem exists_eq_trimEnd_append (cs : List Char) :
    ∃ r, (∀ c ∈ r, isBlank c = true) ∧ cs = trimEnd cs ++ r := by
  refine ⟨(cs.reverse.takeWhile isBlank).reverse, fun c hc => ?_, ?_⟩
  · have hall : (cs.reverse.takeWhile isBlank).all isBlank = true := List.all_takeWhile
    exact List.all_eq_true.1 hall c (List.mem_reverse.1 hc)
  · rw [trimEnd, ← List.reverse_append, List.takeWhile_append_dropWhile, List.reverse_reverse]

/-- What is trimmed are the blanks on both sides. -/
theorem exists_eq_append_trim (cs : List Char) :
    ∃ l r, (∀ c ∈ l, isBlank c = true) ∧ (∀ c ∈ r, isBlank c = true) ∧ cs = l ++ trim cs ++ r := by
  obtain ⟨r, hr, he⟩ := exists_eq_trimEnd_append (trimStart cs)
  refine ⟨cs.takeWhile isBlank, r, fun c hc => ?_, hr, ?_⟩
  · exact List.all_eq_true.1 List.all_takeWhile c hc
  · rw [List.append_assoc, trim, ← he]
    exact List.takeWhile_append_dropWhile.symm

/-- A trimmed text does not begin with a blank. -/
theorem isBlank_of_head?_trim {cs : List Char} {c : Char} (h : (trim cs).head? = some c) :
    isBlank c = false := by
  obtain ⟨r, -, he⟩ := exists_eq_trimEnd_append (trimStart cs)
  have hstart : (cs.dropWhile isBlank).head? = some c := by
    rw [trim] at h
    rw [← trimStart, he, List.head?_append, h]
    rfl
  have hnot := List.head?_dropWhile_not isBlank cs
  rwa [hstart] at hnot

/-- A trimmed text does not end with a blank. -/
theorem isBlank_of_getLast?_trim {cs : List Char} {c : Char} (h : (trim cs).getLast? = some c) :
    isBlank c = false := by
  rw [trim, trimEnd, List.getLast?_reverse] at h
  have hnot := List.head?_dropWhile_not isBlank (trimStart cs).reverse
  rwa [h] at hnot

theorem mem_trim {c : Char} {cs : List Char} (h : c ∈ cs) : isBlank c = true ∨ c ∈ trim cs := by
  obtain ⟨l, r, hl, hr, he⟩ := exists_eq_append_trim cs
  rw [he] at h
  rcases List.mem_append.1 h with h | h
  · rcases List.mem_append.1 h with h | h
    · exact .inl (hl c h)
    · exact .inr h
  · exact .inl (hr c h)

/-- Blanks around a text are trimmed. -/
theorem trim_between {l r : List Char} (hl : ∀ c ∈ l, isBlank c = true)
    (hr : ∀ c ∈ r, isBlank c = true) (cs : List Char) : trim (l ++ cs ++ r) = trim cs := by
  have hback : ∀ c ∈ r.reverse, isBlank c = true := fun c hm => hr c (List.mem_reverse.1 hm)
  rw [trim, trim, trimStart, trimStart, List.append_assoc, List.dropWhile_append_of_pos hl,
    List.dropWhile_append]
  split
  · next hempty =>
    have hdrop : (r ++ []).dropWhile isBlank = [] := List.dropWhile_append_of_pos hr
    rw [List.append_nil] at hdrop
    rw [List.isEmpty_iff.1 hempty, hdrop]
  · rw [trimEnd, trimEnd, List.reverse_append, List.dropWhile_append_of_pos hback]

end PluginAudit.Text
