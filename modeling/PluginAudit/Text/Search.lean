import PluginAudit.Text.Blank
import PluginAudit.Text.Digits

/-!
# Finding and replacing

Three ways of looking into a text from its front: taking away a known beginning (`afterStart?`),
reading up to a mark on the same line (`upTo?`), and filling numbered placeholders (`fill`). Each
hands back what follows, and a lemma that this is no longer than the text, which is what the
functions that scan a whole text end by.
-/

namespace PluginAudit.Text

/-- What follows a given beginning, if the text begins with it. -/
def afterStart? : List Char → List Char → Option (List Char)
  | [], cs => some cs
  | _ :: _, [] => none
  | p :: ps, c :: cs => if p = c then afterStart? ps cs else none

theorem afterStart?_of_ne {p c : Char} (h : p ≠ c) (ps cs : List Char) :
    afterStart? (p :: ps) (c :: cs) = none := if_neg h

/-- `afterStart?` takes away exactly the given beginning. -/
theorem afterStart?_eq_some_iff {start cs rest : List Char} :
    afterStart? start cs = some rest ↔ cs = start ++ rest := by
  induction start generalizing cs with
  | nil => simp [afterStart?]
  | cons p ps ih =>
    cases cs with
    | nil => simp [afterStart?]
    | cons c cs =>
      by_cases h : p = c
      · simp [afterStart?, h, ih]
      · simp [afterStart?, h, Ne.symm h]

/-- What follows a given beginning is no longer than the text. -/
theorem length_le_of_afterStart? {start cs rest : List Char}
    (h : afterStart? start cs = some rest) : rest.length ≤ cs.length := by
  rw [afterStart?_eq_some_iff.1 h, List.length_append]
  omega

/-- Writes `new` for every occurrence of `o :: os`, from left to right and without overlap. -/
def replaceAllFrom (o : Char) (os new : List Char) : List Char → List Char
  | [] => []
  | c :: cs =>
    if c = o then
      match h : afterStart? os cs with
      | some rest =>
        have := length_le_of_afterStart? h
        new ++ replaceAllFrom o os new rest
      | none => c :: replaceAllFrom o os new cs
    else c :: replaceAllFrom o os new cs
  termination_by cs => cs.length

/-- Writes `new` for every occurrence of `old`; an empty `old` has none. -/
def replaceAll (old new cs : List Char) : List Char :=
  match old with
  | [] => cs
  | o :: os => replaceAllFrom o os new cs

/-- The shortest text before `mark` on the current line, and what follows the mark. -/
def upTo? (mark : List Char) : List Char → Option (List Char × List Char)
  | [] => if mark.isEmpty then some ([], []) else none
  | c :: cs =>
    match afterStart? mark (c :: cs) with
    | some rest => some ([], rest)
    | none => if isLineEnd c then none else (upTo? mark cs).map fun (t, r) => (c :: t, r)

theorem upTo?_start {mark : List Char} {c : Char} {cs rest : List Char}
    (h : afterStart? mark (c :: cs) = some rest) : upTo? mark (c :: cs) = some ([], rest) := by
  rw [upTo?, h]

theorem upTo?_lineEnd {mark : List Char} {c : Char} {cs : List Char}
    (h : afterStart? mark (c :: cs) = none) (hl : isLineEnd c = true) :
    upTo? mark (c :: cs) = none := by
  rw [upTo?, h, hl]
  rfl

theorem upTo?_cons {mark : List Char} {c : Char} {cs : List Char}
    (h : afterStart? mark (c :: cs) = none) (hl : isLineEnd c = false) :
    upTo? mark (c :: cs) = (upTo? mark cs).map fun (t, r) => (c :: t, r) := by
  rw [upTo?, h, hl]
  rfl

/-- What is read up to a mark stands before it. -/
theorem eq_append_of_upTo? {mark cs before rest : List Char}
    (h : upTo? mark cs = some (before, rest)) : cs = before ++ (mark ++ rest) := by
  induction cs generalizing before with
  | nil =>
    rw [upTo?] at h
    split at h
    · next hmark =>
      cases h
      rw [List.isEmpty_iff.1 hmark]
      rfl
    · cases h
  | cons c cs ih =>
    rw [upTo?] at h
    split at h
    · next hstart =>
      cases h
      rw [afterStart?_eq_some_iff.1 hstart, List.nil_append]
    · split at h
      · cases h
      · obtain ⟨⟨before, rest⟩, h', he⟩ := Option.map_eq_some_iff.1 h
        cases he
        rw [ih h', List.cons_append]

/-- What follows a mark is no longer than the text. -/
theorem length_le_of_upTo? {mark cs before rest : List Char}
    (h : upTo? mark cs = some (before, rest)) : rest.length ≤ cs.length := by
  rw [eq_append_of_upTo? h, List.length_append, List.length_append]
  omega

/-- Text without the first character of a mark does not hold up the search for the mark. -/
theorem upTo?_append_free {m : Char} {before : List Char}
    (h : ∀ c ∈ before, c ≠ m ∧ isLineEnd c = false) (ms cs : List Char) :
    upTo? (m :: ms) (before ++ cs) =
      (upTo? (m :: ms) cs).map fun (t, rest) => (before ++ t, rest) := by
  induction before with
  | nil => exact Option.map_id'.symm
  | cons c before ih =>
    obtain ⟨hc, hl⟩ := h c List.mem_cons_self
    rw [List.cons_append, upTo?_cons (afterStart?_of_ne hc.symm ms (before ++ cs)) hl,
      ih fun d hd => h d (List.mem_cons_of_mem _ hd)]
    cases upTo? (m :: ms) cs <;> rfl

/-- Text without the first character of a mark is read up to the mark. -/
theorem upTo?_append {m : Char} {before : List Char}
    (h : ∀ c ∈ before, c ≠ m ∧ isLineEnd c = false) (ms rest : List Char) :
    upTo? (m :: ms) (before ++ (m :: ms ++ rest)) = some (before, rest) := by
  have hmark : upTo? (m :: ms) (m :: ms ++ rest) = some ([], rest) :=
    upTo?_start (afterStart?_eq_some_iff.2 rfl)
  rw [upTo?_append_free h, hmark, Option.map_some]
  exact congrArg (fun t => some (t, rest)) (List.append_nil before)

/-- The digits of a placeholder whose opening brace has been read, and what follows it. -/
def placeholderDigits? (cs : List Char) : Option (List Char × List Char) :=
  match cs.takeWhile isDigit, cs.dropWhile isDigit with
  | d :: ds, '}' :: rest => some (d :: ds, rest)
  | _, _ => none

/-- What follows a placeholder is shorter than the text. -/
theorem length_lt_of_placeholderDigits? {cs ds rest : List Char}
    (h : placeholderDigits? cs = some (ds, rest)) : rest.length < cs.length := by
  unfold placeholderDigits? at h
  split at h
  · next hd =>
    simp only [Option.some.injEq, Prod.mk.injEq] at h
    obtain ⟨_, rfl⟩ := h
    have : (cs.dropWhile isDigit).length ≤ cs.length := (List.dropWhile_sublist isDigit).length_le
    rw [hd] at this
    simp only [List.length_cons] at this
    omega
  · cases h

/-- Writes for each placeholder, a number in braces, the item of that number; a placeholder without
an item stays. -/
def fill (items : List (List Char)) : List Char → List Char
  | [] => []
  | c :: cs =>
    if c = '{' then
      match h : placeholderDigits? cs with
      | some (ds, rest) =>
        have := length_lt_of_placeholderDigits? h
        (items[numeralValue ds]?).getD (c :: ds ++ ['}']) ++ fill items rest
      | none => c :: fill items cs
    else c :: fill items cs
  termination_by cs => cs.length

end PluginAudit.Text
