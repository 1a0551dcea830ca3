import Mathlib.Data.List.ReduceOption
import PluginAudit.Warning.Markup

/-!
# Marks for bold text

Two stars next to each other are a mark, and marks do not overlap. On one line, the pass over bold
text writes the beginning and the end of an element for its marks in turn and leaves the last one if
their number is odd (`mapBold_eq_replaceMarks`). Marks are counted and replaced in lists of
anything, since a text of which some characters are hidden has marks as well.
-/

namespace PluginAudit.Markup

open Text

section Marks

variable {α : Type} (star : α)

/-- Whether a character makes a mark with the text after it. -/
abbrev Marked (c : α) (cs : List α) : Prop := c = star ∧ cs.head? = some star

variable [DecidableEq α]

/-- The number of marks. -/
def marks : List α → Nat
  | c :: d :: cs => if c = star ∧ d = star then marks cs + 1 else marks (d :: cs)
  | _ => 0

/-- Writes the given texts for the marks, one after the other, as far as there are texts. -/
def replaceMarks : List (List α) → List α → List α
  | t :: ts, c :: d :: cs =>
    if c = star ∧ d = star then t ++ replaceMarks ts cs else c :: replaceMarks (t :: ts) (d :: cs)
  | _, cs => cs

/-- A text begins with a mark, or with something else, or is empty. -/
@[elab_as_elim]
theorem mark_induction {P : List α → Prop} (nil : P []) (mark : ∀ cs, P cs → P (star :: star :: cs))
    (cons : ∀ c cs, ¬Marked star c cs → P cs → P (c :: cs)) : ∀ cs, P cs
  | [] => nil
  | [c] => cons c [] (fun h => nomatch h.2) nil
  | c :: d :: cs =>
    if h : c = star ∧ d = star then
      h.1 ▸ h.2 ▸ mark cs (mark_induction nil mark cons cs)
    else
      cons c (d :: cs) (fun h' => h ⟨h'.1, Option.some.inj h'.2⟩)
        (mark_induction nil mark cons (d :: cs))

variable {star} {c : α} {cs : List α} {t : List α} {ts : List (List α)}

theorem marks_nil : marks star [] = 0 := rfl

theorem marks_mark : marks star (star :: star :: cs) = marks star cs + 1 := by
  rw [marks, if_pos ⟨rfl, rfl⟩]

theorem marks_cons (h : ¬Marked star c cs) : marks star (c :: cs) = marks star cs := by
  cases cs with
  | nil => rfl
  | cons d cs => rw [marks, if_neg fun h' => h ⟨h'.1, congrArg some h'.2⟩]

theorem marks_cons_of_ne (h : c ≠ star) : marks star (c :: cs) = marks star cs :=
  marks_cons fun h' => h h'.1

theorem replaceMarks_nil (ts : List (List α)) : replaceMarks star ts [] = [] := by
  cases ts <;> rfl

theorem replaceMarks_no (cs : List α) : replaceMarks star [] cs = cs := by
  simp [replaceMarks]

theorem replaceMarks_mark :
    replaceMarks star (t :: ts) (star :: star :: cs) = t ++ replaceMarks star ts cs := by
  rw [replaceMarks, if_pos ⟨rfl, rfl⟩]

theorem replaceMarks_cons (h : ¬Marked star c cs) :
    replaceMarks star ts (c :: cs) = c :: replaceMarks star ts cs := by
  cases ts with
  | nil => rw [replaceMarks_no, replaceMarks_no]
  | cons t ts =>
    cases cs with
    | nil => rfl
    | cons d cs => rw [replaceMarks, if_neg fun h' => h ⟨h'.1, congrArg some h'.2⟩]

theorem replaceMarks_cons_of_ne (h : c ≠ star) :
    replaceMarks star ts (c :: cs) = c :: replaceMarks star ts cs :=
  replaceMarks_cons fun h' => h h'.1

/-! ## Marks of a part and of the rest -/

omit [DecidableEq α] in
theorem not_marked_append {as bs : List α} {a : α} (hc : c ≠ star) (h : ¬Marked star a as) :
    ¬Marked star a (as ++ c :: bs) := by
  cases as with
  | nil => exact fun h' => hc (Option.some.inj h'.2)
  | cons b as => exact h

/-- No mark goes over another character. -/
theorem marks_append (as bs : List α) (hc : c ≠ star) :
    marks star (as ++ c :: bs) = marks star as + marks star bs := by
  induction as using mark_induction star with
  | nil => rw [List.nil_append, marks_cons_of_ne hc, marks_nil, Nat.zero_add]
  | mark as ih =>
    rw [List.cons_append, List.cons_append, marks_mark, marks_mark, ih]
    omega
  | cons a as h ih => rw [List.cons_append, marks_cons (not_marked_append hc h), marks_cons h, ih]

theorem replaceMarks_append (as bs : List α) (hc : c ≠ star) (ts : List (List α)) :
    replaceMarks star ts (as ++ c :: bs) =
      replaceMarks star ts as ++ c :: replaceMarks star (ts.drop (marks star as)) bs := by
  induction as using mark_induction star generalizing ts with
  | nil =>
    rw [List.nil_append, replaceMarks_cons_of_ne hc, replaceMarks_nil]
    rfl
  | mark as ih =>
    cases ts with
    | nil => simp only [replaceMarks_no, List.drop_nil]
    | cons t ts =>
      rw [List.cons_append, List.cons_append, replaceMarks_mark, replaceMarks_mark, ih, marks_mark,
        List.drop_succ_cons, List.append_assoc]
  | cons a as h ih =>
    rw [List.cons_append, replaceMarks_cons (not_marked_append hc h), replaceMarks_cons h, ih,
      marks_cons h, List.cons_append]

theorem replaceMarks_of_marks_eq_zero (h : marks star cs = 0) (ts : List (List α)) :
    replaceMarks star ts cs = cs := by
  induction cs using mark_induction star with
  | nil => exact replaceMarks_nil ts
  | mark cs ih =>
    rw [marks_mark] at h
    cases h
  | cons c cs hc ih =>
    rw [marks_cons hc] at h
    rw [replaceMarks_cons hc, ih h]

/-- One more character in front makes one more mark at most. -/
theorem marks_cons_mem (c : α) (cs : List α) :
    marks star cs ≤ marks star (c :: cs) ∧ marks star (c :: cs) ≤ marks star cs + 1 := by
  induction cs generalizing c with
  | nil => exact ⟨Nat.zero_le _, Nat.zero_le _⟩
  | cons d cs ih =>
    by_cases h : c = star ∧ d = star
    · rw [h.1, h.2]
      obtain ⟨hle, hge⟩ := ih star
      rw [marks_mark]
      omega
    · rw [marks, if_neg h]
      omega

/-! ## Hidden characters

Some characters of a text may be hidden. If this brings no new marks about, it does not matter
whether marks are taken away before the characters are hidden or after. -/

omit [DecidableEq α] in
theorem not_marked_map_some (h : ¬Marked star c cs) :
    ¬Marked (some star) (some c) (cs.map some) := by
  rw [Marked, List.head?_map]
  simpa using h

theorem marks_map_some (cs : List α) : marks (some star) (cs.map some) = marks star cs := by
  induction cs using mark_induction star with
  | nil => rfl
  | mark cs ih => rw [List.map_cons, List.map_cons, marks_mark, marks_mark, ih]
  | cons c cs h ih => rw [List.map_cons, marks_cons (not_marked_map_some h), marks_cons h, ih]

/-- A text without its first marks. -/
def eraseMarks (star : α) (n : Nat) (cs : List α) : List α :=
  replaceMarks star (List.replicate n []) cs

theorem eraseMarks_zero (cs : List α) : eraseMarks star 0 cs = cs := replaceMarks_no cs

theorem eraseMarks_nil (n : Nat) : eraseMarks star n [] = [] := replaceMarks_nil _

theorem eraseMarks_mark (n : Nat) (cs : List α) :
    eraseMarks star (n + 1) (star :: star :: cs) = eraseMarks star n cs := by
  rw [eraseMarks, List.replicate_succ, replaceMarks_mark, List.nil_append, eraseMarks]

theorem eraseMarks_cons (n : Nat) (h : ¬Marked star c cs) :
    eraseMarks star n (c :: cs) = c :: eraseMarks star n cs := replaceMarks_cons h

theorem eraseMarks_cons_of_ne (n : Nat) (h : c ≠ star) :
    eraseMarks star n (c :: cs) = c :: eraseMarks star n cs := replaceMarks_cons_of_ne h

theorem eraseMarks_append (n : Nat) (as bs : List α) (h : c ≠ star) :
    eraseMarks star n (as ++ c :: bs) =
      eraseMarks star n as ++ c :: eraseMarks star (n - marks star as) bs := by
  rw [eraseMarks, replaceMarks_append as bs h, List.drop_replicate, eraseMarks, eraseMarks]

theorem eraseMarks_map_some (n : Nat) (cs : List α) :
    eraseMarks (some star) n (cs.map some) = (eraseMarks star n cs).map some := by
  induction cs using mark_induction star generalizing n with
  | nil => rw [List.map_nil, eraseMarks_nil, eraseMarks_nil, List.map_nil]
  | mark cs ih =>
    cases n with
    | zero => rw [eraseMarks_zero, eraseMarks_zero]
    | succ n => rw [List.map_cons, List.map_cons, eraseMarks_mark, eraseMarks_mark, ih]
  | cons c cs h ih =>
    rw [List.map_cons, eraseMarks_cons n (not_marked_map_some h), eraseMarks_cons n h,
      List.map_cons, ih]

/-- Hiding characters takes no marks away. -/
theorem marks_le_reduceOption (fs : List (Option α)) :
    marks (some star) fs ≤ marks star fs.reduceOption := by
  induction fs using mark_induction (some star) with
  | nil => exact Nat.le_refl _
  | mark fs ih =>
    rw [marks_mark, List.reduceOption_cons_of_some, List.reduceOption_cons_of_some, marks_mark]
    omega
  | cons f fs h ih =>
    rw [marks_cons h]
    cases f with
    | none => exact ih
    | some c => exact Nat.le_trans ih (marks_cons_mem c _).1

/-- Marks may be taken away before or after characters are hidden. The second part is about a text
with a star before it and hidden characters between. -/
theorem eraseMarks_reduceOption_aux (fs : List (Option α)) :
    (∀ n, marks (some star) fs = marks star fs.reduceOption →
      (eraseMarks (some star) n fs).reduceOption = eraseMarks star n fs.reduceOption) ∧
    ∀ n, marks (some star) fs = marks star (star :: fs.reduceOption) →
      star :: (eraseMarks (some star) n fs).reduceOption =
        eraseMarks star n (star :: fs.reduceOption) := by
  induction fs using mark_induction (some star) with
  | nil =>
    have hstar : ¬Marked star star [] := fun h => nomatch h.2
    refine ⟨fun n _ => ?_, fun n _ => ?_⟩
    · rw [eraseMarks_nil, List.reduceOption_nil, eraseMarks_nil]
    · rw [eraseMarks_nil, List.reduceOption_nil, eraseMarks_cons n hstar, eraseMarks_nil]
  | mark fs ih =>
    obtain ⟨ih, ih'⟩ := ih
    rw [List.reduceOption_cons_of_some, List.reduceOption_cons_of_some, marks_mark, marks_mark,
      marks_mark]
    refine ⟨fun n h => ?_, fun n h => ?_⟩
    · cases n with
      | zero =>
        rw [eraseMarks_zero, eraseMarks_zero]
        rfl
      | succ n => rw [eraseMarks_mark, eraseMarks_mark, ih n (Nat.succ.inj h)]
    · cases n with
      | zero =>
        rw [eraseMarks_zero, eraseMarks_zero]
        rfl
      | succ n => rw [eraseMarks_mark, eraseMarks_mark, ih' n (Nat.succ.inj h)]
  | cons f fs hf ih =>
    obtain ⟨ih, ih'⟩ := ih
    rw [marks_cons hf]
    cases f with
    | none =>
      rw [List.reduceOption_cons_of_none]
      refine ⟨fun n h => ?_, fun n h => ?_⟩
      · rw [eraseMarks_cons n hf, List.reduceOption_cons_of_none, ih n h]
      · rw [eraseMarks_cons n hf, List.reduceOption_cons_of_none, ih' n h]
    | some c =>
      rw [List.reduceOption_cons_of_some]
      by_cases hc : c = star
      · subst hc
        refine ⟨fun n h => ?_, fun n h => ?_⟩
        · rw [eraseMarks_cons n hf, List.reduceOption_cons_of_some, ih' n h]
        · -- two stars that only hidden characters keep apart are one mark more
          have hle : marks (some c) fs ≤ marks c fs.reduceOption := marks_le_reduceOption fs
          rw [marks_mark] at h
          omega
      · refine ⟨fun n h => ?_, fun n h => ?_⟩
        · rw [eraseMarks_cons n hf, List.reduceOption_cons_of_some, eraseMarks_cons_of_ne n hc,
            ih n (h.trans (marks_cons_of_ne hc))]
        · have hstar : ¬Marked star star (c :: fs.reduceOption) :=
            fun h => hc (Option.some.inj h.2)
          rw [eraseMarks_cons n hf, List.reduceOption_cons_of_some, eraseMarks_cons n hstar,
            eraseMarks_cons_of_ne n hc,
            ih n (h.trans ((marks_cons hstar).trans (marks_cons_of_ne hc)))]

theorem eraseMarks_reduceOption {fs : List (Option α)}
    (h : marks (some star) fs = marks star fs.reduceOption) (n : Nat) :
    (eraseMarks (some star) n fs).reduceOption = eraseMarks star n fs.reduceOption :=
  (eraseMarks_reduceOption_aux fs).1 n h

end Marks

/-! ## The pass over bold text -/

/-- What is written for pairs of marks. -/
def tagPairs (before after : List Char) : Nat → List (List Char)
  | 0 => []
  | n + 1 => before :: after :: tagPairs before after n

theorem afterStart?_stars {c : Char} {cs : List Char} (h : ¬Marked '*' c cs) :
    afterStart? ['*', '*'] (c :: cs) = none := by
  rw [afterStart?]
  split
  · next hc =>
    cases cs with
    | nil => rfl
    | cons d cs => rw [afterStart?, if_neg fun hd => h ⟨hc.symm, congrArg some hd.symm⟩]
  · rfl

theorem length_tagPairs (before after : List Char) (n : Nat) :
    (tagPairs before after n).length = 2 * n := by
  induction n with
  | zero => rfl
  | succ n ih =>
    rw [tagPairs, List.length_cons, List.length_cons, ih]
    omega

theorem forall_mem_tagPairs {p : List Char → Prop} {before after : List Char} (hbefore : p before)
    (hafter : p after) (n : Nat) : ∀ t ∈ tagPairs before after n, p t := by
  induction n with
  | zero => exact fun t ht => nomatch ht
  | succ n ih => exact List.forall_mem_cons.2 ⟨hbefore, List.forall_mem_cons.2 ⟨hafter, ih⟩⟩

theorem replaceMarks_tagPairs_nil (n : Nat) (cs : List Char) :
    replaceMarks '*' (tagPairs [] [] n) cs = eraseMarks '*' (2 * n) cs := by
  have hpairs : tagPairs [] [] n = List.replicate (2 * n) [] :=
    List.eq_replicate_iff.2 ⟨length_tagPairs _ _ n, forall_mem_tagPairs (p := (· = [])) rfl rfl n⟩
  rw [hpairs, eraseMarks]

/-- The text before the next mark has no mark. -/
theorem mark_of_upTo? {cs inside rest : List Char}
    (h : upTo? ['*', '*'] cs = some (inside, rest)) :
    marks '*' cs = marks '*' rest + 1 ∧ ∀ t ts,
      replaceMarks '*' (t :: ts) cs = inside ++ (t ++ replaceMarks '*' ts rest) := by
  induction cs using mark_induction '*' generalizing inside with
  | nil => cases h
  | mark cs ih =>
    cases h
    exact ⟨marks_mark, fun t ts => replaceMarks_mark⟩
  | cons c cs hc ih =>
    cases hl : isLineEnd c with
    | true => cases (upTo?_lineEnd (afterStart?_stars hc) hl).symm.trans h
    | false =>
      rw [upTo?_cons (afterStart?_stars hc) hl] at h
      obtain ⟨⟨inside, rest⟩, h', he⟩ := Option.map_eq_some_iff.1 h
      cases he
      obtain ⟨hmarks, hreplace⟩ := ih h'
      exact ⟨(marks_cons hc).trans hmarks, fun t ts => by
        rw [replaceMarks_cons hc, hreplace, List.cons_append]⟩

/-- Where no mark follows on a line, there is none on it. -/
theorem marks_of_upTo?_none {cs : List Char} (hline : ∀ c ∈ cs, isLineEnd c = false)
    (h : upTo? ['*', '*'] cs = none) : marks '*' cs = 0 := by
  induction cs using mark_induction '*' with
  | nil => rfl
  | mark cs ih => cases h
  | cons c cs hc ih =>
    rw [upTo?_cons (afterStart?_stars hc) (hline c List.mem_cons_self)] at h
    rw [marks_cons hc]
    exact ih (fun d hd => hline d (List.mem_cons_of_mem _ hd)) (Option.map_eq_none_iff.1 h)

theorem bold?_cons {c : Char} {cs : List Char} (h : ¬Marked '*' c cs) :
    bold? (c :: cs) = none := by
  rw [bold?, afterStart?_stars h]
  rfl

theorem exists_of_bold? {c : Char} {cs inside rest : List Char}
    (h : bold? (c :: cs) = some (inside, rest)) : ∃ cs', c = '*' ∧ cs = '*' :: cs' := by
  by_cases hmark : Marked '*' c cs
  · exact (List.head?_eq_some_iff.1 hmark.2).imp fun _ hcs => ⟨hmark.1, hcs⟩
  · cases (bold?_cons hmark).symm.trans h

/-- A mark that no other one follows on its line is the last one. -/
theorem marks_of_bold?_none {c : Char} {cs : List Char}
    (hline : ∀ d ∈ c :: cs, isLineEnd d = false) (h : bold? (c :: cs) = none)
    (hmark : Marked '*' c cs) : marks '*' (c :: cs) ≤ 1 ∧ marks '*' cs ≤ 1 := by
  obtain ⟨rfl, hhead⟩ := hmark
  obtain ⟨cs, rfl⟩ := List.head?_eq_some_iff.1 hhead
  have hzero : marks '*' cs = 0 := marks_of_upTo?_none (fun d hd => hline d (by simp [hd])) h
  have hcons : marks '*' ('*' :: cs) ≤ marks '*' cs + 1 := (marks_cons_mem '*' cs).2
  rw [marks_mark]
  omega

/-- On one line, bold text is found between one mark and the next. -/
theorem mapBold_eq_replaceMarks (before after : List Char) {cs : List Char}
    (hline : ∀ c ∈ cs, isLineEnd c = false) :
    mapBold (fun inside => before ++ (inside ++ after)) cs =
      replaceMarks '*' (tagPairs before after (marks '*' cs / 2)) cs := by
  induction cs using mapBold.induct with
  | case1 => rw [mapBold_nil, replaceMarks_nil]
  | case2 c cs inside rest h hlt ih =>
    obtain ⟨cs, rfl, rfl⟩ : ∃ cs', c = '*' ∧ cs = '*' :: cs' := exists_of_bold? h
    obtain ⟨hmarks, hreplace⟩ := mark_of_upTo? h
    have hrest : ∀ d ∈ rest, isLineEnd d = false := by
      intro d hd
      refine hline d ?_
      rw [eq_append_of_upTo? h]
      simp [hd]
    have hpairs : marks '*' ('*' :: '*' :: cs) / 2 = marks '*' rest / 2 + 1 := by
      rw [marks_mark, hmarks]
      omega
    rw [mapBold_of_some h, ih hrest, hpairs, tagPairs, replaceMarks_mark, hreplace]
    simp only [List.append_assoc]
  | case3 c cs h ih =>
    have ih := ih fun d hd => hline d (List.mem_cons_of_mem _ hd)
    rw [mapBold_of_none h, ih]
    by_cases hmark : Marked '*' c cs
    · obtain ⟨hall, hafter⟩ := marks_of_bold?_none hline h hmark
      rw [Nat.div_eq_of_lt (Nat.lt_succ_of_le hall), Nat.div_eq_of_lt (Nat.lt_succ_of_le hafter),
        tagPairs, replaceMarks_no, replaceMarks_no]
    · rw [marks_cons hmark, replaceMarks_cons hmark]

end PluginAudit.Markup
