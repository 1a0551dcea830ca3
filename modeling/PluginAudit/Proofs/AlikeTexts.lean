import Mathlib.Data.List.Forall2
import PluginAudit.Proofs.ComposedConditions

/-!
# Texts with other blanks

Two texts are alike if they differ at most in which blanks stand in them. Alike texts have the same
words and spell the same tokens (`Spells.alike`), and they are cut at the same commas into alike
parts (`splitAfter_alike`).

What a call reads from its arguments is the same even exactly, as long as the blanks differ outside
of literals only (`read_alike`): those around an argument are trimmed, and there are no others,
since the arguments are single literals, checksums and comparators.
-/

namespace PluginAudit

namespace Text

/-- The same character, or one blank in place of another. -/
def Alike (c d : Char) : Prop := c = d ∨ isBlank c = true ∧ isBlank d = true

instance (c d : Char) : Decidable (Alike c d) := inferInstanceAs (Decidable (_ ∨ _))

namespace Alike

variable {c d : Char}

theorem refl (c : Char) : Alike c c := .inl rfl

theorem symm (h : Alike c d) : Alike d c := h.imp Eq.symm And.symm

theorem isBlank_eq (h : Alike c d) : isBlank c = isBlank d := by
  rcases h with rfl | ⟨hc, hd⟩
  · rfl
  · rw [hc, hd]

theorem eq (h : Alike c d) (hc : isBlank c = false) : c = d := by
  rcases h with rfl | ⟨hb, -⟩
  · rfl
  · rw [hc] at hb
    cases hb

/-- What is no blank is either character or neither. -/
theorem eq_iff (h : Alike c d) {x : Char} (hx : isBlank x = false) : c = x ↔ d = x := by
  constructor
  · rintro rfl
    exact (h.eq hx).symm
  · rintro rfl
    exact (h.symm.eq hx).symm

end Alike

/-- What is related to a text in two parts has two parts. -/
theorem exists_of_forall₂_append {α β : Type} {R : α → β → Prop} {as bs : List α} {xs : List β}
    (h : List.Forall₂ R (as ++ bs) xs) :
    ∃ ys zs, List.Forall₂ R as ys ∧ List.Forall₂ R bs zs ∧ xs = ys ++ zs :=
  ⟨xs.take as.length, xs.drop as.length, (List.forall₂_take_append _ _ _ h.flip).flip,
    (List.forall₂_drop_append _ _ _ h.flip).flip, (List.take_append_drop _ _).symm⟩

theorem exists_mem_of_forall₂ {α β : Type} {R : α → β → Prop} {as : List α} {bs : List β}
    (h : List.Forall₂ R as bs) {b : β} (hb : b ∈ bs) : ∃ a ∈ as, R a b := by
  induction h with
  | nil => cases hb
  | @cons a _ _ _ hr _ ih =>
    rcases List.mem_cons.1 hb with rfl | hb
    · exact ⟨a, List.mem_cons_self, hr⟩
    · obtain ⟨a', ha', hr'⟩ := ih hb
      exact ⟨a', List.mem_cons_of_mem _ ha', hr'⟩

variable {cs ds : List Char}

theorem eq_of_alike (h : List.Forall₂ Alike cs ds) (hc : ∀ c ∈ cs, isBlank c = false) :
    cs = ds := by
  induction h with
  | nil => rfl
  | cons hcd _ ih =>
    rw [hcd.eq (hc _ List.mem_cons_self), ih fun c hm => hc c (List.mem_cons_of_mem _ hm)]

/-- What is no blank stands in both texts. -/
theorem mem_of_alike (h : List.Forall₂ Alike cs ds) {c : Char} (hc : isBlank c = false)
    (hm : c ∈ ds) : c ∈ cs := by
  obtain ⟨a, ha, hac⟩ := exists_mem_of_forall₂ h hm
  rwa [hac.symm.eq hc]

theorem parts_eq_of_alike {ps qs : List (List Char)}
    (h : List.Forall₂ (List.Forall₂ Alike) ps qs) (hp : ∀ p ∈ ps, ∀ c ∈ p, isBlank c = false) :
    ps = qs := by
  induction h with
  | nil => rfl
  | cons hpq _ ih =>
    obtain ⟨hp, hps⟩ := List.forall_mem_cons.1 hp
    rw [eq_of_alike hpq hp, ih hps]

theorem fields_alike (h : List.Forall₂ Alike cs ds) : fields isBlank cs = fields isBlank ds := by
  induction h with
  | nil => rfl
  | @cons c d cs ds hcd _ ih =>
    cases hc : isBlank c with
    | true =>
      have hd : isBlank d = true := hcd.isBlank_eq ▸ hc
      rw [fields_sep hc, fields_sep hd, ih]
    | false => rw [← hcd.eq hc, fields, fields, ih]

theorem dropWhile_alike (h : List.Forall₂ Alike cs ds) :
    List.Forall₂ Alike (cs.dropWhile isBlank) (ds.dropWhile isBlank) := by
  induction h with
  | nil => exact .nil
  | @cons c d cs ds hcd h ih =>
    cases hc : isBlank c with
    | true =>
      have hd : isBlank d = true := hcd.isBlank_eq ▸ hc
      rwa [List.dropWhile_cons_of_pos hc, List.dropWhile_cons_of_pos hd]
    | false =>
      have hd : isBlank d = false := hcd.isBlank_eq ▸ hc
      rw [List.dropWhile_cons_of_neg (by simp [hc]), List.dropWhile_cons_of_neg (by simp [hd])]
      exact .cons hcd h

theorem trim_alike (h : List.Forall₂ Alike cs ds) : List.Forall₂ Alike (trim cs) (trim ds) := by
  rw [trim, trim, trimEnd, trimEnd, trimStart, trimStart]
  exact List.rel_reverse (dropWhile_alike (List.rel_reverse (dropWhile_alike h)))

end Text

namespace Condition

open Text Literal Argument

variable {cs ds : List Char}

/-! ## Words and tokens -/

theorem isWordChar_alike {c d : Char} (h : Alike c d) : isWordChar c = isWordChar d := by
  cases hc : isBlank c with
  | true => rw [isWordChar_of_isBlank hc, isWordChar_of_isBlank (h.isBlank_eq ▸ hc)]
  | false => rw [h.eq hc]

theorem isParenthesis_alike {c d : Char} (h : Alike c d) :
    Token.isParenthesis c = Token.isParenthesis d := by
  rcases h with rfl | ⟨hc, hd⟩
  · rfl
  · have hnone {c : Char} (hc : isBlank c = true) : Token.isParenthesis c = false := by
      refine Bool.eq_false_iff.2 fun hp => ?_
      rw [Token.isBlank_of_isParenthesis hp] at hc
      cases hc
    rw [hnone hc, hnone hd]

theorem withoutParentheses_alike (h : List.Forall₂ Alike cs ds) :
    List.Forall₂ Alike (withoutParentheses cs) (withoutParentheses ds) := by
  induction h with
  | nil => exact .nil
  | @cons c d cs ds hcd _ ih =>
    have hp := isParenthesis_alike hcd
    rw [withoutParentheses, withoutParentheses, List.filter_cons, List.filter_cons, hp]
    split
    · exact .cons hcd ih
    · exact ih

theorem Cut.alike {ps : List (List Char)} (h : Cut cs ps) (ha : List.Forall₂ Alike cs ds) :
    Cut ds ps := by
  induction h generalizing ds with
  | done =>
    cases ha
    exact .done
  | blank hc _ ih =>
    cases ha with
    | cons hcd ha => exact .blank (hcd.isBlank_eq ▸ hc) (ih ha)
  | parenthesis hc _ ih =>
    cases ha with
    | cons hcd ha =>
      rw [← hcd.eq (Token.isBlank_of_isParenthesis hc)]
      exact .parenthesis hc (ih ha)
  | @word w rest ps hw hc hr _ ih =>
    obtain ⟨w', rest', hword, hrest, rfl⟩ := exists_of_forall₂_append ha
    have hplain : ∀ c ∈ w, isBlank c = false := by
      intro c hm
      have hword := hc c hm
      rw [isWordChar, Bool.and_eq_true, Bool.not_eq_true'] at hword
      exact hword.1
    rw [← eq_of_alike hword hplain]
    refine .word hw hc (fun d hd => ?_) (ih hrest)
    cases hrest with
    | nil => cases hd
    | @cons c d' _ _ hcd _ =>
      obtain rfl := Option.some.inj hd
      rw [← isWordChar_alike hcd]
      exact hr c rfl

theorem Spells.alike {ts : List Token} (h : Spells cs ts) (ha : List.Forall₂ Alike cs ds) :
    Spells ds ts where
  words := by
    rw [Text.words, ← fields_alike (withoutParentheses_alike ha)]
    exact h.words
  cut := h.cut.alike ha

/-! ## Splitting -/

theorem splitAfter_alike (quoted : Bool) (h : List.Forall₂ Alike cs ds) :
    List.Forall₂ (List.Forall₂ Alike) (splitAfter quoted cs) (splitAfter quoted ds) := by
  induction h generalizing quoted with
  | nil => exact .cons .nil .nil
  | @cons c d cs ds hcd _ ih =>
    have hcomma : c = ',' ↔ d = ',' := hcd.eq_iff (by decide)
    have hquote : c = '"' ↔ d = '"' := hcd.eq_iff (by decide)
    by_cases hc : c ≠ ',' ∨ quoted = true
    · have hd : d ≠ ',' ∨ quoted = true := hc.imp_left fun h he => h (hcomma.2 he)
      rw [splitAfter_cons hc, splitAfter_cons hd, if_congr hquote rfl rfl]
      have ih' := ih (if d = '"' then !quoted else quoted)
      generalize splitAfter (if d = '"' then !quoted else quoted) cs = ps at ih' ⊢
      generalize splitAfter (if d = '"' then !quoted else quoted) ds = qs at ih' ⊢
      cases ih' with
      | nil => exact .cons (.cons hcd .nil) .nil
      | cons hp hps => exact .cons (.cons hcd hp) hps
    · simp only [not_or, not_not, Bool.not_eq_true] at hc
      obtain ⟨rfl, rfl⟩ := hc
      obtain rfl := hcomma.1 rfl
      exact .cons .nil (ih false)

/-- The parts of a text, with the commas between them, are the text. -/
theorem intercalate_splitAfter (quoted : Bool) (cs : List Char) :
    [','].intercalate (splitAfter quoted cs) = cs := by
  induction cs generalizing quoted with
  | nil => rfl
  | cons c cs ih =>
    obtain ⟨p, ps, hs⟩ := List.exists_cons_of_ne_nil (splitAfter_ne_nil quoted (c :: cs))
    rw [hs]
    rcases splitAfter_cons_cases hs with ⟨rfl, rfl, rfl⟩ | ⟨p', rfl, hs'⟩
    · rw [List.intercalate_cons_of_ne_nil (splitAfter_ne_nil _ _), ih]
      rfl
    · have ih' := ih (if c = '"' then !quoted else quoted)
      rw [hs'] at ih'
      cases ps with
      | nil => simpa using ih'
      | cons q ps =>
        rw [List.intercalate_cons_of_ne_nil (List.cons_ne_nil _ _)] at ih' ⊢
        exact congrArg (c :: ·) ih'

theorem split_alike (h : List.Forall₂ Alike cs ds) :
    List.Forall₂ (List.Forall₂ Alike) (split cs) (split ds) := by
  rw [split, split, List.forall₂_map_left_iff, List.forall₂_map_right_iff]
  exact (splitAfter_alike false h).imp fun _ _ hp => trim_alike hp

/-- If what follows a comma is cut into the parts after the first one, this is what precedes it. -/
theorem eq_of_splitAfter_comma {quoted : Bool} {u v p : List Char}
    (h : splitAfter quoted (u ++ ',' :: v) = p :: splitAfter false v) : p = u := by
  have hjoin := intercalate_splitAfter quoted (u ++ ',' :: v)
  rw [h, List.intercalate_cons_of_ne_nil (splitAfter_ne_nil _ _), intercalate_splitAfter,
    List.append_assoc] at hjoin
  exact List.append_cancel_right hjoin

/-- If the first part is as long as what precedes a comma, the text is cut at this comma. -/
theorem splitAfter_of_length_eq {quoted : Bool} {u v p : List Char} {ps : List (List Char)}
    (h : splitAfter quoted (u ++ ',' :: v) = p :: ps) (hl : p.length = u.length) :
    p = u ∧ ps = splitAfter false v := by
  obtain ⟨rest, hrest⟩ := eq_append_of_splitAfter h
  obtain ⟨rfl, -⟩ := List.append_inj hrest hl.symm
  have hu : u = u ++ [] := (List.append_nil u).symm
  obtain ⟨quoted', h'⟩ := splitAfter_of_append (p := []) (h.trans (by rw [← hu]))
  rcases splitAfter_cons_cases h' with ⟨-, -, rfl⟩ | ⟨p', hp, -⟩
  · exact ⟨rfl, rfl⟩
  · cases hp

theorem eq_of_splitAfter_singleton {quoted : Bool} {p : List Char}
    (h : splitAfter quoted cs = [p]) : p = cs := by
  have hjoin := intercalate_splitAfter quoted cs
  rwa [h, List.intercalate_singleton] at hjoin

/-! ## Spans -/

namespace Span

def isBlankChar : Span → Bool
  | char c => isBlank c
  | literal _ _ => false

/-- The same span, or one blank outside of literals in place of another. -/
inductive Alike : Span → Span → Prop where
  | same (x : Span) : Alike x x
  | blank {c d : Char} (hc : isBlank c = true) (hd : isBlank d = true) : Alike (.char c) (.char d)

theorem alike_iff {x y : Span} :
    Alike x y ↔ x = y ∨ x.isBlankChar = true ∧ y.isBlankChar = true := by
  constructor
  · rintro (_ | ⟨hc, hd⟩)
    · exact .inl rfl
    · exact .inr ⟨hc, hd⟩
  · rintro (rfl | ⟨hx, hy⟩)
    · exact .same x
    · cases x with
      | char c =>
        cases y with
        | char d => exact .blank hx hy
        | literal q content => cases hy
      | literal q content => cases hx

instance : DecidableRel Alike := fun _ _ => decidable_of_iff _ alike_iff.symm

theorem Alike.symm {x y : Span} (h : Alike x y) : Alike y x := by
  cases h with
  | same => exact .same x
  | blank hc hd => exact .blank hd hc

variable {xs ys : List Span}

theorem texts_alike (h : List.Forall₂ Alike xs ys) :
    List.Forall₂ Text.Alike (texts xs) (texts ys) := by
  induction h with
  | nil => exact .nil
  | @cons x y xs ys hxy _ ih =>
    have htext : List.Forall₂ Text.Alike x.text y.text := by
      cases hxy with
      | same => exact List.forall₂_same.2 fun c _ => .refl c
      | blank hc hd => exact .cons (.inr ⟨hc, hd⟩) .nil
    exact List.rel_append htext ih

theorem Lexed.alike (hx : Lexed xs) (h : List.Forall₂ Alike xs ys) : Lexed ys := by
  induction h with
  | nil => trivial
  | @cons x y xs ys hxy h ih =>
    cases hxy with
    | same =>
      cases x with
      | char c =>
        refine ⟨fun hq hm => hx.1 hq ?_, ih hx.2⟩
        exact mem_of_alike (texts_alike h) (isBlank_of_isQuote hq) hm
      | literal q content => exact ⟨hx.1, ih hx.2⟩
    | @blank c d hc hd =>
      refine ⟨fun hq => ?_, ih hx.2⟩
      rw [isBlank_of_isQuote hq] at hd
      cases hd

theorem exists_blanks_of_alike {l : List Char} (hl : ∀ c ∈ l, isBlank c = true)
    (h : List.Forall₂ Alike (l.map char) ys) :
    ∃ l' : List Char, (∀ c ∈ l', isBlank c = true) ∧ ys = l'.map char := by
  induction l generalizing ys with
  | nil =>
    cases h
    exact ⟨[], by simp, rfl⟩
  | cons c l ih =>
    obtain ⟨hc, hl⟩ := List.forall_mem_cons.1 hl
    cases h with
    | cons hxy h =>
      obtain ⟨l', hl', rfl⟩ := ih hl h
      cases hxy with
      | same => exact ⟨c :: l', List.forall_mem_cons.2 ⟨hc, hl'⟩, rfl⟩
      | @blank _ d _ hd => exact ⟨d :: l', List.forall_mem_cons.2 ⟨hd, hl'⟩, rfl⟩

end Span

/-- Without the blanks around it, a literal standing alone is the same. -/
theorem Quotes.trim_alike {s : String} {place place' : List Span} (h : Quotes s place)
    (hx : Span.Lexed place) (ha : List.Forall₂ Span.Alike place place') :
    trim (Span.texts place') = trim (Span.texts place) := by
  obtain ⟨q, l, r, hblank, rfl⟩ := h
  have hq : isBlank q = false := isBlank_of_isQuote hx.right.1.1
  have htrim {l r : List Char} (hl : ∀ c ∈ l, isBlank c = true) (hr : ∀ c ∈ r, isBlank c = true) :
      trim (Span.texts (l.map .char ++ .literal q s.toList :: r.map .char)) =
        q :: s.toList ++ [q] := by
    rw [← trim_enclosed hq hq, ← trim_between hl hr (q :: s.toList ++ [q]), Span.texts_append,
      Span.texts_map_char, List.append_assoc]
    exact congrArg (fun r => trim (l ++ (q :: s.toList ++ [q] ++ r))) (Span.texts_map_char r)
  obtain ⟨hl, hr⟩ := List.forall_mem_append.1 hblank
  obtain ⟨_, _, hleft, hrest, rfl⟩ := exists_of_forall₂_append ha
  cases hrest with
  | cons hlit hright =>
    cases hlit
    obtain ⟨l', hl', rfl⟩ := Span.exists_blanks_of_alike hl hleft
    obtain ⟨r', hr', rfl⟩ := Span.exists_blanks_of_alike hr hright
    rw [htrim hl hr, htrim hl' hr']

/-! ## Reading -/

section

variable {xs ys : List Span}

/-- An argument that reads as a string stays, and so does where the others begin. -/
theorem split_cons_alike {s : String} {a : List Char} {as : List (List Char)}
    (ha : readString a = .ok s) (hx : Span.Lexed xs) (h : List.Forall₂ Span.Alike xs ys)
    (hs : split (Span.texts xs) = a :: as) :
    as = [] ∧ split (Span.texts ys) = [a] ∨
      ∃ zs ws, Span.Lexed zs ∧ List.Forall₂ Span.Alike zs ws ∧ as = split (Span.texts zs) ∧
        split (Span.texts ys) = a :: split (Span.texts ws) := by
  have hparts := splitAfter_alike false (Span.texts_alike h)
  obtain ⟨p, ps, hp⟩ := List.exists_cons_of_ne_nil (splitAfter_ne_nil false (Span.texts xs))
  obtain ⟨p', ps', hp'⟩ := List.exists_cons_of_ne_nil (splitAfter_ne_nil false (Span.texts ys))
  rw [hp, hp', List.forall₂_cons] at hparts
  rw [split, hp] at hs
  obtain ⟨rfl, rfl⟩ := List.cons.inj hs
  obtain ⟨place, hplace, ⟨rfl, rfl⟩ | ⟨zs, rfl, rfl⟩⟩ :=
    Span.quotes_of_splitAfter hx hp (unquote?_of_readString ha)
  · left
    obtain rfl := List.forall₂_nil_left_iff.1 hparts.2
    rw [split, hp', eq_of_splitAfter_singleton hp, eq_of_splitAfter_singleton hp']
    exact ⟨rfl, congrArg ([·]) (hplace.trim_alike hx h)⟩
  · right
    obtain ⟨place', _, hhead, hrest, rfl⟩ := exists_of_forall₂_append h
    cases hrest with
    | @cons _ y _ ws hcomma hzs =>
      obtain rfl : y = .char ',' := by
        cases hcomma with
        | same => rfl
        | blank hc _ => cases hc
      have ht (us vs : List Span) : Span.texts (us ++ .char ',' :: vs) =
          Span.texts us ++ ',' :: Span.texts vs := Span.texts_append _ _
      rw [ht] at hp hp'
      obtain rfl := eq_of_splitAfter_comma hp
      have hlength : p'.length = (Span.texts place').length :=
        hparts.1.length_eq.symm.trans (Span.texts_alike hhead).length_eq
      obtain ⟨rfl, rfl⟩ := splitAfter_of_length_eq hp' hlength
      refine ⟨zs, ws, hx.right.2, hzs, rfl, ?_⟩
      rw [ht, split, hp', List.map_cons, hplace.trim_alike hx.left hhead]
      rfl

/-- Strings and bare arguments stay as they are. -/
theorem split_eq_of_alike {ss : List String} {as bs : List (List Char)}
    (hr : List.Forall₂ (fun s a => readString a = .ok s) ss as)
    (hb : ∀ b ∈ bs, ∀ c ∈ b, isBareChar c = true) (hx : Span.Lexed xs)
    (h : List.Forall₂ Span.Alike xs ys) (hs : split (Span.texts xs) = as ++ bs) :
    split (Span.texts ys) = as ++ bs := by
  induction hr generalizing xs ys with
  | nil =>
    have hparts := split_alike (Span.texts_alike h)
    rw [hs, List.nil_append] at hparts
    refine (parts_eq_of_alike hparts fun b hm c hc => ?_).symm
    exact (meaning_of_isBareChar (hb b hm c hc)).1
  | cons ha has ih =>
    rcases split_cons_alike ha hx h hs with ⟨hnil, hys⟩ | ⟨zs, ws, hzs, hzw, has', hys⟩
    · rw [hys]
      exact congrArg _ hnil.symm
    · rw [hys, List.cons_append, ih hzs hzw has'.symm]

theorem read_of_split_eq {f : Function} {call : Call} (hs : split ds = split cs)
    (hr : Call.read f cs = .ok call) : Call.read f ds = .ok call := by
  unfold Call.read at hr ⊢
  simp only at hr ⊢
  rw [hs]
  split at hr
  case h_10 => cases hr
  all_goals exact hr

/-- The same call is read from alike arguments. -/
theorem read_alike (hx : Span.Lexed xs) (h : List.Forall₂ Span.Alike xs ys) {f : Function}
    {call : Call} (hr : Call.read f (Span.texts xs) = .ok call) :
    Call.read f (Span.texts ys) = .ok call := by
  obtain ⟨-, as, bs, hs, has, hbs⟩ := strings_of_read hr
  exact read_of_split_eq ((split_eq_of_alike has hbs hx h hs).trans hs.symm) hr

end

end Condition

end PluginAudit
