import PluginAudit.Proofs.AlikeTexts
import PluginAudit.Proofs.HostFailures
import PluginAudit.Proofs.LeftoverPlaceholders

/-!
# Conditions with other blanks

Two conditions that differ only in which blanks stand outside of their literals are made of alike
pieces, with the same calls (`Outline.alike`). So they have the same value, or both are refused,
unless one of them breaks a call: a line that ends between the parentheses of a call hides it from
the search, its name is left in the text, and the condition is refused (`evaluate_respaced`).

A condition that forges one of its literals, by its placeholder outside of quotes, is left aside:
what is read there may have blanks from outside of literals in its strings.
-/

namespace PluginAudit.Condition

open Text Literal Inspection FunctionCall Piece

/-- The second text is the first one with other blanks outside of its literals. -/
def Respaced (text text' : String) : Prop :=
  ∃ ys, List.Forall₂ Span.Alike (Span.cut text.toList) ys ∧ text'.toList = Span.texts ys

/-- A call among spans with the end of a line between its parentheses. -/
def BreaksCall (xs : List Span) : Prop :=
  ∃ (f : Function) (before inside after : List Span),
    xs = before ++ ((f.name.toList ++ ['(']).map .char ++ (inside ++ .char ')' :: after)) ∧
    (∀ x ∈ before.getLast?, x.opens = true) ∧ .char ')' ∉ inside ∧
    ∃ c, .char c ∈ inside ∧ isLineEnd c = true

/-- Whether an evaluation ends with the refusal of the condition. -/
def IsRefused (result : Except Failure Bool) : Prop := ∃ fault, result = .error (.condition fault)

/-! ## Alike spans -/

theorem isBlank_of_isDigit {c : Char} (h : isDigit c = true) : isBlank c = false := by
  have hbare : isBareChar c = true := by
    rw [isDigit] at h
    rw [isBareChar, hexDigit?, if_pos h]
    rfl
  exact (meaning_of_isBareChar hbare).1

namespace Span

variable {xs ys : List Span}

theorem forall₂_symm (h : List.Forall₂ Alike xs ys) : List.Forall₂ Alike ys xs :=
  h.flip.imp fun _ _ hxy => hxy.symm

theorem eq_of_alike_char {c : Char} (hc : isBlank c = false) {y : Span} (h : Alike (char c) y) :
    y = char c := by
  cases h with
  | same => rfl
  | blank hb =>
    rw [hc] at hb
    cases hb

/-- Characters that are no blanks are alike to themselves only. -/
theorem eq_of_alike_chars {cs : List Char} (hc : ∀ c ∈ cs, isBlank c = false)
    (h : List.Forall₂ Alike (cs.map char) ys) : ys = cs.map char := by
  induction cs generalizing ys with
  | nil =>
    cases h
    rfl
  | cons c cs ih =>
    obtain ⟨hc, hcs⟩ := List.forall_mem_cons.1 hc
    cases h with
    | cons hxy h => rw [eq_of_alike_char hc hxy, ih hcs h, List.map_cons]

theorem literals_alike (h : List.Forall₂ Alike xs ys) : literals ys = literals xs := by
  induction h with
  | nil => rfl
  | @cons x y xs ys hxy _ ih =>
    cases hxy with
    | blank => exact ih
    | same =>
      cases x with
      | char c => exact ih
      | literal q content => exact congrArg (_ :: ·) ih

theorem opens_alike {x y : Span} (h : Alike x y) : y.opens = x.opens := by
  cases h with
  | same => rfl
  | blank hc hd => rw [opens, opens, mayPrecede, mayPrecede, hc, hd]; rfl

/-- Literals are forged by the same placeholders. -/
theorem Forges.alike {count : Nat} (hf : Forges count xs) (h : List.Forall₂ Alike xs ys) :
    Forges count ys := by
  obtain ⟨before, ds, after, rfl, hne, hdigit, hlt⟩ := hf
  obtain ⟨_, after', hleft, -, rfl⟩ := exists_of_forall₂_append h
  obtain ⟨before', _, -, hmark, rfl⟩ := exists_of_forall₂_append hleft
  have hplain : ∀ c ∈ '{' :: ds ++ ['}'], isBlank c = false := by
    rw [List.cons_append, List.forall_mem_cons, List.forall_mem_append]
    exact ⟨rfl, fun d hd => isBlank_of_isDigit (hdigit d hd), List.forall_mem_singleton.2 rfl⟩
  exact ⟨before', ds, after', by rw [eq_of_alike_chars hplain hmark], hne, hdigit, hlt⟩

/-- On one line, arguments stay arguments. -/
theorem isArgument_alike (h : List.Forall₂ Alike xs ys) (hx : ∀ x ∈ xs, x.IsArgument)
    (hy : ∀ c, char c ∈ ys → isLineEnd c = false) : ∀ y ∈ ys, y.IsArgument := by
  induction h with
  | nil => exact fun y hy => by cases hy
  | @cons x y xs ys hxy _ ih =>
    obtain ⟨hx, hxs⟩ := List.forall_mem_cons.1 hx
    refine List.forall_mem_cons.2 ⟨?_, ih hxs fun c hc => hy c (List.mem_cons_of_mem _ hc)⟩
    cases hxy with
    | same => exact hx
    | @blank c d hc hd =>
      obtain ⟨hq, hb⟩ := plain_of_isBlank hd
      have ho : d ≠ '(' := fun he => absurd hd (by rw [he]; decide)
      have hcl : d ≠ ')' := fun he => absurd hd (by rw [he]; decide)
      exact ⟨hq, hb, ho, hcl, hy d List.mem_cons_self⟩

end Span

theorem Respaced.cut {text text' : String} (h : Respaced text text') :
    List.Forall₂ Span.Alike (Span.cut text.toList) (Span.cut text'.toList) := by
  obtain ⟨ys, hys, htext⟩ := h
  rwa [htext, ((Span.lexed_cut _).alike hys).cut_texts]

theorem respaced_iff {text text' : String} : Respaced text text' ↔
    List.Forall₂ Span.Alike (Span.cut text.toList) (Span.cut text'.toList) :=
  ⟨Respaced.cut, fun h => ⟨_, h, (Span.texts_cut _).symm⟩⟩

instance (text text' : String) : Decidable (Respaced text text') :=
  decidable_of_iff _ respaced_iff.symm

theorem Respaced.forgesLiteral {text text' : String} (h : Respaced text text')
    (hf : ForgesLiteral text) : ForgesLiteral text' := by
  rw [ForgesLiteral, Span.literals_alike h.cut]
  exact Span.Forges.alike hf h.cut

theorem Respaced.symm {text text' : String} (h : Respaced text text') : Respaced text' text :=
  respaced_iff.2 (Span.forall₂_symm h.cut)

/-! ## Alike pieces -/

/-- Pieces of alike spans; a call keeps its function and its answer. -/
inductive Piece.Alike : Piece Span → Piece Span → Prop where
  | single {x y : Span} (h : x.Alike y) : Alike (.single x) (.single y)
  | call (f : Function) (answer : Bool) {xs ys : List Span} (h : List.Forall₂ Span.Alike xs ys) :
      Alike (.call ⟨f, xs, answer⟩) (.call ⟨f, ys, answer⟩)

theorem isBlank_of_mem_name (f : Function) : ∀ c ∈ f.name.toList, isBlank c = false :=
  fun c hc => (plain_of_mem_name f c hc).1

theorem exists_alike_of_parts (p : Piece Span) {ys : List Span}
    (h : List.Forall₂ Span.Alike (p.parts .char) ys) : ∃ q, p.Alike q ∧ q.parts .char = ys := by
  cases p with
  | single x =>
    cases h with
    | @cons _ y _ _ hxy h =>
      cases h
      exact ⟨.single y, .single hxy, rfl⟩
  | call c =>
    obtain ⟨_, _, hname, hrest, rfl⟩ := exists_of_forall₂_append h
    obtain rfl := Span.eq_of_alike_chars (isBlank_of_mem_name _) hname
    cases hrest with
    | @cons _ y _ _ hopening hrest =>
      obtain ⟨args, _, hargs, hclosing, rfl⟩ := exists_of_forall₂_append hrest
      obtain rfl := Span.eq_of_alike_char rfl hopening
      cases hclosing with
      | cons hclosing hnil =>
        obtain rfl := Span.eq_of_alike_char rfl hclosing
        cases hnil
        exact ⟨.call ⟨c.function, args, c.answer⟩, .call _ _ hargs, rfl⟩

/-- What is alike to the spans of pieces is made of alike pieces. -/
theorem exists_alike_of_spans {ps : List (Piece Span)} {ys : List Span}
    (h : List.Forall₂ Span.Alike (spans ps) ys) :
    ∃ qs, List.Forall₂ Piece.Alike ps qs ∧ spans qs = ys := by
  induction ps generalizing ys with
  | nil =>
    cases h
    exact ⟨[], .nil, rfl⟩
  | cons p ps ih =>
    obtain ⟨_, _, hp, hps, rfl⟩ := exists_of_forall₂_append h
    obtain ⟨q, hq, rfl⟩ := exists_alike_of_parts p hp
    obtain ⟨qs, hqs, rfl⟩ := ih hps
    exact ⟨q :: qs, .cons hq hqs, rfl⟩

section

variable {ps qs : List (Piece Span)} (h : List.Forall₂ Piece.Alike ps qs)
include h

theorem placed_alike {fresh : Bool} (hp : Placed fresh ps) : Placed fresh qs := by
  induction hp generalizing qs with
  | done =>
    cases h
    exact .done
  | single _ ih =>
    cases h with
    | cons hpq h =>
      cases hpq with
      | single hxy => exact .single (Span.opens_alike hxy ▸ ih h)
  | call _ ih =>
    cases h with
    | cons hpq h =>
      cases hpq with
      | call f answer hargs => exact .call (ih h)

theorem bare_alike (hp : ∀ x, .single x ∈ ps → ∃ c, x = .char c) :
    ∀ y, .single y ∈ qs → ∃ c, y = .char c := by
  intro y hy
  obtain ⟨p, hm, ha⟩ := exists_mem_of_forall₂ h hy
  cases ha with
  | single hxy =>
    obtain ⟨c, rfl⟩ := hp _ hm
    cases hxy with
    | same => exact ⟨c, rfl⟩
    | @blank _ d => exact ⟨d, rfl⟩

theorem answeredText_alike : List.Forall₂ Text.Alike (answeredText ps) (answeredText qs) := by
  refine Span.texts_alike ?_
  induction h with
  | nil => exact .nil
  | cons hpq _ ih =>
    refine List.rel_append ?_ ih
    cases hpq with
    | single hxy => exact .cons hxy .nil
    | call f answer _ => exact List.forall₂_same.2 fun x _ => .same x

end

/-! ## Calls that stay on their line -/

theorem opens_of_mem_getLast?_append {xs ys : List Span} (hy : ∀ x ∈ ys.getLast?, x.opens = true)
    (hx : ys = [] → ∀ x ∈ xs.getLast?, x.opens = true) :
    ∀ x ∈ (xs ++ ys).getLast?, x.opens = true := by
  by_cases hys : ys = []
  · rw [hys, List.append_nil]
    exact hx hys
  · rwa [List.getLast?_append_of_ne_nil _ hys]

/-- Before a call among pieces there is what it may stand after. -/
theorem exists_append_call {fresh : Bool} {ps : List (Piece Span)} (h : Placed fresh ps)
    {c : Asked Span} (hc : .call c ∈ ps) :
    ∃ qs rs, ps = qs ++ .call c :: rs ∧ (∀ x ∈ (spans qs).getLast?, x.opens = true) ∧
      (spans qs = [] → fresh = true) := by
  induction h with
  | done => cases hc
  | @single fresh x ps _ ih =>
    obtain ⟨qs, rs, rfl, hlast, hnil⟩ := ih ((List.mem_cons.1 hc).resolve_left (by simp))
    refine ⟨.single x :: qs, rs, rfl, ?_, fun he => by cases he⟩
    refine opens_of_mem_getLast?_append hlast fun he y hy => ?_
    obtain rfl : x = y := Option.some.inj hy
    exact hnil he
  | @call d ps _ ih =>
    rcases List.mem_cons.1 hc with he | hc
    · cases he
      exact ⟨[], ps, rfl, by simp [spans], fun _ => rfl⟩
    · obtain ⟨qs, rs, rfl, hlast, hnil⟩ := ih hc
      refine ⟨.call d :: qs, rs, rfl, ?_, fun _ => rfl⟩
      exact opens_of_mem_getLast?_append hlast fun he => by cases hnil he

/-- If no call is broken, no line ends between the parentheses of a call. -/
theorem isLineEnd_of_not_breaksCall {ps : List (Piece Span)} (h : Placed true ps)
    (hb : ¬ BreaksCall (spans ps)) {c : Asked Span} (hc : .call c ∈ ps)
    (hclosing : .char ')' ∉ c.args) : ∀ d, .char d ∈ c.args → isLineEnd d = false := by
  intro d hd
  refine Bool.eq_false_iff.2 fun hline => hb ?_
  obtain ⟨qs, rs, rfl, hlast, -⟩ := exists_append_call h hc
  refine ⟨c.function, spans qs, c.args, spans rs, ?_, hlast, hclosing, d, hd, hline⟩
  rw [spans_append, spans_cons, parts]
  simp

section

variable {host : Host.Fixed} {dirs : Host.Directories} {context : Option Package}
  {known : Option Facts}

/-- What is between the parentheses of a call does not matter as long as it is alike and on one
line. -/
theorem Asked.Sound.alike {f : Function} {v : Bool} {xs ys : List Span}
    (hc : Asked.Sound host dirs context known ⟨f, xs, v⟩) (h : List.Forall₂ Span.Alike xs ys)
    (hy : ∀ c, .char c ∈ ys → isLineEnd c = false) :
    Asked.Sound host dirs context known ⟨f, ys, v⟩ where
  arguments := Span.isArgument_alike h hc.arguments hy
  literals := by
    rw [Span.literals_alike h]
    exact hc.literals
  answered := by
    have hplain : ∀ x ∈ xs, x.IsPlain := fun x hx => (hc.arguments x hx).isPlain
    have hlexed : Span.Lexed xs := by
      rw [← Span.cut_texts hplain]
      exact Span.lexed_cut _
    obtain ⟨call, hread, hholds⟩ := hc.answered
    exact ⟨call, read_alike hlexed h hread, hholds⟩

/-- The outline of a condition is one of every alike condition that breaks no call. -/
theorem Outline.alike {ps qs : List (Piece Span)} {ts : List Token}
    (ho : Outline host dirs context known ps ts) (h : List.Forall₂ Piece.Alike ps qs)
    (hb : ¬ BreaksCall (spans qs)) : Outline host dirs context known qs ts where
  placed := placed_alike h ho.placed
  sound c hc := by
    rw [mem_asked] at hc
    obtain ⟨p, hp, ha⟩ := exists_mem_of_forall₂ h hc
    cases ha with
    | @call f answer xs ys hargs =>
      have hsound := ho.sound _ (mem_asked.2 hp)
      refine hsound.alike hargs (isLineEnd_of_not_breaksCall (placed_alike h ho.placed) hb hc ?_)
      intro hm
      obtain ⟨x, hx, hxy⟩ := exists_mem_of_forall₂ hargs hm
      obtain rfl := Span.eq_of_alike_char rfl hxy.symm
      exact (hsound.arguments _ hx).2.2.2.1 rfl
  bare := bare_alike h ho.bare
  spells := ho.spells.alike (answeredText_alike h)

/-- A condition with a value has it with any other blanks, too, if these break no call. -/
theorem evaluate_respaced_of_ok {text text' : String} {v : Bool} (h : Respaced text text')
    (hf : ¬ ForgesLiteral text) (hb : ¬ BreaksCall (Span.cut text'.toList))
    (hv : outcome host known (evaluate dirs context text) = .ok v) :
    outcome host known (evaluate dirs context text') = .ok v := by
  obtain ⟨ts, ⟨ps, htext, ho⟩, hd⟩ :=
    outlined_of_evaluate (not_writesPlaceholder_of_ok hf hv) hv
  have halike := h.cut
  rw [htext, Span.cut_texts ho.isPlain] at halike
  obtain ⟨qs, hqs, hspans⟩ := exists_alike_of_spans halike
  rw [← hspans] at hb
  refine evaluate_of_outlined ⟨qs, ?_, ho.alike hqs hb⟩ hd
  rw [hspans, Span.texts_cut]

end

/-! ## Broken calls -/

theorem opens_of_mem_name {f : Function} {x : Span} (h : x ∈ f.name.toList.map Span.char) :
    x.opens = false := by
  obtain ⟨c, hc, rfl⟩ := List.mem_map.1 h
  exact mayPrecede_of_mem_name f c hc

theorem not_mem_name (f : Function) {c : Char} (hc : mayPrecede c = true ∨ c = ')') :
    .char c ∉ f.name.toList.map Span.char := by
  intro h
  have hm := Span.char_mem_map_char.1 h
  rcases hc with hc | rfl
  · rw [mayPrecede_of_mem_name f c hm] at hc
    cases hc
  · exact (plain_of_mem_name f _ hm).2.2.1 rfl

theorem parts_call_append (c : Asked Span) (xs : List Span) :
    parts .char (.call c) ++ xs =
      c.function.name.toList.map .char ++ .char '(' :: (c.args ++ .char ')' :: xs) := by
  simp [parts]

theorem getLast?_parts_call (c : Asked Span) :
    (parts .char (.call c)).getLast? = some (.char ')') := by
  rw [parts, ← List.cons_append, ← List.append_assoc]
  exact List.getLast?_concat

theorem name_append (f : Function) (xs : List Span) :
    (f.name.toList ++ ['(']).map .char ++ xs = f.name.toList.map .char ++ .char '(' :: xs := by
  simp

/-- A name at which a call might begin does not stand within a call, but after it. -/
theorem exists_append_of_name {f : Function} {c : Asked Span} (hargs : ∀ x ∈ c.args, x.IsArgument)
    {xs before rest : List Span}
    (hs : parts .char (.call c) ++ xs = before ++ ((f.name.toList ++ ['(']).map .char ++ rest))
    (hne : before ≠ []) (hlast : ∀ x ∈ before.getLast?, x.opens = true) :
    ∃ z, before = parts .char (.call c) ++ z ∧
      xs = z ++ ((f.name.toList ++ ['(']).map .char ++ rest) := by
  rw [parts_call_append, name_append, ← List.append_assoc] at hs
  -- the parenthesis after the name is not the one that opens the call, nor among its arguments
  obtain ⟨a, ha, hopening⟩ := eq_append_of_not_mem (not_mem_name _ (.inl rfl)) hs
  cases a with
  | nil =>
    have hlast' := hlast _ (List.getLast?_eq_some_getLast hne)
    rw [List.append_nil] at ha
    rw [opens_of_mem_name (ha ▸ List.mem_append_left _ (List.getLast_mem hne))] at hlast'
    cases hlast'
  | cons x a =>
    obtain ⟨rfl, hinside⟩ := List.cons.inj hopening
    have hnot : Span.char '(' ∉ c.args := fun hm => (hargs _ hm).2.2.1 rfl
    obtain ⟨b, rfl, hclosing⟩ := eq_append_of_not_mem hnot hinside
    cases b with
    | nil => cases (List.cons.inj hclosing).1
    | cons y b =>
      obtain ⟨rfl, hxs⟩ := List.cons.inj hclosing
      rw [← parts_call_append] at ha
      rw [name_append, hxs]
      -- the name does not reach back over the closing parenthesis either
      rcases List.append_eq_append_iff.1 ha with ⟨z, hz, hname⟩ | ⟨z, rfl, rfl⟩
      · cases z with
        | nil => exact ⟨[], by rw [hz, List.append_nil, List.append_nil], by rw [hname]; rfl⟩
        | cons y z =>
          have hend := getLast?_parts_call c
          rw [hz, List.getLast?_append_of_ne_nil _ (List.cons_ne_nil y z)] at hend
          have hm : .char ')' ∈ f.name.toList.map Span.char := by
            rw [hname]
            exact List.mem_append_left _ (List.mem_of_getLast? hend)
          exact absurd hm (not_mem_name f (.inr rfl))
      · exact ⟨z, rfl, by simp⟩

/-- Where a name and an opening parenthesis stand at a place for a call, there is a call, or they
are left in the answered text. -/
theorem exists_call_of_name {f : Function} {fresh : Bool} {ps : List (Piece Span)}
    (h : Placed fresh ps) (hargs : ∀ c ∈ asked ps, ∀ x ∈ c.args, x.IsArgument)
    (hf : ¬ f.name.toList ++ ['('] <:+: answeredText ps) {before rest : List Span}
    (hs : spans ps = before ++ ((f.name.toList ++ ['(']).map .char ++ rest))
    (hlast : ∀ x ∈ before.getLast?, x.opens = true) (hnil : before = [] → fresh = true) :
    ∃ c ∈ asked ps, ∃ tail, rest = c.args ++ .char ')' :: tail := by
  induction h generalizing before with
  | done => simp [spans] at hs
  | @single fresh x ps h ih =>
    cases before with
    | nil =>
      have hprefix := name_prefix_answeredText (mayPrecede_of_mem_name f) (.single h) hs
      exact absurd hprefix.isInfix hf
    | cons y before =>
      obtain ⟨rfl, hs'⟩ := List.cons.inj hs
      refine ih hargs (fun hi => hf ?_) hs' (fun z hz => hlast z ?_) ?_
      · exact hi.trans (List.suffix_append x.text (answeredText ps)).isInfix
      · rw [List.getLast?_cons, Option.mem_def.1 hz]
        rfl
      · rintro rfl
        exact hlast x rfl
  | @call c ps h ih =>
    have hc := hargs c List.mem_cons_self
    by_cases hb : before = []
    · rw [hb, spans_cons, parts_call_append, List.nil_append, name_append] at hs
      obtain ⟨-, hrest⟩ := append_inj_of_not_mem (not_mem_name _ (.inl rfl))
        (not_mem_name f (.inl rfl)) hs
      exact ⟨c, List.mem_cons_self, spans ps, hrest.symm⟩
    · obtain ⟨z, rfl, hs'⟩ := exists_append_of_name hc hs hb hlast
      have hrest : ¬ f.name.toList ++ ['('] <:+: answeredText ps := by
        rw [answeredText_cons] at hf
        exact fun hi => hf (hi.trans (List.suffix_append _ _).isInfix)
      have hlast' : ∀ x ∈ z.getLast?, x.opens = true := by
        intro x hx
        refine hlast x ?_
        rw [List.getLast?_append, Option.mem_def.1 hx]
        rfl
      have hnil' : z = [] → false = true := by
        rintro rfl
        rw [List.append_nil] at hlast
        cases hlast _ (getLast?_parts_call c)
      obtain ⟨d, hd, tail, hargs⟩ :=
        ih (fun d hd => hargs d (List.mem_cons_of_mem _ hd)) hrest hs' hlast' hnil'
      exact ⟨d, List.mem_cons_of_mem _ hd, tail, hargs⟩

section

variable {host : Host.Fixed} {dirs : Host.Directories} {context : Option Package}
  {known : Option Facts}

/-- A condition that breaks a call has no value. -/
theorem evaluate_ne_ok_of_breaksCall {text : String} (v : Bool)
    (hf : ¬ ForgesLiteral text) (hb : BreaksCall (Span.cut text.toList)) :
    outcome host known (evaluate dirs context text) ≠ .ok v := by
  intro hv
  obtain ⟨ts, ⟨ps, htext, ho⟩, -⟩ :=
    outlined_of_evaluate (not_writesPlaceholder_of_ok hf hv) hv
  rw [htext, Span.cut_texts ho.isPlain] at hb
  obtain ⟨f, before, inside, after, hs, hlast, hclosing, d, hd, hline⟩ := hb
  obtain ⟨c, hc, tail, hrest⟩ := exists_call_of_name ho.placed
    (fun c hc => (ho.sound c hc).arguments) (ho.spells.not_name f) hs hlast fun _ => rfl
  have hargs := (ho.sound c hc).arguments
  have hnot : Span.char ')' ∉ c.args := fun hm => (hargs _ hm).2.2.2.1 rfl
  obtain ⟨rfl, -⟩ := append_inj_of_not_mem hclosing hnot hrest
  have hsame : isLineEnd d = false := (hargs _ hd).2.2.2.2
  rw [hline] at hsame
  cases hsame

/-- An evaluation that has no value is refused, if the host works. -/
theorem isRefused_of_ne_ok {text : String}
    (hs : Host.Sound host (transcript host known (evaluate dirs context text)))
    (h : ∀ v, outcome host known (evaluate dirs context text) ≠ .ok v) :
    IsRefused (outcome host known (evaluate dirs context text)) := by
  cases hr : outcome host known (evaluate dirs context text) with
  | ok v => exact absurd hr (h v)
  | error f =>
    obtain ⟨fault, rfl⟩ := (fails_evaluate dirs text).failure known hs f hr
    exact ⟨fault, rfl⟩

end

/-! ## What a condition asks -/

section

variable {host : Host.Fixed} {known : Option Facts}

theorem sound_transcript_bind {α β : Type} {i : Inspection α} {f : α → Inspection β}
    (hi : Host.Sound host (transcript host known i))
    (hf : ∀ a s, Host.Sound host (transcript host s (f a))) :
    Host.Sound host (transcript host known (i >>= f)) := by
  rw [transcript_bind, Host.sound_append]
  refine ⟨hi, ?_⟩
  split
  · exact hf _ _
  · exact fun _ hm => by cases hm

theorem sound_transcript_tryCatch {α : Type} {i : Inspection α} {h : Failure → Inspection α}
    (hi : Host.Sound host (transcript host known i))
    (hh : ∀ f s, Host.Sound host (transcript host s (h f))) :
    Host.Sound host (transcript host known (tryCatch i h)) := by
  rw [transcript_tryCatch, Host.sound_append]
  refine ⟨hi, ?_⟩
  split
  · exact fun _ hm => by cases hm
  · exact hh _ _

/-- A condition asks only what its calls ask. -/
theorem sound_transcript_evaluate {dirs : Host.Directories} {context : Option Package}
    {text : String} (h : Host.Sound host (transcript host known
      (answerCalls dirs context (mask text.toList).text (findAll (mask text.toList))))) :
    Host.Sound host (transcript host known (evaluate dirs context text)) := by
  have hreport (s : Option Facts) (e : Log.Event) :
      Host.Sound host (transcript host s (Inspection.report e)) := by
    intro line hm
    obtain rfl := List.mem_singleton.1 hm
    rfl
  have hsilent {α : Type} (s : Option Facts) (a : Except Fault α) :
      Host.Sound host (transcript host s (ofFault a)) := by
    cases a <;> exact fun _ hm => by cases hm
  have hbody : Host.Sound host (transcript host known (evaluateBody dirs context text)) := by
    refine sound_transcript_bind h fun answered s => ?_
    refine sound_transcript_bind (hsilent s _) fun v s => ?_
    exact sound_transcript_bind (hreport s _) fun _ s => hsilent s (.ok v)
  refine List.forall_mem_cons.2 ⟨rfl, sound_transcript_tryCatch hbody fun f s => ?_⟩
  cases f <;> exact fun _ hm => by cases hm

end

/-! ## Two conditions -/

/-- Blanks in a condition that breaks no call do not matter: it has the same value with any others
outside of its literals, or both are refused, unless the others break a call. A condition that
breaks a call is refused. -/
theorem evaluate_respaced (host : Host.Fixed) (dirs : Host.Directories) (context : Option Package)
    (known : Option Facts) {text text' : String} (h : Respaced text text')
    (hf : ¬ ForgesLiteral text)
    (hs : Host.Sound host (transcript host known (evaluate dirs context text)))
    (hs' : Host.Sound host (transcript host known (evaluate dirs context text'))) :
    let value (text : String) := outcome host known (evaluate dirs context text)
    let breaks (text : String) := BreaksCall (Span.cut text.toList)
    (breaks text → IsRefused (value text)) ∧ (breaks text' → IsRefused (value text')) ∧
      (¬ breaks text → ¬ breaks text' → (∃ v, value text = .ok v ∧ value text' = .ok v) ∨
        IsRefused (value text) ∧ IsRefused (value text')) := by
  intro value breaks
  have hf' : ¬ ForgesLiteral text' := fun hf' => hf (h.symm.forgesLiteral hf')
  refine ⟨fun hb => ?_, fun hb => ?_, fun hb hb' => ?_⟩
  · exact isRefused_of_ne_ok hs fun v => evaluate_ne_ok_of_breaksCall v hf hb
  · exact isRefused_of_ne_ok hs' fun v => evaluate_ne_ok_of_breaksCall v hf' hb
  · by_cases hv : ∃ v, value text = .ok v
    · obtain ⟨v, hv⟩ := hv
      exact .inl ⟨v, hv, evaluate_respaced_of_ok h hf hb' hv⟩
    · have hnone : ∀ v, value text ≠ .ok v := not_exists.1 hv
      have hnone' : ∀ v, value text' ≠ .ok v := fun v hv' =>
        hnone v (evaluate_respaced_of_ok h.symm hf' hb hv')
      exact .inr ⟨isRefused_of_ne_ok hs hnone, isRefused_of_ne_ok hs' hnone'⟩

/-- Tabs, other spaces and the end of a line stand for the spaces around arguments and words. -/
theorem evaluate_respaced_lines :
    let host : Host.Memory := { files := [("/game/Data/a.esp", ⟨#[0x78]⟩)] }
    let value (text : String) := outcome host.answer none (evaluate host.directories none text)
    let asked (text : String) := transcript host.answer none (evaluate host.directories none text)
    let breaks (text : String) := BreaksCall (Span.cut text.toList)
    let text := "not file( 'b  .esp' ) and file(\"a.esp\") "
    let text' := "not\nfile(\t'b  .esp'\u00a0)\nand file(\"a.esp\")\r"
    Respaced text text' ∧ ¬ ForgesLiteral text ∧ Host.Sound host.answer (asked text) ∧
      Host.Sound host.answer (asked text') ∧ value text = .ok true ∧ value text' = .ok true ∧
      (breaks text → IsRefused (value text)) ∧ (breaks text' → IsRefused (value text')) ∧
      (¬ breaks text → ¬ breaks text' → (∃ v, value text = .ok v ∧ value text' = .ok v) ∨
        IsRefused (value text) ∧ IsRefused (value text')) := by
  intro host value asked breaks text text'
  have h : Respaced text text' := by decide +kernel
  have hf : ¬ ForgesLiteral text := Span.not_forges (by decide +kernel)
  have hs : Host.Sound host.answer (asked text) := sound_transcript_evaluate (by decide +kernel)
  have hs' : Host.Sound host.answer (asked text') := sound_transcript_evaluate (by decide +kernel)
  have hd : Derives .disjunction [.not, .constant false, .and, .constant true] true :=
    ((Derives.not (.plain (.constant false))).ofNegation.and
      (Derives.plain (.constant true)).ofNegation).ofConjunction
  have hv : value text = .ok true := by
    have ha : outcome host.answer none (answerCalls host.directories none
        (mask text.toList).text (findAll (mask text.toList))) =
          .ok "not False and True ".toList := by decide +kernel
    exact outcome_evaluate_of_derives ha (by decide +kernel) (by decide +kernel) hd
  have hv' : value text' = .ok true := by
    have ha : outcome host.answer none (answerCalls host.directories none
        (mask text'.toList).text (findAll (mask text'.toList))) =
          .ok "not\nFalse\nand True\r".toList := by decide +kernel
    exact outcome_evaluate_of_derives ha (by decide +kernel) (by decide +kernel) hd
  exact ⟨h, hf, hs, hs', hv, hv',
    evaluate_respaced host.answer host.directories none none h hf hs hs'⟩

/-- The end of a line before a parenthesis is no blank to the search for calls. -/
theorem evaluate_respaced_broken :
    let host : Host.Memory := { files := [("/game/Data/a.esp", ⟨#[0x78]⟩)] }
    let value (text : String) := outcome host.answer none (evaluate host.directories none text)
    let asked (text : String) := transcript host.answer none (evaluate host.directories none text)
    let text := "file(\"a.esp\" )"
    let text' := "file(\"a.esp\"\n)"
    Respaced text text' ∧ Host.Sound host.answer (asked text) ∧
      Host.Sound host.answer (asked text') ∧ value text = .ok true ∧
      value text' = .error (.condition (.inCondition text' (.invalidToken "file{0}"))) := by
  intro host value asked text text'
  have ha : outcome host.answer none (answerCalls host.directories none
      (mask text.toList).text (findAll (mask text.toList))) = .ok "True".toList := by
    decide +kernel
  have hd : Derives .disjunction [.constant true] true :=
    (Derives.plain (.constant true)).ofNegation.ofConjunction
  refine ⟨by decide +kernel, sound_transcript_evaluate (by decide +kernel), by decide +kernel, ?_,
    by decide +kernel⟩
  exact outcome_evaluate_of_derives ha (by decide +kernel) (by decide +kernel) hd

end PluginAudit.Condition
