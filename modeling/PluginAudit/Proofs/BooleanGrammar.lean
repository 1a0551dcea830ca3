import PluginAudit.Condition.Expression

/-!
# The grammar of boolean expressions

`Derives` is the grammar as a relation between token lists and truth values, `Cut` the division of a
text into tokens. `Expression.evalText_accepts_grammar` says that evaluating a text yields a value
exactly if the text writes an expression of that value, and that a text writes at most one.

Soundness is an induction along the reading functions, completeness one along the derivation. The
latter speaks of tokens with something after them, since a list of operands is read as far as it
goes: what follows must not begin with the operator that would carry it on.
-/

namespace PluginAudit.Condition

open Text

inductive Category where
  /-- Conjunctions joined by `or`. -/
  | disjunction
  /-- What may follow the first conjunction of a disjunction. -/
  | disjuncts
  /-- Negations joined by `and`. -/
  | conjunction
  /-- What may follow the first negation of a conjunction. -/
  | conjuncts
  /-- An operand after any number of `not`. -/
  | negation
  /-- A truth value, or a disjunction in parentheses. -/
  | operand
  deriving DecidableEq

/-- The tokens that belong to a part of the grammar, with their truth value. -/
inductive Derives : Category → List Token → Bool → Prop where
  /-- A disjunction is a conjunction and what follows it. -/
  | disjunction {ts us : List Token} {a b : Bool} (first : Derives .conjunction ts a)
      (more : Derives .disjuncts us b) : Derives .disjunction (ts ++ us) (a || b)
  | noDisjunct : Derives .disjuncts [] false
  /-- A further conjunction comes after `or`. -/
  | disjunct {ts us : List Token} {a b : Bool} (first : Derives .conjunction ts a)
      (more : Derives .disjuncts us b) : Derives .disjuncts (.or :: (ts ++ us)) (a || b)
  /-- A conjunction is a negation and what follows it. -/
  | conjunction {ts us : List Token} {a b : Bool} (first : Derives .negation ts a)
      (more : Derives .conjuncts us b) : Derives .conjunction (ts ++ us) (a && b)
  | noConjunct : Derives .conjuncts [] true
  /-- A further negation comes after `and`. -/
  | conjunct {ts us : List Token} {a b : Bool} (first : Derives .negation ts a)
      (more : Derives .conjuncts us b) : Derives .conjuncts (.and :: (ts ++ us)) (a && b)
  | not {ts : List Token} {a : Bool} (h : Derives .negation ts a) :
      Derives .negation (.not :: ts) (!a)
  | plain {ts : List Token} {a : Bool} (h : Derives .operand ts a) : Derives .negation ts a
  /-- A truth value is an operand. -/
  | constant (a : Bool) : Derives .operand [.constant a] a
  /-- So is a disjunction in parentheses. -/
  | parenthesized {ts : List Token} {a : Bool} (h : Derives .disjunction ts a) :
      Derives .operand (.opening :: (ts ++ [.closing])) a

namespace Expression

/-! ## What is read is derivable -/

/-- Tokens up to `rest` are derivable. -/
def Consumes (c : Category) (ts rest : List Token) (v : Bool) : Prop :=
  ∃ us, ts = us ++ rest ∧ Derives c us v

theorem Consumes.disjunction {ts rest rest' : List Token} {a b : Bool}
    (h : Consumes .conjunction ts rest a) (h' : Consumes .disjuncts rest rest' b) :
    Consumes .disjunction ts rest' (a || b) := by
  obtain ⟨us, rfl, hu⟩ := h
  obtain ⟨vs, rfl, hv⟩ := h'
  exact ⟨us ++ vs, (List.append_assoc ..).symm, .disjunction hu hv⟩

theorem Consumes.disjunct {ts rest rest' : List Token} {a b : Bool}
    (h : Consumes .conjunction ts rest a) (h' : Consumes .disjuncts rest rest' b) :
    Consumes .disjuncts (.or :: ts) rest' (a || b) := by
  obtain ⟨us, rfl, hu⟩ := h
  obtain ⟨vs, rfl, hv⟩ := h'
  exact ⟨.or :: (us ++ vs), by simp, .disjunct hu hv⟩

theorem Consumes.conjunction {ts rest rest' : List Token} {a b : Bool}
    (h : Consumes .negation ts rest a) (h' : Consumes .conjuncts rest rest' b) :
    Consumes .conjunction ts rest' (a && b) := by
  obtain ⟨us, rfl, hu⟩ := h
  obtain ⟨vs, rfl, hv⟩ := h'
  exact ⟨us ++ vs, (List.append_assoc ..).symm, .conjunction hu hv⟩

theorem Consumes.conjunct {ts rest rest' : List Token} {a b : Bool}
    (h : Consumes .negation ts rest a) (h' : Consumes .conjuncts rest rest' b) :
    Consumes .conjuncts (.and :: ts) rest' (a && b) := by
  obtain ⟨us, rfl, hu⟩ := h
  obtain ⟨vs, rfl, hv⟩ := h'
  exact ⟨.and :: (us ++ vs), by simp, .conjunct hu hv⟩

/-- Whatever is read as a disjunction is one, and has the value of the expression read. -/
theorem consumes_of_readDisjunction {ts : List Token} :
    ∀ e rest h, readDisjunction ts = .ok (e, ⟨rest, h⟩) → Consumes .disjunction ts rest e.eval := by
  apply readDisjunction.induct
    (fun ts => ∀ e rest h, readDisjunction ts = .ok (e, ⟨rest, h⟩) →
      Consumes .disjunction ts rest e.eval)
    (fun left ts => ∀ e rest h, readDisjuncts left ts = .ok (e, ⟨rest, h⟩) →
      ∃ b, Consumes .disjuncts ts rest b ∧ e.eval = (left.eval || b))
    (fun ts => ∀ e rest h, readConjunction ts = .ok (e, ⟨rest, h⟩) →
      Consumes .conjunction ts rest e.eval)
    (fun left ts => ∀ e rest h, readConjuncts left ts = .ok (e, ⟨rest, h⟩) →
      ∃ b, Consumes .conjuncts ts rest b ∧ e.eval = (left.eval && b))
    (fun ts => ∀ e rest h, readNegation ts = .ok (e, ⟨rest, h⟩) →
      Consumes .negation ts rest e.eval)
  case case3 =>
    intro ts l mid _ hl e rest _ hm ih ih' e' rest' _ he
    simp only [readDisjunction, hl, hm, Except.ok.injEq, Prod.mk.injEq, Subtype.mk.injEq] at he
    obtain ⟨rfl, rfl⟩ := he
    obtain ⟨b, hb, hv⟩ := ih' _ _ _ hm
    exact hv ▸ (ih _ _ _ hl).disjunction hb
  case case6 =>
    intro left ts r mid _ hr e rest _ hm ih ih' e' rest' _ he
    simp only [readDisjuncts, hr, hm, Except.ok.injEq, Prod.mk.injEq, Subtype.mk.injEq] at he
    obtain ⟨rfl, rfl⟩ := he
    obtain ⟨b, hb, hv⟩ := ih' _ _ _ hm
    exact ⟨r.eval || b, (ih _ _ _ hr).disjunct hb, by rw [hv, eval, Bool.or_assoc]⟩
  case case7 =>
    intro left ts hts e rest h he
    rw [readDisjuncts.eq_2 _ _ hts] at he
    simp only [Except.ok.injEq, Prod.mk.injEq, Subtype.mk.injEq] at he
    obtain ⟨rfl, rfl⟩ := he
    exact ⟨false, ⟨[], rfl, .noDisjunct⟩, (Bool.or_false _).symm⟩
  case case10 =>
    intro ts l mid _ hl e rest _ hm ih ih' e' rest' _ he
    simp only [readConjunction, hl, hm, Except.ok.injEq, Prod.mk.injEq, Subtype.mk.injEq] at he
    obtain ⟨rfl, rfl⟩ := he
    obtain ⟨b, hb, hv⟩ := ih' _ _ _ hm
    exact hv ▸ (ih _ _ _ hl).conjunction hb
  case case13 =>
    intro left ts r mid _ hr e rest _ hm ih ih' e' rest' _ he
    simp only [readConjuncts, hr, hm, Except.ok.injEq, Prod.mk.injEq, Subtype.mk.injEq] at he
    obtain ⟨rfl, rfl⟩ := he
    obtain ⟨b, hb, hv⟩ := ih' _ _ _ hm
    exact ⟨r.eval && b, (ih _ _ _ hr).conjunct hb, by rw [hv, eval, Bool.and_assoc]⟩
  case case14 =>
    intro left ts hts e rest h he
    rw [readConjuncts.eq_2 _ _ hts] at he
    simp only [Except.ok.injEq, Prod.mk.injEq, Subtype.mk.injEq] at he
    obtain ⟨rfl, rfl⟩ := he
    exact ⟨true, ⟨[], rfl, .noConjunct⟩, (Bool.and_true _).symm⟩
  case case16 =>
    intro ts e rest _ hr ih e' rest' _ he
    simp only [readNegation, hr, Except.ok.injEq, Prod.mk.injEq, Subtype.mk.injEq] at he
    obtain ⟨rfl, rfl⟩ := he
    obtain ⟨us, rfl, hu⟩ := ih _ _ _ hr
    exact ⟨.not :: us, rfl, .not hu⟩
  case case17 =>
    intro b ts e rest _ he
    simp only [readNegation, Except.ok.injEq, Prod.mk.injEq, Subtype.mk.injEq] at he
    obtain ⟨rfl, rfl⟩ := he
    exact ⟨[.constant b], rfl, .plain (.constant b)⟩
  case case19 =>
    intro ts e rest _ hr ih e' rest' _ he
    simp only [readNegation, hr, Except.ok.injEq, Prod.mk.injEq, Subtype.mk.injEq] at he
    obtain ⟨rfl, rfl⟩ := he
    obtain ⟨us, rfl, hu⟩ := ih _ _ _ hr
    exact ⟨.opening :: (us ++ [.closing]), by simp, .plain (.parenthesized hu)⟩
  -- every other case of the reading functions ends in a defect
  all_goals
    intros
    grind only [readDisjunction, readDisjuncts, readConjunction, readConjuncts, readNegation]

/-! ## What is derivable is read -/

/-- Derivable tokens are read as an expression of their value, whatever follows them that does not
carry the same list on. -/
def Readable : Category → List Token → Bool → Prop
  | .disjunction, us, v => ∀ rest, rest.head? ≠ some .or → rest.head? ≠ some .and →
      ∃ e h, readDisjunction (us ++ rest) = .ok (e, ⟨rest, h⟩) ∧ e.eval = v
  | .disjuncts, us, v => ∀ left rest, rest.head? ≠ some .or → rest.head? ≠ some .and →
      ∃ e h, readDisjuncts left (us ++ rest) = .ok (e, ⟨rest, h⟩) ∧ e.eval = (left.eval || v)
  | .conjunction, us, v => ∀ rest, rest.head? ≠ some .and →
      ∃ e h, readConjunction (us ++ rest) = .ok (e, ⟨rest, h⟩) ∧ e.eval = v
  | .conjuncts, us, v => ∀ left rest, rest.head? ≠ some .and →
      ∃ e h, readConjuncts left (us ++ rest) = .ok (e, ⟨rest, h⟩) ∧ e.eval = (left.eval && v)
  | .negation, us, v => ∀ rest, ∃ e h, readNegation (us ++ rest) = .ok (e, ⟨rest, h⟩) ∧ e.eval = v
  | .operand, us, v => ∀ rest, ∃ e h, readNegation (us ++ rest) = .ok (e, ⟨rest, h⟩) ∧ e.eval = v

/-- What follows the first conjunction of a disjunction does not begin with `and`. -/
theorem head?_ne_and_of_disjuncts {us : List Token} {b : Bool} (h : Derives .disjuncts us b)
    {rest : List Token} (hr : rest.head? ≠ some .and) : (us ++ rest).head? ≠ some .and := by
  cases h with
  | noDisjunct => exact hr
  | disjunct _ _ => simp

theorem readable_of_derives {c : Category} {us : List Token} {v : Bool} (h : Derives c us v) :
    Readable c us v := by
  induction h with
  | @disjunction ts us a b first more ih ih' =>
    intro rest ho ha
    rw [List.append_assoc]
    obtain ⟨l, h, hl, rfl⟩ := ih (us ++ rest) (head?_ne_and_of_disjuncts more ha)
    obtain ⟨e, h', he, hv⟩ := ih' l rest ho ha
    have hlt : rest.length < (ts ++ (us ++ rest)).length := Nat.lt_of_le_of_lt h' h
    exact ⟨e, hlt, by simp [readDisjunction, hl, he], hv⟩
  | noDisjunct =>
    intro left rest ho _
    refine ⟨left, Nat.le_refl _, readDisjuncts.eq_2 left rest ?_, (Bool.or_false _).symm⟩
    rintro ts rfl
    exact ho rfl
  | @disjunct ts us a b first more ih ih' =>
    intro left rest ho ha
    rw [List.cons_append, List.append_assoc]
    obtain ⟨r, h, hr, rfl⟩ := ih (us ++ rest) (head?_ne_and_of_disjuncts more ha)
    obtain ⟨e, h', he, hv⟩ := ih' (.or left r) rest ho ha
    have hle : rest.length ≤ (Token.or :: (ts ++ (us ++ rest))).length := by
      simp only [List.length_cons, List.length_append]
      omega
    refine ⟨e, hle, by simp [readDisjuncts, hr, he], ?_⟩
    rw [hv, eval, Bool.or_assoc]
  | @conjunction ts us a b first more ih ih' =>
    intro rest ha
    rw [List.append_assoc]
    obtain ⟨l, h, hl, rfl⟩ := ih (us ++ rest)
    obtain ⟨e, h', he, hv⟩ := ih' l rest ha
    have hlt : rest.length < (ts ++ (us ++ rest)).length := Nat.lt_of_le_of_lt h' h
    exact ⟨e, hlt, by simp [readConjunction, hl, he], hv⟩
  | noConjunct =>
    intro left rest ha
    refine ⟨left, Nat.le_refl _, readConjuncts.eq_2 left rest ?_, (Bool.and_true _).symm⟩
    rintro ts rfl
    exact ha rfl
  | @conjunct ts us a b first more ih ih' =>
    intro left rest ha
    rw [List.cons_append, List.append_assoc]
    obtain ⟨r, h, hr, rfl⟩ := ih (us ++ rest)
    obtain ⟨e, h', he, hv⟩ := ih' (.and left r) rest ha
    have hle : rest.length ≤ (Token.and :: (ts ++ (us ++ rest))).length := by
      simp only [List.length_cons, List.length_append]
      omega
    refine ⟨e, hle, by simp [readConjuncts, hr, he], ?_⟩
    rw [hv, eval, Bool.and_assoc]
  | @not ts a h ih =>
    intro rest
    obtain ⟨e, h, he, rfl⟩ := ih rest
    have hlt : rest.length < (Token.not :: (ts ++ rest)).length := by
      simp only [List.length_cons, List.length_append]
      omega
    exact ⟨.not e, hlt, by simp [readNegation, he], rfl⟩
  | plain _ ih => exact ih
  | constant a => exact fun rest => ⟨.constant a, by simp, by simp [readNegation], rfl⟩
  | @parenthesized ts a h ih =>
    intro rest
    rw [List.cons_append, List.append_assoc, List.singleton_append]
    obtain ⟨e, h, he, rfl⟩ := ih (.closing :: rest) (by simp) (by simp)
    have hlt : rest.length < (Token.opening :: (ts ++ .closing :: rest)).length := by
      simp only [List.length_cons, List.length_append]
      omega
    exact ⟨e, hlt, by simp [readNegation, he], rfl⟩

/-- Tokens are read as a whole exactly if they are a disjunction. -/
theorem ofTokens_eq_ok_iff {ts : List Token} {v : Bool} :
    (∃ e, ofTokens ts = .ok e ∧ e.eval = v) ↔ Derives .disjunction ts v := by
  constructor
  · rintro ⟨e, he, rfl⟩
    unfold ofTokens at he
    split at he
    · cases he
    · next e' h hr =>
      obtain ⟨us, rfl, hu⟩ := consumes_of_readDisjunction _ _ _ hr
      cases he
      rwa [List.append_nil]
    · cases he
  · intro h
    have hr := readable_of_derives h [] (by simp) (by simp)
    rw [List.append_nil] at hr
    obtain ⟨e, h, he, hv⟩ := hr
    exact ⟨e, by simp [ofTokens, he], hv⟩

theorem derives_unique {ts : List Token} {v w : Bool} (hv : Derives .disjunction ts v)
    (hw : Derives .disjunction ts w) : v = w := by
  obtain ⟨e, he, rfl⟩ := ofTokens_eq_ok_iff.2 hv
  obtain ⟨e', he', rfl⟩ := ofTokens_eq_ok_iff.2 hw
  rw [he] at he'
  cases he'
  rfl

end Expression

/-! ## Cutting a text into tokens -/

/-- Whether a character may stand in a word. -/
def isWordChar (c : Char) : Bool := !isBlank c && !Token.isParenthesis c

/-- A text cut into parentheses and the longest runs of other characters that are not blank. -/
inductive Cut : List Char → List (List Char) → Prop where
  | done : Cut [] []
  | blank {c : Char} {cs : List Char} {ps : List (List Char)} (hc : isBlank c = true)
      (h : Cut cs ps) : Cut (c :: cs) ps
  | parenthesis {c : Char} {cs : List Char} {ps : List (List Char)}
      (hc : Token.isParenthesis c = true) (h : Cut cs ps) : Cut (c :: cs) ([c] :: ps)
  | word {w rest : List Char} {ps : List (List Char)} (hw : w ≠ [])
      (hc : ∀ c ∈ w, isWordChar c = true) (hr : ∀ c, rest.head? = some c → isWordChar c = false)
      (h : Cut rest ps) : Cut (w ++ rest) (w :: ps)

namespace Token

theorem isBlank_of_isParenthesis {c : Char} (h : isParenthesis c = true) : isBlank c = false := by
  simp only [isParenthesis, Bool.or_eq_true, beq_iff_eq] at h
  rcases h with rfl | rfl <;> rfl

theorem pieces_blank {c : Char} (hc : isBlank c = true) (cs : List Char) :
    pieces (c :: cs) = pieces cs := by
  rw [pieces.eq_def]
  simp [hc]

theorem pieces_parenthesis {c : Char} (hc : isParenthesis c = true) (cs : List Char) :
    pieces (c :: cs) = [c] :: pieces cs := by
  rw [pieces.eq_def]
  simp [isBlank_of_isParenthesis hc, hc]

/-- A run of word characters that is not carried on is a piece. -/
theorem pieces_word {w rest : List Char} (hw : w ≠ []) (hc : ∀ c ∈ w, isWordChar c = true)
    (hr : ∀ c, rest.head? = some c → isWordChar c = false) :
    pieces (w ++ rest) = w :: pieces rest := by
  induction w with
  | nil => exact absurd rfl hw
  | cons c w ih =>
    have hc' := hc c List.mem_cons_self
    simp only [isWordChar, Bool.and_eq_true, Bool.not_eq_true'] at hc'
    rw [List.cons_append, pieces.eq_def]
    simp only [hc'.1, hc'.2, if_neg Bool.false_ne_true]
    cases w with
    | nil =>
      cases rest with
      | nil => rfl
      | cons d rest =>
        have hd := hr d rfl
        simp only [isWordChar, Bool.and_eq_false_iff, Bool.not_eq_false'] at hd
        simp [hd]
    | cons d w =>
      have hd := hc d (by simp)
      simp only [isWordChar, Bool.and_eq_true, Bool.not_eq_true'] at hd
      have hp := ih (by simp) fun c h => hc c (List.mem_cons_of_mem _ h)
      rw [List.cons_append] at hp
      simp [hd, hp]

/-- The pieces of a text are a cut of it. -/
theorem cut_pieces (cs : List Char) : Cut cs (pieces cs) := by
  induction hn : cs.length using Nat.strongRecOn generalizing cs with
  | ind n ih =>
    subst hn
    cases cs with
    | nil => exact .done
    | cons c cs =>
      by_cases hb : isBlank c = true
      · rw [pieces_blank hb]
        exact .blank hb (ih _ (by simp) cs rfl)
      · by_cases hp : isParenthesis c = true
        · rw [pieces_parenthesis hp]
          exact .parenthesis hp (ih _ (by simp) cs rfl)
        · -- the longest run of word characters is taken off at once
          have hw : ∀ d ∈ (c :: cs).takeWhile isWordChar, isWordChar d = true := fun d hd =>
            List.all_eq_true.1 List.all_takeWhile d hd
          have hr : ∀ d, ((c :: cs).dropWhile isWordChar).head? = some d → isWordChar d = false :=
            fun d hd => by simpa [hd] using List.head?_dropWhile_not isWordChar (c :: cs)
          have hc : isWordChar c = true := by simp [isWordChar, hb, hp]
          have hne : (c :: cs).takeWhile isWordChar ≠ [] := by simp [hc]
          have hlt : ((c :: cs).dropWhile isWordChar).length < (c :: cs).length := by
            rw [List.dropWhile_cons_of_pos hc]
            have := (List.dropWhile_sublist isWordChar (l := cs)).length_le
            simp only [List.length_cons]
            omega
          rw [← List.takeWhile_append_dropWhile (p := isWordChar) (l := c :: cs),
            pieces_word hne hw hr]
          exact .word hne hw hr (ih _ hlt _ rfl)

/-- There is only one cut of a text. -/
theorem pieces_eq_of_cut {cs : List Char} {ps : List (List Char)} (h : Cut cs ps) :
    pieces cs = ps := by
  induction h with
  | done => rfl
  | blank hc _ ih => rw [pieces_blank hc, ih]
  | parenthesis hc _ ih => rw [pieces_parenthesis hc, ih]
  | word hw hc hr _ ih => rw [pieces_word hw hc hr, ih]

/-- The token of a word is written like the word. -/
theorem ofWord?_eq_some_iff {w : List Char} {t : Token} :
    ofWord? w = some t ↔ t ∈ words ∧ t.text.toList = w := by
  constructor
  · intro h
    exact ⟨List.mem_of_find?_eq_some h, by simpa using List.find?_some h⟩
  · rintro ⟨ht, rfl⟩
    revert t
    decide

/-- The token of a piece is written like the piece. -/
theorem ofPiece?_eq_some_iff {p : List Char} {t : Token} :
    ofPiece? p = some t ↔ t.text.toList = p := by
  constructor
  · intro h
    unfold ofPiece? at h
    split at h
    · cases h; rfl
    · cases h; rfl
    · exact (ofWord?_eq_some_iff.1 h).2
  · rintro rfl
    cases t with
    | constant a => cases a <;> rfl
    | _ => rfl

theorem isSome_ofWord?_iff {w : List Char} :
    (ofWord? w).isSome ↔ String.ofList w ∈ ["True", "False", "and", "or", "not"] := by
  have : ["True", "False", "and", "or", "not"] = words.map text := rfl
  rw [this, List.mem_map, Option.isSome_iff_exists]
  refine exists_congr fun t => ?_
  rw [ofWord?_eq_some_iff, ← String.toList_inj, String.toList_ofList]

/-- A text has no foreign word if all its words, parentheses left out, are among the five. -/
theorem foreignWord?_eq_none_iff {cs : List Char} :
    foreignWord? cs = none ↔ ∀ w ∈ Text.words isBlank (cs.filter (!isParenthesis ·)),
      String.ofList w ∈ ["True", "False", "and", "or", "not"] := by
  rw [foreignWord?, List.find?_eq_none]
  refine forall₂_congr fun w _ => ?_
  rw [← isSome_ofWord?_iff]
  cases ofWord? w <;> simp

/-- The tokens of a text are those its pieces write. -/
theorem read_eq_ok_iff {cs : List Char} {ts : List Token} :
    read cs = .ok ts ↔ pieces cs = ts.map (·.text.toList) := by
  unfold read
  induction pieces cs generalizing ts with
  | nil => cases ts <;> simp [pure, Except.pure]
  | cons p ps ih =>
    rw [List.mapM_cons]
    constructor
    · intro h
      split at h
      · next t ht =>
        simp [bind, Except.bind] at h
        split at h
        · cases h
        · next us hus =>
          cases h
          rw [List.map_cons, ih.1 hus, ofPiece?_eq_some_iff.1 ht]
      · simp [bind, Except.bind] at h
    · intro h
      cases ts with
      | nil => cases h
      | cons t us =>
        obtain ⟨rfl, hps⟩ := List.cons.inj h
        rw [ofPiece?_eq_some_iff.2 rfl, ih.2 hps]
        rfl
end Token

/-! ## Evaluating a text -/

namespace Expression

/-- A text is read if it has no foreign word and its tokens are an expression. -/
theorem read_eq_ok_iff {s : String} {e : Expression} :
    read s = .ok e ↔ Token.foreignWord? s.toList = none ∧
      ∃ ts, Token.read s.toList = .ok ts ∧ ofTokens ts = .ok e := by
  unfold read checkWords
  cases Token.foreignWord? s.toList with
  | some w => simp [bind, Except.bind]
  | none =>
    cases Token.read s.toList with
    | error f => simp [bind, Except.bind]
    | ok ts => cases h : ofTokens ts <;> simp [bind, Except.bind, h]

/-- The value of a text is that of the expression it is read as. -/
theorem evalText_eq_ok_iff_read {s : String} {v : Bool} :
    evalText s = .ok v ↔ ∃ e, read s = .ok e ∧ e.eval = v := by
  unfold evalText
  cases read s <;> simp [Functor.map, Except.map]

/-- A text writes an expression of a given value. -/
structure Writes (s : String) (v : Bool) : Prop where
  /-- With the parentheses deleted, each word is one of the five. -/
  words : ∀ w ∈ Text.words isBlank (s.toList.filter (!Token.isParenthesis ·)),
    String.ofList w ∈ ["True", "False", "and", "or", "not"]
  /-- The tokens of the text are derivable. -/
  derived : ∃ ts : List Token, Cut s.toList (ts.map (·.text.toList)) ∧ Derives .disjunction ts v

/-- Evaluating a text yields the value of the expression that it writes. -/
theorem evalText_eq_ok_iff {s : String} {v : Bool} : evalText s = .ok v ↔ Writes s v := by
  rw [evalText_eq_ok_iff_read]
  constructor
  · rintro ⟨e, he, hv⟩
    obtain ⟨hw, ts, ht, he⟩ := read_eq_ok_iff.1 he
    refine ⟨Token.foreignWord?_eq_none_iff.1 hw, ts, ?_, ofTokens_eq_ok_iff.1 ⟨e, he, hv⟩⟩
    rw [← Token.read_eq_ok_iff.1 ht]
    exact Token.cut_pieces _
  · rintro ⟨hw, ts, hc, hd⟩
    obtain ⟨e, he, hv⟩ := ofTokens_eq_ok_iff.2 hd
    have ht := Token.read_eq_ok_iff.2 (Token.pieces_eq_of_cut hc)
    exact ⟨e, read_eq_ok_iff.2 ⟨Token.foreignWord?_eq_none_iff.2 hw, ts, ht, he⟩, hv⟩

/-- Evaluation accepts exactly the texts that write an expression, with its value, refuses every
other text, and the grammar gives no token list two values. -/
theorem evalText_accepts_grammar :
    (∀ s v, evalText s = .ok v ↔ Writes s v) ∧
      (∀ s, (∃ f, evalText s = .error f) ↔ ∀ v, ¬ Writes s v) ∧
      ∀ ts v w, Derives .disjunction ts v → Derives .disjunction ts w → v = w := by
  refine ⟨fun s v => evalText_eq_ok_iff, fun s => ?_, fun ts v w => derives_unique⟩
  simp only [← evalText_eq_ok_iff]
  cases evalText s <;> simp

end Expression

end PluginAudit.Condition
