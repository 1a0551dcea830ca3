import PluginAudit.Proofs.PatternSymbols
import PluginAudit.Proofs.PatternWays

/-!
# Patterns of whole names

The pattern of a name is compiled inside of a group that stands between the two ends of the name. A
pattern that closes only groups that it opens is read there as it is read alone, and compiles to the
pattern alone between the ends (`readWith_anchored`); so it matches what the pattern alone matches
as a whole (`compile_whole`). The text goes into the group as it is, however, and if it closes the
group and opens another one, the ends are tied to its first and last alternative only
(`compile_unbalanced`).
-/

namespace PluginAudit.Pattern

open Text

namespace Token

theorem readAll?_closing (named : Bool) : readAll? named closer = some [.closing, .finish] := by
  simp [closer, readAll?, next?]

theorem readAll?_dangling (named : Bool) :
    readAll? named ('\\' :: closer) = some [.unit ')'.toNat, .finish] := by
  have hescaped : escaped? named closer = some ([.unit ')'.toNat], 1) := by
    cases named <;> rfl
  rw [readAll?]
  simp only [next?, hescaped]
  simp [closer, readAll?, next?]

/-- The symbols of a text that can be read are followed by those of what is written after it. -/
theorem readAll?_closer {named : Bool} {cs : List Char} {ts : List Token}
    (h : readAll? named cs = some ts) :
    symbols named cs = ts ∧ readAll? named (cs ++ closer) = some (ts ++ [.closing, .finish]) := by
  induction cs using readAll?.induct named generalizing ts with
  | case1 =>
    rw [readAll?] at h
    cases h
    exact ⟨by rw [symbols], readAll?_closing named⟩
  | case2 c cs hnext =>
    rw [readAll?, hnext] at h
    cases h
  | case3 c cs here n hnext ih =>
    rw [readAll?, hnext] at h
    obtain ⟨more, hmore, rfl⟩ := Option.map_eq_some_iff.1 h
    obtain ⟨hsymbols, hread⟩ := ih hmore
    have hcs : c = '\\' → cs ≠ [] := by
      rintro rfl rfl
      cases hnext
    have hclosed : next? named c (cs ++ closer) = some (here, n) :=
      (next?_closer named hcs).trans hnext
    constructor
    · rw [symbols, hnext]
      dsimp only
      rw [hsymbols]
    · rw [List.cons_append, readAll?, hclosed]
      dsimp only
      rw [List.drop_append_of_le_length (next?_le hnext), hread, List.append_assoc]
      rfl

/-- A text that cannot be read, and yet can with what is written after it, ends in a backslash of
its own. -/
theorem eq_of_readAll?_closer {named : Bool} {cs : List Char} {ts : List Token}
    (h : readAll? named cs = none) (hts : readAll? named (cs ++ closer) = some ts) :
    ts = symbols named cs ++ [.unit ')'.toNat, .finish] := by
  induction cs using readAll?.induct named generalizing ts with
  | case1 =>
    rw [readAll?] at h
    cases h
  | case2 c cs hnext =>
    by_cases hcs : c = '\\' → cs ≠ []
    · rw [List.cons_append, readAll?, next?_closer named hcs, hnext] at hts
      cases hts
    · obtain ⟨rfl, hnil⟩ := Classical.not_imp.1 hcs
      obtain rfl := Classical.not_not.1 hnil
      rw [symbols, hnext]
      exact Option.some.inj (hts.symm.trans (readAll?_dangling named))
  | case3 c cs here n hnext ih =>
    have hcs : c = '\\' → cs ≠ [] := by
      rintro rfl rfl
      cases hnext
    have hclosed : next? named c (cs ++ closer) = some (here, n) :=
      (next?_closer named hcs).trans hnext
    rw [List.cons_append, readAll?, hclosed] at hts
    dsimp only at hts
    rw [List.drop_append_of_le_length (next?_le hnext)] at hts
    obtain ⟨more, hmore, rfl⟩ := Option.map_eq_some_iff.1 hts
    rw [readAll?, hnext] at h
    rw [symbols, hnext]
    dsimp only
    rw [ih (Option.map_eq_none_iff.1 h) hmore, List.append_assoc]

/-- What is written after a text adds no symbol with a name. -/
theorem symbols_closer (named : Bool) (cs : List Char) :
    ∃ more, symbols named (cs ++ closer) = symbols named cs ++ more ∧
      more.any (·.name?.isSome) = false := by
  induction cs using readAll?.induct named with
  | case1 =>
    refine ⟨[.closing, .finish], ?_, rfl⟩
    rw [symbols]
    exact (readAll?_closer (readAll?_closing named)).1
  | case2 c cs hnext =>
    rw [symbols, hnext]
    by_cases hcs : c = '\\' → cs ≠ []
    · refine ⟨[], ?_, rfl⟩
      rw [List.cons_append, symbols, next?_closer named hcs, hnext]
      rfl
    · obtain ⟨rfl, hnil⟩ := Classical.not_imp.1 hcs
      obtain rfl := Classical.not_not.1 hnil
      exact ⟨_, (readAll?_closer (readAll?_dangling named)).1, rfl⟩
  | case3 c cs here n hnext ih =>
    obtain ⟨more, hmore, hnames⟩ := ih
    have hcs : c = '\\' → cs ≠ [] := by
      rintro rfl rfl
      cases hnext
    refine ⟨more, ?_, hnames⟩
    rw [List.cons_append, symbols, symbols, next?_closer named hcs, hnext]
    dsimp only
    rw [List.drop_append_of_le_length (next?_le hnext), hmore, List.append_assoc]

theorem symbols_opener (named : Bool) (cs : List Char) :
    symbols named ('^' :: '(' :: '?' :: ':' :: cs) =
      [.start, .opening .plain] ++ symbols named cs := by
  rw [symbols]
  simp only [next?, List.drop_zero]
  rw [symbols]
  simp only [next?, groupKind?, Option.map_some, List.drop_succ_cons, List.drop_zero]
  rfl

theorem readAll?_opener (named : Bool) (cs : List Char) :
    readAll? named ('^' :: '(' :: '?' :: ':' :: cs) =
      (readAll? named cs).map ([.start, .opening .plain] ++ ·) := by
  rw [readAll?]
  simp only [next?, List.drop_zero]
  rw [readAll?]
  simp only [next?, groupKind?, Option.map_some, List.drop_succ_cons, List.drop_zero]
  cases readAll? named cs <;> rfl

end Token

/-! ## Groups -/

/-- Whether symbols close only groups that they open, if so many are open before. -/
def closesOwn : Nat → List Token → Bool
  | _, [] => true
  | depth, .opening _ :: ts => closesOwn (depth + 1) ts
  | 0, .closing :: _ => false
  | depth + 1, .closing :: ts => closesOwn depth ts
  | depth, _ :: ts => closesOwn depth ts

namespace Assembly

variable {names : GroupNames} {outer : Level}

/-- An assembly inside of a group. -/
def inside (outer : Level) (a : Assembly) : Assembly := { a with around := a.around ++ [outer] }

theorem inside_push (a : Assembly) (node : Node) (repeatable : Bool) :
    (a.inside outer).push node repeatable = (a.push node repeatable).inside outer := rfl

theorem inside_pushDigits (a : Assembly) (ds : List Char) :
    (a.inside outer).pushDigits names ds = (a.pushDigits names ds).inside outer := by
  have hfold (ds : List Char) (a : Assembly) :
      ds.foldl (fun a d => a.push (.unit d.toNat) true) (a.inside outer) =
        (ds.foldl (fun a d => a.push (.unit d.toNat) true) a).inside outer := by
    induction ds generalizing a with
    | nil => rfl
    | cons d ds ih => exact ih (a.push (.unit d.toNat) true)
  unfold pushDigits
  dsimp only
  split
  · rfl
  · rw [inside_push]
    exact hfold _ _

/-- Inside of a group, a symbol does what it would do outside, unless it closes the group. -/
theorem step_inside {a : Assembly} {t : Token} (h : t = .closing → a.around ≠ []) :
    step names (a.inside outer) t = (step names a t).map (·.inside outer) := by
  cases t with
  | digits ds => exact congrArg some (inside_pushDigits a ds)
  | named name =>
    simp only [step]
    split <;> rfl
  | closing =>
    obtain ⟨l, around, haround⟩ := List.exists_cons_of_ne_nil (h rfl)
    simp only [step, inside, haround]
    rfl
  | repetition low high greedy =>
    simp only [step, inside]
    cases a.top.terms with
    | nil => rfl
    | cons t terms =>
      dsimp only
      split <;> rfl
  | _ => rfl

/-- The kinds of the open groups, from the inside out. -/
def kinds (a : Assembly) : List GroupKind := a.top.kind :: a.around.map (·.kind)

theorem kinds_pushDigits (a : Assembly) (ds : List Char) :
    (a.pushDigits names ds).kinds = a.kinds := by
  have hfold (ds : List Char) (a : Assembly) :
      (ds.foldl (fun a d => a.push (.unit d.toNat) true) a).kinds = a.kinds := by
    induction ds generalizing a with
    | nil => rfl
    | cons d ds ih => exact ih (a.push (.unit d.toNat) true)
  unfold pushDigits
  dsimp only
  split
  · rfl
  · exact hfold _ _

/-- What a symbol does to the open groups. -/
theorem kinds_step {a b : Assembly} {t : Token} (h : step names a t = some b) :
    match t with
    | .opening kind => b.kinds = kind :: a.kinds
    | .closing => ∃ kind, a.kinds = kind :: b.kinds
    | _ => b.kinds = a.kinds := by
  cases t with
  | digits ds =>
    cases h
    exact kinds_pushDigits a ds
  | named name =>
    simp only [step] at h
    split at h
    · cases h
      rfl
    · cases h
  | closing =>
    simp only [step] at h
    cases haround : a.around with
    | nil =>
      rw [haround] at h
      cases h
    | cons l around =>
      rw [haround] at h
      cases h
      exact ⟨a.top.kind, by rw [kinds, haround]; rfl⟩
  | repetition low high greedy =>
    simp only [step] at h
    split at h
    · split at h
      · cases h
        rfl
      · cases h
    · cases h
  | _ =>
    cases h
    rfl

/-- What is left to close after a symbol. -/
theorem closesOwn_step {a b : Assembly} {t : Token} (h : step names a t = some b)
    (ts : List Token) :
    closesOwn a.around.length (t :: ts) = closesOwn b.around.length ts := by
  have hlength (c : Assembly) : c.kinds.length = c.around.length + 1 := by
    rw [kinds, List.length_cons, List.length_map]
  have hkinds := kinds_step h
  have ha := hlength a
  have hb := hlength b
  cases t with
  | opening kind =>
    rw [show b.kinds = kind :: a.kinds from hkinds, List.length_cons] at hb
    rw [closesOwn, show b.around.length = a.around.length + 1 by omega]
  | closing =>
    obtain ⟨kind, heq⟩ := hkinds
    rw [heq, List.length_cons] at ha
    rw [show a.around.length = b.around.length + 1 by omega, closesOwn]
  | _ =>
    rw [show b.kinds = a.kinds from hkinds] at hb
    rw [show b.around.length = a.around.length by omega]
    rfl

theorem foldlM_inside {a : Assembly} {ts : List Token} (h : closesOwn a.around.length ts = true) :
    ts.foldlM (step names) (a.inside outer) =
      (ts.foldlM (step names) a).map (·.inside outer) := by
  induction ts generalizing a with
  | nil => rfl
  | cons t ts ih =>
    have ht : t = .closing → a.around ≠ [] := by
      rintro rfl hnil
      rw [hnil] at h
      cases h
    rw [List.foldlM_cons, List.foldlM_cons, step_inside ht]
    cases hstep : step names a t with
    | none => rfl
    | some b =>
      rw [closesOwn_step hstep] at h
      exact ih h

/-- Symbols that fit together close only their own groups. -/
theorem closesOwn_of_foldlM {a b : Assembly} {ts : List Token}
    (h : ts.foldlM (step names) a = some b) : closesOwn a.around.length ts = true := by
  induction ts generalizing a with
  | nil => rfl
  | cons t ts ih =>
    rw [List.foldlM_cons] at h
    obtain ⟨c, hstep, hrest⟩ := Option.bind_eq_some_iff.1 h
    rw [closesOwn_step hstep]
    exact ih hrest

/-- The pattern itself, outside of all groups, is no group. -/
def Rooted (a : Assembly) : Prop := ∃ inner, a.kinds = inner ++ [.plain]

theorem Rooted.step {a b : Assembly} {t : Token} (ha : a.Rooted) (h : step names a t = some b) :
    b.Rooted := by
  obtain ⟨inner, hinner⟩ := ha
  have hkinds := kinds_step h
  cases t with
  | opening kind => exact ⟨kind :: inner, hkinds.trans (congrArg (kind :: ·) hinner)⟩
  | closing =>
    obtain ⟨kind, heq⟩ := hkinds
    rw [heq] at hinner
    cases inner with
    | nil => cases hinner
    | cons k inner => exact ⟨inner, (List.cons.inj hinner).2⟩
  | _ => exact ⟨inner, Eq.trans hkinds hinner⟩

theorem Rooted.foldlM {a b : Assembly} {ts : List Token} (ha : a.Rooted)
    (h : ts.foldlM (Assembly.step names) a = some b) : b.Rooted := by
  induction ts generalizing a with
  | nil =>
    cases h
    exact ha
  | cons t ts ih =>
    rw [List.foldlM_cons] at h
    obtain ⟨c, hstep, hrest⟩ := Option.bind_eq_some_iff.1 h
    exact ih (ha.step hstep) hrest

theorem rooted_initial : initial.Rooted := ⟨[], rfl⟩

end Assembly

namespace Node

open Assembly

theorem finish?_append_cons (top : Level) (around : List Level) (outer : Level) (groups : Nat) :
    (⟨top, around ++ [outer], groups⟩ : Assembly).finish? = none := by
  cases around <;> rfl

/-- What is around the group in which a whole pattern is written. -/
def beginning : Level := (Level.begin .plain 0).push ⟨.start, 0, false⟩

theorem foldlM_anchored {ts : List Token} (h : closesOwn 0 ts = true) (names : GroupNames)
    (more : List Token) :
    ([Token.start, .opening .plain] ++ (ts ++ more)).foldlM (step names) initial =
      (ts.foldlM (step names) initial).bind fun b =>
        more.foldlM (step names) (b.inside beginning) := by
  have hopened : [Token.start, .opening .plain].foldlM (step names) initial =
      some (initial.inside beginning) := rfl
  have hinside : ts.foldlM (step names) (initial.inside beginning) =
      (ts.foldlM (step names) initial).map (·.inside beginning) := foldlM_inside h
  rw [List.foldlM_append, hopened]
  show (ts ++ more).foldlM (step names) (initial.inside beginning) = _
  rw [List.foldlM_append, hinside]
  cases ts.foldlM (step names) initial <;> rfl

/-- Tied to both ends, symbols that close only their own groups write what they write alone. -/
theorem ofTokens?_anchored {ts : List Token} (h : closesOwn 0 ts = true) :
    ofTokens? ([.start, .opening .plain] ++ (ts ++ [.closing, .finish])) =
      (ofTokens? ts).map fun node =>
        .sequence .start (.sequence node (.sequence .finish .empty)) := by
  have hnames : groupNames ([.start, .opening .plain] ++ (ts ++ [.closing, .finish])) =
      groupNames ts := by simp [groupNames]
  unfold ofTokens?
  dsimp only
  rw [hnames]
  split
  · rw [foldlM_anchored h]
    cases hb : ts.foldlM (step (groupNames ts)) initial with
    | none => rfl
    | some b =>
      obtain ⟨inner, hinner⟩ := rooted_initial.foldlM hb
      obtain ⟨⟨kind, before, alternatives, terms⟩, around, groups⟩ := b
      cases around with
      | nil =>
        have hkind : kind = .plain := by
          cases inner with
          | nil => exact (List.cons.inj hinner).1
          | cons k inner => cases inner <;> cases (List.cons.inj hinner).2
        subst hkind
        rfl
      | cons l around => exact finish?_append_cons _ around _ _
  · rfl

/-- A parenthesis that is taken for itself leaves the group around the pattern open. -/
theorem ofTokens?_dangling {ts : List Token} (h : closesOwn 0 ts = true) (u : Nat) :
    ofTokens? ([.start, .opening .plain] ++ (ts ++ [.unit u, .finish])) = none := by
  unfold ofTokens?
  dsimp only
  split
  · rw [foldlM_anchored h]
    cases ts.foldlM (step _) initial with
    | none => rfl
    | some b => exact finish?_append_cons _ b.around _ _
  · rfl

theorem closesOwn_of_ofTokens? {ts : List Token} {node : Node} (h : ofTokens? ts = some node) :
    closesOwn 0 ts = true := by
  unfold ofTokens? at h
  dsimp only at h
  split at h
  · obtain ⟨b, hb, -⟩ := Option.bind_eq_some_iff.1 h
    exact closesOwn_of_foldlM hb
  · cases h

end Node

end PluginAudit.Pattern

namespace PluginAudit.NamePattern

open Pattern Token

/-- Whether a text, as far as it can be read, closes only groups that it opens. -/
def ClosesOwn (text : List Char) : Prop := closesOwn 0 (symbols (hasNames text) text) = true

instance (text : List Char) : Decidable (ClosesOwn text) :=
  inferInstanceAs (Decidable (_ = true))

/-- The pattern that a text writes with or without references by name. -/
def readWith (named : Bool) (text : List Char) : Option NamePattern :=
  (Token.readAll? named text).bind fun ts =>
    (Node.ofTokens? ts).map fun node => ⟨node, (groupNames ts).length⟩

theorem read?_eq_readWith (text : List Char) : read? text = readWith (hasNames text) text := by
  rw [read?, tokens?, readWith]
  cases Token.readAll? (hasNames text) text with
  | none => rfl
  | some ts => cases hnode : Node.ofTokens? ts <;> simp [hnode]

theorem anchored_eq (text : List Char) :
    anchored text = '^' :: '(' :: '?' :: ':' :: (text ++ closer) := rfl

theorem hasNames_anchored (text : List Char) : hasNames (anchored text) = hasNames text := by
  obtain ⟨more, hmore, hnames⟩ := symbols_closer false text
  rw [hasNames, hasNames, anchored_eq, symbols_opener, hmore, List.any_append, List.any_append,
    hnames, Bool.or_false]
  rfl

/-- Tied to both ends, a text that closes only its own groups writes the pattern that it writes
alone, between the ends. -/
theorem readWith_anchored {named : Bool} {text : List Char}
    (h : closesOwn 0 (symbols named text) = true) :
    readWith named (anchored text) = (readWith named text).map betweenEnds := by
  unfold readWith
  rw [anchored_eq, readAll?_opener]
  cases hread : Token.readAll? named text with
  | none =>
    cases hclosed : Token.readAll? named (text ++ closer) with
    | none => rfl
    | some ts =>
      rw [eq_of_readAll?_closer hread hclosed]
      show Option.map _ (Node.ofTokens? _) = _
      rw [Node.ofTokens?_dangling h]
      rfl
  | some ts =>
    obtain ⟨hsymbols, hclosed⟩ := readAll?_closer hread
    rw [hsymbols] at h
    rw [hclosed]
    have hnames : groupNames ([.start, .opening .plain] ++ (ts ++ [.closing, .finish])) =
        groupNames ts := by simp [groupNames]
    show Option.map _
      (Node.ofTokens? ([.start, .opening .plain] ++ (ts ++ [.closing, .finish]))) = _
    rw [Node.ofTokens?_anchored h, hnames, Option.bind_some]
    cases Node.ofTokens? ts <;> rfl

/-- A text that writes a pattern alone closes only groups that it opens. -/
theorem closesOwn_of_read? {text : List Char} {r : NamePattern} (h : read? text = some r) :
    ClosesOwn text := by
  rw [read?_eq_readWith, readWith] at h
  obtain ⟨ts, hread, hnode⟩ := Option.bind_eq_some_iff.1 h
  obtain ⟨node, hnode, -⟩ := Option.map_eq_some_iff.1 hnode
  rw [ClosesOwn, (readAll?_closer hread).1]
  exact Node.closesOwn_of_ofTokens? hnode

theorem compile_eq_ok_iff {text : String} (h : ClosesOwn text.toList) (q : NamePattern) :
    compile text = .ok q ↔ ∃ r, read? text.toList = some r ∧ r.betweenEnds = q := by
  have hread : read? (anchored text.toList) = (read? text.toList).map betweenEnds := by
    rw [read?_eq_readWith, read?_eq_readWith text.toList, hasNames_anchored, readWith_anchored h]
  unfold compile
  rw [hread]
  cases read? text.toList with
  | none => simp
  | some r => simp

/-- The texts that write a pattern alone are those that compile and close only groups that they
open; such a compiled pattern matches a name if the pattern alone matches all of it. -/
theorem compile_whole (text : String) :
    ((read? text.toList).isSome ↔ ClosesOwn text.toList ∧ ∃ q, compile text = .ok q) ∧
      ∀ q, compile text = .ok q → ClosesOwn text.toList →
        ∃ r, read? text.toList = some r ∧
          ∀ name, q.accepts name = true ↔ r.MatchesWhole name := by
  constructor
  · constructor
    · intro h
      obtain ⟨r, hr⟩ := Option.isSome_iff_exists.1 h
      have hown := closesOwn_of_read? hr
      exact ⟨hown, r.betweenEnds, (compile_eq_ok_iff hown _).2 ⟨r, hr, rfl⟩⟩
    · rintro ⟨hown, q, hq⟩
      obtain ⟨r, hr, -⟩ := (compile_eq_ok_iff hown q).1 hq
      rw [hr]
      rfl
  · intro q hq hown
    obtain ⟨r, hr, rfl⟩ := (compile_eq_ok_iff hown q).1 hq
    exact ⟨r, hr, r.accepts_betweenEnds⟩

/-- A text that closes the group in which it is compiled and opens another one compiles, although it
writes no pattern alone; it matches what only begins or only ends like its alternatives. -/
theorem compile_unbalanced :
    ¬∀ (text : String) (q : NamePattern), compile text = .ok q →
      ∃ r, read? text.toList = some r ∧ ∀ name, q.accepts name = true ↔ r.MatchesWhole name := by
  intro h
  have hread : read? "a)|(?:b".toList = none := by decide +kernel
  have hcompile : (compile "a)|(?:b").toOption.any (·.accepts "axx") = true := by decide +kernel
  cases hq : compile "a)|(?:b" with
  | error f =>
    rw [hq] at hcompile
    cases hcompile
  | ok q =>
    obtain ⟨r, hr, -⟩ := h _ q hq
    rw [hread] at hr
    cases hr

end PluginAudit.NamePattern
