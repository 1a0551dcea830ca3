import Mathlib.Data.Bool.AllAny
import PluginAudit.Proofs.StarMarks

/-!
# Links in a text

A text is a sequence of links and of other characters (`linkPieces`), and the pass over links goes
from one to the next. Neither bold text nor a link goes over the end of a line, so a text may be
taken line by line (`mapBold_line`, `linkPieces_line`). Texts without brackets that are written for
the marks leave every link in its place (`link?_replaceMarks`).
-/

namespace PluginAudit.Markup

open Text

/-! ## The pieces of a text -/

inductive LinkPiece where
  | char (c : Char)
  | link (label url : List Char)
  deriving Repr, DecidableEq

def linkPieces (cs : List Char) : List LinkPiece :=
  match cs with
  | [] => []
  | c :: cs =>
    match h : link? (c :: cs) with
    | some (label, url, rest) =>
      have : rest.length < cs.length + 1 := length_lt_of_link? h
      .link label url :: linkPieces rest
    | none => .char c :: linkPieces cs
  termination_by cs.length

theorem linkPieces_nil : linkPieces [] = [] := by rw [linkPieces]

theorem linkPieces_of_some {cs label url rest : List Char}
    (h : link? cs = some (label, url, rest)) :
    linkPieces cs = .link label url :: linkPieces rest := by
  cases cs with
  | nil => cases h
  | cons c cs =>
    rw [linkPieces]
    split
    · next h' =>
      cases h.symm.trans h'
      rfl
    · next h' => cases h.symm.trans h'

theorem linkPieces_of_none {c : Char} {cs : List Char} (h : link? (c :: cs) = none) :
    linkPieces (c :: cs) = .char c :: linkPieces cs := by
  rw [linkPieces]
  split
  · next h' => cases h.symm.trans h'
  · rfl

def LinkPiece.rewrite (g : List Char → List Char → List Char) : LinkPiece → List Char
  | char c => [c]
  | link label url => g label url

theorem mapLink_eq_flatMap (g : List Char → List Char → List Char) (cs : List Char) :
    mapLink g cs = (linkPieces cs).flatMap (·.rewrite g) := by
  induction cs using mapLink.induct with
  | case1 => rw [mapLink_nil, linkPieces_nil, List.flatMap_nil]
  | case2 c cs label url rest h hlt ih =>
    rw [mapLink_of_some h, linkPieces_of_some h, List.flatMap_cons, ih]
    rfl
  | case3 c cs h ih =>
    rw [mapLink_of_none h, linkPieces_of_none h, List.flatMap_cons, ih]
    rfl

/-- The address of a link. -/
def LinkPiece.address? : LinkPiece → Option (List Char)
  | char _ => none
  | link _ url => some url

/-- The addresses of the links of a text. -/
def addresses (cs : List Char) : List (List Char) := (linkPieces cs).filterMap (·.address?)

/-- A text with the labels of its links instead of the links. -/
def unlinked (cs : List Char) : List Char := mapLink (fun label _ => label) cs

/-- What is shown of a piece, and the places where something is hidden. -/
def LinkPiece.shown : LinkPiece → List (Option Char)
  | char c => [some c]
  | link label _ => none :: (label.map some ++ [none])

def shown (cs : List Char) : List (Option Char) := (linkPieces cs).flatMap (·.shown)

theorem reduceOption_map_some {α : Type} (as : List α) : (as.map some).reduceOption = as := by
  rw [List.reduceOption, List.filterMap_map, Function.id_comp, List.filterMap_some]

theorem reduceOption_shown (cs : List Char) : (shown cs).reduceOption = unlinked cs := by
  rw [shown, unlinked, mapLink_eq_flatMap]
  induction linkPieces cs with
  | nil => rfl
  | cons p ps ih =>
    rw [List.flatMap_cons, List.flatMap_cons, List.reduceOption_append, ih]
    cases p with
    | char c => rfl
    | link label url =>
      rw [LinkPiece.shown, List.reduceOption_cons_of_none, List.reduceOption_append,
        reduceOption_map_some]
      exact congrArg (· ++ _) (List.append_nil label)

/-! ## Texts piece by piece -/

theorem link?_star (cs : List Char) : link? ('*' :: cs) = none := rfl

/-- A text begins with a link, a mark or another character, or is empty. -/
@[elab_as_elim]
theorem link_induction {P : List Char → Prop} (nil : P [])
    (link : ∀ cs label url rest, link? cs = some (label, url, rest) → P rest → P cs)
    (mark : ∀ cs, P cs → P ('*' :: '*' :: cs))
    (cons : ∀ c cs, link? (c :: cs) = none → ¬Marked '*' c cs → P cs →
      P (c :: cs)) (cs : List Char) : P cs := by
  induction hlength : cs.length using Nat.strongRecOn generalizing cs with
  | ind n ih =>
    subst hlength
    cases cs with
    | nil => exact nil
    | cons c cs =>
      cases h : link? (c :: cs) with
      | some found =>
        obtain ⟨label, url, rest⟩ := found
        exact link _ label url rest h (ih _ (length_lt_of_link? h) rest rfl)
      | none =>
        by_cases hmark : Marked '*' c cs
        · obtain ⟨rfl, hhead⟩ := hmark
          obtain ⟨cs, rfl⟩ := List.head?_eq_some_iff.1 hhead
          exact mark cs (ih _ (Nat.lt_succ_of_lt (Nat.lt_succ_self _)) cs rfl)
        · exact cons c cs h hmark (ih _ (Nat.lt_succ_self _) cs rfl)

section Pieces

variable {c : Char} {cs label url rest : List Char}

theorem addresses_of_some (h : link? cs = some (label, url, rest)) :
    addresses cs = url :: addresses rest := by
  rw [addresses, linkPieces_of_some h]
  rfl

theorem addresses_of_none (h : link? (c :: cs) = none) : addresses (c :: cs) = addresses cs := by
  rw [addresses, linkPieces_of_none h]
  rfl

theorem shown_nil : shown [] = [] := by rw [shown, linkPieces_nil, List.flatMap_nil]

theorem shown_of_some (h : link? cs = some (label, url, rest)) :
    shown cs = none :: (label.map some ++ none :: shown rest) := by
  rw [shown, linkPieces_of_some h, List.flatMap_cons, LinkPiece.shown, List.cons_append,
    List.append_assoc, List.singleton_append, shown]

theorem shown_of_none (h : link? (c :: cs) = none) : shown (c :: cs) = some c :: shown cs := by
  rw [shown, linkPieces_of_none h]
  rfl

theorem shown_mark (cs : List Char) :
    shown ('*' :: '*' :: cs) = some '*' :: some '*' :: shown cs := by
  rw [shown_of_none (link?_star _), shown_of_none (link?_star _)]

/-- No mark is shown where there is none. -/
theorem not_marked_shown (h : ¬Marked '*' c cs) :
    ¬Marked (some '*') (some c) (shown cs) := by
  refine fun h' => h ⟨Option.some.inj h'.1, ?_⟩
  replace h' := h'.2
  cases cs with
  | nil =>
    rw [shown_nil] at h'
    cases h'
  | cons d cs =>
    cases hlink : link? (d :: cs) with
    | some found =>
      rw [shown_of_some hlink] at h'
      cases h'
    | none =>
      rw [shown_of_none hlink] at h'
      exact Option.some.inj h'

/-- Nothing of a text is a mark that is not shown, if the addresses of its links have none. -/
theorem marks_shown (haddr : ∀ url ∈ addresses cs, marks '*' url = 0) :
    marks (some '*') (shown cs) = marks '*' cs := by
  induction cs using link_induction with
  | nil =>
    rw [shown_nil]
    rfl
  | link cs label url rest h ih =>
    rw [addresses_of_some h] at haddr
    obtain ⟨hurl, haddr⟩ := List.forall_mem_cons.1 haddr
    rw [shown_of_some h, eq_of_link? h, marks_cons_of_ne (by decide), marks_cons_of_ne (by decide),
      marks_append _ _ (by decide), marks_append _ _ (by decide), marks_cons_of_ne (by decide),
      marks_append _ _ (by decide), marks_map_some, hurl, ih haddr, Nat.zero_add]
  | mark cs ih =>
    rw [addresses_of_none (link?_star _), addresses_of_none (link?_star _)] at haddr
    rw [shown_mark, marks_mark, marks_mark, ih haddr]
  | cons c cs h hmark ih =>
    rw [addresses_of_none h] at haddr
    rw [shown_of_none h, marks_cons (not_marked_shown hmark), marks_cons hmark, ih haddr]

theorem mem_of_mem_unlinked (h : c ∈ unlinked cs) : c ∈ cs := by
  induction cs using mapLink.induct with
  | case1 =>
    rw [unlinked, mapLink_nil] at h
    exact h
  | case2 d cs label url rest hlink hlt ih =>
    rw [unlinked, mapLink_of_some hlink, List.mem_append] at h
    rw [eq_of_link? hlink]
    rcases h with h | h
    · simp [h]
    · simp [ih h]
  | case3 d cs hlink ih =>
    rw [unlinked, mapLink_of_none hlink] at h
    exact List.mem_cons.2 ((List.mem_cons.1 h).imp_right ih)

end Pieces

/-! ## Lines -/

section Lines

variable {e : Char} (he : isLineEnd e = true) (rest : List Char)

theorem afterStart?_line {start : List Char} (hstart : e ∉ start) (cs : List Char) :
    afterStart? start (cs ++ e :: rest) = (afterStart? start cs).map (· ++ e :: rest) := by
  induction start generalizing cs with
  | nil => rfl
  | cons p ps ih =>
    obtain ⟨hp, hps⟩ := not_or.1 (mt List.mem_cons.2 hstart)
    cases cs with
    | nil =>
      rw [List.nil_append, afterStart?_of_ne (Ne.symm hp)]
      rfl
    | cons c cs =>
      rw [List.cons_append, afterStart?, afterStart?, ih hps]
      split <;> rfl

include he

theorem upTo?_line {mark : List Char} (hmark : mark ≠ []) (hfree : e ∉ mark) (cs : List Char) :
    upTo? mark (cs ++ e :: rest) =
      (upTo? mark cs).map fun (before, after) => (before, after ++ e :: rest) := by
  induction cs with
  | nil =>
    obtain ⟨p, ps, rfl⟩ := List.exists_cons_of_ne_nil hmark
    have hp : p ≠ e := fun hp => hfree (hp ▸ List.mem_cons_self)
    rw [List.nil_append, upTo?_lineEnd (afterStart?_of_ne hp ps rest) he]
    rfl
  | cons c cs ih =>
    have hstart := afterStart?_line rest hfree (c :: cs)
    rw [List.cons_append] at hstart ⊢
    cases h : afterStart? mark (c :: cs) with
    | some after =>
      rw [h] at hstart
      rw [upTo?_start hstart, upTo?_start h]
      rfl
    | none =>
      rw [h] at hstart
      cases hl : isLineEnd c with
      | true =>
        rw [upTo?_lineEnd hstart hl, upTo?_lineEnd h hl]
        rfl
      | false =>
        rw [upTo?_cons hstart hl, upTo?_cons h hl, ih]
        cases upTo? mark cs <;> rfl

theorem not_mem_of_isLineEnd {cs : List Char} (h : cs.any isLineEnd = false) : e ∉ cs :=
  fun hmem => List.any_eq_false.1 h e hmem he

theorem bold?_line (cs : List Char) :
    bold? (cs ++ e :: rest) =
      (bold? cs).map fun (inside, after) => (inside, after ++ e :: rest) := by
  have hfree : e ∉ ['*', '*'] := not_mem_of_isLineEnd he (by decide)
  rw [bold?, bold?, afterStart?_line rest hfree]
  cases afterStart? ['*', '*'] cs with
  | none => rfl
  | some cs => exact upTo?_line he rest (by decide) hfree cs

theorem mapBold_line (f : List Char → List Char) (cs : List Char) :
    mapBold f (cs ++ e :: rest) = mapBold f cs ++ e :: mapBold f rest := by
  have hnone : bold? (e :: rest) = none := bold?_line he rest []
  induction cs using mapBold.induct with
  | case1 => rw [List.nil_append, mapBold_of_none hnone, mapBold_nil, List.nil_append]
  | case2 c cs inside after h hlt ih =>
    have h' : bold? (c :: cs ++ e :: rest) = some (inside, after ++ e :: rest) := by
      rw [bold?_line he, h]
      rfl
    rw [mapBold_of_some h', mapBold_of_some h, ih, List.append_assoc]
  | case3 c cs h ih =>
    have h' : bold? (c :: (cs ++ e :: rest)) = none := by
      rw [← List.cons_append, bold?_line he, h]
      rfl
    rw [List.cons_append, mapBold_of_none h', mapBold_of_none h, ih, List.cons_append]

theorem link?_line (cs : List Char) :
    link? (cs ++ e :: rest) =
      (link? cs).map fun (label, url, after) => (label, url, after ++ e :: rest) := by
  have hopen : e ∉ ['['] := not_mem_of_isLineEnd he (by decide)
  have hbetween : e ∉ [']', '('] := not_mem_of_isLineEnd he (by decide)
  have hclose : e ∉ [')'] := not_mem_of_isLineEnd he (by decide)
  rw [link?, link?, afterStart?_line rest hopen]
  cases afterStart? ['['] cs with
  | none => rfl
  | some cs =>
    simp only [Option.map_some, Option.bind_eq_bind, Option.bind_some,
      upTo?_line he rest (show [']', '('] ≠ [] by decide) hbetween cs]
    cases upTo? [']', '('] cs with
    | none => rfl
    | some found =>
      obtain ⟨label, cs⟩ := found
      simp only [Option.map_some, Option.bind_some,
        upTo?_line he rest (show [')'] ≠ [] by decide) hclose cs]
      cases upTo? [')'] cs <;> rfl

theorem linkPieces_line (cs : List Char) :
    linkPieces (cs ++ e :: rest) = linkPieces cs ++ .char e :: linkPieces rest := by
  have hnone : link? (e :: rest) = none := link?_line he rest []
  induction cs using mapLink.induct with
  | case1 => rw [List.nil_append, linkPieces_of_none hnone, linkPieces_nil, List.nil_append]
  | case2 c cs label url after h hlt ih =>
    have h' : link? (c :: cs ++ e :: rest) = some (label, url, after ++ e :: rest) := by
      rw [link?_line he, h]
      rfl
    rw [linkPieces_of_some h', linkPieces_of_some h, ih, List.cons_append]
  | case3 c cs h ih =>
    have h' : link? (c :: (cs ++ e :: rest)) = none := by
      rw [← List.cons_append, link?_line he, h]
      rfl
    rw [List.cons_append, linkPieces_of_none h', linkPieces_of_none h, ih, List.cons_append]

theorem mapLink_line (g : List Char → List Char → List Char) (cs : List Char) :
    mapLink g (cs ++ e :: rest) = mapLink g cs ++ e :: mapLink g rest := by
  simp only [mapLink_eq_flatMap, linkPieces_line he, List.flatMap_append, List.flatMap_cons]
  rfl

theorem addresses_line (cs : List Char) :
    addresses (cs ++ e :: rest) = addresses cs ++ addresses rest := by
  rw [addresses, linkPieces_line he, List.filterMap_append]
  rfl

end Lines

/-- A text is a line, or a line, its end and a text. -/
theorem exists_line (cs : List Char) :
    (∀ c ∈ cs, isLineEnd c = false) ∨ ∃ line e rest, cs = line ++ e :: rest ∧
      (∀ c ∈ line, isLineEnd c = false) ∧ isLineEnd e = true := by
  induction cs with
  | nil => exact .inl fun c hc => nomatch hc
  | cons c cs ih =>
    cases hc : isLineEnd c with
    | true => exact .inr ⟨[], c, cs, rfl, (fun d hd => nomatch hd), hc⟩
    | false =>
      rcases ih with hcs | ⟨line, e, rest, rfl, hline, he⟩
      · exact .inl (List.forall_mem_cons.2 ⟨hc, hcs⟩)
      · exact .inr ⟨c :: line, e, rest, rfl, List.forall_mem_cons.2 ⟨hc, hline⟩, he⟩

/-! ## Texts in the place of marks -/

/-- Whether texts can be written for marks without making brackets or ends of lines. -/
def Unbracketed (ts : List (List Char)) : Prop :=
  ∀ t ∈ ts, t ≠ [] ∧ ∀ c ∈ t, c ∉ ['[', ']', '(', ')'] ∧ isLineEnd c = false

theorem Unbracketed.drop {ts : List (List Char)} (h : Unbracketed ts) (n : Nat) :
    Unbracketed (ts.drop n) := fun t ht => h t (List.mem_of_mem_drop ht)

theorem subset_brackets {m : List Char} (h : m.all (· ∈ ['[', ']', '(', ')']) = true) :
    ∀ c ∈ m, c ∈ ['[', ']', '(', ')'] := List.all_iff_forall_prop.1 h

theorem ne_star_of_mem {p : Char} (hp : p ∈ ['[', ']', '(', ')']) : p ≠ '*' := by
  rintro rfl
  revert hp
  decide

/-- A text that begins with a star still does so after marks are replaced, or begins with what is
written for a mark. -/
theorem exists_head_replaceMarks (ts : List (List Char)) (hts : ∀ t ∈ ts, t ≠ []) (cs : List Char) :
    ∃ d ds, replaceMarks '*' ts ('*' :: cs) = d :: ds ∧ (d = '*' ∨ ∃ t ∈ ts, d ∈ t) := by
  by_cases h : Marked '*' '*' cs
  · obtain ⟨cs, rfl⟩ := List.head?_eq_some_iff.1 h.2
    cases ts with
    | nil => exact ⟨_, _, replaceMarks_no _, .inl rfl⟩
    | cons t ts =>
      obtain ⟨d, t, rfl⟩ := List.exists_cons_of_ne_nil (hts t List.mem_cons_self)
      exact ⟨_, _, replaceMarks_mark, .inr ⟨_, List.mem_cons_self, List.mem_cons_self⟩⟩
  · exact ⟨_, _, replaceMarks_cons h, .inl rfl⟩

section Replaced

variable {m : List Char} (hm : ∀ c ∈ m, c ∈ ['[', ']', '(', ')'])

include hm

/-- A bracket stays the beginning of a text, and nothing else becomes it. -/
theorem afterStart?_replaceMarks {ts : List (List Char)} (hts : Unbracketed ts) (cs : List Char) :
    afterStart? m (replaceMarks '*' ts cs) = (afterStart? m cs).map (replaceMarks '*' ts) := by
  induction m generalizing cs with
  | nil => rfl
  | cons p ps ih =>
    have hp : p ∈ ['[', ']', '(', ')'] := hm p List.mem_cons_self
    have hstar : p ≠ '*' := ne_star_of_mem hp
    cases cs with
    | nil =>
      rw [replaceMarks_nil]
      rfl
    | cons c cs =>
      by_cases hc : c = '*'
      · subst hc
        obtain ⟨d, ds, hd, hfrom⟩ := exists_head_replaceMarks ts (fun t ht => (hts t ht).1) cs
        have hne : p ≠ d := by
          rintro rfl
          rcases hfrom with hfrom | ⟨t, ht, hpt⟩
          · exact hstar hfrom
          · exact ((hts t ht).2 p hpt).1 hp
        rw [hd, afterStart?_of_ne hne, afterStart?_of_ne hstar, Option.map_none]
      · rw [replaceMarks_cons_of_ne hc, afterStart?, afterStart?,
          ih fun c hc => hm c (List.mem_cons_of_mem _ hc)]
        split <;> rfl

end Replaced

/-- What is read up to a bracket is so after marks are replaced as well. -/
theorem upTo?_replaceMarks {p : Char} {ps : List Char}
    (hm : ∀ c ∈ p :: ps, c ∈ ['[', ']', '(', ')']) {ts : List (List Char)} (hts : Unbracketed ts)
    (cs : List Char) :
    upTo? (p :: ps) (replaceMarks '*' ts cs) =
      (upTo? (p :: ps) cs).map fun (before, rest) =>
        (replaceMarks '*' ts before, replaceMarks '*' (ts.drop (marks '*' before)) rest) := by
  have hp : p ∈ ['[', ']', '(', ')'] := hm p List.mem_cons_self
  induction cs using mark_induction '*' generalizing ts with
  | nil =>
    rw [replaceMarks_nil]
    rfl
  | mark cs ih =>
    cases ts with
    | nil => simp only [replaceMarks_no, List.drop_nil, Option.map_id']
    | cons t ts =>
      have hstars : ∀ c ∈ ['*', '*'], c ≠ p ∧ isLineEnd c = false := by
        intro c hc
        obtain rfl : c = '*' := by simpa using hc
        exact ⟨(ne_star_of_mem hp).symm, by decide⟩
      have ht : ∀ c ∈ t, c ≠ p ∧ isLineEnd c = false := by
        intro c hc
        obtain ⟨hfree, hl⟩ := (hts t List.mem_cons_self).2 c hc
        exact ⟨fun h => hfree (h ▸ hp), hl⟩
      have hskip : upTo? (p :: ps) ('*' :: '*' :: cs) =
          (upTo? (p :: ps) cs).map fun (before, rest) => ('*' :: '*' :: before, rest) :=
        upTo?_append_free hstars ps cs
      rw [replaceMarks_mark, upTo?_append_free ht, ih fun t ht => hts t (List.mem_cons_of_mem _ ht),
        hskip]
      cases upTo? (p :: ps) cs with
      | none => rfl
      | some found =>
        simp only [Option.map_some, replaceMarks_mark, marks_mark, List.drop_succ_cons]
  | cons c cs h ih =>
    have hstart := afterStart?_replaceMarks hm hts (c :: cs)
    rw [replaceMarks_cons h] at hstart ⊢
    cases hc : afterStart? (p :: ps) (c :: cs) with
    | some rest =>
      rw [hc] at hstart
      rw [upTo?_start hstart, upTo?_start hc, Option.map_some]
      exact congrArg (fun before => some (before, replaceMarks '*' ts rest))
        (replaceMarks_nil ts).symm
    | none =>
      rw [hc] at hstart
      cases hl : isLineEnd c with
      | true =>
        rw [upTo?_lineEnd hstart hl, upTo?_lineEnd hc hl]
        rfl
      | false =>
        rw [upTo?_cons hstart hl, upTo?_cons hc hl, ih hts]
        cases hfound : upTo? (p :: ps) cs with
        | none => rfl
        | some found =>
          obtain ⟨before, rest⟩ := found
          -- what was read is a beginning of the text, so it begins with no mark either
          have hbefore : ¬Marked '*' c before := by
            rw [eq_append_of_upTo? hfound] at h
            exact fun h' => h ⟨h'.1, by rw [List.head?_append, h'.2, Option.some_or]⟩
          simp only [Option.map_some, replaceMarks_cons hbefore, marks_cons hbefore]

/-- A link is found after marks are replaced where it was found before. -/
theorem link?_replaceMarks {ts : List (List Char)} (hts : Unbracketed ts) (cs : List Char) :
    link? (replaceMarks '*' ts cs) =
      (link? cs).map fun (label, url, rest) =>
        (replaceMarks '*' ts label, replaceMarks '*' (ts.drop (marks '*' label)) url,
          replaceMarks '*' ((ts.drop (marks '*' label)).drop (marks '*' url)) rest) := by
  rw [link?, link?, afterStart?_replaceMarks (subset_brackets rfl) hts]
  cases afterStart? ['['] cs with
  | none => rfl
  | some cs =>
    simp only [Option.map_some, Option.bind_eq_bind, Option.bind_some,
      upTo?_replaceMarks (subset_brackets (m := [']', '(']) rfl) hts]
    cases upTo? [']', '('] cs with
    | none => rfl
    | some found =>
      obtain ⟨label, cs⟩ := found
      simp only [Option.map_some, Option.bind_some,
        upTo?_replaceMarks (subset_brackets (m := [')']) rfl) (hts.drop _)]
      cases upTo? [')'] cs <;> rfl

end PluginAudit.Markup
