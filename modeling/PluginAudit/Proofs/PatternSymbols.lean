import PluginAudit.Pattern.Token
import PluginAudit.Proofs.WrittenCalls

/-!
# The symbols of a pattern, whatever follows

A pattern is compiled with a closing parenthesis and a dollar sign after it. No symbol reaches over
into them (`Token.next?_closer`), except that a backslash at the very end takes the parenthesis for
itself. One function after the other that reads a part of a pattern is shown to read the same with
and without them, and to take no more characters than there are.
-/

namespace PluginAudit.Pattern

open Text Condition

/-- What is written after a pattern to tie it to the end of a name. -/
def closer : List Char := [')', '$']

theorem takeWhile_closer {p : Char → Bool} (hp : p ')' = false) (cs : List Char) :
    (cs ++ closer).takeWhile p = cs.takeWhile p := by
  induction cs with
  | nil => exact List.takeWhile_cons_of_neg (by simp [hp])
  | cons c cs ih =>
    rw [List.cons_append, List.takeWhile_cons, List.takeWhile_cons, ih]

theorem dropWhile_closer {p : Char → Bool} (hp : p ')' = false) (cs : List Char) :
    (cs ++ closer).dropWhile p = cs.dropWhile p ++ closer := by
  induction cs with
  | nil => exact List.dropWhile_cons_of_neg (by simp [hp])
  | cons c cs ih =>
    rw [List.cons_append, List.dropWhile_cons, List.dropWhile_cons, ih]
    split <;> rfl

theorem takeWhile_take_closer {p : Char → Bool} (hp : p ')' = false) (cs : List Char) (n : Nat) :
    ((cs ++ closer).take n).takeWhile p = (cs.take n).takeWhile p := by
  induction cs generalizing n with
  | nil =>
    cases n with
    | zero => rfl
    | succ n => exact List.takeWhile_cons_of_neg (by simp [hp])
  | cons c cs ih =>
    cases n with
    | zero => rfl
    | succ n =>
      rw [List.cons_append, List.take_succ_cons, List.take_succ_cons, List.takeWhile_cons,
        List.takeWhile_cons, ih]

theorem octal_closer (cs : List Char) : octal (cs ++ closer) = octal cs := by
  unfold octal
  have hclosing : isOctal ')' = false := by decide
  rw [takeWhile_take_closer hclosing, takeWhile_take_closer hclosing]

theorem hexAt?_closer (count : Nat) (cs : List Char) :
    hexAt? count (cs ++ closer) = hexAt? count cs := by
  unfold hexAt?
  by_cases hcount : count ≤ cs.length
  · rw [List.take_append_of_le_length hcount]
  · have hshort : ¬(cs.take count).length = count := by
      rw [List.length_take]
      omega
    have hnone : hexValue? ((cs ++ closer).take count) = none := by
      have hmem : ')' ∈ (cs ++ closer).take count := by
        have htake : (cs ++ closer).take count = cs ++ closer.take (count - cs.length) := by
          rw [List.take_append, List.take_of_length_le (by omega)]
        obtain ⟨n, hn⟩ : ∃ n, count - cs.length = n + 1 := ⟨count - cs.length - 1, by omega⟩
        rw [htake, hn]
        exact List.mem_append_right cs List.mem_cons_self
      cases hvalue : hexValue? ((cs ++ closer).take count) with
      | none => rfl
      | some n => exact absurd (isSome_of_hexValue? hvalue ')' hmem) (by decide)
    simp only [if_neg hshort, hnone, ite_self]

theorem escapedUnits_other {c : Char} (hc : c ∉ ['f', 'n', 'r', 't', 'v', 'c', 'x', 'u'])
    (inClass : Bool) (cs : List Char) :
    escapedUnits inClass (c :: cs) =
      if isOctal c then some ([(octal (c :: cs)).1], (octal (c :: cs)).2)
      else some (unitsOf c, 1) := by
  simp only [List.mem_cons, List.not_mem_nil, or_false, not_or] at hc
  unfold escapedUnits
  split <;> simp_all

theorem escapedUnits_closer (inClass : Bool) (c : Char) (cs : List Char) :
    escapedUnits inClass (c :: (cs ++ closer)) = escapedUnits inClass (c :: cs) := by
  by_cases hc : c ∈ ['f', 'n', 'r', 't', 'v', 'c', 'x', 'u']
  · simp only [List.mem_cons, List.not_mem_nil, or_false] at hc
    rcases hc with rfl | rfl | rfl | rfl | rfl | rfl | rfl | rfl
    · rfl
    · rfl
    · rfl
    · rfl
    · rfl
    · cases cs with
      | nil => cases inClass <;> rfl
      | cons d cs => rfl
    · simp only [escapedUnits, hexAt?_closer]
    · simp only [escapedUnits, hexAt?_closer]
  · have hoctal := octal_closer (c :: cs)
    rw [List.cons_append] at hoctal
    rw [escapedUnits_other hc, escapedUnits_other hc, hoctal]

theorem length_octal_le (cs : List Char) : (octal cs).2 ≤ cs.length := by
  have hle (n : Nat) : ((cs.take n).takeWhile isOctal).length ≤ cs.length :=
    Nat.le_trans (List.takeWhile_sublist _).length_le (List.length_take_le' n cs)
  unfold octal
  dsimp only
  split
  · exact hle 3
  · exact hle 2

theorem le_length_of_hexAt? {count u : Nat} {cs : List Char} (h : hexAt? count cs = some u) :
    count ≤ cs.length := by
  unfold hexAt? at h
  dsimp only at h
  split at h
  next hlength =>
    rw [List.length_take] at hlength
    omega
  · cases h

theorem escapedUnits_le {inClass : Bool} {cs : List Char} {us : List Nat} {n : Nat}
    (h : escapedUnits inClass cs = some (us, n)) : n ≤ cs.length := by
  unfold escapedUnits at h
  split at h
  case h_7 cs =>
    cases cs with
    | nil => grind
    | cons d cs => grind
  all_goals grind [length_octal_le, → le_length_of_hexAt?]

/-! ## Sets -/

theorem SetItem.escaped?_other {c : Char} (hc : c ≠ 'b') (named : Bool) (cs : List Char) :
    SetItem.escaped? named (c :: cs) =
      match shorthand? c with
      | some rs => some ([.ranges rs], 1)
      | none =>
        if named && c == 'k' then none
        else (escapedUnits true (c :: cs)).map fun (us, n) => (us.map .unit, n) := by
  unfold SetItem.escaped?
  split
  next heq => cases heq
  next heq => exact absurd (List.cons.inj heq).1 hc
  next heq =>
    cases heq
    rfl

theorem SetItem.escaped?_closer (named : Bool) (c : Char) (cs : List Char) :
    SetItem.escaped? named (c :: (cs ++ closer)) = SetItem.escaped? named (c :: cs) := by
  by_cases hc : c = 'b'
  · subst hc
    rfl
  · rw [escaped?_other hc, escaped?_other hc, escapedUnits_closer]

theorem SetItem.escaped?_le {named : Bool} {cs : List Char} {items : List SetItem} {n : Nat}
    (h : SetItem.escaped? named cs = some (items, n)) : n ≤ cs.length := by
  unfold SetItem.escaped? at h
  split at h
  · cases h
  · cases h
    exact Nat.succ_le_succ (Nat.zero_le _)
  next c cs =>
    split at h
    · cases h
      exact Nat.succ_le_succ (Nat.zero_le _)
    · split at h
      · cases h
      · obtain ⟨⟨us, m⟩, hunits, heq⟩ := Option.map_eq_some_iff.1 h
        cases heq
        exact escapedUnits_le hunits

/-- No set ends in what is written after a pattern. -/
theorem SetItem.readAll?_closer (named : Bool) (cs : List Char) :
    SetItem.readAll? named (cs ++ closer) = SetItem.readAll? named cs := by
  induction cs using SetItem.readAll?.induct named with
  | case1 => simp [closer, SetItem.readAll?]
  | case2 cs =>
    rw [List.cons_append, SetItem.readAll?, SetItem.readAll?, if_pos rfl, if_pos rfl]
  | case3 cs hescaped hend =>
    rw [List.cons_append, SetItem.readAll?, SetItem.readAll?, if_neg hend, if_neg hend, if_pos rfl,
      if_pos rfl, hescaped]
    cases cs with
    | nil => simp [closer, SetItem.escaped?, shorthand?, escapedUnits, isOctal, SetItem.readAll?]
    | cons d cs => rw [List.cons_append, escaped?_closer, hescaped]
  | case4 cs here n hescaped hend ih =>
    have hclosed : SetItem.escaped? named (cs ++ closer) = some (here, n) := by
      cases cs with
      | nil => cases hescaped
      | cons d cs => rw [List.cons_append, escaped?_closer, hescaped]
    rw [List.cons_append, SetItem.readAll?, SetItem.readAll?, if_neg hend, if_neg hend, if_pos rfl,
      if_pos rfl, hescaped, hclosed]
    dsimp only
    rw [List.drop_append_of_le_length (escaped?_le hescaped), ih]
  | case5 c cs hend hescape ih =>
    rw [List.cons_append, SetItem.readAll?, SetItem.readAll?, if_neg hend, if_neg hend,
      if_neg hescape, if_neg hescape, ih]

theorem SetItem.readAll?_le {named : Bool} {cs : List Char} {items : List SetItem} {n : Nat}
    (h : SetItem.readAll? named cs = some (items, n)) : n ≤ cs.length := by
  induction cs using SetItem.readAll?.induct named generalizing items n with
  | case1 => simp [SetItem.readAll?] at h
  | case2 cs =>
    rw [SetItem.readAll?, if_pos rfl] at h
    cases h
    exact Nat.succ_le_succ (Nat.zero_le _)
  | case3 cs hescaped hend =>
    rw [SetItem.readAll?, if_neg hend, if_pos rfl, hescaped] at h
    cases h
  | case4 cs here m hescaped hend ih =>
    rw [SetItem.readAll?, if_neg hend, if_pos rfl, hescaped] at h
    obtain ⟨⟨more, k⟩, hmore, heq⟩ := Option.map_eq_some_iff.1 h
    cases heq
    have hlength := ih hmore
    have hescape := escaped?_le hescaped
    rw [List.length_drop] at hlength
    rw [List.length_cons]
    omega
  | case5 c cs hend hescape ih =>
    rw [SetItem.readAll?, if_neg hend, if_neg hescape] at h
    obtain ⟨⟨more, k⟩, hmore, heq⟩ := Option.map_eq_some_iff.1 h
    cases heq
    have hlength := ih hmore
    rw [List.length_cons]
    omega

theorem readSet?_closer (named : Bool) (cs : List Char) :
    readSet? named (cs ++ closer) = readSet? named cs := by
  unfold readSet?
  cases cs with
  | nil => simp [closer, SetItem.readAll?]
  | cons c cs =>
    have hdrop (n : Nat) (hn : n ≤ 1) : (c :: cs ++ closer).drop n = (c :: cs).drop n ++ closer :=
      List.drop_append_of_le_length (Nat.le_trans hn (Nat.succ_le_succ (Nat.zero_le _)))
    have hskip : (if (some c == some '^') = true then 1 else 0) ≤ 1 := by split <;> omega
    rw [List.cons_append, List.head?_cons, List.head?_cons, ← List.cons_append]
    dsimp only
    rw [hdrop _ hskip, SetItem.readAll?_closer]

theorem readSet?_le {named : Bool} {cs : List Char} {set : UnitSet} {n : Nat}
    (h : readSet? named cs = some (set, n)) : n ≤ cs.length := by
  unfold readSet? at h
  dsimp only at h
  split at h
  · cases h
  next items m hread =>
    obtain ⟨rs, -, heq⟩ := Option.map_eq_some_iff.1 h
    cases heq
    have hlength := SetItem.readAll?_le hread
    rw [List.length_drop] at hlength
    cases cs with
    | nil => simp [SetItem.readAll?] at hread
    | cons c cs =>
      rw [List.length_cons] at hlength ⊢
      split at hlength
      · split
        · omega
        · omega
      · split
        · contradiction
        · omega

/-! ## Names of groups -/

theorem bracedCodePoint?_closer (cs : List Char) :
    bracedCodePoint? (cs ++ closer) = bracedCodePoint? cs := by
  unfold bracedCodePoint?
  dsimp only
  rw [List.takeWhile_append]
  have hle : (cs.takeWhile (· != '}')).length ≤ cs.length := (List.takeWhile_sublist _).length_le
  by_cases hall : (cs.takeWhile (· != '}')).length = cs.length
  · have hlong : ¬(cs ++ closer.takeWhile (· != '}')).length < (cs ++ closer).length := by
      simp [closer]
    rw [if_pos hall, if_neg hlong, if_neg (by omega)]
  · rw [if_neg hall, if_pos (by rw [List.length_append]; omega), if_pos (by omega)]

theorem bracedCodePoint?_le {cs : List Char} {u n : Nat} (h : bracedCodePoint? cs = some (u, n)) :
    n ≤ cs.length := by
  unfold bracedCodePoint? at h
  dsimp only at h
  split at h
  next hlength =>
    obtain ⟨m, -, heq⟩ := Option.map_eq_some_iff.1 h
    cases heq
    exact hlength
  · cases h

theorem pairedCodePoint_closer (high : Nat) (cs : List Char) :
    pairedCodePoint high (cs ++ closer) = pairedCodePoint high cs := by
  match cs with
  | [] => rfl
  | [c] => simp [pairedCodePoint, closer]
  | c :: d :: cs =>
    by_cases hescape : c = '\\' ∧ d = 'u'
    · obtain ⟨rfl, rfl⟩ := hescape
      simp only [List.cons_append, pairedCodePoint, hexAt?_closer]
    · have hother : ∀ more, pairedCodePoint high (c :: d :: more) = (high, 0) := by
        intro more
        unfold pairedCodePoint
        split
        · simp_all
        · rfl
      rw [List.cons_append, List.cons_append, hother, hother]

theorem pairedCodePoint_le (high : Nat) (cs : List Char) :
    (pairedCodePoint high cs).2 ≤ cs.length := by
  unfold pairedCodePoint
  grind [→ le_length_of_hexAt?]

theorem codePoint?_other {cs : List Char} (h : cs.head? ≠ some '{') :
    codePoint? cs = (hexAt? 4 cs).map fun high =>
      ((pairedCodePoint high (cs.drop 4)).1, 4 + (pairedCodePoint high (cs.drop 4)).2) := by
  unfold codePoint?
  split
  · exact absurd rfl h
  · rfl

theorem codePoint?_closer (cs : List Char) : codePoint? (cs ++ closer) = codePoint? cs := by
  by_cases hbrace : cs.head? = some '{'
  · obtain ⟨more, rfl⟩ := List.head?_eq_some_iff.1 hbrace
    rw [List.cons_append, codePoint?, codePoint?, bracedCodePoint?_closer]
  · have hbrace' : (cs ++ closer).head? ≠ some '{' := by
      cases cs with
      | nil => decide
      | cons c cs => exact hbrace
    rw [codePoint?_other hbrace, codePoint?_other hbrace', hexAt?_closer]
    cases hhex : hexAt? 4 cs with
    | none => rfl
    | some high =>
      rw [Option.map_some, Option.map_some,
        List.drop_append_of_le_length (le_length_of_hexAt? hhex), pairedCodePoint_closer]

theorem codePoint?_le {cs : List Char} {u n : Nat} (h : codePoint? cs = some (u, n)) :
    n ≤ cs.length := by
  by_cases hbrace : cs.head? = some '{'
  · obtain ⟨more, rfl⟩ := List.head?_eq_some_iff.1 hbrace
    obtain ⟨⟨v, m⟩, hbraced, heq⟩ := Option.map_eq_some_iff.1 h
    cases heq
    have hlength := bracedCodePoint?_le hbraced
    rw [List.length_cons]
    omega
  · rw [codePoint?_other hbrace] at h
    obtain ⟨high, hhex, heq⟩ := Option.map_eq_some_iff.1 h
    cases heq
    have hfour := le_length_of_hexAt? hhex
    have hlength := pairedCodePoint_le high (cs.drop 4)
    rw [List.length_drop] at hlength
    omega

theorem nameChar?_closer (c : Char) (cs : List Char) :
    nameChar? c (cs ++ closer) = nameChar? c cs := by
  unfold nameChar?
  cases cs with
  | nil => rfl
  | cons d cs =>
    by_cases hd : d = 'u'
    · subst hd
      simp only [List.cons_append, codePoint?_closer]
    · simp [hd]

theorem nameChar?_le {c d : Char} {cs : List Char} {n : Nat} (h : nameChar? c cs = some (d, n)) :
    n ≤ cs.length := by
  unfold nameChar? at h
  grind [→ codePoint?_le]

/-- A name has to end before what is written after a pattern. -/
theorem nameRest?_closer (cs : List Char) : nameRest? (cs ++ closer) = nameRest? cs := by
  induction cs using nameRest?.induct with
  | case1 =>
    have hend : nameChar? ')' ['$'] = some (')', 0) := by decide
    have hpart : isIdentifierPart ')' = false := by decide +kernel
    rw [List.nil_append, closer, nameRest?, nameRest?, hend]
    simp [hpart]
  | case2 c cs hchar =>
    rw [List.cons_append, nameRest?, nameRest?, nameChar?_closer, hchar]
  | case3 c cs n hchar =>
    rw [List.cons_append, nameRest?, nameRest?, nameChar?_closer, hchar]
    rfl
  | case4 c cs d n hchar hmore hpart ih =>
    rw [List.cons_append, nameRest?, nameRest?, nameChar?_closer, hchar]
    dsimp only
    rw [List.drop_append_of_le_length (nameChar?_le hchar), ih]
  | case5 c cs d n hchar hmore hpart =>
    rw [List.cons_append, nameRest?, nameRest?, nameChar?_closer, hchar]
    simp only [if_neg hmore, if_neg hpart]

theorem nameRest?_le {cs name : List Char} {n : Nat} (h : nameRest? cs = some (name, n)) :
    n ≤ cs.length := by
  induction cs using nameRest?.induct generalizing name n with
  | case1 => simp [nameRest?] at h
  | case2 c cs hchar =>
    rw [nameRest?, hchar] at h
    cases h
  | case3 c cs m hchar =>
    rw [nameRest?, hchar] at h
    dsimp only at h
    rw [if_pos rfl] at h
    cases h
    have hlength := nameChar?_le hchar
    rw [List.length_cons]
    omega
  | case4 c cs d m hchar hmore hpart ih =>
    rw [nameRest?, hchar] at h
    dsimp only at h
    rw [if_neg hmore, if_pos hpart] at h
    obtain ⟨⟨more, k⟩, hrest, heq⟩ := Option.map_eq_some_iff.1 h
    cases heq
    have hlength := ih hrest
    have hfirst := nameChar?_le hchar
    rw [List.length_drop] at hlength
    rw [List.length_cons]
    omega
  | case5 c cs d m hchar hmore hpart =>
    rw [nameRest?, hchar] at h
    dsimp only at h
    rw [if_neg hmore, if_neg hpart] at h
    cases h

theorem groupName?_closer (cs : List Char) : groupName? (cs ++ closer) = groupName? cs := by
  cases cs with
  | nil => decide +kernel
  | cons c cs =>
    rw [List.cons_append, groupName?, groupName?, nameChar?_closer]
    cases hchar : nameChar? c cs with
    | none => rfl
    | some first =>
      dsimp only
      rw [List.drop_append_of_le_length (nameChar?_le hchar), nameRest?_closer]

theorem groupName?_le {cs name : List Char} {n : Nat} (h : groupName? cs = some (name, n)) :
    n ≤ cs.length := by
  unfold groupName? at h
  split at h
  · cases h
  next c cs =>
    split at h
    · cases h
    next d m hchar =>
      split at h
      · obtain ⟨⟨more, k⟩, hrest, heq⟩ := Option.map_eq_some_iff.1 h
        cases heq
        have hlength := nameRest?_le hrest
        have hfirst := nameChar?_le hchar
        rw [List.length_drop] at hlength
        rw [List.length_cons]
        omega
      · cases h

/-! ## The other symbols -/

theorem Token.escaped?_other {c : Char} (hb : c ≠ 'b') (hB : c ≠ 'B') (named : Bool)
    (cs : List Char) :
    Token.escaped? named (c :: cs) =
      match shorthand? c with
      | some rs => some ([.oneOf ⟨rs, false⟩], 1)
      | none =>
        if isDigit c && c != '0' then
          some ([.digits ((c :: cs).takeWhile isDigit)], ((c :: cs).takeWhile isDigit).length)
        else if named && c == 'k' then
          match cs with
          | '<' :: cs => (groupName? cs).map fun (name, n) => ([.named name], 2 + n)
          | _ => none
        else (escapedUnits false (c :: cs)).map fun (us, n) => (us.map .unit, n) := by
  unfold Token.escaped?
  split
  next heq => cases heq
  next heq => exact absurd (List.cons.inj heq).1 hb
  next heq => exact absurd (List.cons.inj heq).1 hB
  next heq =>
    cases heq
    rfl

theorem Token.escaped?_closer (named : Bool) (c : Char) (cs : List Char) :
    Token.escaped? named (c :: (cs ++ closer)) = Token.escaped? named (c :: cs) := by
  by_cases hb : c = 'b'
  · subst hb
    rfl
  by_cases hB : c = 'B'
  · subst hB
    rfl
  have hdigits : (c :: (cs ++ closer)).takeWhile isDigit = (c :: cs).takeWhile isDigit := by
    rw [← List.cons_append]
    exact takeWhile_closer (by decide) _
  rw [escaped?_other hb hB, escaped?_other hb hB, escapedUnits_closer, hdigits]
  cases cs with
  | nil => rfl
  | cons d cs =>
    by_cases hd : d = '<'
    · subst hd
      simp only [List.cons_append, groupName?_closer]
    · simp [hd]

theorem Token.escaped?_le {named : Bool} {cs : List Char} {ts : List Token} {n : Nat}
    (h : Token.escaped? named cs = some (ts, n)) : n ≤ cs.length := by
  unfold Token.escaped? at h
  split at h
  · cases h
  · cases h
    exact Nat.succ_le_succ (Nat.zero_le _)
  · cases h
    exact Nat.succ_le_succ (Nat.zero_le _)
  next c cs =>
    split at h
    · cases h
      exact Nat.succ_le_succ (Nat.zero_le _)
    split at h
    · cases h
      exact (List.takeWhile_sublist _).length_le
    split at h
    · split at h
      · obtain ⟨⟨name, m⟩, hname, heq⟩ := Option.map_eq_some_iff.1 h
        cases heq
        have hlength := groupName?_le hname
        rw [List.length_cons, List.length_cons]
        omega
      · cases h
    · obtain ⟨⟨us, m⟩, hunits, heq⟩ := Option.map_eq_some_iff.1 h
      cases heq
      exact escapedUnits_le hunits

theorem bounds?_closer (cs : List Char) : bounds? (cs ++ closer) = bounds? cs := by
  have hdigit : isDigit ')' = false := by decide
  unfold bounds?
  dsimp only
  rw [takeWhile_closer hdigit, dropWhile_closer hdigit]
  split
  · rfl
  cases cs.dropWhile isDigit with
  | nil => rfl
  | cons c rest =>
    by_cases hend : c = '}'
    · subst hend
      rfl
    by_cases hcomma : c = ','
    · subst hcomma
      simp only [List.cons_append]
      rw [takeWhile_closer hdigit, dropWhile_closer hdigit]
      cases rest.dropWhile isDigit with
      | nil => rfl
      | cons d more =>
        by_cases hclose : d = '}'
        · subst hclose
          rfl
        · simp [hclose]
    · simp [hend, hcomma]

theorem bounds?_le {cs : List Char} {b : Nat × Option Nat} {n : Nat}
    (h : bounds? cs = some (b, n)) : n ≤ cs.length := by
  have hcs := congrArg List.length (List.takeWhile_append_dropWhile (p := isDigit) (l := cs))
  rw [List.length_append] at hcs
  unfold bounds? at h
  dsimp only at h
  split at h
  · cases h
  split at h
  next rest hrest =>
    cases h
    rw [hrest, List.length_cons] at hcs
    omega
  next rest hrest =>
    have hmore := congrArg List.length (List.takeWhile_append_dropWhile (p := isDigit) (l := rest))
    rw [List.length_append] at hmore
    rw [hrest, List.length_cons] at hcs
    split at h
    next more hend =>
      cases h
      rw [hend, List.length_cons] at hmore
      omega
    · cases h
  · cases h

theorem Token.repeated_closer (low : Nat) (high : Option Nat) {taken : Nat} {cs : List Char}
    (h : taken ≤ cs.length) :
    Token.repeated low high taken (cs ++ closer) = Token.repeated low high taken cs := by
  unfold Token.repeated
  rw [List.drop_append_of_le_length h]
  cases cs.drop taken with
  | nil => rfl
  | cons c cs => rfl

theorem Token.repeated_le (low : Nat) (high : Option Nat) {taken : Nat} {cs : List Char}
    (h : taken ≤ cs.length) : (Token.repeated low high taken cs).2 ≤ cs.length := by
  unfold Token.repeated
  split
  next hlazy =>
    have hne : cs.drop taken ≠ [] := by
      intro hnil
      rw [hnil] at hlazy
      cases hlazy
    have hlength := List.length_pos_iff.2 hne
    rw [List.length_drop] at hlength
    exact Nat.lt_of_sub_pos hlength
  · exact h

theorem groupKind?_closer (cs : List Char) : groupKind? (cs ++ closer) = groupKind? cs := by
  cases cs with
  | nil => rfl
  | cons c cs =>
    by_cases hc : c = '?'
    · subst hc
      cases cs with
      | nil => rfl
      | cons d cs =>
        by_cases hplain : d = ':'
        · subst hplain
          rfl
        by_cases hahead : d = '='
        · subst hahead
          rfl
        by_cases hnot : d = '!'
        · subst hnot
          rfl
        by_cases hd : d = '<'
        · subst hd
          cases cs with
          | nil => rfl
          | cons e cs =>
            have hname := groupName?_closer (e :: cs)
            rw [List.cons_append] at hname
            by_cases hbehind : e = '='
            · subst hbehind
              rfl
            by_cases hnotBehind : e = '!'
            · subst hnotBehind
              rfl
            simp [groupKind?, hname, hbehind, hnotBehind]
        · simp [groupKind?, hplain, hahead, hnot, hd]
    · simp [groupKind?, hc]

theorem groupKind?_le {cs : List Char} {kind : GroupKind} {n : Nat}
    (h : groupKind? cs = some (kind, n)) : n ≤ cs.length := by
  unfold groupKind? at h
  split at h
  case h_6 cs _ _ =>
    obtain ⟨⟨name, m⟩, hname, heq⟩ := Option.map_eq_some_iff.1 h
    cases heq
    have hlength := groupName?_le hname
    rw [List.length_cons, List.length_cons]
    omega
  case h_7 => cases h
  case h_8 =>
    cases h
    exact Nat.zero_le _
  all_goals
    cases h
    simp only [List.length_cons]
    omega

/-- What is written after a pattern does not change what a symbol of it is. -/
theorem Token.next?_closer (named : Bool) {c : Char} {cs : List Char} (h : c = '\\' → cs ≠ []) :
    Token.next? named c (cs ++ closer) = Token.next? named c cs := by
  have hrepeated (low : Nat) (high : Option Nat) :
      Token.repeated low high 0 (cs ++ closer) = Token.repeated low high 0 cs :=
    Token.repeated_closer low high (Nat.zero_le _)
  unfold Token.next?
  split
  case h_6 => rw [hrepeated]
  case h_7 => rw [hrepeated]
  case h_8 => rw [hrepeated]
  case h_9 => rw [groupKind?_closer]
  case h_10 => rw [readSet?_closer]
  case h_11 =>
    cases cs with
    | nil => exact absurd rfl (h rfl)
    | cons d cs => exact Token.escaped?_closer named d cs
  case h_12 =>
    rw [bounds?_closer]
    cases hbounds : bounds? cs with
    | none => rfl
    | some b =>
      obtain ⟨⟨low, high⟩, n⟩ := b
      simp only [Token.repeated_closer low high (bounds?_le hbounds)]
  all_goals rfl

theorem Token.next?_le {named : Bool} {c : Char} {cs : List Char} {ts : List Token} {n : Nat}
    (h : Token.next? named c cs = some (ts, n)) : n ≤ cs.length := by
  have hrepeated {low : Nat} {high : Option Nat} {k : Nat} (hk : k ≤ cs.length)
      (heq : Token.repeated low high k cs = (ts, n)) : n ≤ cs.length := by
    have hlength := Token.repeated_le low high hk
    rwa [heq] at hlength
  unfold Token.next? at h
  split at h
  case h_6 => exact hrepeated (Nat.zero_le _) (Option.some.inj h)
  case h_7 => exact hrepeated (Nat.zero_le _) (Option.some.inj h)
  case h_8 => exact hrepeated (Nat.zero_le _) (Option.some.inj h)
  case h_9 =>
    obtain ⟨⟨kind, m⟩, hkind, heq⟩ := Option.map_eq_some_iff.1 h
    cases heq
    exact groupKind?_le hkind
  case h_10 =>
    obtain ⟨⟨set, m⟩, hset, heq⟩ := Option.map_eq_some_iff.1 h
    cases heq
    exact readSet?_le hset
  case h_11 => exact Token.escaped?_le h
  case h_12 =>
    split at h
    · cases h
      exact Nat.zero_le _
    next hbounds =>
      split at h
      · exact hrepeated (bounds?_le hbounds) (Option.some.inj h)
      · cases h
  all_goals
    cases h
    exact Nat.zero_le _

end PluginAudit.Pattern
