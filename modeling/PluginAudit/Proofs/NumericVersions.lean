import Mathlib.Data.List.DropRight
import Mathlib.Logic.Relation
import PluginAudit.Proofs.ComparedVersions

/-!
# Versions that are sequences of numbers

A version whose parts are numbers below `2 ^ 53` stands for the sequence of their values. Such
versions are compared as these sequences, the shorter filled up with zeros, which is a total
preorder in which two are equal if they differ in zeros at the end only (`compare_numeric`).

How the numbers are written does not matter: the sequence is that of the runs of digits in the text
(`values_eq_runs`), and those are the same with other separators, with more of them and with zeros
before a number (`Respelled`).
-/

namespace PluginAudit

namespace Version

open Text Comparison

/-- A numeral that a double holds without rounding. -/
def IsShortNumeral (p : List Char) : Prop := isNumeral p = true ∧ numeralValue p < 2 ^ 53

instance (p : List Char) : Decidable (IsShortNumeral p) := inferInstanceAs (Decidable (_ ∧ _))

/-- All parts of a version are such numerals. -/
def IsNumeric (version : String) : Prop := ∀ p ∈ parts version, IsShortNumeral p

instance (version : String) : Decidable (IsNumeric version) :=
  inferInstanceAs (Decidable (∀ p ∈ parts version, IsShortNumeral p))

/-- The numbers of a version. -/
def values (version : String) : List Nat := (parts version).map numeralValue

/-- Compares two sequences at the first place where they differ, the shorter one filled up with
zeros. -/
def comparePadded (ms ns : List Nat) : Ordering :=
  Ord.compare (ms.rightpad (max ms.length ns.length) 0) (ns.rightpad (max ms.length ns.length) 0)

/-! ## Parts and values -/

theorem compareNumerals_short {p q : List Char} (hp : numeralValue p < 2 ^ 53)
    (hq : numeralValue q < 2 ^ 53) :
    compareNumerals p q = .ofOrdering (Ord.compare (numeralValue p) (numeralValue q)) := by
  rw [compareNumerals, Binary64.roundNat_of_lt hp, Binary64.roundNat_of_lt hq]

theorem isShortNumeral_partAt {ps : List (List Char)} (h : ∀ p ∈ ps, IsShortNumeral p) (i : Nat) :
    IsShortNumeral (partAt ps i) := by
  rw [partAt, List.getD_eq_getElem?_getD]
  cases hp : ps[i]? with
  | none => exact ⟨by decide, by decide⟩
  | some p => exact h p (List.mem_of_getElem? hp)

theorem comparePart_short {p q : List Char} (hp : IsShortNumeral p) (hq : IsShortNumeral q) :
    comparePart p q = .ofOrdering (Ord.compare (numeralValue p) (numeralValue q)) := by
  rw [comparePart_numerals hp.1 hq.1, compareNumerals_short hp.2 hq.2]

theorem step_ofOrdering (o o' : Ordering) :
    compareParts.step (ofOrdering o) (ofOrdering o') = ofOrdering (o.then o') := by
  cases o <;> rfl

/-- The first number of a padded sequence is that of the first part. -/
theorem rightpad_values (ps : List (List Char)) (n : Nat) :
    (ps.map numeralValue).rightpad (n + 1) 0 =
      numeralValue (partAt ps 0) :: (ps.tail.map numeralValue).rightpad n 0 := by
  cases ps with
  | nil => rfl
  | cons p ps => simp [List.rightpad, partAt]

/-- The induction is on the length to which both sequences are filled up. -/
theorem compareParts_short {n : Nat} {as bs : List (List Char)} (ha : as.length ≤ n)
    (hb : bs.length ≤ n) (has : ∀ p ∈ as, IsShortNumeral p) (hbs : ∀ p ∈ bs, IsShortNumeral p) :
    compareParts as bs = .ofOrdering (Ord.compare ((as.map numeralValue).rightpad n 0)
      ((bs.map numeralValue).rightpad n 0)) := by
  induction n generalizing as bs with
  | zero =>
    obtain rfl : as = [] := List.eq_nil_of_length_eq_zero (Nat.le_zero.1 ha)
    obtain rfl : bs = [] := List.eq_nil_of_length_eq_zero (Nat.le_zero.1 hb)
    rw [compareParts]
    rfl
  | succ n ih =>
    have hrest := ih (length_tail_le ha) (length_tail_le hb)
      (fun p hp => has p (List.mem_of_mem_tail hp)) fun p hp => hbs p (List.mem_of_mem_tail hp)
    rw [compareParts_eq_step, hrest,
      comparePart_short (isShortNumeral_partAt has 0) (isShortNumeral_partAt hbs 0),
      rightpad_values, rightpad_values, List.compare_cons_cons, step_ofOrdering]

theorem compare_rightpad {a b : String} (ha : IsNumeric a) (hb : IsNumeric b) {n : Nat}
    (hna : (values a).length ≤ n) (hnb : (values b).length ≤ n) :
    Version.compare a b =
      .ofOrdering (Ord.compare ((values a).rightpad n 0) ((values b).rightpad n 0)) := by
  rw [values, List.length_map] at hna hnb
  exact compareParts_short hna hnb ha hb

/-! ## Zeros at the end -/

theorem rdropWhile_append_replicate (ns : List Nat) (k : Nat) :
    (ns ++ List.replicate k 0).rdropWhile (· == 0) = ns.rdropWhile (· == 0) := by
  induction k with
  | zero => rw [List.replicate_zero, List.append_nil]
  | succ k ih =>
    rw [List.replicate_succ', ← List.append_assoc, List.rdropWhile_concat_pos _ _ _ rfl, ih]

/-- Only zeros are dropped at the end. -/
theorem exists_eq_rdropWhile_append (ns : List Nat) :
    ∃ k, ns = ns.rdropWhile (· == 0) ++ List.replicate k 0 := by
  refine ⟨(ns.rtakeWhile (· == 0)).length, ?_⟩
  have hzeros : ns.rtakeWhile (· == 0) = List.replicate (ns.rtakeWhile (· == 0)).length 0 :=
    List.eq_replicate_of_mem fun x hx => by simpa using List.mem_rtakeWhile_imp hx
  rw [← hzeros, List.rdropWhile_append_rtakeWhile]

theorem rightpad_rdropWhile {ns : List Nat} {n : Nat} (hn : ns.length ≤ n) :
    (ns.rdropWhile (· == 0)).rightpad n 0 = ns.rightpad n 0 := by
  obtain ⟨k, hk⟩ := exists_eq_rdropWhile_append ns
  generalize ns.rdropWhile (· == 0) = ms at hk
  subst hk
  rw [List.length_append, List.length_replicate] at hn
  rw [List.rightpad, List.rightpad, List.append_assoc, List.replicate_append_replicate,
    List.length_append, List.length_replicate]
  congr 2
  omega

theorem rightpad_eq_iff {ms ns : List Nat} {n : Nat} (hm : ms.length ≤ n) (hn : ns.length ≤ n) :
    ms.rightpad n 0 = ns.rightpad n 0 ↔
      ms.rdropWhile (· == 0) = ns.rdropWhile (· == 0) := by
  constructor
  · intro h
    have hdrop := congrArg (List.rdropWhile (· == 0)) h
    rwa [List.rightpad, List.rightpad, rdropWhile_append_replicate,
      rdropWhile_append_replicate] at hdrop
  · intro h
    rw [← rightpad_rdropWhile hm, h, rightpad_rdropWhile hn]

/-! ## How numbers are written -/

/-- One change in how numbers are written that changes none of them. -/
inductive Respelled : List Char → List Char → Prop where
  /-- One or more separators in the place of others. -/
  | between (before after : List Char) {s t : List Char} (hs : s ≠ []) (ht : t ≠ [])
      (hsep : ∀ c ∈ s ++ t, isSeparator c = true) :
      Respelled (before ++ (s ++ after)) (before ++ (t ++ after))
  /-- Separators before the first number. -/
  | leading (text : List Char) {s : List Char} (hsep : ∀ c ∈ s, isSeparator c = true) :
      Respelled (s ++ text) text
  /-- Separators after the last number. -/
  | trailing (text : List Char) {s : List Char} (hsep : ∀ c ∈ s, isSeparator c = true) :
      Respelled (text ++ s) text
  /-- Zeros before a number. -/
  | zeros (before after : List Char) {d : Char} (k : Nat) (hd : isDigit d = true)
      (hbefore : ∀ c, before.getLast? = some c → isDigit c = false) :
      Respelled (before ++ (List.replicate k '0' ++ d :: after)) (before ++ d :: after)

/-- The values of the runs of digits in a text. -/
def runs (cs : List Char) : List Nat := (words (!isDigit ·) cs).map numeralValue

theorem isDigit_of_isSeparator {c : Char} (h : isSeparator c = true) : isDigit c = false := by
  simp only [isSeparator, Bool.or_eq_true, beq_iff_eq] at h
  rcases h with ((rfl | rfl) | rfl) | rfl <;> decide

theorem isDigit_of_isBlank {c : Char} (h : isBlank c = true) : isDigit c = false := by
  rw [isDigit, Bool.and_eq_false_iff]
  by_contra hdigit
  rw [not_or, Bool.not_eq_false, Bool.not_eq_false, decide_eq_true_eq, decide_eq_true_eq] at hdigit
  have hlow : 0x30 ≤ c.toNat := hdigit.1
  have hhigh : c.toNat ≤ 0x39 := hdigit.2
  simp only [isBlank, Bool.or_eq_true, Bool.and_eq_true, decide_eq_true_eq, beq_iff_eq] at h
  omega

theorem not_isDigit_of_isSeparator {s : List Char} (hsep : ∀ c ∈ s, isSeparator c = true) :
    ∀ c ∈ s, (!isDigit c) = true := by
  intro c hc
  rw [isDigit_of_isSeparator (hsep c hc)]
  rfl

theorem runs_between {before after s : List Char} (hs : s ≠ [])
    (hsep : ∀ c ∈ s, isSeparator c = true) :
    runs (before ++ (s ++ after)) = runs before ++ runs after := by
  rw [runs, words_append_seps (not_isDigit_of_isSeparator hsep) hs, List.map_append, runs, runs]

theorem numeralValue_zeros (k : Nat) (cs : List Char) :
    numeralValue (List.replicate k '0' ++ cs) = numeralValue cs := by
  induction k with
  | zero => rfl
  | succ k ih => exact ih

/-- A run of digits ends before the next character that is none. -/
theorem runs_append {ds rest : List Char} (hne : ds ≠ []) (hd : ∀ d ∈ ds, isDigit d = true)
    (hrest : ∀ c, rest.head? = some c → isDigit c = false) :
    runs (ds ++ rest) = numeralValue ds :: runs rest := by
  have hin : ∀ d ∈ ds, (!isDigit d) = false := fun d h => by rw [hd d h]; rfl
  have hout : ∀ c, rest.head? = some c → (!isDigit c) = true := fun c h => by rw [hrest c h]; rfl
  rw [runs, words_append hin hne hout, List.map_cons, runs]

theorem runs_zeros {d : Char} (hd : isDigit d = true) (k : Nat) (after : List Char) :
    runs (List.replicate k '0' ++ d :: after) = runs (d :: after) := by
  have hcut := List.takeWhile_append_dropWhile (p := isDigit) (l := after)
  have hdigits : ∀ c ∈ d :: after.takeWhile isDigit, isDigit c = true := by
    rw [List.forall_mem_cons]
    exact ⟨hd, fun c hc => List.all_eq_true.1 List.all_takeWhile c hc⟩
  have hrest : ∀ c, (after.dropWhile isDigit).head? = some c → isDigit c = false := by
    intro c hc
    have hhead := List.head?_dropWhile_not isDigit after
    rw [hc] at hhead
    exact hhead
  have hzeros : ∀ c ∈ List.replicate k '0' ++ d :: after.takeWhile isDigit, isDigit c = true := by
    rw [List.forall_mem_append]
    refine ⟨fun c hc => ?_, hdigits⟩
    rw [List.eq_of_mem_replicate hc]
    rfl
  have hplain := runs_append (List.cons_ne_nil _ _) hdigits hrest
  have hpadded := runs_append (by simp) hzeros hrest
  rw [List.cons_append, hcut] at hplain
  rw [List.append_assoc, List.cons_append, hcut, numeralValue_zeros] at hpadded
  rw [hplain, hpadded]

theorem runs_append_of_last {cs : List Char}
    (h : ∀ c, cs.getLast? = some c → isDigit c = false) (ds : List Char) :
    runs (cs ++ ds) = runs cs ++ runs ds := by
  rcases List.eq_nil_or_concat cs with rfl | ⟨cs, c, rfl⟩
  · rfl
  · rw [List.concat_eq_append] at h ⊢
    have hc : (!isDigit c) = true := by
      rw [h c List.getLast?_concat]
      rfl
    have hseps : ∀ e ∈ [c], (!isDigit e) = true := by simpa using hc
    rw [runs, runs, List.append_assoc, words_append_seps hseps (List.cons_ne_nil _ _),
      words_append_seps_end hseps, List.map_append, runs]

theorem runs_respelled {cs ds : List Char} (h : Respelled cs ds) : runs cs = runs ds := by
  cases h with
  | between before after hs ht hsep =>
    rw [List.forall_mem_append] at hsep
    rw [runs_between hs hsep.1, runs_between ht hsep.2]
  | leading text hsep =>
    rw [runs, words_seps_append (not_isDigit_of_isSeparator hsep), runs]
  | trailing text hsep =>
    rw [runs, words_append_seps_end (not_isDigit_of_isSeparator hsep), runs]
  | zeros before after k hd hbefore =>
    rw [runs_append_of_last hbefore, runs_append_of_last hbefore, runs_zeros hd]

theorem runs_eqvGen {cs ds : List Char} (h : Relation.EqvGen Respelled cs ds) :
    runs cs = runs ds := by
  induction h with
  | rel _ _ h => exact runs_respelled h
  | refl _ => rfl
  | symm _ _ _ ih => exact ih.symm
  | trans _ _ _ _ _ ih ih' => exact ih.trans ih'

/-- All characters of a numeric version are digits, separators or blanks around it. -/
theorem values_eq_runs {v : String} (h : IsNumeric v) : values v = runs v.toList := by
  obtain ⟨l, r, hl, hr, htrim⟩ := exists_eq_append_trim v.toList
  have hl' : ∀ c ∈ l, (!isDigit c) = true := fun c hc => by rw [isDigit_of_isBlank (hl c hc)]; rfl
  have hr' : ∀ c ∈ r, (!isDigit c) = true := fun c hc => by rw [isDigit_of_isBlank (hr c hc)]; rfl
  have hsame : ∀ c ∈ trim v.toList, isSeparator c = !isDigit c := by
    intro c hc
    cases hs : isSeparator c with
    | true =>
      rw [isDigit_of_isSeparator hs]
      rfl
    | false =>
      obtain ⟨w, hw, hcw⟩ := exists_mem_words hs hc
      have hnumeral := (Bool.and_eq_true_iff.1 (h w hw).1).2
      rw [List.all_eq_true.1 hnumeral c hcw]
      rfl
  have hwords : parts v = words (!isDigit ·) v.toList := by
    rw [htrim, words_append_seps_end hr', words_seps_append hl', parts, words, words,
      fields_congr hsame]
  rw [values, hwords, runs]

/-! ## The order of numeric versions -/

theorem le_holds_iff {a b : String} (ha : IsNumeric a) (hb : IsNumeric b) {n : Nat}
    (hna : (values a).length ≤ n) (hnb : (values b).length ≤ n) :
    Comparator.le.holds a b = true ↔
      (Ord.compare ((values a).rightpad n 0) ((values b).rightpad n 0)).isLE = true := by
  rw [Comparator.holds, compare_rightpad ha hb hna hnb]
  cases Ord.compare ((values a).rightpad n 0) ((values b).rightpad n 0) <;> decide

theorem le_holds_trans {a b c : String} (ha : IsNumeric a) (hb : IsNumeric b) (hc : IsNumeric c)
    (hab : Comparator.le.holds a b = true) (hbc : Comparator.le.holds b c = true) :
    Comparator.le.holds a c = true := by
  have hna : (values a).length ≤ (values a).length + (values b).length + (values c).length := by
    omega
  have hnb : (values b).length ≤ (values a).length + (values b).length + (values c).length := by
    omega
  have hnc : (values c).length ≤ (values a).length + (values b).length + (values c).length := by
    omega
  rw [le_holds_iff ha hb hna hnb] at hab
  rw [le_holds_iff hb hc hnb hnc] at hbc
  rw [le_holds_iff ha hc hna hnc]
  exact Std.TransCmp.isLE_trans hab hbc

theorem le_holds_total {a b : String} (ha : IsNumeric a) (hb : IsNumeric b) :
    Comparator.le.holds a b = true ∨ Comparator.le.holds b a = true := by
  rw [le_holds_iff ha hb (le_max_left _ _) (le_max_right _ _),
    le_holds_iff hb ha (le_max_right _ _) (le_max_left _ _)]
  generalize (values a).rightpad _ 0 = ms
  generalize (values b).rightpad _ 0 = ns
  have hswap : Ord.compare ns ms = (Ord.compare ms ns).swap := Std.OrientedCmp.eq_swap
  rw [hswap]
  cases Ord.compare ms ns <;> decide

theorem compare_eq_equal_iff_values {a b : String} (ha : IsNumeric a) (hb : IsNumeric b) :
    Version.compare a b = equal ↔
      (values a).rdropWhile (· == 0) = (values b).rdropWhile (· == 0) := by
  rw [compare_rightpad ha hb (le_max_left _ _) (le_max_right _ _), ofOrdering_eq_equal,
    Std.LawfulEqCmp.compare_eq_iff_eq, rightpad_eq_iff (le_max_left _ _) (le_max_right _ _)]

theorem values_respelled {v v' : String} (hv : IsNumeric v) (hv' : IsNumeric v')
    (h : Relation.EqvGen Respelled v.toList v'.toList) : values v = values v' := by
  rw [values_eq_runs hv, values_eq_runs hv', runs_eqvGen h]

/-- Versions of numbers below `2 ^ 53` are compared as the sequences of these, which are the runs of
digits in the texts, the shorter filled up with zeros. That is a total preorder, two versions are
equal if and only if their sequences are so up to zeros at the end, and how the numbers are written
does not matter. -/
theorem compare_numeric {a b : String} (ha : IsNumeric a) (hb : IsNumeric b) :
    (values a = runs a.toList ∧ values b = runs b.toList) ∧
    Version.compare a b = .ofOrdering (comparePadded (values a) (values b)) ∧
    (Version.compare a b = equal ↔
      (values a).rdropWhile (· == 0) = (values b).rdropWhile (· == 0)) ∧
    Comparator.le.holds a a = true ∧
    (Comparator.le.holds a b = true ∨ Comparator.le.holds b a = true) ∧
    (∀ c, IsNumeric c → Comparator.le.holds a b = true → Comparator.le.holds b c = true →
      Comparator.le.holds a c = true) ∧
    (∀ a' b', IsNumeric a' → IsNumeric b' → Relation.EqvGen Respelled a.toList a'.toList →
      Relation.EqvGen Respelled b.toList b'.toList →
        Version.compare a' b' = Version.compare a b) := by
  have hpadded {v w : String} (hv : IsNumeric v) (hw : IsNumeric w) :
      Version.compare v w = .ofOrdering (comparePadded (values v) (values w)) :=
    compare_rightpad hv hw (le_max_left _ _) (le_max_right _ _)
  refine ⟨⟨values_eq_runs ha, values_eq_runs hb⟩, hpadded ha hb, compare_eq_equal_iff_values ha hb,
    ?_, le_holds_total ha hb, fun c hc => le_holds_trans ha hb hc,
    fun a' b' ha' hb' hra hrb => ?_⟩
  · exact (le_holds_total ha ha).elim id id
  · rw [hpadded ha' hb', hpadded ha hb, values_respelled ha ha' hra, values_respelled hb hb' hrb]

/-- The version `1.9` is less than `1.10.0`, also if that has other separators and more zeros, and
this in turn is less than `2`. -/
theorem compare_numeric_sample :
    IsNumeric "1.9" ∧ IsNumeric "1.10.0" ∧ IsNumeric "2" ∧ IsNumeric "+01 - 10.0" ∧
    Relation.EqvGen Respelled "1.10.0".toList "+01 - 10.0".toList ∧
    values "1.9" = [1, 9] ∧ values "1.10.0" = [1, 10, 0] ∧ values "2" = [2] ∧
    Version.compare "1.9" "1.10.0" = less ∧ Version.compare "1.10.0" "2" = less ∧
    (values "1.9").rdropWhile (· == 0) ≠ (values "1.10.0").rdropWhile (· == 0) ∧
    Comparator.le.holds "1.9" "1.9" = true ∧
    Comparator.le.holds "1.9" "1.10.0" = true ∧ Comparator.le.holds "1.10.0" "1.9" = false ∧
    Comparator.le.holds "1.9" "2" = true ∧
    Version.compare "1.9" "+01 - 10.0" = less := by
  have ha : IsNumeric "1.9" := by decide +kernel
  have hb : IsNumeric "1.10.0" := by decide +kernel
  have hc : IsNumeric "2" := by decide +kernel
  have hb' : IsNumeric "+01 - 10.0" := by decide +kernel
  have hspelled : Relation.EqvGen Respelled "1.10.0".toList "+01 - 10.0".toList := by
    have hleading : Respelled "+1.10.0".toList "1.10.0".toList :=
      .leading "1.10.0".toList (s := ['+']) (List.all_eq_true.1 rfl)
    have hzero : Respelled "+01.10.0".toList "+1.10.0".toList :=
      .zeros ['+'] ".10.0".toList (d := '1') 1 rfl fun c hc => by cases hc; rfl
    have hbetween : Respelled "+01.10.0".toList "+01 - 10.0".toList :=
      .between "+01".toList "10.0".toList (s := ['.']) (t := [' ', '-', ' ']) (by decide)
        (by decide) (List.all_eq_true.1 rfl)
    exact .trans _ _ _ (.symm _ _ (.rel _ _ hleading))
      (.trans _ _ _ (.symm _ _ (.rel _ _ hzero)) (.rel _ _ hbetween))
  obtain ⟨⟨hruns, hruns'⟩, hpadded, hequal, hrefl, -, htrans, hsame⟩ := compare_numeric ha hb
  obtain ⟨⟨-, hruns''⟩, hpadded', -⟩ := compare_numeric hb hc
  have hvalues : values "1.9" = [1, 9] := hruns.trans (by decide +kernel)
  have hvalues' : values "1.10.0" = [1, 10, 0] := hruns'.trans (by decide +kernel)
  have hvalues'' : values "2" = [2] := hruns''.trans (by decide +kernel)
  have hless : Version.compare "1.9" "1.10.0" = less := by
    rw [hpadded, hvalues, hvalues']
    decide
  have hless' : Version.compare "1.10.0" "2" = less := by
    rw [hpadded', hvalues', hvalues'']
    decide
  have hle : Comparator.le.holds "1.9" "1.10.0" = true := by rw [Comparator.holds, hless]; rfl
  have hle' : Comparator.le.holds "1.10.0" "2" = true := by rw [Comparator.holds, hless']; rfl
  have hnot : Comparator.le.holds "1.10.0" "1.9" = false := by
    rw [Comparator.holds, ← swap_compare, hless]
    rfl
  have hunequal : Version.compare "1.9" "1.10.0" ≠ equal := by
    rw [hless]
    decide
  exact ⟨ha, hb, hc, hb', hspelled, hvalues, hvalues', hvalues'', hless, hless',
    mt hequal.2 hunequal, hrefl, hle, hnot, htrans "2" hc hle hle',
    (hsame "1.9" "+01 - 10.0" ha hb' (.refl _) hspelled).trans hless⟩

end Version

end PluginAudit
