import Mathlib.Data.Nat.Find
import PluginAudit.Proofs.NearestDoubles
import PluginAudit.Proofs.VersionOrder

/-!
# How versions are told apart

Two versions are compared at the first place where their parts are not equal (`Decides`), and are
equal if there is none (`compare_eq_equal_iff`). Exchanging them turns the outcome around, so that
the six signs fit together, but for one outcome: two numerals that both become infinite are
unordered, and then only `!=` is true (`comparators_coherent`).

Parts are equal if they are the same number or the same word, and also if they are two numbers from
`2 ^ 53` on that become the same double (`compare_eq_equal_iff_parts`). So not all different
versions are told apart: `9007199254740992` and `9007199254740993` are equal
(`compare_merged`).
-/

namespace PluginAudit

namespace Comparison

theorem swap_eq_equal {c : Comparison} : c.swap = equal ↔ c = equal := by
  cases c <;> decide

end Comparison

namespace Version

open Text Comparison

/-! ## The place that decides -/

/-- How two versions compare at a place. -/
def compareAt (a b : String) (i : Nat) : Comparison :=
  comparePart (partAt (parts a) i) (partAt (parts b) i)

/-- Two versions are not equal at a place, but at all places before it. -/
structure Decides (a b : String) (i : Nat) : Prop where
  before : ∀ j < i, compareAt a b j = equal
  here : compareAt a b i ≠ equal

theorem compareParts_of_first {as bs : List (List Char)} {i : Nat}
    (hbefore : ∀ j < i, comparePart (partAt as j) (partAt bs j) = equal)
    (hhere : comparePart (partAt as i) (partAt bs i) ≠ equal) :
    compareParts as bs = comparePart (partAt as i) (partAt bs i) := by
  induction i generalizing as bs with
  | zero =>
    rw [compareParts_eq_step, step_of_ne hhere]
  | succ i ih =>
    rw [← partAt_tail, ← partAt_tail] at hhere ⊢
    rw [compareParts_eq_step, hbefore 0 (Nat.succ_pos i)]
    refine ih (fun j hj => ?_) hhere
    rw [partAt_tail, partAt_tail]
    exact hbefore (j + 1) (by omega)

/-- The induction is on how many parts are left in either list. -/
theorem compareParts_of_forall {n : Nat} {as bs : List (List Char)} (ha : as.length ≤ n)
    (hb : bs.length ≤ n) (h : ∀ i, comparePart (partAt as i) (partAt bs i) = equal) :
    compareParts as bs = equal := by
  induction n generalizing as bs with
  | zero =>
    obtain rfl : as = [] := List.eq_nil_of_length_eq_zero (Nat.le_zero.1 ha)
    obtain rfl : bs = [] := List.eq_nil_of_length_eq_zero (Nat.le_zero.1 hb)
    rw [compareParts]
  | succ n ih =>
    rw [compareParts_eq_step, h 0]
    refine ih (length_tail_le ha) (length_tail_le hb) fun i => ?_
    rw [partAt_tail, partAt_tail]
    exact h (i + 1)

theorem compare_of_decides {a b : String} {i : Nat} (h : Decides a b i) :
    Version.compare a b = compareAt a b i :=
  compareParts_of_first h.before h.here

theorem compare_of_forall {a b : String} (h : ∀ i, compareAt a b i = equal) :
    Version.compare a b = equal :=
  compareParts_of_forall (n := (parts a).length + (parts b).length) (by omega) (by omega) h

/-- Some place decides, or two versions are equal everywhere. -/
theorem exists_decides_or (a b : String) :
    (∃ i, Decides a b i) ∨ ∀ i, compareAt a b i = equal := by
  by_cases h : ∃ i, compareAt a b i ≠ equal
  · exact .inl ⟨Nat.find h, fun j hj => not_not.1 (Nat.find_min h hj), Nat.find_spec h⟩
  · exact .inr fun i => not_not.1 fun hi => h ⟨i, hi⟩

theorem compare_eq_equal_iff {a b : String} :
    Version.compare a b = equal ↔ ∀ i, compareAt a b i = equal := by
  refine ⟨fun h => ?_, compare_of_forall⟩
  rcases exists_decides_or a b with ⟨i, hi⟩ | hall
  · exact absurd ((compare_of_decides hi).symm.trans h) hi.here
  · exact hall

theorem compare_eq_iff {a b : String} {c : Comparison} (hc : c ≠ equal) :
    Version.compare a b = c ↔ ∃ i, Decides a b i ∧ compareAt a b i = c := by
  constructor
  · intro h
    rcases exists_decides_or a b with ⟨i, hi⟩ | hall
    · exact ⟨i, hi, (compare_of_decides hi).symm.trans h⟩
    · exact absurd (h.symm.trans (compare_of_forall hall)) hc
  · rintro ⟨i, hi, h⟩
    exact (compare_of_decides hi).trans h

/-! ## Exchanging two versions -/

theorem swap_compareNumerals (p q : List Char) :
    (compareNumerals p q).swap = compareNumerals q p := by
  unfold compareNumerals
  cases Binary64.roundNat (numeralValue p) <;> cases Binary64.roundNat (numeralValue q)
  case some.some m n =>
    rw [swap_ofOrdering, Nat.compare_swap]
  all_goals rfl

theorem swap_comparePart (p q : List Char) : (comparePart p q).swap = comparePart q p := by
  cases hp : isNumeral p with
  | false =>
    rw [comparePart_word_left hp, comparePart_word_right q hp, swap_compareWords]
  | true =>
    cases hq : isNumeral q with
    | false => rw [comparePart_word_right p hq, comparePart_word_left hq, swap_compareWords]
    | true => rw [comparePart_numerals hp hq, comparePart_numerals hq hp, swap_compareNumerals]

theorem swap_compareAt (a b : String) (i : Nat) : (compareAt a b i).swap = compareAt b a i :=
  swap_comparePart _ _

/-- The same place decides. -/
theorem Decides.symm {a b : String} {i : Nat} (h : Decides a b i) : Decides b a i where
  before j hj := by rw [← swap_compareAt, swap_eq_equal, h.before j hj]
  here := by
    rw [← swap_compareAt, ne_eq, swap_eq_equal]
    exact h.here

theorem swap_compare (a b : String) : (Version.compare a b).swap = Version.compare b a := by
  rcases exists_decides_or a b with ⟨i, hi⟩ | hall
  · rw [compare_of_decides hi, compare_of_decides hi.symm, swap_compareAt]
  · have hback : ∀ i, compareAt b a i = equal := by
      intro i
      rw [← swap_compareAt, hall i]
      rfl
    rw [compare_of_forall hall, compare_of_forall hback]
    rfl

/-! ## Infinite parts -/

/-- A part is a numeral that becomes infinite. -/
def IsInfinite (p : List Char) : Prop :=
  isNumeral p = true ∧ Binary64.ofRatio false (numeralValue p) 1 = .infinite false

theorem isInfinite_iff_roundNat {p : List Char} :
    IsInfinite p ↔ isNumeral p = true ∧ Binary64.roundNat (numeralValue p) = none := by
  rw [IsInfinite, Binary64.ofRatio_eq_infinite_iff]

theorem isInfinite_iff {p : List Char} :
    IsInfinite p ↔ isNumeral p = true ∧ 2 ^ 1024 - 2 ^ 970 ≤ numeralValue p := by
  rw [isInfinite_iff_roundNat, Binary64.roundNat_eq_none_iff]

theorem ofOrdering_ne_unordered (o : Ordering) : ofOrdering o ≠ unordered := by
  cases o <;> decide

theorem compareNumerals_eq_unordered_iff {p q : List Char} :
    compareNumerals p q = unordered ↔ Binary64.roundNat (numeralValue p) = none ∧
      Binary64.roundNat (numeralValue q) = none := by
  unfold compareNumerals
  cases Binary64.roundNat (numeralValue p) <;> cases Binary64.roundNat (numeralValue q)
  case some.some m n => simp [ofOrdering_ne_unordered]
  all_goals simp

theorem comparePart_eq_unordered_iff {p q : List Char} :
    comparePart p q = unordered ↔ IsInfinite p ∧ IsInfinite q := by
  rw [isInfinite_iff_roundNat, isInfinite_iff_roundNat]
  cases hp : isNumeral p with
  | false =>
    rw [comparePart_word_left hp]
    simp [compareWords, ofOrdering_ne_unordered]
  | true =>
    cases hq : isNumeral q with
    | false =>
      rw [comparePart_word_right p hq]
      simp [compareWords, ofOrdering_ne_unordered]
    | true =>
      rw [comparePart_numerals hp hq, compareNumerals_eq_unordered_iff]
      simp

/-! ## The six signs -/

theorem existsUnique_sign {c : Comparison} (h : c ≠ unordered) :
    ∃! sign, sign ∈ [Comparator.lt, .eq, .gt] ∧ sign.admits c = true := by
  cases c with
  | less => exact ⟨.lt, by decide, fun sign => by cases sign <;> decide⟩
  | equal => exact ⟨.eq, by decide, fun sign => by cases sign <;> decide⟩
  | greater => exact ⟨.gt, by decide, fun sign => by cases sign <;> decide⟩
  | unordered => exact absurd rfl h

theorem admits_negation {c : Comparison} (h : c ≠ unordered) :
    Comparator.ne.admits c = !Comparator.eq.admits c ∧
      Comparator.ge.admits c = !Comparator.lt.admits c ∧
      Comparator.le.admits c = !Comparator.gt.admits c := by
  cases c with
  | unordered => exact absurd rfl h
  | _ => decide

theorem admits_unordered {sign : Comparator} : sign.admits unordered = true ↔ sign = .ne := by
  cases sign <;> decide

/-- Two versions are unordered if and only if numerals that both become infinite decide, which are
those from the middle between the largest double and the next power of two on. Then they are so both
ways and only `!=` is true. Otherwise exchanging them turns the outcome around, one of `<`, `==` and
`>` is true, and the other three signs are the negations of these. -/
theorem comparators_coherent (a b : String) :
    (∀ p, IsInfinite p ↔ isNumeral p = true ∧ 2 ^ 1024 - 2 ^ 970 ≤ numeralValue p) ∧
    (Version.compare a b = unordered ↔ ∃ i, Decides a b i ∧
      IsInfinite (partAt (parts a) i) ∧ IsInfinite (partAt (parts b) i)) ∧
    (Version.compare a b = unordered → Version.compare b a = unordered ∧
      ∀ sign : Comparator, sign.holds a b = true ↔ sign = .ne) ∧
    (Version.compare a b ≠ unordered →
      Version.compare b a = (Version.compare a b).swap ∧
      (∃! sign, sign ∈ [Comparator.lt, .eq, .gt] ∧ sign.holds a b = true) ∧
      Comparator.ne.holds a b = !Comparator.eq.holds a b ∧
      Comparator.ge.holds a b = !Comparator.lt.holds a b ∧
      Comparator.le.holds a b = !Comparator.gt.holds a b) := by
  refine ⟨fun p => isInfinite_iff, ?_, fun h => ⟨?_, fun sign => ?_⟩, fun h => ⟨?_, ?_, ?_⟩⟩
  · rw [compare_eq_iff (by decide)]
    simp only [compareAt, comparePart_eq_unordered_iff]
  · rw [← swap_compare, h]
    rfl
  · rw [Comparator.holds, h, admits_unordered]
  · exact (swap_compare a b).symm
  · exact existsUnique_sign h
  · exact admits_negation h

/-! ## Equal versions -/

/-- Two parts are the same number, or are the same word in lower case. -/
def Agree (p q : List Char) : Prop :=
  isNumeral p = true ∧ isNumeral q = true ∧ numeralValue p = numeralValue q ∨
    isNumeral p = false ∧ isNumeral q = false ∧ lower p = lower q

instance (p q : List Char) : Decidable (Agree p q) := inferInstanceAs (Decidable (_ ∨ _))

/-- Two parts are numbers too long for a double, and both become the same one. -/
structure Merge (p q : List Char) : Prop where
  left : isNumeral p = true
  right : isNumeral q = true
  long_left : 2 ^ 53 ≤ numeralValue p
  long_right : 2 ^ 53 ≤ numeralValue q
  same : Binary64.roundNat (numeralValue p) = Binary64.roundNat (numeralValue q)

/-- Numbers that become the same double are the same, or both are too long for one. -/
theorem eq_or_long_of_roundNat_eq {m n : Nat} (hm : Binary64.roundNat m ≠ none)
    (h : Binary64.roundNat m = Binary64.roundNat n) : m = n ∨ 2 ^ 53 ≤ m ∧ 2 ^ 53 ≤ n := by
  obtain ⟨r, hr⟩ := Option.ne_none_iff_exists'.1 hm
  have hr' : Binary64.roundNat n = some r := h.symm.trans hr
  by_cases hlm : 2 ^ 53 ≤ m <;> by_cases hln : 2 ^ 53 ≤ n
  · exact .inr ⟨hlm, hln⟩
  · rw [Binary64.roundNat_of_lt (Nat.not_le.1 hln), Option.some.injEq] at hr'
    exact absurd (hr' ▸ Binary64.le_of_roundNat hlm hr) hln
  · rw [Binary64.roundNat_of_lt (Nat.not_le.1 hlm), Option.some.injEq] at hr
    exact absurd (hr ▸ Binary64.le_of_roundNat hln hr') hlm
  · rw [Binary64.roundNat_of_lt (Nat.not_le.1 hlm)] at hr
    rw [Binary64.roundNat_of_lt (Nat.not_le.1 hln)] at hr'
    exact .inl (Option.some.inj (hr.trans hr'.symm))

theorem compareNumerals_eq_equal_iff {p q : List Char} :
    compareNumerals p q = equal ↔ Binary64.roundNat (numeralValue p) ≠ none ∧
      Binary64.roundNat (numeralValue p) = Binary64.roundNat (numeralValue q) := by
  unfold compareNumerals
  cases Binary64.roundNat (numeralValue p) <;> cases Binary64.roundNat (numeralValue q)
  case some.some m n =>
    simp [ofOrdering_eq_equal]
  all_goals simp

theorem compareWords_eq_equal_iff {p q : List Char} :
    compareWords p q = equal ↔ lower p = lower q := by
  rw [compareWords, ofOrdering_eq_equal, Std.LawfulEqCmp.compare_eq_iff_eq]

theorem compareNumerals_eq_equal_iff_agree {p q : List Char} (hp : isNumeral p = true)
    (hq : isNumeral q = true) :
    compareNumerals p q = equal ↔ (Agree p q ∨ Merge p q) ∧ ¬IsInfinite p := by
  rw [compareNumerals_eq_equal_iff, isInfinite_iff_roundNat, and_iff_right hp]
  constructor
  · rintro ⟨hfinite, hsame⟩
    refine ⟨?_, hfinite⟩
    rcases eq_or_long_of_roundNat_eq hfinite hsame with heq | ⟨hlp, hlq⟩
    · exact .inl (.inl ⟨hp, hq, heq⟩)
    · exact .inr ⟨hp, hq, hlp, hlq, hsame⟩
  · rintro ⟨(⟨-, -, heq⟩ | ⟨hword, -⟩) | hmerge, hfinite⟩
    · exact ⟨hfinite, congrArg Binary64.roundNat heq⟩
    · rw [hp] at hword
      cases hword
    · exact ⟨hfinite, hmerge.same⟩

theorem comparePart_eq_equal_iff {p q : List Char} :
    comparePart p q = equal ↔ (Agree p q ∨ Merge p q) ∧ ¬IsInfinite p := by
  by_cases hboth : isNumeral p = true ∧ isNumeral q = true
  · rw [comparePart_numerals hboth.1 hboth.2]
    exact compareNumerals_eq_equal_iff_agree hboth.1 hboth.2
  have hwords : comparePart p q = compareWords p q := by
    cases hp : isNumeral p with
    | false => exact comparePart_word_left hp q
    | true =>
      have hq : isNumeral q = false := Bool.eq_false_iff.2 fun hq => hboth ⟨hp, hq⟩
      exact comparePart_word_right p hq
  rw [hwords]
  constructor
  · intro h
    have hsame : isNumeral p = isNumeral q := not_not.1 fun hne => compareWords_ne_equal hne h
    have hp : isNumeral p = false := Bool.eq_false_iff.2 fun hp => hboth ⟨hp, hsame ▸ hp⟩
    refine ⟨.inl (.inr ⟨hp, hsame ▸ hp, compareWords_eq_equal_iff.1 h⟩), fun hinf => ?_⟩
    rw [hinf.1] at hp
    cases hp
  · rintro ⟨(⟨hp, hq, -⟩ | ⟨-, -, hlower⟩) | hmerge, -⟩
    · exact absurd ⟨hp, hq⟩ hboth
    · exact compareWords_eq_equal_iff.2 hlower
    · exact absurd ⟨hmerge.left, hmerge.right⟩ hboth

/-- Two versions are equal if and only if at every place both have the same number, both have the
same word, or both have numbers from `2 ^ 53` on that become the same double. Infinite numbers are
not equal to anything. -/
theorem compare_eq_equal_iff_parts (a b : String) :
    Version.compare a b = equal ↔ ∀ i,
      (Agree (partAt (parts a) i) (partAt (parts b) i) ∨
        Merge (partAt (parts a) i) (partAt (parts b) i)) ∧
      ¬IsInfinite (partAt (parts a) i) := by
  rw [compare_eq_equal_iff]
  simp only [compareAt, comparePart_eq_equal_iff]

/-- Two versions that are equal although their only parts are different numbers. -/
theorem compare_merged :
    Version.compare "9007199254740992" "9007199254740993" = equal ∧
      ¬ ∀ i, Agree (partAt (parts "9007199254740992") i)
        (partAt (parts "9007199254740993") i) := by
  have hleft : parts "9007199254740992" = ["9007199254740992".toList] := by decide +kernel
  have hright : parts "9007199254740993" = ["9007199254740993".toList] := by decide +kernel
  refine ⟨?_, fun h => ?_⟩
  · rw [compare_of_single hleft hright]
    decide +kernel
  · have hfirst := h 0
    rw [hleft, hright] at hfirst
    revert hfirst
    decide +kernel

end Version

end PluginAudit
