import PluginAudit.Proofs.LowerCase
import PluginAudit.Version
import Mathlib.Data.List.Basic
import Mathlib.Tactic.Common

/-!
# The order of versions

Parts of versions are compared in two ways, numerals by their values and anything else as words.
Each way is an order of its own, and as long as three versions are told apart in one of them, they
are compared consistently (`compare_consistent`). Together they are none: `9` is less than `10` as a
number, and `5a` as a word stands between `10` and `9` (`compare_inconsistent`).

So what has to be looked at is a word and two numerals. They do no harm if the word stands in the
same way to both, or if the numerals stand to each other as words as they do as numbers (`Splits`).
-/

namespace PluginAudit

namespace Comparison

theorem ofOrdering_eq_equal {o : Ordering} : ofOrdering o = equal ↔ o = .eq := by
  cases o <;> decide

theorem ofOrdering_eq_less {o : Ordering} : ofOrdering o = less ↔ o = .lt := by
  cases o <;> decide

theorem swap_ofOrdering (o : Ordering) : (ofOrdering o).swap = ofOrdering o.swap := by
  cases o <;> rfl

end Comparison

/-! ## Words -/

namespace Text

theorem compareUnits_eq (as bs : List Char) :
    compareUnits as bs = Ord.compare (as.map unitKey) (bs.map unitKey) := by
  induction as generalizing bs with
  | nil => cases bs <;> rfl
  | cons a as ih =>
    cases bs with
    | nil => rfl
    | cons b bs =>
      rw [List.map_cons, List.map_cons, List.compare_cons_cons, ← ih, compareUnits]

instance : Std.TransCmp compareUnits where
  eq_swap := by
    intro as bs
    rw [compareUnits_eq, compareUnits_eq]
    exact Std.OrientedCmp.eq_swap
  isLE_trans := by
    intro as bs cs h h'
    rw [compareUnits_eq] at h h' ⊢
    exact Std.TransCmp.isLE_trans h h'

theorem toNat_lt (c : Char) : c.toNat < 0x110000 := by
  have hvalid := c.valid
  simp only [UInt32.isValidChar, Nat.isValidChar] at hvalid
  show c.val.toNat < 0x110000
  omega

/-- No two characters have the same place in the order of units. -/
theorem unitKey_injective : Function.Injective unitKey := by
  intro c d h
  have hc := toNat_lt c
  have hd := toNat_lt d
  have hnat : c.toNat = d.toNat := by
    simp only [unitKey, Bool.and_eq_true, decide_eq_true_eq] at h
    split at h <;> split at h <;> omega
  exact Char.toNat_inj.1 hnat

instance : Std.LawfulEqCmp compareUnits where
  eq_of_compare := by
    intro as bs h
    rw [compareUnits_eq] at h
    exact List.map_injective_iff.2 unitKey_injective (Std.LawfulEqCmp.eq_of_compare h)

/-- Lower case makes no digit of another character. -/
theorem isDigit_of_lowerChar {c : Char} (h : isDigit (lowerChar c) = true) :
    isDigit c = true := by
  by_cases hascii : c.toNat < 0x80
  · have hall : (List.range 0x80).all (fun n =>
        isDigit (lowerChar (Char.ofNat n)) == isDigit (Char.ofNat n)) = true := by decide +kernel
    have hc := List.all_eq_true.1 hall c.toNat (List.mem_range.2 hascii)
    rw [Char.ofNat_toNat, beq_iff_eq] at hc
    exact hc ▸ h
  · have hle : 0x80 ≤ c.toNat := by omega
    have hd : (lowerChar c).toNat ≤ 0x39 := of_decide_eq_true (Bool.and_eq_true_iff.1 h).2
    rw [lowerChar_of_le hle] at hd
    rcases CaseRun.map_lowerRuns c.toNat with hmap | ⟨r, hr, hcovers, hmap, -⟩
    · rw [hmap, Char.ofNat_toNat] at hd
      omega
    · have himage := CaseRun.image_bounds hcovers
      have htame := CaseRun.isTame_iff.1 (List.all_eq_true.1 CaseRun.isTame_lowerRuns r hr)
      have hvalid : (r.image c.toNat).isValidChar := by
        simp only [Nat.isValidChar]
        omega
      have hnat : (Char.ofNat (r.image c.toNat)).toNat = r.image c.toNat := by
        rw [Char.ofNat, dif_pos hvalid]
        rfl
      rw [hmap, hnat] at hd
      omega

theorem all_isDigit_of_lowerAfter {cs : List Char} {afterCased : Bool}
    (h : ∀ d ∈ lowerAfter afterCased cs, isDigit d = true) : ∀ c ∈ cs, isDigit c = true := by
  induction cs generalizing afterCased with
  | nil => exact fun c hc => absurd hc List.not_mem_nil
  | cons c cs ih =>
    rw [lowerAfter] at h
    by_cases hascii : c.toNat < 0x80
    · rw [if_pos hascii, List.forall_mem_cons] at h
      exact List.forall_mem_cons.2 ⟨isDigit_of_lowerChar h.1, ih h.2⟩
    · rw [if_neg hascii, List.forall_mem_append] at h
      refine List.forall_mem_cons.2 ⟨?_, ih h.2⟩
      by_cases hsigma : c = 'Σ'
      · subst hsigma
        have hnone : ∀ final : Bool, isDigit (if final then 'ς' else 'σ') = false := by decide
        have hd := h.1 _ List.mem_cons_self
        rw [hnone] at hd
        cases hd
      · by_cases hdot : c = 'İ'
        · subst hdot
          have hd : isDigit 'i' = true := h.1 _ List.mem_cons_self
          exact absurd hd (by decide)
        · have hd : isDigit (lowerChar c) = true := h.1 _ (by simp [hsigma, hdot])
          exact isDigit_of_lowerChar hd

theorem settled_of_isDigit {c : Char} (h : isDigit c = true) : Settled c := by
  have hle : c.toNat ≤ 0x39 := of_decide_eq_true (Bool.and_eq_true_iff.1 h).2
  refine ⟨?_, ?_, ?_⟩
  · have hsmall : ¬('A' ≤ c && c ≤ 'Z') = true := by
      intro hcap
      have hge : 0x41 ≤ c.toNat := of_decide_eq_true (Bool.and_eq_true_iff.1 hcap).1
      omega
    rw [lowerChar, if_pos (by omega), if_neg hsmall]
  · rintro rfl
    exact absurd hle (by decide)
  · rintro rfl
    exact absurd hle (by decide)

/-- Only a numeral is a numeral in lower case. -/
theorem isNumeral_of_lower_eq {a b : List Char} (ha : isNumeral a = true)
    (h : lower a = lower b) : isNumeral b = true := by
  obtain ⟨hne, hdigits⟩ := Bool.and_eq_true_iff.1 ha
  rw [List.all_eq_true] at hdigits
  have hlower : lower a = a := lowerAfter_eq_self (fun c hc => settled_of_isDigit (hdigits c hc)) _
  rw [hlower] at h
  have hb : ∀ c ∈ b, isDigit c = true := by
    have hb : ∀ d ∈ lowerAfter false b, isDigit d = true := fun d hd => hdigits d (h ▸ hd)
    exact all_isDigit_of_lowerAfter hb
  refine Bool.and_eq_true_iff.2 ⟨?_, List.all_eq_true.2 hb⟩
  cases b with
  | nil =>
    rw [h] at hne
    exact hne
  | cons c b => rfl

end Text

namespace Version

open Text Comparison

/-! ## Two orders -/

/-- Compares two parts as words, even if they are numerals. -/
def compareWords (a b : List Char) : Comparison := .ofOrdering (compareUnits (lower a) (lower b))

theorem swap_compareWords (a b : List Char) : (compareWords a b).swap = compareWords b a := by
  have hswap : compareUnits (lower b) (lower a) = (compareUnits (lower a) (lower b)).swap :=
    Std.OrientedCmp.eq_swap
  rw [compareWords, compareWords, swap_ofOrdering, hswap]

/-- A numeral and another word are not equal. -/
theorem compareWords_ne_equal {a b : List Char} (h : isNumeral a ≠ isNumeral b) :
    compareWords a b ≠ equal := by
  intro heq
  have hlower : lower a = lower b := Std.LawfulEqCmp.eq_of_compare (ofOrdering_eq_equal.1 heq)
  refine h (Bool.eq_iff_iff.2 ⟨fun ha => ?_, fun hb => ?_⟩)
  · exact isNumeral_of_lower_eq ha hlower
  · exact isNumeral_of_lower_eq hb hlower.symm

/-- A way of comparing is consistent for three things. -/
structure Coherent {α : Type} (cmp : α → α → Comparison) (x y z : α) : Prop where
  left : cmp x y = equal → cmp x z = cmp y z
  right : cmp y z = equal → cmp x y = cmp x z
  less : cmp x y = less → cmp y z = less → cmp x z = less

/-- Only the three comparisons matter. -/
theorem Coherent.congr {α : Type} {cmp cmp' : α → α → Comparison} {x y z : α}
    (h : Coherent cmp x y z) (hxy : cmp' x y = cmp x y) (hyz : cmp' y z = cmp y z)
    (hxz : cmp' x z = cmp x z) : Coherent cmp' x y z := by
  constructor <;> rw [hxy, hyz, hxz]
  · exact h.left
  · exact h.right
  · exact h.less

theorem coherent_words (x y z : List Char) : Coherent compareWords x y z where
  left := by
    intro h
    exact congrArg ofOrdering (Std.TransCmp.congr_left (ofOrdering_eq_equal.1 h))
  right := by
    intro h
    exact congrArg ofOrdering (Std.TransCmp.congr_right (ofOrdering_eq_equal.1 h))
  less := by
    intro h h'
    refine ofOrdering_eq_less.2 ?_
    exact Std.TransCmp.lt_trans (ofOrdering_eq_less.1 h) (ofOrdering_eq_less.1 h')

/-- Numerals that become infinite are above all others, and not equal to each other. -/
theorem coherent_numerals (x y z : List Char) : Coherent compareNumerals x y z where
  left := by
    unfold compareNumerals
    intro h
    split at h
    case h_1 m n hm hn =>
      have hmn : m = n := Nat.compare_eq_eq.1 (ofOrdering_eq_equal.1 h)
      rw [hm, hn, hmn]
    all_goals cases h
  right := by
    unfold compareNumerals
    intro h
    split at h
    case h_1 m n hm hn =>
      have hmn : m = n := Nat.compare_eq_eq.1 (ofOrdering_eq_equal.1 h)
      rw [hm, hn, hmn]
    all_goals cases h
  less := by
    unfold compareNumerals
    intro h h'
    split at h
    case h_1 l m hl hm =>
      rw [hm] at h'
      split at h'
      case h_1 m' n hm' hn =>
        cases hm'
        have hlm : l < m := Nat.compare_eq_lt.1 (ofOrdering_eq_less.1 h)
        have hmn : m < n := Nat.compare_eq_lt.1 (ofOrdering_eq_less.1 h')
        rw [hl, hn]
        exact ofOrdering_eq_less.2 (Nat.compare_eq_lt.2 (Nat.lt_trans hlm hmn))
      case h_2 n hn =>
        rw [hl, hn]
      all_goals cases h'
    case h_2 l hl hm =>
      rw [hm] at h'
      split at h'
      case h_1 m' _ hm' _ => cases hm'
      case h_2 m' hm' _ => cases hm'
      all_goals cases h'
    all_goals cases h

/-! ## Parts -/

/-- A word stands differently to two numerals, which do not stand to each other as words in the way
they do as numbers. -/
def Splits (word l r : List Char) : Prop :=
  isNumeral word = false ∧ isNumeral l = true ∧ isNumeral r = true ∧
    compareWords l word ≠ compareWords r word ∧ compareNumerals l r ≠ compareWords l r

instance (word l r : List Char) : Decidable (Splits word l r) :=
  inferInstanceAs (Decidable (_ ∧ _))

/-- One of three parts is a word that splits the other two. -/
def Torn (x y z : List Char) : Prop := Splits x y z ∨ Splits y x z ∨ Splits z x y

instance (x y z : List Char) : Decidable (Torn x y z) := inferInstanceAs (Decidable (_ ∨ _))

theorem comparePart_numerals {a b : List Char} (ha : isNumeral a = true)
    (hb : isNumeral b = true) : comparePart a b = compareNumerals a b := by
  rw [comparePart, if_pos (Bool.and_eq_true_iff.2 ⟨ha, hb⟩)]

theorem comparePart_word_left {a : List Char} (ha : isNumeral a = false) (b : List Char) :
    comparePart a b = compareWords a b := by
  rw [comparePart, ha, Bool.false_and, if_neg Bool.false_ne_true, compareWords]

theorem comparePart_word_right (a : List Char) {b : List Char} (hb : isNumeral b = false) :
    comparePart a b = compareWords a b := by
  rw [comparePart, hb, Bool.and_false, if_neg Bool.false_ne_true, compareWords]

/-- What does not split two numerals stands to both alike, or they are words to each other. -/
theorem of_not_splits {word l r : List Char} (h : ¬Splits word l r)
    (hword : isNumeral word = false) (hl : isNumeral l = true) (hr : isNumeral r = true) :
    compareWords l word = compareWords r word ∨ comparePart l r = compareWords l r := by
  rw [comparePart_numerals hl hr]
  by_contra hnot
  rw [not_or] at hnot
  exact h ⟨hword, hl, hr, hnot.1, hnot.2⟩

/-- Without a word that splits two numerals, three parts are compared consistently. -/
theorem coherent_of_not_torn {x y z : List Char} (h : ¬Torn x y z) :
    Coherent comparePart x y z := by
  obtain ⟨hx, hyz⟩ := not_or.1 h
  obtain ⟨hy, hz⟩ := not_or.1 hyz
  cases hnx : isNumeral x <;> cases hny : isNumeral y <;> cases hnz : isNumeral z
  case true.true.true =>
    exact (coherent_numerals x y z).congr (comparePart_numerals hnx hny)
      (comparePart_numerals hny hnz) (comparePart_numerals hnx hnz)
  case false.true.true =>
    have hxy := comparePart_word_left hnx y
    have hxz := comparePart_word_left hnx z
    rcases of_not_splits hx hnx hny hnz with hsame | hwords
    · have hsame' : compareWords x y = compareWords x z := by
        rw [← swap_compareWords y, ← swap_compareWords z, hsame]
      have hne : compareWords x y ≠ equal := compareWords_ne_equal (by rw [hnx, hny]; decide)
      refine ⟨fun heq => absurd (hxy ▸ heq) hne, fun _ => ?_, fun hless _ => ?_⟩
      · rw [hxy, hxz, hsame']
      · rw [hxz, ← hsame', ← hxy, hless]
    · exact (coherent_words x y z).congr hxy hwords hxz
  case true.false.true =>
    have hxy := comparePart_word_right x hny
    have hyz := comparePart_word_left hny z
    rcases of_not_splits hy hny hnx hnz with hsame | hwords
    · have hne : compareWords x y ≠ equal := compareWords_ne_equal (by rw [hnx, hny]; decide)
      have hne' : compareWords y z ≠ equal := compareWords_ne_equal (by rw [hny, hnz]; decide)
      refine ⟨fun heq => absurd (hxy ▸ heq) hne, fun heq => absurd (hyz ▸ heq) hne', ?_⟩
      intro hless hless'
      rw [hxy, hsame, ← swap_compareWords, ← hyz, hless'] at hless
      cases hless
    · exact (coherent_words x y z).congr hxy hyz hwords
  case true.true.false =>
    have hxz := comparePart_word_right x hnz
    have hyz := comparePart_word_right y hnz
    rcases of_not_splits hz hnz hnx hny with hsame | hwords
    · have hne : compareWords y z ≠ equal := compareWords_ne_equal (by rw [hny, hnz]; decide)
      refine ⟨fun _ => ?_, fun heq => absurd (hyz ▸ heq) hne, fun _ hless => ?_⟩
      · rw [hxz, hyz, hsame]
      · rw [hxz, hsame, ← hyz, hless]
    · exact (coherent_words x y z).congr hwords hyz hxz
  case true.false.false =>
    exact (coherent_words x y z).congr (comparePart_word_right x hny)
      (comparePart_word_left hny z) (comparePart_word_right x hnz)
  case false.true.false =>
    exact (coherent_words x y z).congr (comparePart_word_left hnx y)
      (comparePart_word_right y hnz) (comparePart_word_left hnx z)
  case false.false.true =>
    exact (coherent_words x y z).congr (comparePart_word_left hnx y)
      (comparePart_word_left hny z) (comparePart_word_left hnx z)
  case false.false.false =>
    exact (coherent_words x y z).congr (comparePart_word_left hnx y)
      (comparePart_word_left hny z) (comparePart_word_left hnx z)

/-! ## Versions -/

/-- The part of a version at a place, `0` after the last one. -/
def partAt (ps : List (List Char)) (i : Nat) : List Char := ps.getD i ['0']

theorem partAt_tail (ps : List (List Char)) (i : Nat) : partAt ps.tail i = partAt ps (i + 1) := by
  cases ps <;> rfl

theorem compareParts_eq_step (as bs : List (List Char)) :
    compareParts as bs =
      compareParts.step (comparePart (partAt as 0) (partAt bs 0))
        (compareParts as.tail bs.tail) := by
  cases as with
  | nil =>
    cases bs with
    | nil =>
      have hzero : comparePart ['0'] ['0'] = equal := by decide +kernel
      rw [List.tail_nil, compareParts, partAt, List.getD_nil, hzero]
      rfl
    | cons b bs => rw [compareParts]; rfl
  | cons a as => cases bs <;> (rw [compareParts]; rfl)

theorem compare_of_single {v w : String} {p q : List Char} (hv : parts v = [p])
    (hw : parts w = [q]) : Version.compare v w = comparePart p q := by
  have hnil : compareParts [] [] = equal := by rw [compareParts]
  rw [Version.compare, hv, hw, compareParts_eq_step, List.tail_cons, List.tail_cons, hnil]
  show compareParts.step (comparePart p q) equal = comparePart p q
  cases comparePart p q <;> rfl

theorem step_of_ne {c : Comparison} (h : c ≠ equal) (rest : Comparison) :
    compareParts.step c rest = c := by
  cases c <;> first | rfl | exact absurd rfl h

theorem step_eq_equal {c rest : Comparison} :
    compareParts.step c rest = equal ↔ c = equal ∧ rest = equal := by
  cases c <;> simp [compareParts.step]

theorem step_eq_less {c rest : Comparison} :
    compareParts.step c rest = less ↔ c = less ∨ c = equal ∧ rest = less := by
  cases c <;> simp [compareParts.step]

/-- The first parts are consistent, and the rests if the first parts do not decide. -/
theorem coherent_parts_step {as bs cs : List (List Char)}
    (hhead : Coherent comparePart (partAt as 0) (partAt bs 0) (partAt cs 0))
    (htail : comparePart (partAt as 0) (partAt bs 0) = equal →
      comparePart (partAt bs 0) (partAt cs 0) = equal →
        Coherent compareParts as.tail bs.tail cs.tail) :
    Coherent compareParts as bs cs := by
  constructor <;>
    rw [compareParts_eq_step as bs, compareParts_eq_step bs cs, compareParts_eq_step as cs]
  · intro h
    obtain ⟨hab, hrest⟩ := step_eq_equal.1 h
    rw [hhead.left hab]
    by_cases hbc : comparePart (partAt bs 0) (partAt cs 0) = equal
    · rw [(htail hab hbc).left hrest]
    · rw [step_of_ne hbc, step_of_ne hbc]
  · intro h
    obtain ⟨hbc, hrest⟩ := step_eq_equal.1 h
    rw [← hhead.right hbc]
    by_cases hab : comparePart (partAt as 0) (partAt bs 0) = equal
    · rw [(htail hab hbc).right hrest]
    · rw [step_of_ne hab, step_of_ne hab]
  · intro h h'
    refine step_eq_less.2 ?_
    rcases step_eq_less.1 h with hab | ⟨hab, hrest⟩ <;>
      rcases step_eq_less.1 h' with hbc | ⟨hbc, hrest'⟩
    · exact .inl (hhead.less hab hbc)
    · exact .inl ((hhead.right hbc).symm.trans hab)
    · exact .inl ((hhead.left hab).trans hbc)
    · exact .inr ⟨(hhead.left hab).trans hbc, (htail hab hbc).less hrest hrest'⟩

theorem length_tail_le {ps : List (List Char)} {n : Nat} (h : ps.length ≤ n + 1) :
    ps.tail.length ≤ n := by
  rw [List.length_tail]
  omega

/-- The induction is on how many parts are left in any of the three lists. -/
theorem coherent_parts {n : Nat} {as bs cs : List (List Char)} (ha : as.length ≤ n)
    (hb : bs.length ≤ n) (hc : cs.length ≤ n)
    (h : ∀ i, (∀ j < i, comparePart (partAt as j) (partAt bs j) = equal ∧
        comparePart (partAt bs j) (partAt cs j) = equal) →
      ¬Torn (partAt as i) (partAt bs i) (partAt cs i)) :
    Coherent compareParts as bs cs := by
  induction n generalizing as bs cs with
  | zero =>
    obtain rfl : as = [] := List.eq_nil_of_length_eq_zero (Nat.le_zero.1 ha)
    obtain rfl : bs = [] := List.eq_nil_of_length_eq_zero (Nat.le_zero.1 hb)
    obtain rfl : cs = [] := List.eq_nil_of_length_eq_zero (Nat.le_zero.1 hc)
    have hequal : compareParts [] [] = equal := by rw [compareParts]
    refine ⟨fun _ => rfl, fun _ => rfl, fun hless => ?_⟩
    rw [hequal] at hless
    cases hless
  | succ n ih =>
    have hhead := coherent_of_not_torn (h 0 fun j hj => absurd hj (Nat.not_lt_zero j))
    refine coherent_parts_step hhead fun hab hbc => ?_
    refine ih (length_tail_le ha) (length_tail_le hb) (length_tail_le hc) fun i hi => ?_
    rw [partAt_tail, partAt_tail, partAt_tail]
    refine h (i + 1) fun j hj => ?_
    cases j with
    | zero => exact ⟨hab, hbc⟩
    | succ j =>
      have hj' := hi j (by omega)
      rwa [partAt_tail, partAt_tail, partAt_tail] at hj'

/-- As long as no word splits two numerals where three versions are told apart, they are compared
consistently. -/
theorem compare_consistent {a b c : String}
    (h : ∀ i, (∀ j < i,
        comparePart (partAt (parts a) j) (partAt (parts b) j) = equal ∧
          comparePart (partAt (parts b) j) (partAt (parts c) j) = equal) →
      ¬Torn (partAt (parts a) i) (partAt (parts b) i) (partAt (parts c) i)) :
    (Comparator.le.holds a b = true → Comparator.le.holds b c = true →
      Comparator.le.holds a c = true) ∧
    (Version.compare a b = equal → Version.compare a c = Version.compare b c) := by
  have hle : ∀ v w : String, Comparator.le.holds v w = true ↔
      Version.compare v w = less ∨ Version.compare v w = equal := by
    intro v w
    rw [Comparator.holds, Comparator.admits, Bool.or_eq_true, beq_iff_eq, beq_iff_eq]
  have hcoherent : Coherent compareParts (parts a) (parts b) (parts c) :=
    coherent_parts (n := (parts a).length + (parts b).length + (parts c).length)
      (by omega) (by omega) (by omega) h
  refine ⟨fun hab hbc => ?_, hcoherent.left⟩
  rw [hle] at hab hbc ⊢
  rcases hab with hab | hab
  · rcases hbc with hbc | hbc
    · exact .inl (hcoherent.less hab hbc)
    · exact .inl ((hcoherent.right hbc).symm.trans hab)
  · rw [show Version.compare a c = Version.compare b c from hcoherent.left hab]
    exact hbc

/-- Versions with words and numerals side by side: no place before the second tells the first two
apart, and there the words `beta` and `5a` leave the numerals alone. -/
theorem compare_consistent_mixed :
    (∀ i, (∀ j < i,
        comparePart (partAt (parts "1.9.9") j) (partAt (parts "1.10.10") j) = equal ∧
          comparePart (partAt (parts "1.10.10") j) (partAt (parts "1.beta.5a") j) = equal) →
      ¬Torn (partAt (parts "1.9.9") i) (partAt (parts "1.10.10") i)
        (partAt (parts "1.beta.5a") i)) ∧
    (Comparator.le.holds "1.9.9" "1.10.10" = true →
      Comparator.le.holds "1.10.10" "1.beta.5a" = true →
        Comparator.le.holds "1.9.9" "1.beta.5a" = true) ∧
    (Version.compare "1.9.9" "1.10.10" = equal →
      Version.compare "1.9.9" "1.beta.5a" = Version.compare "1.10.10" "1.beta.5a") := by
  have hplaces : ∀ i, (∀ j < i,
        comparePart (partAt (parts "1.9.9") j) (partAt (parts "1.10.10") j) = equal ∧
          comparePart (partAt (parts "1.10.10") j) (partAt (parts "1.beta.5a") j) = equal) →
      ¬Torn (partAt (parts "1.9.9") i) (partAt (parts "1.10.10") i)
        (partAt (parts "1.beta.5a") i) := by
    intro i hbefore
    match i with
    | 0 => decide +kernel
    | 1 => decide +kernel
    | i + 2 =>
      have hdiffer :
          comparePart (partAt (parts "1.9.9") 1) (partAt (parts "1.10.10") 1) ≠ equal := by
        decide +kernel
      exact absurd (hbefore 1 (by omega)).1 hdiffer
  exact ⟨hplaces, compare_consistent hplaces⟩

/-- The word `5a` is above `10` and below `9`, and `0a` is between `01` and `1`, which are equal. -/
theorem compare_inconsistent :
    (Comparator.le.holds "9" "10" = true ∧ Comparator.le.holds "10" "5a" = true ∧
      Comparator.le.holds "9" "5a" = false) ∧
    (Version.compare "01" "1" = equal ∧ Version.compare "01" "0a" = less ∧
      Version.compare "1" "0a" = greater) := by
  have h9 : parts "9" = [['9']] := by decide +kernel
  have h10 : parts "10" = [['1', '0']] := by decide +kernel
  have h5a : parts "5a" = [['5', 'a']] := by decide +kernel
  have h01 : parts "01" = [['0', '1']] := by decide +kernel
  have h1 : parts "1" = [['1']] := by decide +kernel
  have h0a : parts "0a" = [['0', 'a']] := by decide +kernel
  simp only [Comparator.holds, compare_of_single h9 h10, compare_of_single h10 h5a,
    compare_of_single h9 h5a, compare_of_single h01 h1, compare_of_single h01 h0a,
    compare_of_single h1 h0a]
  decide +kernel

end Version

end PluginAudit
