import PluginAudit.Number.Binary64
import Mathlib.Algebra.Order.Ring.Nat
import Mathlib.Tactic.Common

/-!
# Natural numbers as doubles

A natural number becomes the double nearest to it: the number rounded to its first 53 binary digits
(`roundNat_eq_some_iff`), a tie going to the even mantissa. Numbers below `2 ^ 53` stay what they
are (`roundNat_of_lt`), no other number becomes one of them (`le_of_roundNat`), and from
`2 ^ 1024 - 2 ^ 970` on all become infinite (`roundNat_eq_none_iff`).

Rounding can carry into a 54th digit. The mantissa is then halved and the exponent one more, which
leaves the value as it is (`stands_nearest`).
-/

namespace PluginAudit

theorem roundDiv_one (n : Nat) : roundDiv n 1 = n := by
  simp [roundDiv, Nat.mod_one]

/-- Rounding takes the quotient or the number after it, in the middle the even one of the two. -/
theorem roundDiv_cases (n d : Nat) :
    roundDiv n d = n / d ∧ (2 * (n % d) < d ∨ 2 * (n % d) = d ∧ n / d % 2 = 0) ∨
      roundDiv n d = n / d + 1 ∧ (d < 2 * (n % d) ∨ 2 * (n % d) = d ∧ n / d % 2 = 1) := by
  simp only [roundDiv]
  split
  · next h => exact .inl ⟨rfl, .inl h⟩
  · next h =>
    split
    · next h' => exact .inr ⟨rfl, .inl h'⟩
    · next h' =>
      have htie : 2 * (n % d) = d := by omega
      split
      · next heven => exact .inl ⟨rfl, .inr ⟨htie, heven⟩⟩
      · next hodd => exact .inr ⟨rfl, .inr ⟨htie, Nat.mod_two_ne_zero.1 hodd⟩⟩

namespace Binary64

/-- The number rounded to its first 53 binary digits. -/
def nearest (n : Nat) : Nat :=
  roundDiv n (2 ^ (Nat.log2 n - 52)) * 2 ^ (Nat.log2 n - 52)

/-- The exponent of a natural number is that with which its mantissa has 53 digits. -/
theorem ofRatio_one {n : Nat} (hn : n ≠ 0) {e : Int} (he : (n.log2 : Int) - 52 = e) :
    ofRatio false n 1 =
      let m := if 0 ≤ e then roundDiv n (2 ^ e.toNat) else n * 2 ^ (-e).toNat
      let r := if m = 2 ^ 53 then (2 ^ 52, e + 1) else (m, e)
      if 971 < r.2 then .infinite false else .finite false r.1 r.2 := by
  have hlog : Nat.log2 1 = 0 := by decide
  have hlow : 2 ^ n.log2 ≤ n := Nat.log2_self_le hn
  have hmax : max ((n.log2 : Int) - 53) (-1074) = n.log2 - 53 := by omega
  have hbelow : (if 0 ≤ (n.log2 : Int) - 53 then
      decide (n < 2 ^ (((n.log2 : Int) - 53).toNat + 53))
      else decide (n * 2 ^ (-((n.log2 : Int) - 53)).toNat < 2 ^ 53)) = false := by
    split
    · next h =>
      have hexp : ((n.log2 : Int) - 53).toNat + 53 = n.log2 := by omega
      rw [hexp]
      simpa using hlow
    · next h =>
      obtain ⟨k, hk⟩ : ∃ k, n.log2 + k = 53 := ⟨53 - n.log2, by omega⟩
      have hexp : (-((n.log2 : Int) - 53)).toNat = k := by omega
      rw [hexp, ← hk, Nat.pow_add]
      simpa using Nat.mul_le_mul_right (2 ^ k) hlow
  have hnext : (n.log2 : Int) - 53 + 1 = e := by omega
  simp only [ofRatio, if_neg hn, hlog, Int.ofNat_eq_natCast, Int.natCast_zero, sub_zero, hmax,
    Nat.shiftLeft_eq, one_mul, roundDiv_one, hbelow, Bool.false_eq_true, if_false, hnext]

theorem toNat?_of_nonneg (m k : Nat) : (finite false m k).toNat? = some (m * 2 ^ k) := by
  simp [toNat?, ratio, Nat.shiftLeft_eq, Nat.mod_one]

theorem toNat?_of_neg {n k : Nat} (hk : 0 < k) :
    (finite false (n * 2 ^ k) (-(k : Int))).toNat? = some n := by
  simp [toNat?, ratio, Nat.one_shiftLeft, hk.ne']

/-! ## Rounding to 53 digits -/

theorem nearest_of_log2_lt {n : Nat} (h : n.log2 < 53) : nearest n = n := by
  have hs : n.log2 - 52 = 0 := by omega
  rw [nearest, hs, Nat.pow_zero, roundDiv_one, Nat.mul_one]

/-- A number rounded to its first 53 binary digits has 53 of them, or is the next power of two. -/
theorem mantissa_bounds {n s : Nat} (hs : n.log2 = s + 52) :
    2 ^ 52 ≤ roundDiv n (2 ^ s) ∧ roundDiv n (2 ^ s) ≤ 2 ^ 53 := by
  have hpos : 0 < 2 ^ s := Nat.two_pow_pos s
  have hn : n ≠ 0 := by
    rintro rfl
    simp at hs
  have hlow : 2 ^ 52 ≤ n / 2 ^ s := by
    rw [Nat.le_div_iff_mul_le hpos, ← Nat.pow_add, Nat.add_comm, ← hs]
    exact Nat.log2_self_le hn
  have hhigh : n / 2 ^ s < 2 ^ 53 := by
    rw [Nat.div_lt_iff_lt_mul hpos, ← Nat.pow_add]
    refine Nat.lt_of_lt_of_eq Nat.lt_log2_self ?_
    rw [hs]
    congr 1
    omega
  rcases roundDiv_cases n (2 ^ s) with ⟨h, -⟩ | ⟨h, -⟩ <;> omega

theorem nearest_bounds {n s : Nat} (hs : n.log2 = s + 52) :
    2 ^ (52 + s) ≤ nearest n ∧ nearest n ≤ 2 ^ (53 + s) := by
  have hsub : n.log2 - 52 = s := by omega
  obtain ⟨hlow, hhigh⟩ := mantissa_bounds hs
  rw [nearest, hsub, Nat.pow_add, Nat.pow_add]
  exact ⟨Nat.mul_le_mul_right _ hlow, Nat.mul_le_mul_right _ hhigh⟩

/-- What a double stands for: a natural number, or one too large for any double. -/
def Stands (x : Binary64) (r : Nat) : Prop :=
  r < 2 ^ 1024 ∧ x.toNat? = some r ∨ 2 ^ 1024 ≤ r ∧ x = .infinite false

/-- With 53 digits, the exponent tells whether a double is too large. -/
theorem stands_of_normal {m t : Nat} (hlow : 2 ^ 52 ≤ m) (hhigh : m < 2 ^ 53) :
    Stands (if 971 < (t : Int) then .infinite false else .finite false m t) (m * 2 ^ t) := by
  by_cases ht : (971 : Int) < t
  · have hle : 2 ^ 1024 ≤ 2 ^ (52 + t) := pow_le_pow_right₀ one_le_two (by omega)
    rw [pow_add] at hle
    rw [if_pos ht]
    exact .inr ⟨hle.trans (Nat.mul_le_mul_right _ hlow), rfl⟩
  · have hle : 2 ^ (53 + t) ≤ 2 ^ 1024 := pow_le_pow_right₀ one_le_two (by omega)
    rw [pow_add] at hle
    rw [if_neg ht]
    refine .inl ⟨?_, toNat?_of_nonneg m t⟩
    exact (Nat.mul_lt_mul_of_pos_right hhigh (Nat.two_pow_pos t)).trans_le hle

theorem stands_of_log2_lt {n : Nat} (hn : n ≠ 0) (hlog : n.log2 < 52) :
    Stands (ofRatio false n 1) n := by
  obtain ⟨k, hk⟩ : ∃ k, n.log2 + k = 52 := ⟨52 - n.log2, by omega⟩
  have hlt : n * 2 ^ k < 2 ^ 53 := by
    have hmul := Nat.mul_lt_mul_of_pos_right (Nat.lt_log2_self (n := n)) (Nat.two_pow_pos k)
    rwa [← pow_add, Nat.add_right_comm, hk] at hmul
  have hof := ofRatio_one hn (e := -(k : Int)) (by omega)
  have hneg : ¬ 0 ≤ -(k : Int) := by omega
  have hsmall : ¬ 971 < -(k : Int) := by omega
  simp only [if_neg hneg, neg_neg, Int.toNat_natCast, if_neg hlt.ne, if_neg hsmall] at hof
  have hle : 2 ^ (n.log2 + 1) ≤ 2 ^ 1024 := pow_le_pow_right₀ one_le_two (by omega)
  rw [hof]
  exact .inl ⟨Nat.lt_log2_self.trans_le hle, toNat?_of_neg (by omega)⟩

/-- A natural number becomes the nearest one with 53 significant binary digits, or infinite. -/
theorem stands_nearest (n : Nat) : Stands (ofRatio false n 1) (nearest n) := by
  by_cases hn : n = 0
  · subst hn
    exact .inl ⟨pow_pos two_pos 1024, rfl⟩
  by_cases hlog : n.log2 < 52
  · rw [nearest_of_log2_lt (by omega)]
    exact stands_of_log2_lt hn hlog
  obtain ⟨s, hs⟩ : ∃ s, n.log2 = s + 52 := ⟨n.log2 - 52, by omega⟩
  obtain ⟨hlow, hhigh⟩ := mantissa_bounds hs
  have hof := ofRatio_one hn (e := (s : Int)) (by omega)
  simp only [if_pos (Int.natCast_nonneg s), Int.toNat_natCast] at hof
  have hnear : nearest n = roundDiv n (2 ^ s) * 2 ^ s := by
    rw [nearest, hs, Nat.add_sub_cancel]
  rw [hof, hnear]
  by_cases hcarry : roundDiv n (2 ^ s) = 2 ^ 53
  · have hshift : 2 ^ 53 * 2 ^ s = 2 ^ 52 * 2 ^ (s + 1) := by
      rw [← pow_add, ← pow_add]
      congr 1
      omega
    rw [if_pos hcarry, hcarry, hshift]
    exact stands_of_normal (m := 2 ^ 52) (t := s + 1) le_rfl (by decide)
  · rw [if_neg hcarry]
    exact stands_of_normal hlow (by omega)

theorem roundNat_eq_some_iff {n r : Nat} :
    roundNat n = some r ↔ nearest n < 2 ^ 1024 ∧ nearest n = r := by
  rw [roundNat]
  rcases stands_nearest n with ⟨hlt, hval⟩ | ⟨hle, hinf⟩
  · rw [hval, Option.some.injEq]
    exact ⟨fun h => ⟨hlt, h⟩, fun h => h.2⟩
  · rw [hinf]
    exact ⟨fun h => (by cases h), fun h => absurd h.1 (Nat.not_lt.2 hle)⟩

theorem ofRatio_eq_infinite_iff {n : Nat} :
    ofRatio false n 1 = .infinite false ↔ roundNat n = none := by
  rw [roundNat]
  rcases stands_nearest n with ⟨-, hval⟩ | ⟨-, hinf⟩
  · rw [hval]
    refine ⟨fun h => ?_, fun h => (by cases h)⟩
    rw [h] at hval
    cases hval
  · rw [hinf]
    exact ⟨fun _ => rfl, fun _ => rfl⟩

/-- Numbers of at most 53 binary digits stay what they are. -/
theorem roundNat_of_lt {n : Nat} (h : n < 2 ^ 53) : roundNat n = some n := by
  have hlog : n.log2 < 53 := by
    by_cases hn : n = 0
    · subst hn
      decide
    · exact (Nat.log2_lt hn).2 h
  have hlarge : 2 ^ 53 ≤ 2 ^ 1024 := pow_le_pow_right₀ one_le_two (by decide)
  rw [roundNat_eq_some_iff, nearest_of_log2_lt hlog]
  exact ⟨h.trans_le hlarge, rfl⟩

/-- No longer number becomes one of them. -/
theorem le_of_roundNat {n r : Nat} (hn : 2 ^ 53 ≤ n) (h : roundNat n = some r) : 2 ^ 53 ≤ r := by
  obtain ⟨-, rfl⟩ := roundNat_eq_some_iff.1 h
  have hne : n ≠ 0 := by omega
  have hlog : 53 ≤ n.log2 := (Nat.le_log2 hne).2 hn
  obtain ⟨s, hs⟩ : ∃ s, n.log2 = s + 52 := ⟨n.log2 - 52, by omega⟩
  exact (pow_le_pow_right₀ one_le_two (by omega)).trans (nearest_bounds hs).1

theorem nearest_le_of_log2_lt {n k : Nat} (h : n.log2 < k) : nearest n ≤ 2 ^ k := by
  by_cases hlog : n.log2 < 52
  · rw [nearest_of_log2_lt (by omega)]
    exact Nat.lt_log2_self.le.trans (pow_le_pow_right₀ one_le_two h)
  · obtain ⟨s, hs⟩ : ∃ s, n.log2 = s + 52 := ⟨n.log2 - 52, by omega⟩
    exact (nearest_bounds hs).2.trans (pow_le_pow_right₀ one_le_two (by omega))

/-- What is rounded up to `2 ^ 53` is at least in the middle between it and the number before it;
the tie goes up. -/
theorem roundDiv_lt_iff {n d h : Nat} (hpos : 0 < d) (hd : h + h = d) (hq : n / d < 2 ^ 53) :
    roundDiv n d < 2 ^ 53 ↔ n + h < 2 ^ 53 * d := by
  have hdiv := Nat.div_add_mod n d
  have hmod := Nat.mod_lt n hpos
  by_cases hlast : n / d = 2 ^ 53 - 1
  · rw [hlast] at hdiv
    rcases roundDiv_cases n d with ⟨hr, hless | ⟨htie, heven⟩⟩ | ⟨hr, hmore⟩ <;> omega
  · have hnext : n / d + 2 ≤ 2 ^ 53 := by omega
    have hmul := Nat.mul_le_mul_right d hnext
    rw [Nat.add_mul, Nat.mul_comm (n / d)] at hmul
    refine ⟨fun _ => by omega, fun _ => ?_⟩
    rcases roundDiv_cases n d with ⟨hr, -⟩ | ⟨hr, -⟩ <;> omega

/-- The least number that becomes infinite is the middle between the largest double and the next
power of two. -/
theorem nearest_lt_iff {n : Nat} : nearest n < 2 ^ 1024 ↔ n < 2 ^ 1024 - 2 ^ 970 := by
  have hhalf : (2 : Nat) ^ 970 + 2 ^ 970 = 2 ^ 971 := by rw [pow_succ 2 970, Nat.mul_two]
  have hlast : (2 : Nat) ^ 53 * 2 ^ 971 = 2 ^ 1024 := by rw [← pow_add]
  rw [Nat.lt_sub_iff_add_lt]
  rcases lt_trichotomy n.log2 1023 with hlog | hlog | hlog
  · have hnear : nearest n ≤ 2 ^ 1023 := nearest_le_of_log2_lt hlog
    have hn : n < 2 ^ 1023 := Nat.lt_log2_self.trans_le (pow_le_pow_right₀ one_le_two hlog)
    have hgap : (2 : Nat) ^ 970 ≤ 2 ^ 1023 := pow_le_pow_right₀ one_le_two (by decide)
    have hdouble : (2 : Nat) ^ 1024 = 2 ^ 1023 + 2 ^ 1023 := by rw [pow_succ 2 1023, Nat.mul_two]
    rw [hdouble]
    exact ⟨fun _ => Nat.add_lt_add_of_lt_of_le hn hgap,
      fun _ => Nat.lt_of_le_of_lt hnear (Nat.lt_add_of_pos_right (pow_pos two_pos 1023))⟩
  · have hnear : nearest n = roundDiv n (2 ^ 971) * 2 ^ 971 := by rw [nearest, hlog]
    have hpos : 0 < 2 ^ 971 := pow_pos two_pos 971
    have hexp : n.log2 + 1 = 1024 := by omega
    have hhigh : n / 2 ^ 971 < 2 ^ 53 := by
      rw [Nat.div_lt_iff_lt_mul hpos, hlast, ← hexp]
      exact Nat.lt_log2_self
    rw [hnear, ← hlast, Nat.mul_lt_mul_right hpos, roundDiv_lt_iff hpos hhalf hhigh]
  · obtain ⟨s, hs⟩ : ∃ s, n.log2 = s + 52 := ⟨n.log2 - 52, by omega⟩
    have hne : n ≠ 0 := by
      rintro rfl
      simp at hlog
    have hnear : 2 ^ 1024 ≤ nearest n :=
      (pow_le_pow_right₀ one_le_two (by omega)).trans (nearest_bounds hs).1
    have hpow : 2 ^ 1024 ≤ 2 ^ n.log2 := pow_le_pow_right₀ one_le_two (by omega)
    have hn : 2 ^ 1024 ≤ n := hpow.trans (Nat.log2_self_le hne)
    exact ⟨fun h => absurd h (Nat.not_lt.2 hnear),
      fun h => absurd (Nat.lt_of_add_right_lt h) (Nat.not_lt.2 hn)⟩

theorem roundNat_eq_none_iff {n : Nat} : roundNat n = none ↔ 2 ^ 1024 - 2 ^ 970 ≤ n := by
  rw [← Nat.not_lt, ← nearest_lt_iff, Option.eq_none_iff_forall_ne_some]
  simp only [ne_eq, roundNat_eq_some_iff, not_and]
  exact ⟨fun h hlt => h _ hlt rfl, fun h _ hlt => absurd hlt h⟩

end Binary64

end PluginAudit
