import PluginAudit.Proofs.VersionOrder

/-!
# The order of names

Names are sorted by `compareUnits`, which looks at one character at a time. This is the order of
their 16-bit units (`compareUnits_eq_lt`), a linear order of which `unitsLe` is the reflexive form.
-/

namespace PluginAudit.Text

/-- Where two texts part, the order of the characters there is that of their units. -/
theorem charUnits_append_lt {a b : Char} (h : unitKey a < unitKey b) (us vs : List UInt16) :
    charUnits a ++ us < charUnits b ++ vs := by
  have ha := toNat_lt a
  have hb := toNat_lt b
  have hvalid := a.valid
  simp only [UInt32.isValidChar, Nat.isValidChar] at hvalid
  have hsurrogate : a.toNat < 0xD800 ∨ 0xDFFF < a.toNat := hvalid.imp_right And.left
  simp only [unitKey, Bool.and_eq_true, decide_eq_true_eq] at h
  unfold charUnits
  dsimp only
  split <;> split <;>
    simp only [List.cons_append, List.nil_append, List.cons_lt_cons_iff, UInt16.lt_iff_toNat_lt,
      ← UInt16.toNat_inj, UInt16.toNat_ofNat', Nat.toUInt16] <;>
    split at h <;> split at h <;> omega

theorem compareUnits_cons_eq_lt {a b : Char} {as bs : List Char} :
    compareUnits (a :: as) (b :: bs) = .lt ↔
      unitKey a < unitKey b ∨ a = b ∧ compareUnits as bs = .lt := by
  rw [compareUnits, Ordering.then_eq_lt, Nat.compare_eq_lt, Nat.compare_eq_eq,
    unitKey_injective.eq_iff]

theorem units_lt_of_compareUnits {as bs : List Char} (h : compareUnits as bs = .lt) :
    units as < units bs := by
  induction as generalizing bs with
  | nil =>
    cases bs with
    | nil => cases h
    | cons b bs =>
      obtain ⟨u, us, hu⟩ : ∃ u us, charUnits b = u :: us := by
        unfold charUnits
        dsimp only
        split
        · exact ⟨_, _, rfl⟩
        · exact ⟨_, _, rfl⟩
      rw [units, units, List.flatMap_nil, List.flatMap_cons, hu]
      exact List.nil_lt_cons _ _
  | cons a as ih =>
    cases bs with
    | nil => cases h
    | cons b bs =>
      rw [units, units, List.flatMap_cons, List.flatMap_cons]
      rcases compareUnits_cons_eq_lt.1 h with hlt | ⟨rfl, hrest⟩
      · exact charUnits_append_lt hlt _ _
      · exact List.append_left_lt (ih hrest)

/-- Texts are compared by their units. -/
theorem compareUnits_eq_lt {as bs : List Char} :
    compareUnits as bs = .lt ↔ units as < units bs := by
  refine ⟨units_lt_of_compareUnits, fun h => ?_⟩
  cases hc : compareUnits as bs with
  | lt => rfl
  | eq =>
    rw [Std.LawfulEqCmp.eq_of_compare hc] at h
    exact absurd h (List.lt_irrefl _)
  | gt =>
    have hswap : compareUnits bs as = .lt := Std.OrientedCmp.lt_of_gt hc
    exact absurd h (List.lt_asymm (units_lt_of_compareUnits hswap))

theorem unitsLe_iff {a b : String} :
    unitsLe a b = true ↔ (compareUnits a.toList b.toList).isLE := by
  rw [unitsLe]
  cases compareUnits a.toList b.toList <;> decide

theorem unitsLe_trans (a b c : String) (hab : unitsLe a b = true) (hbc : unitsLe b c = true) :
    unitsLe a c = true := by
  rw [unitsLe_iff] at *
  exact Std.TransCmp.isLE_trans hab hbc

theorem unitsLe_total (a b : String) : (unitsLe a b || unitsLe b a) = true := by
  have hswap : compareUnits b.toList a.toList = (compareUnits a.toList b.toList).swap :=
    Std.OrientedCmp.eq_swap
  rw [unitsLe, unitsLe, hswap]
  cases compareUnits a.toList b.toList <;> rfl

/-- Of two names in order, the units of the first are less, unless it is the same name. -/
theorem units_lt_of_unitsLe {a b : String} (h : unitsLe a b = true) (hne : a ≠ b) :
    units a.toList < units b.toList := by
  rw [unitsLe_iff] at h
  rw [← compareUnits_eq_lt]
  cases hc : compareUnits a.toList b.toList with
  | lt => rfl
  | eq => exact absurd (String.toList_inj.1 (Std.LawfulEqCmp.eq_of_compare hc)) hne
  | gt =>
    rw [hc] at h
    cases h

end PluginAudit.Text
