import Mathlib.Data.Char
import Mathlib.Tactic.Common
import PluginAudit.Pattern.Name
import PluginAudit.Text.Case

/-!
# Lower case is reached in one step

A key of the metadata store is a name in lower case, and the keys of one store become names for
another when the two are merged. So a text in lower case has to be its own lower case
(`lowerString_lowerString`), and whether it is a pattern must not depend on its case
(`isPattern_lowerString`).

Both come from the table: no run of code points leads into a run (`CaseRun.avoids_lowerRuns`). That
is checked run against run, by the ends of the runs and the distance of their members, and not one
code point after the other.
-/

namespace PluginAudit.Text

namespace CaseRun

/-- Where a run moves one of its code points. -/
def image (r : CaseRun) (n : Nat) : Nat := (Int.ofNat n + r.shift).toNat

/-- Whether the ends and steps of two runs show that `q` covers no image of `r`. -/
def avoids (r q : CaseRun) : Bool :=
  Nat.blt (r.image r.last) q.first || Nat.blt q.last (r.image r.first) ||
    (Nat.beq r.first r.last || Nat.beq r.step q.step) &&
      !Nat.beq (r.image r.first % q.step) (q.first % q.step)

/-- Whether the images of a run are characters that mark no pattern, other than `İ`. -/
def isTame (r : CaseRun) : Bool :=
  Nat.ble 0x61 (r.image r.first) && Nat.ble (r.image r.last) 0x7A ||
    Nat.ble 0x80 (r.image r.first) && Nat.blt (r.image r.last) 0x130 ||
    Nat.blt 0x130 (r.image r.first) && Nat.blt (r.image r.last) 0xD800 ||
    Nat.ble 0xE000 (r.image r.first) && Nat.blt (r.image r.last) 0x110000

theorem avoids_lowerRuns : (lowerRuns.all fun r => lowerRuns.all r.avoids) = true := by
  decide +kernel

theorem isTame_lowerRuns : lowerRuns.all isTame = true := by decide +kernel

variable {r q : CaseRun} {n : Nat}

theorem covers_iff : r.covers n = true ↔ r.first ≤ n ∧ n ≤ r.last ∧ (n - r.first) % r.step = 0 := by
  simp [covers, and_assoc]

theorem image_bounds (h : r.covers n = true) :
    r.image r.first ≤ r.image n ∧ r.image n ≤ r.image r.last := by
  obtain ⟨hf, hl, -⟩ := covers_iff.1 h
  simp only [image, Int.ofNat_eq_natCast]
  omega

theorem isTame_iff : r.isTame = true ↔
    (0x61 ≤ r.image r.first ∧ r.image r.last ≤ 0x7A) ∨
    (0x80 ≤ r.image r.first ∧ r.image r.last < 0x130) ∨
    (0x130 < r.image r.first ∧ r.image r.last < 0xD800) ∨
    (0xE000 ≤ r.image r.first ∧ r.image r.last < 0x110000) := by
  simp only [isTame, Bool.or_eq_true, Bool.and_eq_true, Nat.ble_eq, Nat.blt_eq, or_assoc]

/-- No image of a run is covered by a run that it avoids. -/
theorem covers_image (ht : r.isTame = true) (ha : r.avoids q = true) (h : r.covers n = true) :
    q.covers (r.image n) = false := by
  obtain ⟨hlo, hhi⟩ := image_bounds h
  obtain ⟨hf, hl, hs⟩ := covers_iff.1 h
  rw [Bool.eq_false_iff]
  intro hq
  obtain ⟨hqf, hql, hqs⟩ := covers_iff.1 hq
  simp only [avoids, Bool.or_eq_true, Bool.and_eq_true, Bool.not_eq_true', Nat.blt_eq,
    Nat.beq_eq, ← Bool.not_eq_true] at ha
  rcases ha with (ha | ha) | ⟨hsame, hne⟩
  · omega
  · omega
  -- A member of `q` leaves the remainder of its first one, and so does an image of `r`.
  have hmod : r.image n % q.step = q.first % q.step := by
    conv_lhs => rw [← Nat.sub_add_cancel hqf, Nat.add_mod, hqs, Nat.zero_add, Nat.mod_mod]
  have hpos : 0 < Int.ofNat r.first + r.shift := by
    rcases isTame_iff.1 ht with h | h | h | h <;> simp only [image] at h <;> omega
  have himage : r.image n = r.image r.first + (n - r.first) := by
    simp only [image, Int.ofNat_eq_natCast] at hpos ⊢
    omega
  refine hne (hmod ▸ ?_)
  rcases hsame with hsingle | hstep
  · have hn : n = r.first := by omega
    rw [hn]
  · rw [himage, Nat.add_mod, ← hstep, hs, Nat.add_zero, Nat.mod_mod]

/-- A code point is left alone, or goes to an image that is left alone. -/
theorem map_lowerRuns (n : Nat) : map lowerRuns n = n ∨
    ∃ r ∈ lowerRuns, r.covers n = true ∧ map lowerRuns n = r.image n ∧
      map lowerRuns (r.image n) = r.image n := by
  unfold map
  cases hr : lowerRuns.find? (·.covers n) with
  | none => exact .inl rfl
  | some r =>
    have hmem : r ∈ lowerRuns := List.mem_of_find?_eq_some hr
    have hcovers : r.covers n = true := by simpa using List.find?_some hr
    refine .inr ⟨r, hmem, hcovers, rfl, ?_⟩
    have hnone : lowerRuns.find? (·.covers (r.image n)) = none := by
      rw [List.find?_eq_none]
      intro q hq
      rw [covers_image (List.all_eq_true.1 isTame_lowerRuns r hmem)
        (List.all_eq_true.1 (List.all_eq_true.1 avoids_lowerRuns r hmem) q hq) hcovers]
      exact Bool.false_ne_true
    rw [hnone]

end CaseRun

/-! ## Single characters -/

/-- A character that is its own lower case wherever it stands. -/
structure Settled (c : Char) : Prop where
  lower : lowerChar c = c
  not_sigma : c ≠ 'Σ'
  not_dotted : c ≠ 'İ'

/-- Whether a character makes a name a pattern. -/
def isMark (c : Char) : Bool := c == ':' || c == '\\' || c == '*' || c == '?' || c == '|'

theorem toNat_lt_of_isMark {c : Char} (h : isMark c = true) :
    c.toNat < 0x61 ∨ (0x7A < c.toNat ∧ c.toNat < 0x80) := by
  simp only [isMark, Bool.or_eq_true, beq_iff_eq] at h
  rcases h with (((rfl | rfl) | rfl) | rfl) | rfl <;> decide

theorem lowerChar_ascii : (List.range 0x80).all (fun n =>
    let c := Char.ofNat n
    lowerChar (lowerChar c) == lowerChar c && (lowerChar c).toNat < 0x80 &&
      isMark (lowerChar c) == isMark c) = true := by
  decide +kernel

theorem lowerChar_of_le {c : Char} (h : 0x80 ≤ c.toNat) :
    lowerChar c = Char.ofNat (CaseRun.map lowerRuns c.toNat) := by
  rw [lowerChar, if_neg (by omega)]

/-- A character that lower case leaves alone is settled, unless it is `İ`. -/
theorem Settled.of_lowerChar {c : Char} (h : lowerChar c = c) (hc : c ≠ 'İ') : Settled c := by
  refine ⟨h, ?_, hc⟩
  rintro rfl
  exact absurd h (by decide +kernel)

/-- A character that a run covers goes to one that is settled and no mark. -/
theorem settled_image {r : CaseRun} {n : Nat} (hr : r ∈ lowerRuns) (hn : r.covers n = true)
    (hmap : CaseRun.map lowerRuns (r.image n) = r.image n) :
    Settled (Char.ofNat (r.image n)) ∧ isMark (Char.ofNat (r.image n)) = false := by
  obtain ⟨hlo, hhi⟩ := CaseRun.image_bounds hn
  have htame := CaseRun.isTame_iff.1 (List.all_eq_true.1 CaseRun.isTame_lowerRuns r hr)
  have hvalid : (r.image n).isValidChar := by
    simp only [Nat.isValidChar]
    omega
  have hnat : (Char.ofNat (r.image n)).toNat = r.image n := by
    rw [Char.ofNat, dif_pos hvalid]
    rfl
  constructor
  · refine Settled.of_lowerChar ?_ ?_
    · by_cases h : r.image n < 0x80
      · have hsmall : ¬('A' ≤ Char.ofNat (r.image n) && Char.ofNat (r.image n) ≤ 'Z') = true := by
          intro hcap
          have hle : (Char.ofNat (r.image n)).toNat ≤ 0x5A :=
            of_decide_eq_true (Bool.and_eq_true_iff.1 hcap).2
          omega
        rw [lowerChar, hnat, if_pos h, if_neg hsmall]
      · rw [lowerChar_of_le (by omega), hnat, hmap]
    · intro h
      have hdot : r.image n = 0x130 := hnat.symm.trans (congrArg Char.toNat h)
      omega
  · rw [Bool.eq_false_iff]
    intro h
    have := toNat_lt_of_isMark h
    omega

/-- The lower case of a character other than `İ` is settled, and a mark if and only if the
character is one. -/
theorem lowerChar_settled {c : Char} (hc : c ≠ 'İ') :
    Settled (lowerChar c) ∧ isMark (lowerChar c) = isMark c := by
  by_cases h : c.toNat < 0x80
  · have hascii := List.all_eq_true.1 lowerChar_ascii c.toNat (List.mem_range.2 h)
    simp only [Char.ofNat_toNat, Bool.and_eq_true, beq_iff_eq, decide_eq_true_eq] at hascii
    obtain ⟨⟨hlower, hsmall⟩, hmark⟩ := hascii
    refine ⟨Settled.of_lowerChar hlower ?_, hmark⟩
    rintro hdot
    rw [hdot] at hsmall
    exact absurd hsmall (by decide)
  · have hle : 0x80 ≤ c.toNat := by omega
    rw [lowerChar_of_le hle]
    rcases CaseRun.map_lowerRuns c.toNat with hmap | ⟨r, hr, hcovers, hmap, hfix⟩
    · rw [hmap, Char.ofNat_toNat]
      refine ⟨Settled.of_lowerChar ?_ hc, rfl⟩
      rw [lowerChar_of_le hle, hmap, Char.ofNat_toNat]
    · obtain ⟨hsettled, hmark⟩ := settled_image hr hcovers hfix
      rw [hmap]
      refine ⟨hsettled, hmark.trans (Eq.symm ?_)⟩
      rw [Bool.eq_false_iff]
      intro hm
      have := toNat_lt_of_isMark hm
      omega

/-! ## Texts -/

/-- A text of settled characters is its own lower case, whatever stands before it. -/
theorem lowerAfter_eq_self {cs : List Char} (h : ∀ c ∈ cs, Settled c) (afterCased : Bool) :
    lowerAfter afterCased cs = cs := by
  induction cs generalizing afterCased with
  | nil => rfl
  | cons c cs ih =>
    obtain ⟨hc, hcs⟩ := List.forall_mem_cons.1 h
    rw [lowerAfter, ih hcs]
    by_cases hascii : c.toNat < 0x80
    · rw [if_pos hascii, hc.lower]
    · simp [hascii, hc.not_sigma, hc.not_dotted, hc.lower]

/-- The characters that one character becomes are settled, and a mark becomes itself. -/
structure Lowered (c : Char) (ds : List Char) : Prop where
  settled : ∀ d ∈ ds, Settled d
  any_isMark : ds.any isMark = isMark c

/-- The characters that stand for `Σ` and `İ` in lower case. -/
theorem settled_of_mem {c : Char} (h : c ∈ ['σ', 'ς', 'i', '\u0307']) : Settled c := by
  simp only [List.mem_cons, List.not_mem_nil, or_false] at h
  rcases h with rfl | rfl | rfl | rfl <;> exact ⟨by decide +kernel, by decide, by decide⟩

theorem lowered_sigma (final : Bool) : Lowered 'Σ' [if final then 'ς' else 'σ'] := by
  cases final with
  | false => exact ⟨fun d hd => settled_of_mem (by simp_all), by decide⟩
  | true => exact ⟨fun d hd => settled_of_mem (by simp_all), by decide⟩

theorem lowered_dotted : Lowered 'İ' ['i', '\u0307'] :=
  ⟨fun d hd => settled_of_mem (by simp_all), by decide⟩

theorem lowered_lowerChar {c : Char} (hc : c ≠ 'İ') : Lowered c [lowerChar c] := by
  obtain ⟨hsettled, hmark⟩ := lowerChar_settled hc
  exact ⟨by simpa using hsettled, by simpa using hmark⟩

/-- The lower case of a text is that of its first character followed by that of the rest. -/
theorem lowerAfter_cons (afterCased : Bool) (c : Char) (cs : List Char) :
    ∃ ds next, Lowered c ds ∧ lowerAfter afterCased (c :: cs) = ds ++ lowerAfter next cs := by
  rw [lowerAfter]
  by_cases hascii : c.toNat < 0x80
  · rw [if_pos hascii]
    refine ⟨[lowerChar c], _, lowered_lowerChar ?_, rfl⟩
    rintro rfl
    exact absurd hascii (by decide)
  · rw [if_neg hascii]
    refine ⟨_, _, ?_, rfl⟩
    by_cases hsigma : c = 'Σ'
    · subst hsigma
      exact lowered_sigma _
    · by_cases hdot : c = 'İ'
      · subst hdot
        exact lowered_dotted
      · simpa [hsigma, hdot] using lowered_lowerChar hdot

theorem lowered_lowerAfter (cs : List Char) (afterCased : Bool) :
    (∀ d ∈ lowerAfter afterCased cs, Settled d) ∧
      (lowerAfter afterCased cs).any isMark = cs.any isMark := by
  induction cs generalizing afterCased with
  | nil => exact ⟨fun _ h => absurd h List.not_mem_nil, rfl⟩
  | cons c cs ih =>
    obtain ⟨ds, next, hds, heq⟩ := lowerAfter_cons afterCased c cs
    obtain ⟨hsettled, hmark⟩ := ih next
    rw [heq]
    constructor
    · intro d hd
      rcases List.mem_append.1 hd with hd | hd
      · exact hds.settled d hd
      · exact hsettled d hd
    · rw [List.any_append, hds.any_isMark, hmark, List.any_cons]

/-- A text in lower case is its own lower case. -/
theorem lowerString_lowerString (s : String) : lowerString (lowerString s) = lowerString s := by
  have h := (lowered_lowerAfter s.toList false).1
  rw [lowerString, lowerString, String.toList_ofList, lower, lower, lowerAfter_eq_self h]

/-- A name is a pattern in lower case if and only if it is one. -/
theorem isPattern_lowerString (s : String) : isPattern (lowerString s) = isPattern s := by
  have h := (lowered_lowerAfter s.toList false).2
  rw [isPattern, isPattern, lowerString, String.toList_ofList]
  exact h

/-! ## Slashes -/

theorem lowerChar_ascii_slash : (List.range 0x80).all (fun n =>
    let c := Char.ofNat n
    (lowerChar c == '/') == (c == '/')) = true := by
  decide +kernel

/-- The lower case of a character is a slash only if the character is one. -/
theorem lowerChar_eq_slash_iff {c : Char} : lowerChar c = '/' ↔ c = '/' := by
  by_cases h : c.toNat < 0x80
  · have hascii := List.all_eq_true.1 lowerChar_ascii_slash c.toNat (List.mem_range.2 h)
    rw [Char.ofNat_toNat, beq_iff_eq, Bool.eq_iff_iff, beq_iff_eq, beq_iff_eq] at hascii
    exact hascii
  · have hc : c ≠ '/' := fun hc => h (by rw [hc]; decide)
    refine iff_of_false (fun hslash => ?_) hc
    rw [lowerChar_of_le (by omega)] at hslash
    rcases CaseRun.map_lowerRuns c.toNat with hmap | ⟨r, hr, hcovers, hmap, -⟩
    · rw [hmap, Char.ofNat_toNat] at hslash
      exact hc hslash
    · obtain ⟨hlo, hhi⟩ := CaseRun.image_bounds hcovers
      have htame := CaseRun.isTame_iff.1 (List.all_eq_true.1 CaseRun.isTame_lowerRuns r hr)
      have hvalid : (r.image c.toNat).isValidChar := by
        simp only [Nat.isValidChar]
        omega
      have hnat : (Char.ofNat (r.image c.toNat)).toNat = r.image c.toNat := by
        rw [Char.ofNat, dif_pos hvalid]
        rfl
      rw [hmap] at hslash
      rw [hslash] at hnat
      have : ('/' : Char).toNat = 0x2F := rfl
      omega

theorem slash_mem_lowerAfter (cs : List Char) (afterCased : Bool) :
    '/' ∈ lowerAfter afterCased cs ↔ '/' ∈ cs := by
  induction cs generalizing afterCased with
  | nil => rfl
  | cons c cs ih =>
    have hslash : '/' = lowerChar c ↔ '/' = c := by
      rw [eq_comm, lowerChar_eq_slash_iff, eq_comm]
    rw [lowerAfter, List.mem_cons]
    by_cases hascii : c.toNat < 0x80
    · rw [if_pos hascii, List.mem_cons, ih, hslash]
    · rw [if_neg hascii]
      dsimp only
      rw [List.mem_append, ih]
      refine or_congr_left ?_
      by_cases hsigma : c = 'Σ'
      · subst hsigma
        cases afterCased && !startsCased cs <;> decide
      · by_cases hdot : c = 'İ'
        · subst hdot
          simp
        · simpa [hsigma, hdot] using hslash

/-- Lower case neither adds slashes nor removes them. -/
theorem slash_mem_lowerString (s : String) : '/' ∈ (lowerString s).toList ↔ '/' ∈ s.toList := by
  rw [lowerString, String.toList_ofList]
  exact slash_mem_lowerAfter s.toList false

/-! ## ASCII -/

/-- Whether all characters of a text are of ASCII. -/
def IsAscii (cs : List Char) : Prop := ∀ c ∈ cs, c.toNat < 0x80

instance (cs : List Char) : Decidable (IsAscii cs) :=
  decidable_of_iff (cs.all fun c => decide (c.toNat < 0x80))
    (by simp only [IsAscii, List.all_eq_true, decide_eq_true_eq])

theorem lowerAfter_of_isAscii {cs : List Char} (h : IsAscii cs) (afterCased : Bool) :
    lowerAfter afterCased cs = cs.map lowerChar := by
  induction cs generalizing afterCased with
  | nil => rfl
  | cons c cs ih =>
    obtain ⟨hc, hcs⟩ := List.forall_mem_cons.1 h
    rw [lowerAfter, if_pos hc, ih hcs, List.map_cons]

theorem lowerChar_foldUnit_ascii : (List.range 0x80).all (fun n =>
    let c := Char.ofNat n
    lowerChar (Char.ofNat (foldUnit n)) == lowerChar c &&
      foldUnit (lowerChar c).toNat == foldUnit n) = true := by
  decide +kernel

/-- In ASCII, lower case and the case of patterns tell the same characters apart. -/
theorem lowerChar_eq_iff {c d : Char} (hc : c.toNat < 0x80) (hd : d.toNat < 0x80) :
    lowerChar c = lowerChar d ↔ foldUnit c.toNat = foldUnit d.toNat := by
  have hascii {e : Char} (he : e.toNat < 0x80) :
      lowerChar (Char.ofNat (foldUnit e.toNat)) = lowerChar e ∧
        foldUnit (lowerChar e).toNat = foldUnit e.toNat := by
    have h := List.all_eq_true.1 lowerChar_foldUnit_ascii e.toNat (List.mem_range.2 he)
    simpa only [Char.ofNat_toNat, Bool.and_eq_true, beq_iff_eq] using h
  constructor
  · intro h
    rw [← (hascii hc).2, ← (hascii hd).2, h]
  · intro h
    rw [← (hascii hc).1, ← (hascii hd).1, h]

/-- Two texts of ASCII are equal in lower case if their units are to a pattern. -/
theorem lowerString_eq_iff {s t : String} (hs : IsAscii s.toList) (ht : IsAscii t.toList) :
    lowerString s = lowerString t ↔
      s.toList.map (fun c => foldUnit c.toNat) = t.toList.map fun c => foldUnit c.toNat := by
  have hlists {cs ds : List Char} (hcs : IsAscii cs) (hds : IsAscii ds) :
      cs.map lowerChar = ds.map lowerChar ↔
        cs.map (fun c => foldUnit c.toNat) = ds.map fun c => foldUnit c.toNat := by
    induction cs generalizing ds with
    | nil => cases ds <;> simp
    | cons c cs ih =>
      cases ds with
      | nil => simp
      | cons d ds =>
        obtain ⟨hc, hcs⟩ := List.forall_mem_cons.1 hcs
        obtain ⟨hd, hds⟩ := List.forall_mem_cons.1 hds
        simp only [List.map_cons, List.cons.injEq, lowerChar_eq_iff hc hd, ih hcs hds]
  rw [← hlists hs ht, ← lowerAfter_of_isAscii hs false, ← lowerAfter_of_isAscii ht false]
  exact String.ofList_inj

end PluginAudit.Text
