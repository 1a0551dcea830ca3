import Mathlib.Data.List.Forall2
import Mathlib.Data.Nat.Digits.Defs
import PluginAudit.Proofs.NearestDoubles
import PluginAudit.Proofs.QuotedArguments

/-!
# Arguments as they may be spelled

An argument may be spelled in several ways: a string in quotes of either kind, a checksum with small
or capital letters, with zeros before it and with or without `0x`, and everything with blanks around
it. However its arguments are spelled, a call is read with exactly these arguments (`read_spelled`).

Commas are told apart from those inside of strings by double quotes alone, so a string in single
quotes must have none. That an argument is cut off as a whole, whatever follows it, is `IsWhole`.
-/

namespace PluginAudit.Condition

open Text Argument

/-! ## Hexadecimal numbers -/

def smallDigits : List Char := "0123456789abcdef".toList

def capitalDigits : List Char := "0123456789ABCDEF".toList

/-- A character stands for a hexadecimal digit. -/
def IsHexDigit (d : Nat) (c : Char) : Prop :=
  smallDigits[d]? = some c ∨ capitalDigits[d]? = some c

instance (d : Nat) (c : Char) : Decidable (IsHexDigit d c) := inferInstanceAs (Decidable (_ ∨ _))

/-- A text writes a number in one or more hexadecimal digits, the most significant first, with or
without the mark `0x`. -/
def WritesHex (n : Nat) (cs : List Char) : Prop :=
  ∃ mark ∈ ["", "0x", "0X"], ∃ digits letters, letters ≠ [] ∧
    List.Forall₂ IsHexDigit digits letters ∧ Nat.ofDigits 16 digits.reverse = n ∧
    cs = mark.toList ++ letters

theorem hexDigit?_eq_some_iff {c : Char} {d : Nat} : hexDigit? c = some d ↔ IsHexDigit d c := by
  constructor
  · intro h
    have hsmall : c.toNat < 128 := toNat_lt_of_isSome_hexDigit? (by rw [h]; rfl)
    have hall : ∀ n < 128, ∀ d ∈ hexDigit? (Char.ofNat n), IsHexDigit d (Char.ofNat n) := by
      decide +kernel
    have hc := hall c.toNat hsmall
    rw [Char.ofNat_toNat] at hc
    exact hc d h
  · have hall : ∀ d < 16, ∀ digits ∈ [smallDigits, capitalDigits],
        digits[d]?.bind hexDigit? = some d := by decide +kernel
    have hdigit {digits : List Char} (hdigits : digits ∈ [smallDigits, capitalDigits])
        (hlength : digits.length = 16) (h : digits[d]? = some c) : hexDigit? c = some d := by
      obtain ⟨hd, -⟩ := List.getElem?_eq_some_iff.1 h
      have hvalue := hall d (hlength ▸ hd) digits hdigits
      rwa [h] at hvalue
    rintro (h | h)
    · exact hdigit (by decide) (by decide) h
    · exact hdigit (by decide) (by decide) h

/-- The induction is on the letters, what has been read before them generalized. -/
theorem foldlM_hexDigit? {cs : List Char} {m n : Nat} :
    cs.foldlM (fun n c => (hexDigit? c).map (16 * n + ·)) m = some n ↔
      ∃ ds, List.Forall₂ IsHexDigit ds cs ∧
        m * 16 ^ cs.length + Nat.ofDigits 16 ds.reverse = n := by
  induction cs generalizing m with
  | nil => simp
  | cons c cs ih =>
    have hvalue {d : Nat} {ds : List Nat} (h : List.Forall₂ IsHexDigit ds cs) :
        m * 16 ^ (c :: cs).length + Nat.ofDigits 16 (d :: ds).reverse =
          (16 * m + d) * 16 ^ cs.length + Nat.ofDigits 16 ds.reverse := by
      rw [List.reverse_cons, Nat.ofDigits_append, Nat.ofDigits_singleton, List.length_reverse,
        h.length_eq, List.length_cons]
      ring
    constructor
    · intro h
      rw [List.foldlM_cons] at h
      obtain ⟨m', hm', h⟩ := Option.bind_eq_some_iff.1 h
      obtain ⟨d, hd, rfl⟩ := Option.map_eq_some_iff.1 hm'
      obtain ⟨ds, hds, hn⟩ := ih.1 h
      exact ⟨d :: ds, .cons (hexDigit?_eq_some_iff.1 hd) hds, (hvalue hds).trans hn⟩
    · rintro ⟨ds, hds, hn⟩
      cases hds with
      | cons hd hds =>
        rw [hvalue hds] at hn
        rw [List.foldlM_cons, hexDigit?_eq_some_iff.2 hd]
        exact ih.2 ⟨_, hds, hn⟩

theorem hexValue?_eq_some_iff {cs : List Char} {n : Nat} :
    hexValue? cs = some n ↔ cs ≠ [] ∧
      ∃ ds, List.Forall₂ IsHexDigit ds cs ∧ Nat.ofDigits 16 ds.reverse = n := by
  cases cs with
  | nil => simp [hexValue?]
  | cons c cs =>
    rw [hexValue?, if_neg (by simp), foldlM_hexDigit?]
    simp

/-- What is left of a text without its mark is what is read as digits. -/
theorem hexValue?_withoutHexMark {cs : List Char} {n : Nat} :
    hexValue? (withoutHexMark cs) = some n ↔ WritesHex n cs := by
  constructor
  · intro h
    obtain ⟨mark, hmark, hcs⟩ := exists_hexMark cs
    obtain ⟨hne, ds, hds, hn⟩ := hexValue?_eq_some_iff.1 h
    exact ⟨mark, hmark, ds, _, hne, hds, hn, hcs⟩
  · rintro ⟨mark, hmark, ds, letters, hne, hds, hn, rfl⟩
    have hvalue : hexValue? letters = some n := hexValue?_eq_some_iff.2 ⟨hne, ds, hds, hn⟩
    rw [withoutHexMark_append hmark (isSome_of_hexValue? hvalue), hvalue]

theorem readChecksum_eq_ok_iff {cs : List Char} {crc : UInt32} :
    readChecksum cs = .ok crc ↔ WritesHex crc.toNat cs := by
  rw [← hexValue?_withoutHexMark, readChecksum]
  constructor
  · intro h
    split at h
    · cases h
    · next n hn =>
      split at h
      · next hlt =>
        cases h
        rw [hn, Nat.toUInt32, UInt32.toNat_ofNat', Nat.mod_eq_of_lt hlt]
      · cases h
  · intro h
    rw [h]
    simp only [if_pos crc.toNat_lt]
    exact congrArg Except.ok UInt32.ofNat_toNat

theorem readChecksum_accepts_iff {cs : List Char} :
    (∃ crc, readChecksum cs = .ok crc) ↔ ∃ n < 2 ^ 32, WritesHex n cs := by
  simp only [readChecksum_eq_ok_iff]
  constructor
  · rintro ⟨crc, h⟩
    exact ⟨crc.toNat, crc.toNat_lt, h⟩
  · rintro ⟨n, hn, h⟩
    refine ⟨UInt32.ofNat n, ?_⟩
    rwa [UInt32.toNat_ofNat', Nat.mod_eq_of_lt hn]

/-- The value of a checksum argument whose digits are read as a double. -/
def readRounded (cs : List Char) : Except Fault UInt32 :=
  match hexValue? (withoutHexMark cs) with
  | none => .error (.invalidChecksum (String.ofList cs))
  | some n =>
    match Binary64.roundNat n with
    | none => .error (.checksumRange (String.ofList cs))
    | some r =>
      if r < UInt32.size then .ok r.toUInt32 else .error (.checksumRange (String.ofList cs))

/-- Rounding brings no number into the range of checksums and changes none of them. -/
theorem readRounded_eq (cs : List Char) : readRounded cs = readChecksum cs := by
  rw [readRounded, readChecksum]
  cases hexValue? (withoutHexMark cs) with
  | none => rfl
  | some n =>
    by_cases hshort : n < 2 ^ 53
    · simp only [Binary64.roundNat_of_lt hshort]
    · have hout : ¬ n < UInt32.size := by
        have hsize : UInt32.size < 2 ^ 53 := by decide
        omega
      simp only [if_neg hout]
      cases hr : Binary64.roundNat n with
      | none => rfl
      | some r =>
        have hlong := Binary64.le_of_roundNat (Nat.not_lt.1 hshort) hr
        have hout' : ¬ r < UInt32.size := by
          have hsize : UInt32.size < 2 ^ 53 := by decide
          omega
        simp only [if_neg hout']

/-! ## Spelling arguments -/

/-- An argument of a call. -/
inductive Argument where
  | string (s : String)
  | checksum (crc : UInt32)
  | comparator (sign : Comparator)

/-- A text spells an argument. -/
inductive Argument.Spelled : Argument → List Char → Prop where
  | double {s : String} (hs : IsQuotable s) : Spelled (.string s) ('"' :: s.toList ++ ['"'])
  | single {s : String} (hs : IsQuotable s) (hquote : '\'' ∉ s.toList) (hcomma : ',' ∉ s.toList) :
      Spelled (.string s) ('\'' :: s.toList ++ ['\''])
  | checksum {crc : UInt32} {cs : List Char} (h : WritesHex crc.toNat cs) :
      Spelled (.checksum crc) cs
  | comparator (sign : Comparator) : Spelled (.comparator sign) sign.symbol.toList

/-- A text spells an argument, with any blanks around it. -/
def Argument.Padded (a : Argument) (text : List Char) : Prop :=
  ∃ l cs r, (∀ c ∈ l, isBlank c = true) ∧ (∀ c ∈ r, isBlank c = true) ∧ a.Spelled cs ∧
    text = l ++ cs ++ r

/-- The arguments of a call in the order in which they are written. -/
def Call.arguments : Call → List Argument
  | file path => [.string path]
  | readable path => [.string path]
  | active plugin => [.string plugin]
  | many pattern => [.string pattern]
  | manyActive pattern => [.string pattern]
  | isMaster plugin => [.string plugin]
  | checksum path crc => [.string path, .checksum crc]
  | version path given sign => [.string path, .string given, .comparator sign]
  | productVersion path given sign => [.string path, .string given, .comparator sign]

/-! ## Cutting at commas -/

/-- A text is not cut, whatever follows it. -/
def IsWhole (text : List Char) : Prop :=
  ∀ rest, splitAfter false (text ++ rest) = consFirst text (splitAfter false rest)

theorem IsWhole.append {t u : List Char} (ht : IsWhole t) (hu : IsWhole u) :
    IsWhole (t ++ u) := by
  intro rest
  rw [List.append_assoc, ht, hu, consFirst_consFirst]

theorem isWhole_texts {xs : List Chunk} (h : ∀ x ∈ xs, x.IsItem) : IsWhole (Chunk.texts xs) :=
  splitAfter_texts h

theorem isWhole_plain {cs : List Char} (h : ∀ x ∈ plain cs, x.IsItem) : IsWhole cs := by
  have hwhole := isWhole_texts h
  rwa [texts_plain] at hwhole

theorem isWhole_blank {l : List Char} (hl : ∀ c ∈ l, isBlank c = true) : IsWhole l := by
  refine isWhole_plain (List.forall_mem_map.2 fun c hc => ⟨?_, ?_⟩)
  · rintro rfl
    exact absurd (hl _ hc) (by decide)
  · rintro rfl
    exact absurd (hl _ hc) (by decide)

/-- Whole texts are cut at the commas between them and nowhere else. -/
theorem splitAfter_intercalate {texts : List (List Char)} (hne : texts ≠ [])
    (h : ∀ t ∈ texts, IsWhole t) : splitAfter false ([','].intercalate texts) = texts := by
  induction texts with
  | nil => exact absurd rfl hne
  | cons t texts ih =>
    have ht : IsWhole t := h t List.mem_cons_self
    cases texts with
    | nil =>
      rw [List.intercalate_singleton, ← List.append_nil t, ht]
      simp [splitAfter, consFirst]
    | cons u texts =>
      have hrest := ih (List.cons_ne_nil _ _) fun v hv => h v (List.mem_cons_of_mem _ hv)
      have hcut (cs : List Char) : splitAfter false (',' :: cs) = [] :: splitAfter false cs := by
        simp [splitAfter]
      rw [List.intercalate_cons_cons, List.append_assoc, List.singleton_append, ht, hcut, hrest,
        consFirst, List.append_nil]

theorem isBareChar_of_writesHex {n : Nat} {cs : List Char} (h : WritesHex n cs) :
    ∀ c ∈ cs, isBareChar c = true := by
  obtain ⟨mark, hmark, hcs⟩ := exists_hexMark cs
  rw [hcs]
  exact isBareChar_of_checksum hmark (hexValue?_withoutHexMark.2 h)

namespace Argument

theorem Spelled.isWhole {a : Argument} {cs : List Char} (h : a.Spelled cs) : IsWhole cs := by
  cases h with
  | @double s hs =>
    have hwhole := isWhole_texts (isItem_quoted hs)
    rwa [texts_quoted] at hwhole
  | @single s hs hquote hcomma =>
    refine isWhole_plain (List.forall_mem_map.2 fun c hc => ?_)
    simp only [List.cons_append, List.mem_cons, List.mem_append, List.mem_nil_iff, or_false] at hc
    rcases hc with rfl | hc | rfl
    · exact ⟨by decide, by decide⟩
    · exact ⟨ne_of_mem_of_not_mem hc hcomma, ne_of_mem_of_not_mem hc hs.1⟩
    · exact ⟨by decide, by decide⟩
  | checksum h => exact isWhole_plain (isItem_plain (isBareChar_of_writesHex h))
  | comparator sign => exact isWhole_plain (isItem_plain (isBareChar_of_symbol sign))

theorem Spelled.trim {a : Argument} {cs : List Char} (h : a.Spelled cs) : trim cs = cs := by
  have hbare {cs : List Char} (hcs : ∀ c ∈ cs, isBareChar c = true) : Text.trim cs = cs := by
    have htrim := trim_plain hcs
    rwa [texts_plain] at htrim
  cases h with
  | double => exact trim_enclosed rfl rfl _
  | single => exact trim_enclosed rfl rfl _
  | checksum h => exact hbare (isBareChar_of_writesHex h)
  | comparator sign => exact hbare (isBareChar_of_symbol sign)

/-- Arguments that are joined by commas are cut apart and lose the blanks around them. -/
theorem split_padded {args : List Argument} {texts : List (List Char)} (hne : args ≠ [])
    (h : List.Forall₂ Padded args texts) :
    List.Forall₂ Spelled args (split ([','].intercalate texts)) := by
  have hwhole : ∀ t ∈ texts, IsWhole t := by
    intro t ht
    obtain ⟨a, l, cs, r, hl, hr, hspelled, rfl⟩ := exists_of_mem_right h ht
    exact ((isWhole_blank hl).append hspelled.isWhole).append (isWhole_blank hr)
  have htexts : texts ≠ [] := by
    rintro rfl
    cases h
    exact hne rfl
  rw [split, splitAfter_intercalate htexts hwhole, List.forall₂_map_right_iff]
  refine h.imp ?_
  rintro a t ⟨l, cs, r, hl, hr, hspelled, rfl⟩
  rwa [trim_between hl hr, hspelled.trim]

/-! ## Reading -/

theorem Spelled.readString {s : String} {cs : List Char} (h : (Argument.string s).Spelled cs) :
    readString cs = .ok s := by
  cases h with
  | double hs => exact readString_quoted hs
  | single hs hquote => exact readString_enclosed rfl hquote hs.2

theorem Spelled.readChecksum {crc : UInt32} {cs : List Char}
    (h : (Argument.checksum crc).Spelled cs) : readChecksum cs = .ok crc := by
  cases h with
  | checksum h => exact readChecksum_eq_ok_iff.2 h

theorem Spelled.readComparator {sign : Comparator} {cs : List Char}
    (h : (Argument.comparator sign).Spelled cs) : readComparator cs = .ok sign := by
  cases h with
  | comparator => exact readComparator_symbol sign

end Argument

/-- A call is read with the arguments that the parts of its text spell. -/
theorem Call.read_of_spelled (c : Call) {text : List Char}
    (h : List.Forall₂ Argument.Spelled c.arguments (split text)) :
    Call.read c.function text = .ok c := by
  have hstring {s : String} {texts : List (List Char)}
      (h : List.Forall₂ Argument.Spelled [.string s] texts) :
      ∃ a, texts = [a] ∧ readString a = .ok s := by
    cases h with
    | cons ha h =>
      cases h
      exact ⟨_, rfl, ha.readString⟩
  have hversion {path given : String} {sign : Comparator} {texts : List (List Char)}
      (h : List.Forall₂ Argument.Spelled [.string path, .string given, .comparator sign] texts) :
      ∃ a b d, texts = [a, b, d] ∧ readVersionArgs a b d = .ok (path, given, sign) := by
    cases h with
    | cons ha h =>
      cases h with
      | cons hb h =>
        cases h with
        | cons hd h =>
          cases h
          refine ⟨_, _, _, rfl, ?_⟩
          rw [readVersionArgs, hd.readComparator, ha.readString, hb.readString]
          rfl
  unfold Call.read
  generalize split text = spelled at h
  cases c with
  | checksum path crc =>
    cases h with
    | cons ha h =>
      cases h with
      | cons hb h =>
        cases h
        simp only [Call.function, ha.readString, hb.readChecksum]
        rfl
  | version path given sign =>
    obtain ⟨a, b, d, rfl, hread⟩ := hversion h
    simp only [Call.function, hread]
    rfl
  | productVersion path given sign =>
    obtain ⟨a, b, d, rfl, hread⟩ := hversion h
    simp only [Call.function, hread]
    rfl
  | _ =>
    obtain ⟨a, rfl, hread⟩ := hstring h
    simp only [Call.function, hread]
    rfl

/-- Arguments are read back however they are spelled; the checksums that are read are exactly the
numbers of 32 bits in hexadecimal digits, be the digits read exactly or as a double. -/
theorem read_spelled :
    (∀ (c : Call) (texts : List (List Char)), List.Forall₂ Argument.Padded c.arguments texts →
      Call.read c.function ([','].intercalate texts) = .ok c) ∧
    (∀ cs crc, readChecksum cs = .ok crc ↔ WritesHex crc.toNat cs) ∧
    (∀ cs, (∃ crc, readChecksum cs = .ok crc) ↔ ∃ n ≤ 2 ^ 32 - 1, WritesHex n cs) ∧
    ∀ cs, readRounded cs = readChecksum cs := by
  refine ⟨fun c texts h => ?_, fun cs crc => readChecksum_eq_ok_iff, fun cs => ?_, readRounded_eq⟩
  · have hne : c.arguments ≠ [] := by cases c <;> exact List.cons_ne_nil _ _
    exact c.read_of_spelled (Argument.split_padded hne h)
  · rw [readChecksum_accepts_iff]
    simp only [Nat.lt_iff_le_pred (Nat.two_pow_pos 32)]

/-- Commas and blanks in a string, a string in single quotes, a checksum with zeros before it. -/
theorem read_spelled_sample :
    Call.read .version " \"a, (b) .esp\"\t,'1.0 \\\\',\n>= ".toList =
        .ok (.version "a, (b) .esp" "1.0 \\\\" .ge) ∧
      Call.read .checksum "'a.esp' ,\u00a00X000000000aBcdEF09".toList =
        .ok (.checksum "a.esp" 0xABCDEF09) ∧
      readChecksum "ffffffff".toList = .ok 0xFFFFFFFF ∧
      ¬ ∃ crc, readChecksum "100000000".toList = .ok crc := by
  obtain ⟨hread, hchecksum, haccepts, -⟩ := read_spelled
  have hblank {l : List Char} (h : l.all isBlank = true) : ∀ c ∈ l, isBlank c = true :=
    List.all_eq_true.1 h
  refine ⟨?_, ?_, ?_, ?_⟩
  · have hpath : (Argument.string "a, (b) .esp").Padded " \"a, (b) .esp\"\t".toList :=
      ⟨[' '], _, ['\t'], hblank rfl, hblank rfl, .double ⟨by decide, by decide⟩, by decide⟩
    have hgiven : (Argument.string "1.0 \\\\").Padded "'1.0 \\\\'".toList :=
      ⟨[], _, [], hblank rfl, hblank rfl,
        .single ⟨by decide, by decide⟩ (by decide) (by decide), by decide⟩
    have hsign : (Argument.comparator .ge).Padded "\n>= ".toList :=
      ⟨['\n'], _, [' '], hblank rfl, hblank rfl, .comparator .ge, by decide⟩
    have htexts : " \"a, (b) .esp\"\t,'1.0 \\\\',\n>= ".toList = [','].intercalate
        [" \"a, (b) .esp\"\t".toList, "'1.0 \\\\'".toList, "\n>= ".toList] := by decide
    rw [htexts]
    exact hread (.version _ _ _) _ (.cons hpath (.cons hgiven (.cons hsign .nil)))
  · have hpath : (Argument.string "a.esp").Padded "'a.esp' ".toList :=
      ⟨[], _, [' '], hblank rfl, hblank rfl,
        .single ⟨by decide, by decide⟩ (by decide) (by decide), by decide⟩
    have hcrc : WritesHex (0xABCDEF09 : UInt32).toNat "0X000000000aBcdEF09".toList :=
      ⟨"0X", by decide, [0, 0, 0, 0, 0, 0, 0, 0, 0, 10, 11, 12, 13, 14, 15, 0, 9],
        "000000000aBcdEF09".toList, by decide, by decide, by decide, rfl⟩
    have hpadded : (Argument.checksum 0xABCDEF09).Padded "\u00a00X000000000aBcdEF09".toList :=
      ⟨['\u00a0'], _, [], hblank rfl, hblank rfl, .checksum hcrc, by decide⟩
    have htexts : "'a.esp' ,\u00a00X000000000aBcdEF09".toList = [','].intercalate
        ["'a.esp' ".toList, "\u00a00X000000000aBcdEF09".toList] := by decide
    rw [htexts]
    exact hread (.checksum _ _) _ (.cons hpath (.cons hpadded .nil))
  · exact (hchecksum _ _).2 ⟨"", by decide, List.replicate 8 15, "ffffffff".toList, by decide,
      by decide, by decide, rfl⟩
  · rw [haccepts]
    rintro ⟨n, hn, h⟩
    have hvalue := hexValue?_withoutHexMark.2 h
    have hexact : hexValue? (withoutHexMark "100000000".toList) = some (2 ^ 32) := by decide
    rw [hexact] at hvalue
    cases hvalue
    exact absurd hn (by decide)

end PluginAudit.Condition
