import PluginAudit.Condition.Argument
import PluginAudit.Proofs.Masking
import Mathlib.Data.Bool.AllAny

/-!
# Calls as they are written

`Call.Written` says how the arguments of a call may be written: strings in double quotes, arguments
separated by a comma and spaces, a checksum in hexadecimal digits with or without `0x`, a comparator
by its sign. Arguments written like that are read as the call (`read_written`).
-/

namespace PluginAudit.Condition

open Text Argument

/-! ## Writing -/

/-- A string that may be written in double quotes. -/
def IsQuotable (s : String) : Prop :=
  '"' ∉ s.toList ∧ trailingBackslashes s.toList % 2 = 0

def quoted (s : String) : List Chunk := [.literal s.toList]

def plain (cs : List Char) : List Chunk := cs.map .char

/-- A comma and a number of spaces. -/
def comma (n : Nat) : List Chunk := .char ',' :: List.replicate n (.char ' ')

namespace Call

def function : Call → Function
  | file _ => .file
  | readable _ => .readable
  | active _ => .active
  | many _ => .many
  | manyActive _ => .manyActive
  | isMaster _ => .isMaster
  | checksum .. => .checksum
  | version .. => .version
  | productVersion .. => .productVersion

/-- The arguments of a call that takes one string. -/
def WrittenString (s : String) (args : List Chunk) : Prop := IsQuotable s ∧ args = quoted s

/-- The arguments of a call that compares versions. -/
def WrittenVersion (path given : String) (sign : Comparator) (args : List Chunk) : Prop :=
  IsQuotable path ∧ IsQuotable given ∧ ∃ m n,
    args = quoted path ++ comma m ++ quoted given ++ comma n ++ plain sign.symbol.toList

/-- The arguments of a call that compares checksums. -/
def WrittenChecksum (path : String) (crc : UInt32) (args : List Chunk) : Prop :=
  IsQuotable path ∧ ∃ n mark digits, mark ∈ ["", "0x", "0X"] ∧
    hexValue? digits = some crc.toNat ∧
    args = quoted path ++ comma n ++ plain (mark.toList ++ digits)

/-- The arguments of a call as they may be written. -/
def Written : Call → List Chunk → Prop
  | file path => WrittenString path
  | readable path => WrittenString path
  | active plugin => WrittenString plugin
  | many pattern => WrittenString pattern
  | manyActive pattern => WrittenString pattern
  | isMaster plugin => WrittenString plugin
  | checksum path crc => WrittenChecksum path crc
  | version path given sign => WrittenVersion path given sign
  | productVersion path given sign => WrittenVersion path given sign

end Call

/-! ## Splitting -/

/-- Puts a text before the first of several. -/
def consFirst (p : List Char) : List (List Char) → List (List Char)
  | [] => [p]
  | q :: qs => (p ++ q) :: qs

theorem consFirst_consFirst (p q : List Char) (ps : List (List Char)) :
    consFirst p (consFirst q ps) = consFirst (p ++ q) ps := by
  cases ps <;> simp [consFirst]

theorem splitAfter_cons {quoted : Bool} {c : Char} (h : c ≠ ',' ∨ quoted = true)
    (cs : List Char) :
    splitAfter quoted (c :: cs) =
      consFirst [c] (splitAfter (if c = '"' then !quoted else quoted) cs) := by
  have hc : ¬ (c = ',' && !quoted) = true := by
    rcases h with h | h <;> simp [h]
  rw [splitAfter, if_neg hc]
  cases splitAfter (if c = '"' then !quoted else quoted) cs <;> rfl

theorem splitAfter_quoted {content : List Char} (h : '"' ∉ content) (rest : List Char) :
    splitAfter true (content ++ '"' :: rest) =
      consFirst (content ++ ['"']) (splitAfter false rest) := by
  induction content with
  | nil => exact splitAfter_cons (.inr rfl) rest
  | cons c content ih =>
    simp only [List.mem_cons, not_or] at h
    rw [List.cons_append, splitAfter_cons (.inr rfl), if_neg (Ne.symm h.1), ih h.2,
      consFirst_consFirst]
    rfl

def Chunk.IsItem : Chunk → Prop
  | .char c => c ≠ ',' ∧ c ≠ '"'
  | .literal content => '"' ∉ content

theorem splitAfter_ne_nil (quoted : Bool) (cs : List Char) : splitAfter quoted cs ≠ [] := by
  cases cs with
  | nil => simp [splitAfter]
  | cons c cs =>
    unfold splitAfter
    split
    · simp
    · split <;> simp

theorem splitAfter_texts {xs : List Chunk} (h : ∀ x ∈ xs, x.IsItem) (rest : List Char) :
    splitAfter false (Chunk.texts xs ++ rest) =
      consFirst (Chunk.texts xs) (splitAfter false rest) := by
  induction xs with
  | nil =>
    cases hs : splitAfter false rest with
    | nil => exact absurd hs (splitAfter_ne_nil _ _)
    | cons p ps => exact hs
  | cons x xs ih =>
    have hx := h x List.mem_cons_self
    have ih' := ih fun y hy => h y (List.mem_cons_of_mem _ hy)
    have ht : Chunk.texts (x :: xs) = x.text ++ Chunk.texts xs := rfl
    rw [ht, ← consFirst_consFirst, ← ih', List.append_assoc]
    cases x with
    | char c =>
      rw [Chunk.text, List.singleton_append, splitAfter_cons (.inl hx.1), if_neg hx.2]
    | literal content =>
      have hc : '"' ∉ content := hx
      have hl : Chunk.text (.literal content) ++ (Chunk.texts xs ++ rest) =
          '"' :: (content ++ '"' :: (Chunk.texts xs ++ rest)) := by
        simp [Chunk.text]
      rw [hl, splitAfter_cons (.inl (by decide)), if_pos rfl]
      show consFirst ['"'] (splitAfter true _) = _
      rw [splitAfter_quoted hc, consFirst_consFirst]
      rfl

theorem split_texts {xs : List Chunk} (h : ∀ x ∈ xs, x.IsItem) :
    split (Chunk.texts xs) = [trim (Chunk.texts xs)] := by
  have hs := splitAfter_texts h []
  rw [List.append_nil] at hs
  rw [split, hs]
  simp [splitAfter, consFirst]

theorem split_spaces (n : Nat) (cs : List Char) :
    split (List.replicate n ' ' ++ cs) = split cs := by
  induction n with
  | zero => rfl
  | succ n ih =>
    have hs : split (' ' :: (List.replicate n ' ' ++ cs)) =
        split (List.replicate n ' ' ++ cs) := by
      rw [split, split, splitAfter_cons (.inl (by decide)), if_neg (by decide)]
      cases hp : splitAfter false (List.replicate n ' ' ++ cs) with
      | nil => exact absurd hp (splitAfter_ne_nil _ _)
      | cons p ps => rfl
    rw [List.replicate_succ, List.cons_append, hs, ih]

theorem split_comma {xs ys : List Chunk} (h : ∀ x ∈ xs, x.IsItem) (n : Nat) :
    split (Chunk.texts (xs ++ (comma n ++ ys))) =
      trim (Chunk.texts xs) :: split (Chunk.texts ys) := by
  have hr : Chunk.texts (List.replicate n (.char ' ')) = List.replicate n ' ' := by
    simp [Chunk.texts, List.flatMap_replicate, Chunk.text]
  have ht : Chunk.texts (xs ++ (comma n ++ ys)) =
      Chunk.texts xs ++ ',' :: (List.replicate n ' ' ++ Chunk.texts ys) := by
    rw [← hr]
    simp [Chunk.texts, Chunk.text, comma]
  rw [ht, split, splitAfter_texts h, ← split_spaces n (Chunk.texts ys)]
  simp [splitAfter, consFirst, split]

/-! ## Arguments outside of quotes -/

/-- A character that checksums and comparators are written with. -/
def isBareChar (c : Char) : Bool :=
  (hexDigit? c).isSome || ['x', 'X', '=', '!', '<', '>'].contains c

theorem toNat_lt_of_isSome_hexDigit? {c : Char} (h : (hexDigit? c).isSome = true) :
    c.toNat < 128 := by
  have hf : c ≤ '9' ∨ c ≤ 'f' ∨ c ≤ 'F' := by
    unfold hexDigit? at h
    split at h
    · simp_all
    · split at h
      · simp_all
      · split at h
        · simp_all
        · cases h
  simp only [Char.le_def, UInt32.le_iff_toNat_le] at hf
  have h9 : '9'.val.toNat = 57 := rfl
  have hf' : 'f'.val.toNat = 102 := rfl
  have hF : 'F'.val.toNat = 70 := rfl
  rw [Char.toNat]
  omega

theorem toNat_lt_of_isBareChar {c : Char} (h : isBareChar c = true) : c.toNat < 128 := by
  rw [isBareChar, Bool.or_eq_true] at h
  rcases h with h | h
  · exact toNat_lt_of_isSome_hexDigit? h
  · have hall : ∀ c ∈ ['x', 'X', '=', '!', '<', '>'], c.toNat < 128 :=
      List.all_iff_forall_prop.1 (by decide)
    exact hall c (by simpa using h)

/-- Such a character has no other meaning. -/
theorem meaning_of_isBareChar {c : Char} (h : isBareChar c = true) :
    isBlank c = false ∧ c ≠ ',' ∧ c ≠ '{' ∧ Literal.isQuote c = false ∧ c ≠ '(' ∧ c ≠ ')' ∧
      isLineEnd c = false := by
  have hall : ∀ n < 128, isBareChar (Char.ofNat n) = true →
      isBlank (Char.ofNat n) = false ∧ Char.ofNat n ≠ ',' ∧ Char.ofNat n ≠ '{' ∧
        Literal.isQuote (Char.ofNat n) = false ∧ Char.ofNat n ≠ '(' ∧ Char.ofNat n ≠ ')' ∧
        isLineEnd (Char.ofNat n) = false := by
    decide +kernel
  have hc := hall c.toNat (toNat_lt_of_isBareChar h)
  rw [Char.ofNat_toNat] at hc
  exact hc h

theorem isSome_of_hexValue? {ds : List Char} {n : Nat} (h : hexValue? ds = some n) :
    ∀ d ∈ ds, (hexDigit? d).isSome = true := by
  have hf : ∀ m, ds.foldlM (fun n c => (hexDigit? c).map (16 * n + ·)) m = some n →
      ∀ d ∈ ds, (hexDigit? d).isSome = true := by
    clear h
    induction ds with
    | nil => exact fun _ _ d hd => by cases hd
    | cons e ds ih =>
      intro m hm d hd
      rw [List.foldlM_cons] at hm
      obtain ⟨m', he, hm⟩ := Option.bind_eq_some_iff.1 hm
      rcases List.mem_cons.1 hd with rfl | hd
      · obtain ⟨v, hv, -⟩ := Option.map_eq_some_iff.1 he
        rw [hv]
        rfl
      · exact ih m' hm d hd
  unfold hexValue? at h
  split at h
  · cases h
  · exact hf 0 h

/-! ## Reading -/

theorem texts_plain (cs : List Char) : Chunk.texts (plain cs) = cs := by
  simp [Chunk.texts, plain, List.flatMap_map, Chunk.text]

theorem trim_plain {cs : List Char} (h : ∀ c ∈ cs, isBareChar c = true) :
    trim (Chunk.texts (plain cs)) = cs := by
  rw [texts_plain]
  refine trim_eq_self (fun c hc => ?_) fun c hc => ?_
  · exact (meaning_of_isBareChar (h c (List.mem_of_mem_head? hc))).1
  · exact (meaning_of_isBareChar (h c (List.mem_of_getLast? hc))).1

theorem isItem_plain {cs : List Char} (h : ∀ c ∈ cs, isBareChar c = true) :
    ∀ x ∈ plain cs, x.IsItem := by
  intro x hx
  obtain ⟨c, hc, rfl⟩ := List.mem_map.1 hx
  obtain ⟨-, hcomma, -, hq, -⟩ := meaning_of_isBareChar (h c hc)
  refine ⟨hcomma, ?_⟩
  rintro rfl
  cases hq

theorem texts_quoted (s : String) : Chunk.texts (quoted s) = '"' :: s.toList ++ ['"'] := by
  simp [Chunk.texts, quoted, Chunk.text]

theorem trim_quoted (s : String) : trim (Chunk.texts (quoted s)) = '"' :: s.toList ++ ['"'] := by
  rw [texts_quoted]
  exact trim_enclosed rfl rfl _

theorem isItem_quoted {s : String} (h : IsQuotable s) : ∀ x ∈ quoted s, x.IsItem := by
  intro x hx
  rw [List.mem_singleton.1 hx]
  exact h.1

/-- A string is read from between two quotes of the same kind. -/
theorem readString_enclosed {q : Char} (hq : Literal.isQuote q = true) {s : String}
    (hs : q ∉ s.toList) (hb : trailingBackslashes s.toList % 2 = 0) :
    readString (q :: s.toList ++ [q]) = .ok s := by
  have hu : unquote? (q :: s.toList ++ [q]) = some s.toList := by
    rw [List.cons_append, unquote?, if_pos hq, closing?_append hs]
  have hb : ¬ trailingBackslashes s.toList % 2 = 1 := by omega
  rw [readString, hu]
  simp only [if_neg hb, String.ofList_toList]

theorem readString_quoted {s : String} (h : IsQuotable s) :
    readString ('"' :: s.toList ++ ['"']) = .ok s :=
  readString_enclosed rfl h.1 h.2

theorem readComparator_symbol (sign : Comparator) :
    readComparator sign.symbol.toList = .ok sign := by
  rw [readComparator, String.ofList_toList]
  cases sign <;> rfl

theorem exists_hexMark (cs : List Char) :
    ∃ mark ∈ ["", "0x", "0X"], cs = mark.toList ++ withoutHexMark cs := by
  unfold withoutHexMark
  split
  · exact ⟨"0x", by decide, rfl⟩
  · exact ⟨"0X", by decide, rfl⟩
  · exact ⟨"", by decide, rfl⟩

theorem withoutHexMark_append {mark : String} (hm : mark ∈ ["", "0x", "0X"]) {ds : List Char}
    (hd : ∀ d ∈ ds, (hexDigit? d).isSome = true) : withoutHexMark (mark.toList ++ ds) = ds := by
  have hx : ds.tail.head? ≠ some 'x' ∧ ds.tail.head? ≠ some 'X' := by
    have hmem {c : Char} (h : ds.tail.head? = some c) : (hexDigit? c).isSome = true :=
      hd c (List.mem_of_mem_tail (List.mem_of_mem_head? h))
    exact ⟨fun h => absurd (hmem h) (by decide), fun h => absurd (hmem h) (by decide)⟩
  have hself : withoutHexMark ds = ds := by
    unfold withoutHexMark
    split
    · exact absurd rfl hx.1
    · exact absurd rfl hx.2
    · rfl
  rcases List.mem_cons.1 hm with rfl | hm
  · exact hself
  · rcases List.mem_cons.1 hm with rfl | hm
    · rfl
    · rw [List.mem_singleton.1 hm]
      rfl

theorem readChecksum_mark {mark : String} (hm : mark ∈ ["", "0x", "0X"]) {ds : List Char}
    {crc : UInt32} (hv : hexValue? ds = some crc.toNat) :
    readChecksum (mark.toList ++ ds) = .ok crc := by
  rw [readChecksum, withoutHexMark_append hm (isSome_of_hexValue? hv), hv]
  simp only [if_pos crc.toNat_lt]
  exact congrArg Except.ok UInt32.ofNat_toNat

theorem isBareChar_of_symbol (sign : Comparator) :
    ∀ c ∈ sign.symbol.toList, isBareChar c = true :=
  List.all_eq_true.1 (by cases sign <;> decide)

theorem isBareChar_of_checksum {mark : String} (hm : mark ∈ ["", "0x", "0X"]) {ds : List Char}
    {n : Nat} (hv : hexValue? ds = some n) : ∀ c ∈ mark.toList ++ ds, isBareChar c = true := by
  have hmark : ∀ mark ∈ ["", "0x", "0X"], mark.toList.all isBareChar = true := by decide
  intro c hc
  rcases List.mem_append.1 hc with hc | hc
  · exact List.all_eq_true.1 (hmark mark hm) c hc
  · rw [isBareChar, isSome_of_hexValue? hv c hc, Bool.true_or]

namespace Call

theorem split_writtenString {s : String} {args : List Chunk} (h : WrittenString s args) :
    split (Chunk.texts args) = ['"' :: s.toList ++ ['"']] := by
  obtain ⟨hq, rfl⟩ := h
  rw [split_texts (isItem_quoted hq), trim_quoted]

theorem split_writtenChecksum {path : String} {crc : UInt32} {args : List Chunk}
    (h : WrittenChecksum path crc args) :
    ∃ b, split (Chunk.texts args) = ['"' :: path.toList ++ ['"'], b] ∧
      readChecksum b = .ok crc := by
  obtain ⟨hp, n, mark, digits, hm, hv, rfl⟩ := h
  have hb : ∀ c ∈ mark.toList ++ digits, isBareChar c = true := isBareChar_of_checksum hm hv
  refine ⟨mark.toList ++ digits, ?_, readChecksum_mark hm hv⟩
  rw [List.append_assoc, split_comma (isItem_quoted hp), trim_quoted,
    split_texts (isItem_plain hb), trim_plain hb]

theorem split_writtenVersion {path given : String} {sign : Comparator} {args : List Chunk}
    (h : WrittenVersion path given sign args) :
    split (Chunk.texts args) =
      ['"' :: path.toList ++ ['"'], '"' :: given.toList ++ ['"'], sign.symbol.toList] := by
  obtain ⟨hp, hg, m, n, rfl⟩ := h
  have hb : ∀ c ∈ sign.symbol.toList, isBareChar c = true := isBareChar_of_symbol sign
  rw [List.append_assoc, List.append_assoc, List.append_assoc, split_comma (isItem_quoted hp),
    trim_quoted, split_comma (isItem_quoted hg), trim_quoted, split_texts (isItem_plain hb),
    trim_plain hb]

theorem readVersionArgs_quoted {path given : String} (hp : IsQuotable path)
    (hg : IsQuotable given) (sign : Comparator) :
    readVersionArgs ('"' :: path.toList ++ ['"']) ('"' :: given.toList ++ ['"'])
      sign.symbol.toList = .ok (path, given, sign) := by
  rw [readVersionArgs, readComparator_symbol, readString_quoted hp, readString_quoted hg]
  rfl

/-- What is written as the arguments of a call is read as that call. -/
theorem read_written {c : Call} {args : List Chunk} (h : c.Written args) :
    read c.function (Chunk.texts args) = .ok c := by
  unfold read
  cases c with
  | checksum path crc =>
    obtain ⟨b, hs, hb⟩ := split_writtenChecksum h
    simp only [function, hs, readString_quoted h.1, hb]
    rfl
  | version path given sign =>
    simp only [function, split_writtenVersion h, readVersionArgs_quoted h.1 h.2.1]
    rfl
  | productVersion path given sign =>
    simp only [function, split_writtenVersion h, readVersionArgs_quoted h.1 h.2.1]
    rfl
  | _ =>
    simp only [function, split_writtenString h, readString_quoted h.1]
    rfl

end Call

/-! ## Arguments and the text around them -/

/-- A character that arguments are written with, outside of literals. -/
def isArgChar (c : Char) : Bool := isBareChar c || c == ',' || c == ' '

/-- A piece of the arguments of a call. -/
def Chunk.IsArgument : Chunk → Prop
  | .char c => isArgChar c = true
  | .literal content => '"' ∉ content

theorem meaning_of_isArgChar {c : Char} (h : isArgChar c = true) :
    c ≠ '{' ∧ Literal.isQuote c = false ∧ c ≠ '(' ∧ c ≠ ')' ∧ isLineEnd c = false := by
  rw [isArgChar, Bool.or_eq_true, Bool.or_eq_true, beq_iff_eq, beq_iff_eq] at h
  rcases h with (h | rfl) | rfl
  · obtain ⟨-, -, hb, hq, ho, hc, hl⟩ := meaning_of_isBareChar h
    exact ⟨hb, hq, ho, hc, hl⟩
  · decide
  · decide

theorem Chunk.IsArgument.isPlain {x : Chunk} (h : x.IsArgument) : x.IsPlain := by
  cases x with
  | char c =>
    obtain ⟨hb, hq, -⟩ := meaning_of_isArgChar h
    exact ⟨hq, hb⟩
  | literal content => exact h

theorem meaning_of_mem_placeholder {n : Nat} {c : Char} (h : c ∈ Literal.placeholder n) :
    isBlank c = false ∧ c ≠ '(' ∧ c ≠ ')' ∧ isLineEnd c = false := by
  rcases List.mem_append.1 h with h | h
  · rcases List.mem_cons.1 h with rfl | h
    · decide
    · have hd : isDigit c = true := isDigit_of_mem_numeral h
      have hb : isBareChar c = true := by
        rw [isDigit] at hd
        rw [isBareChar, hexDigit?, if_pos hd]
        rfl
      obtain ⟨hblank, -, -, -, hmeaning⟩ := meaning_of_isBareChar hb
      exact ⟨hblank, hmeaning⟩
  · rw [List.mem_singleton.1 h]
    decide

/-- Once they are masked, arguments contain neither parentheses nor line ends. -/
theorem masked_isArgument {xs : List Chunk} (h : ∀ x ∈ xs, x.IsArgument) (n : Nat) :
    ∀ c ∈ Glyph.texts (number n xs), c ≠ '(' ∧ c ≠ ')' ∧ isLineEnd c = false := by
  induction xs generalizing n with
  | nil => exact fun c hc => by cases hc
  | cons x xs ih =>
    have ih' := fun n => ih (fun y hy => h y (List.mem_cons_of_mem _ hy)) n
    have hx := h x List.mem_cons_self
    intro c hc
    cases x with
    | char d =>
      rcases List.mem_cons.1 hc with rfl | hc
      · exact (meaning_of_isArgChar hx).2.2
      · exact ih' n c hc
    | literal content =>
      rcases List.mem_append.1 hc with hc | hc
      · exact (meaning_of_mem_placeholder hc).2
      · exact ih' (n + 1) c hc

namespace Call

theorem isArgument_comma (n : Nat) : ∀ x ∈ comma n, x.IsArgument := by
  intro x hx
  rcases List.mem_cons.1 hx with rfl | hx
  · rfl
  · rw [List.eq_of_mem_replicate hx]
    rfl

theorem isArgument_quoted {s : String} (h : IsQuotable s) : ∀ x ∈ quoted s, x.IsArgument := by
  intro x hx
  rw [List.mem_singleton.1 hx]
  exact h.1

theorem isArgument_plain {cs : List Char} (h : ∀ c ∈ cs, isBareChar c = true) :
    ∀ x ∈ plain cs, x.IsArgument := by
  intro x hx
  obtain ⟨c, hc, rfl⟩ := List.mem_map.1 hx
  show isArgChar c = true
  rw [isArgChar, h c hc, Bool.true_or, Bool.true_or]

theorem isArgument_of_written {c : Call} {args : List Chunk} (h : c.Written args) :
    ∀ x ∈ args, x.IsArgument := by
  have hs {s : String} {args : List Chunk} (h : WrittenString s args) :
      ∀ x ∈ args, x.IsArgument := by
    obtain ⟨hq, rfl⟩ := h
    exact isArgument_quoted hq
  have hv {path given : String} {sign : Comparator} {args : List Chunk}
      (h : WrittenVersion path given sign args) : ∀ x ∈ args, x.IsArgument := by
    obtain ⟨hp, hg, m, n, rfl⟩ := h
    simp only [List.forall_mem_append]
    exact ⟨⟨⟨⟨isArgument_quoted hp, isArgument_comma m⟩, isArgument_quoted hg⟩,
      isArgument_comma n⟩, isArgument_plain (isBareChar_of_symbol sign)⟩
  cases c with
  | checksum path crc =>
    obtain ⟨hp, n, mark, digits, hm, hd, rfl⟩ := h
    simp only [List.forall_mem_append]
    exact ⟨⟨isArgument_quoted hp, isArgument_comma n⟩,
      isArgument_plain (isBareChar_of_checksum hm hd)⟩
  | version path given sign => exact hv h
  | productVersion path given sign => exact hv h
  | _ => exact hs h

/-- Every call has a literal, which sets it apart from every other one. -/
theorem literals_ne_nil_of_written {c : Call} {args : List Chunk} (h : c.Written args) :
    Chunk.literals args ≠ [] := by
  have hq (s : String) (xs : List Chunk) : Chunk.literals (quoted s ++ xs) ≠ [] := by
    rw [literals_append]
    simp [quoted, Chunk.literals, Chunk.literal?]
  cases c with
  | checksum path crc =>
    obtain ⟨-, n, mark, digits, -, -, rfl⟩ := h
    rw [List.append_assoc]
    exact hq _ _
  | version path given sign =>
    obtain ⟨-, -, m, n, rfl⟩ := h
    rw [List.append_assoc, List.append_assoc, List.append_assoc]
    exact hq _ _
  | productVersion path given sign =>
    obtain ⟨-, -, m, n, rfl⟩ := h
    rw [List.append_assoc, List.append_assoc, List.append_assoc]
    exact hq _ _
  | _ =>
    obtain ⟨-, rfl⟩ := h
    simp [quoted, Chunk.literals, Chunk.literal?]

end Call

end PluginAudit.Condition
