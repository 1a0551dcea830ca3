import Mathlib.Data.List.Basic
import Mathlib.Order.Bounds.Basic
import PluginAudit.Executable
import PluginAudit.Proofs.Masking
import PluginAudit.Proofs.PluginImage

/-!
# Versions from the first block

The search for a version block goes from one signature to the next. Those that are not aligned, or
too close to the end, may overlap the block and each other; none of them hides it
(`isLeast_of_findBlock?`). All that is read of a block lies inside, so an executable has versions if
and only if it has a block, and they are those written in the first one (`versions?_first_block`).
-/

namespace PluginAudit.Executable

open Bytes Plugin
open Condition (isDigit_of_mem_numeral numeral_injective)
open Condition.Literal (numeral)

variable {b : ByteArray}

/-! ## Words that are read -/

theorem exists_hasBytes {offset n : Nat} (h : offset + n ≤ b.size) :
    ∃ bs, bs.length = n ∧ HasBytes b offset bs := by
  have hlength : b.data.toList.length = b.size := rfl
  refine ⟨(b.data.toList.drop offset).take n, by simp; omega, b.data.toList.take offset,
    (b.data.toList.drop offset).drop n, ?_, by simp; omega⟩
  rw [List.append_assoc, List.take_append_drop, List.take_append_drop]

/-- Any four bytes are those of a word. -/
theorem exists_le32 {bs : List UInt8} (h : bs.length = 4) : ∃ w : UInt32, le32 w.toNat = bs := by
  match bs, h with
  | [x, y, z, t], _ =>
    have hx := x.toNat_lt
    have hy := y.toNat_lt
    have hz := z.toNat_lt
    have ht := t.toNat_lt
    have hw : (UInt32.ofNat (2 ^ 24 * t.toNat + 2 ^ 16 * z.toNat + 2 ^ 8 * y.toNat +
        x.toNat)).toNat = 2 ^ 24 * t.toNat + 2 ^ 16 * z.toNat + 2 ^ 8 * y.toNat + x.toNat := by
      rw [UInt32.toNat_ofNat']
      omega
    refine ⟨_, congrArg le32 hw |>.trans ?_⟩
    simp only [le32, List.cons.injEq, ← UInt8.toNat_inj, UInt8.toNat_ofNat', and_true]
    omega

/-- A word is read where its bytes are. -/
theorem u32?_eq_some_iff {i : Nat} {w : UInt32} :
    u32? b i = some w ↔ HasBytes b i (le32 w.toNat) := by
  have hread : ∀ w : UInt32, HasBytes b i (le32 w.toNat) → u32? b i = some w := fun w h => by
    rw [h.u32?_le32 w.toNat_lt, UInt32.ofNat_toNat]
  refine ⟨fun h => ?_, hread w⟩
  have hsize : i + 4 ≤ b.size := isSome_u32?.1 (by rw [h]; rfl)
  obtain ⟨bs, hlength, hbytes⟩ := exists_hasBytes hsize
  obtain ⟨w', rfl⟩ := exists_le32 hlength
  obtain rfl : w = w' := Option.some.inj (h.symm.trans (hread w' hbytes))
  exact hbytes

/-! ## The search -/

/-- Whether the signature stands at an offset. -/
def IsSigned (b : ByteArray) (i : Nat) : Prop := HasBytes b i [0xBD, 0x04, 0xEF, 0xFE]

/-- Whether there is a complete version block at an offset. -/
structure IsBlock (b : ByteArray) (i : Nat) : Prop where
  aligned : 4 ∣ i
  signed : IsSigned b i
  complete : i + 52 ≤ b.size

theorem isSigned_iff {i : Nat} : IsSigned b i ↔ u32? b i = some signature := by
  rw [u32?_eq_some_iff]
  exact Iff.of_eq (congrArg (HasBytes b i) (by decide))

theorem IsSigned.size {i : Nat} (h : IsSigned b i) : i + 4 ≤ b.size := HasBytes.size h

/-- Where the search goes on, nothing is lost if nothing is there that it looks for. -/
theorem setOf_from_succ {P : Nat → Prop} {i : Nat} (h : ¬ P i) :
    {k | i ≤ k ∧ P k} = {k | i + 1 ≤ k ∧ P k} := by
  ext k
  constructor
  · rintro ⟨hk, hP⟩
    have hne : i ≠ k := fun he => h (he ▸ hP)
    exact ⟨Nat.lt_of_le_of_ne hk hne, hP⟩
  · rintro ⟨hk, hP⟩
    exact ⟨Nat.le_of_succ_le hk, hP⟩

theorem isLeast_of_nextSignature? {i j : Nat} (h : nextSignature? b i = some j) :
    IsLeast {k | i ≤ k ∧ IsSigned b k} j := by
  fun_induction nextSignature? b i with
  | case1 i hsize hhit =>
    cases h
    exact ⟨⟨Nat.le_refl _, isSigned_iff.2 hhit⟩, fun k hk => hk.1⟩
  | case2 i hsize hmiss ih =>
    rw [setOf_from_succ (mt isSigned_iff.1 hmiss)]
    exact ih h
  | case3 => cases h

theorem eq_empty_of_nextSignature? {i : Nat} (h : nextSignature? b i = none) :
    {k | i ≤ k ∧ IsSigned b k} = ∅ := by
  fun_induction nextSignature? b i with
  | case1 => cases h
  | case2 i hsize hmiss ih =>
    rw [setOf_from_succ (mt isSigned_iff.1 hmiss)]
    exact ih h
  | case3 i hsize =>
    refine Set.eq_empty_iff_forall_notMem.2 fun k hk => hsize ?_
    have := hk.2.size
    have := hk.1
    omega

/-- A signature that is not that of a block may be passed over: no block begins before it either. -/
theorem setOf_isBlock_eq {i j : Nat} (h : IsLeast {k | i ≤ k ∧ IsSigned b k} j)
    (hj : ¬ IsBlock b j) : {k | i ≤ k ∧ IsBlock b k} = {k | j + 1 ≤ k ∧ IsBlock b k} := by
  rw [← setOf_from_succ hj]
  ext k
  constructor
  · rintro ⟨hk, hblock⟩
    exact ⟨h.2 ⟨hk, hblock.signed⟩, hblock⟩
  · rintro ⟨hk, hblock⟩
    exact ⟨h.1.1.trans hk, hblock⟩

theorem isBlock_iff {i : Nat} (h : IsSigned b i) :
    IsBlock b i ↔ i % 4 = 0 ∧ i + blockSize ≤ b.size :=
  ⟨fun hblock => ⟨Nat.mod_eq_zero_of_dvd hblock.aligned, hblock.complete⟩,
    fun ⟨haligned, hcomplete⟩ => ⟨Nat.dvd_of_mod_eq_zero haligned, h, hcomplete⟩⟩

/-- The block that is found is the first one. -/
theorem isLeast_of_findBlock? {i j : Nat} (h : findBlock? b i = some j) :
    IsLeast {k | i ≤ k ∧ IsBlock b k} j := by
  fun_induction findBlock? b i with
  | case1 => cases h
  | case2 i j' hnext hblock =>
    cases h
    obtain ⟨⟨hle, hsigned⟩, hleast⟩ := isLeast_of_nextSignature? hnext
    exact ⟨⟨hle, (isBlock_iff hsigned).2 hblock⟩, fun k hk => hleast ⟨hk.1, hk.2.signed⟩⟩
  | case3 i j' hnext hblock ih =>
    have hsignature := isLeast_of_nextSignature? hnext
    rw [setOf_isBlock_eq hsignature (mt (isBlock_iff hsignature.1.2).1 hblock)]
    exact ih h

theorem eq_empty_of_findBlock? {i : Nat} (h : findBlock? b i = none) :
    {k | i ≤ k ∧ IsBlock b k} = ∅ := by
  fun_induction findBlock? b i with
  | case1 i hnext =>
    have hsigned : {k | i ≤ k ∧ IsBlock b k} ⊆ {k | i ≤ k ∧ IsSigned b k} :=
      fun k hk => ⟨hk.1, hk.2.signed⟩
    rwa [eq_empty_of_nextSignature? hnext, Set.subset_empty_iff] at hsigned
  | case2 => cases h
  | case3 i j hnext hblock ih =>
    have hsignature := isLeast_of_nextSignature? hnext
    rw [setOf_isBlock_eq hsignature (mt (isBlock_iff hsignature.1.2).1 hblock)]
    exact ih h

theorem setOf_from_zero : {k | 0 ≤ k ∧ IsBlock b k} = {k | IsBlock b k} := by
  simp only [Nat.zero_le, true_and]

theorem exists_findBlock? {i : Nat} (h : IsBlock b i) : ∃ j, findBlock? b 0 = some j := by
  refine Option.ne_none_iff_exists'.1 fun hnone => ?_
  have hempty := eq_empty_of_findBlock? hnone
  rw [setOf_from_zero] at hempty
  exact Set.eq_empty_iff_forall_notMem.1 hempty i h

theorem findBlock?_eq_some_iff {i : Nat} :
    findBlock? b 0 = some i ↔ IsLeast {k | IsBlock b k} i := by
  rw [← setOf_from_zero]
  refine ⟨isLeast_of_findBlock?, fun h => ?_⟩
  obtain ⟨j, hj⟩ := exists_findBlock? h.1.2
  rw [hj, (isLeast_of_findBlock? hj).unique h]

/-! ## The versions of a block -/

/-- The four numbers of a version. -/
structure Numbers where
  first : UInt16
  second : UInt16
  third : UInt16
  fourth : UInt16

namespace Numbers

/-- The two words of a version; of two numbers in one word the first is the high half. -/
def bytes (n : Numbers) : List UInt8 :=
  le32 (2 ^ 16 * n.first.toNat + n.second.toNat) ++ le32 (2 ^ 16 * n.third.toNat + n.fourth.toNat)

/-- The numbers of a version, with dots between them. -/
def text (n : Numbers) : String :=
  ".".intercalate ([n.first, n.second, n.third, n.fourth].map fun w => toString w.toNat)

theorem length_bytes (n : Numbers) : n.bytes.length = 8 := rfl

theorem splitOn_text (n : Numbers) :
    n.text.toList.splitOn '.' =
      [n.first, n.second, n.third, n.fourth].map fun w => numeral w.toNat := by
  have hdot : ∀ l ∈ [n.first, n.second, n.third, n.fourth].map fun w => numeral w.toNat,
      '.' ∉ l :=
    List.forall_mem_map.2 fun w _ h => absurd (isDigit_of_mem_numeral h) (by decide)
  rw [text, String.toList_intercalate, List.map_map]
  exact List.splitOn_intercalate '.' hdot (by simp)

/-- The text of a version tells its numbers. -/
theorem text_injective : Function.Injective text := by
  intro n m h
  have hnumeral : Function.Injective fun w : UInt16 => numeral w.toNat := fun _ _ h =>
    UInt16.toNat_inj.1 (numeral_injective h)
  have hnumbers : [n.first, n.second, n.third, n.fourth] =
      [m.first, m.second, m.third, m.fourth] :=
    hnumeral.list_map (by rw [← splitOn_text, ← splitOn_text, h])
  obtain ⟨n₁, n₂, n₃, n₄⟩ := n
  obtain ⟨m₁, m₂, m₃, m₄⟩ := m
  simpa using hnumbers

/-- The two numbers of a word. -/
theorem exists_halves (w : UInt32) :
    ∃ high low : UInt16, 2 ^ 16 * high.toNat + low.toNat = w.toNat := by
  refine ⟨UInt16.ofNat (w.toNat / 2 ^ 16), UInt16.ofNat (w.toNat % 2 ^ 16), ?_⟩
  have hw := w.toNat_lt
  rw [UInt16.toNat_ofNat', UInt16.toNat_ofNat']
  omega

/-- Any eight bytes are those of a version. -/
theorem exists_bytes {bs : List UInt8} (h : bs.length = 8) : ∃ n : Numbers, n.bytes = bs := by
  obtain ⟨u, hu⟩ := exists_le32 (show (bs.take 4).length = 4 by simp [h])
  obtain ⟨v, hv⟩ := exists_le32 (show (bs.drop 4).length = 4 by simp [h])
  obtain ⟨first, second, hfirst⟩ := exists_halves u
  obtain ⟨third, fourth, hthird⟩ := exists_halves v
  refine ⟨⟨first, second, third, fourth⟩, ?_⟩
  rw [bytes, hfirst, hthird, hu, hv, List.take_append_drop]

end Numbers

theorem toNat_high {w : UInt32} {high low : UInt16}
    (h : w.toNat = 2 ^ 16 * high.toNat + low.toNat) : (w >>> 16).toNat = high.toNat := by
  have hlow := low.toNat_lt
  rw [UInt32.toNat_shiftRight, Nat.shiftRight_eq_div_pow, h]
  exact (by omega : (2 ^ 16 * high.toNat + low.toNat) / 2 ^ 16 = high.toNat)

theorem toNat_low {w : UInt32} {high low : UInt16}
    (h : w.toNat = 2 ^ 16 * high.toNat + low.toNat) : (w &&& 0xFFFF).toNat = low.toNat := by
  have hlow := low.toNat_lt
  rw [UInt32.toNat_and, h]
  exact (Nat.and_two_pow_sub_one_eq_mod _ 16).trans (by omega)

/-- Of a version that is written, every number is read. -/
theorem versionAt?_of_hasBytes {i : Nat} {n : Numbers} (h : HasBytes b i n.bytes) :
    versionAt? b i = some n.text := by
  have hfirst := n.first.toNat_lt
  have hsecond := n.second.toNat_lt
  have hthird := n.third.toNat_lt
  have hfourth := n.fourth.toNat_lt
  have hhigh : 2 ^ 16 * n.first.toNat + n.second.toNat < 2 ^ 32 := by omega
  have hlow : 2 ^ 16 * n.third.toNat + n.fourth.toNat < 2 ^ 32 := by omega
  have hword : ∀ {m : Nat}, m < 2 ^ 32 → (UInt32.ofNat m).toNat = m := fun hm => by
    rw [UInt32.toNat_ofNat', Nat.mod_eq_of_lt hm]
  have hnext : u32? b (i + 4) = _ := h.right.u32?_le32 hlow
  rw [versionAt?, h.left.u32?_le32 hhigh, hnext]
  simp only [versionText, List.map_cons, toNat_high (hword hhigh), toNat_low (hword hhigh),
    toNat_high (hword hlow), toNat_low (hword hlow)]
  rfl

/-- The versions of an executable are those of its first block. -/
theorem versions?_of_isLeast {i : Nat} (h : IsLeast {i | IsBlock b i} i) {file product : Numbers}
    (hbytes : HasBytes b (i + 8) (file.bytes ++ product.bytes)) :
    versions? b = some ⟨file.text, product.text⟩ := by
  have hproduct : versionAt? b (i + 16) = some product.text :=
    versionAt?_of_hasBytes hbytes.right
  rw [versions?, findBlock?_eq_some_iff.2 h, Option.bind_some,
    versionAt?_of_hasBytes hbytes.left, hproduct]

/-- In a block there are two versions. -/
theorem IsBlock.exists_bytes {i : Nat} (h : IsBlock b i) :
    ∃ file product : Numbers, HasBytes b (i + 8) (file.bytes ++ product.bytes) := by
  obtain ⟨bs, hlength, hbytes⟩ :=
    exists_hasBytes (show (i + 8) + 16 ≤ b.size by have := h.complete; omega)
  obtain ⟨file, hfile⟩ := Numbers.exists_bytes (show (bs.take 8).length = 8 by simp [hlength])
  obtain ⟨product, hproduct⟩ :=
    Numbers.exists_bytes (show (bs.drop 8).length = 8 by simp [hlength])
  refine ⟨file, product, ?_⟩
  rwa [hfile, hproduct, List.take_append_drop]

/-- An executable has versions if and only if it has a complete block. They are read from the first
one: the numbers that are written in it are those of the texts, and no others. -/
theorem versions?_first_block (b : ByteArray) :
    ((versions? b).isSome = true ↔ ∃ i, IsBlock b i) ∧
      ∀ i, IsLeast {i | IsBlock b i} i →
        (∃ file product : Numbers, HasBytes b (i + 8) (file.bytes ++ product.bytes)) ∧
          ∀ file product : Numbers, versions? b = some ⟨file.text, product.text⟩ ↔
            HasBytes b (i + 8) (file.bytes ++ product.bytes) := by
  constructor
  · constructor
    · intro h
      obtain ⟨v, hv⟩ := Option.isSome_iff_exists.1 h
      obtain ⟨i, hi, -⟩ := Option.bind_eq_some_iff.1 hv
      exact ⟨i, (findBlock?_eq_some_iff.1 hi).1⟩
    · rintro ⟨i, hi⟩
      obtain ⟨j, hj⟩ := exists_findBlock? hi
      have hleast := findBlock?_eq_some_iff.1 hj
      obtain ⟨file, product, hbytes⟩ := hleast.1.exists_bytes
      rw [versions?_of_isLeast hleast hbytes]
      rfl
  · intro i hi
    refine ⟨hi.1.exists_bytes, fun file product => ⟨fun h => ?_, versions?_of_isLeast hi⟩⟩
    obtain ⟨file', product', hbytes⟩ := hi.1.exists_bytes
    have heq := (versions?_of_isLeast hi hbytes).symm.trans h
    simp only [Option.some.injEq, Versions.mk.injEq] at heq
    rwa [Numbers.text_injective heq.1, Numbers.text_injective heq.2] at hbytes

/-- A signature that is not aligned stands before the block. -/
example : versions? ⟨(([0, 0, 0xBD, 0x04, 0xEF, 0xFE, 0, 0, 0xBD, 0x04, 0xEF, 0xFE, 0, 0, 1, 0,
    2, 0, 1, 0, 4, 0, 3, 0, 0, 0, 5, 0, 7, 0, 0, 0] ++ List.replicate 28 0 : List UInt8)).toArray⟩ =
    some ⟨"1.2.3.4", "5.0.0.7"⟩ := by decide +kernel

end PluginAudit.Executable
