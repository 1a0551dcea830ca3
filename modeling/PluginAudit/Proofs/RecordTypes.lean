import Mathlib.Data.Nat.Bitwise
import PluginAudit.Proofs.HeaderWalk
import PluginAudit.Proofs.PluginImage

/-!
# Types are told by their low seven bits

The types of a plugin's headers are compared without the top bits of their bytes. So bytes that
differ from a plugin in such bits only are read like it (`Reads.retype`), and the types are told
byte by byte just where none of those that count has such a bit set (`Reads.exact_iff`).
-/

namespace PluginAudit.Plugin

open Bytes

/-- Bytes that differ from others in the top bits of the types of some headers only. -/
structure Retyped (hs : List Header) (b b' : ByteArray) : Prop where
  alike : ∀ i : Nat, b'.data[i]?.map lowSeven = b.data[i]?.map lowSeven
  types : ∀ i : Nat, b'.data[i]? = b.data[i]? ∨ ∃ h ∈ hs, h.offset ≤ i ∧ i < h.offset + 4

variable {seen : UInt8 → UInt8} {b b' : ByteArray} {p q : Place} {h : Header} {hs : List Header}

/-! ## Types byte by byte -/

theorem Reserved.map_lowSeven_bytes (t : Reserved) : t.bytes.map lowSeven = t.bytes := by
  cases t <;> rfl

theorem Reserved.bytes_lt (t : Reserved) : ∀ x ∈ t.bytes, x < 0x80 := by
  cases t <;> simp [bytes]

theorem lowSeven_eq_self {x : UInt8} (h : x < 0x80) : lowSeven x = x := by
  have hx : x.toNat < 2 ^ 7 := UInt8.lt_iff_toNat_lt.1 h
  rw [← UInt8.toNat_inj, lowSeven, UInt8.toNat_and]
  exact (Nat.and_two_pow_sub_one_eq_mod _ 7).trans (Nat.mod_eq_of_lt hx)

namespace HasType

variable {offset : Nat} {t : Reserved}

/-- What has a type byte by byte has it without top bits as well. -/
theorem low (h : HasType id b offset t) : HasType lowSeven b offset t := by
  rw [HasType, List.map_id] at h
  rw [HasType, h, t.map_lowSeven_bytes]

/-- A type is there byte by byte if its low bits are and no other. -/
theorem exact_iff (h : HasType lowSeven b offset t) :
    HasType id b offset t ↔ ∀ x ∈ slice b offset (offset + 4), x < 0x80 := by
  constructor
  · intro hexact
    rw [HasType, List.map_id] at hexact
    rw [hexact]
    exact t.bytes_lt
  · intro hlow
    rw [HasType, ← h]
    exact (List.map_congr_left fun x hx => lowSeven_eq_self (hlow x hx)).symm

end HasType

/-- Where the type that counts is there byte by byte, a step is one that sees all of it. -/
theorem Step.exact_of_hasType (hstep : Step lowSeven b p h q)
    (htypes : ∀ t ∈ h.role.reserved?, HasType id b h.offset t) : Step id b p h q := by
  cases hstep with
  | header _ hsize hflags hstop => exact .header (htypes _ rfl) hsize hflags hstop
  | field hstart hlength hstop hrole =>
    refine .field hstart hlength hstop ?_
    cases hrole with
    | length _ hfour hn => exact .length (htypes _ rfl) hfour hn
    | version _ hfour hv => exact .version (htypes _ rfl) hfour hv
    | master => exact .master (htypes _ rfl)
    | other hlength hversion hmaster =>
      exact .other (fun hid => hlength (hid.imp_left HasType.low))
        (fun hid => hversion (hid.imp_left HasType.low)) (fun hid => hmaster hid.low)
  | group hstart _ hsize hlow hstop => exact .group hstart (htypes _ rfl) hsize hlow hstop
  | record hstart htype hsize hformId hstop =>
    exact .record hstart (fun hid => htype hid.low) hsize hformId hstop

theorem Walk.exact_of_hasType (hwalk : Walk lowSeven b p hs q)
    (htypes : ∀ h ∈ hs, ∀ t ∈ h.role.reserved?, HasType id b h.offset t) : Walk id b p hs q := by
  induction hwalk with
  | nil => exact .nil
  | cons hstep _ ih =>
    obtain ⟨htype, hrest⟩ := List.forall_mem_cons.1 htypes
    exact .cons (hstep.exact_of_hasType htype) (ih hrest)

/-- The types are told byte by byte where none of those that count has a top bit set. -/
theorem Reads.exact_iff (hreads : Reads lowSeven b hs) :
    Reads id b hs ↔ ∀ h ∈ hs, h.role.reserved?.isSome →
      ∀ x ∈ slice b h.offset (h.offset + 4), x < 0x80 := by
  obtain ⟨hsize, length?, hwalk⟩ := hreads
  constructor
  · rintro ⟨-, _, hexact⟩ h hh hcounts
    obtain ⟨t, ht⟩ := Option.isSome_iff_exists.1 hcounts
    exact (hwalk.hasType h hh t ht).exact_iff.1 (hexact.hasType h hh t ht)
  · intro hlow
    refine ⟨hsize, length?, hwalk.exact_of_hasType fun h hh t ht => ?_⟩
    exact (hwalk.hasType h hh t ht).exact_iff.2 (hlow h hh (Option.isSome_iff_exists.2 ⟨t, ht⟩))

/-! ## Bytes that are the same -/

theorem getElem?_slice (b : ByteArray) (start stop i : Nat) :
    (slice b start stop)[i]? = if i < stop - start then b.data[start + i]? else none := by
  rw [slice, ByteArray.data_extract, Array.toList_extract, List.extract_eq_take_drop,
    List.getElem?_take, List.getElem?_drop, Array.getElem?_toList]

theorem map_slice_congr {α : Type} (f : UInt8 → α) {start stop : Nat}
    (hsame : ∀ i, start ≤ i → i < stop → b'.data[i]?.map f = b.data[i]?.map f) :
    (slice b' start stop).map f = (slice b start stop).map f := by
  refine List.ext_getElem? fun i => ?_
  rw [List.getElem?_map, List.getElem?_map, getElem?_slice, getElem?_slice]
  by_cases hi : i < stop - start
  · rw [if_pos hi, if_pos hi]
    exact hsame _ (by omega) (by omega)
  · rw [if_neg hi, if_neg hi]

theorem slice_congr {start stop : Nat}
    (hsame : ∀ i, start ≤ i → i < stop → b'.data[i]? = b.data[i]?) :
    slice b' start stop = slice b start stop := by
  have hmap : (slice b' start stop).map id = (slice b start stop).map id :=
    map_slice_congr id fun i hi hi' => congrArg (Option.map id) (hsame i hi hi')
  rwa [List.map_id, List.map_id] at hmap

theorem getElem_congr {i : Nat} (hsame : b'.data[i]? = b.data[i]?) (hi' : i < b'.size)
    (hi : i < b.size) : b'[i] = b[i] := by
  rw [ByteArray.getElem_eq_getElem_data, ByteArray.getElem_eq_getElem_data]
  exact Option.some.inj ((Array.getElem?_eq_getElem hi').symm.trans
    (hsame.trans (Array.getElem?_eq_getElem hi)))

theorem u16?_congr {i : Nat} (hsize : b'.size = b.size)
    (hsame : ∀ j, i ≤ j → j < i + 2 → b'.data[j]? = b.data[j]?) : u16? b' i = u16? b i := by
  by_cases hi : i + 2 ≤ b.size
  · rw [u16?, u16?, dif_pos hi, dif_pos (hsize ▸ hi)]
    rw [getElem_congr (hsame i (by omega) (by omega)) (by omega) (by omega),
      getElem_congr (hsame (i + 1) (by omega) (by omega)) (by omega) (by omega)]
  · rw [u16?, u16?, dif_neg hi, dif_neg (hsize ▸ hi)]

theorem u32?_congr {i : Nat} (hsize : b'.size = b.size)
    (hsame : ∀ j, i ≤ j → j < i + 4 → b'.data[j]? = b.data[j]?) : u32? b' i = u32? b i := by
  by_cases hi : i + 4 ≤ b.size
  · rw [u32?, u32?, dif_pos hi, dif_pos (hsize ▸ hi)]
    rw [getElem_congr (hsame i (by omega) (by omega)) (by omega) (by omega),
      getElem_congr (hsame (i + 1) (by omega) (by omega)) (by omega) (by omega),
      getElem_congr (hsame (i + 2) (by omega) (by omega)) (by omega) (by omega),
      getElem_congr (hsame (i + 3) (by omega) (by omega)) (by omega) (by omega)]
  · rw [u32?, u32?, dif_neg hi, dif_neg (hsize ▸ hi)]

/-! ## Bytes that differ in top bits -/

namespace Retyped

theorem symm (hb : Retyped hs b b') : Retyped hs b' b :=
  ⟨fun i => (hb.alike i).symm, fun i => (hb.types i).imp_left Eq.symm⟩

theorem size_eq (hb : Retyped hs b b') : b'.size = b.size := by
  have hle (i : Nat) : b'.size ≤ i ↔ b.size ≤ i :=
    calc b'.size ≤ i
      _ ↔ b'.data[i]?.map lowSeven = none := by
        rw [Option.map_eq_none_iff, Array.getElem?_eq_none_iff, ByteArray.size]
      _ ↔ b.data[i]?.map lowSeven = none := by rw [hb.alike i]
      _ ↔ b.size ≤ i := by
        rw [Option.map_eq_none_iff, Array.getElem?_eq_none_iff, ByteArray.size]
  exact Nat.le_antisymm ((hle _).2 (Nat.le_refl _)) ((hle _).1 (Nat.le_refl _))

theorem hasType_iff (hb : Retyped hs b b') {offset : Nat} {t : Reserved} :
    HasType lowSeven b' offset t ↔ HasType lowSeven b offset t := by
  rw [HasType, HasType, map_slice_congr lowSeven fun i _ _ => hb.alike i]

end Retyped

/-- A step is the same in bytes that are the same from the type of its header on to the next, and
everywhere but for top bits. -/
theorem Step.retype (hstep : Step lowSeven b p h q) (hsize : b'.size = b.size)
    (hbody : bodyOffset b' = bodyOffset b)
    (htype : ∀ offset t, HasType lowSeven b' offset t ↔ HasType lowSeven b offset t)
    (hsame : ∀ i, p.offset + 4 ≤ i → i < q.offset → b'.data[i]? = b.data[i]?) :
    Step lowSeven b' p h q := by
  have hword {i : Nat} (hi : p.offset + 4 ≤ i) (hi' : i + 4 ≤ q.offset) : u32? b' i = u32? b i :=
    u32?_congr hsize fun j hj hj' => hsame j (by omega) (by omega)
  cases hstep with
  | header hheader hs hflags hstop =>
    dsimp only at hword
    exact .header ((htype _ _).2 hheader) ((hword (by omega) (by omega)).trans hs)
      ((hword (by omega) (by omega)).trans hflags) (hsize ▸ hstop)
  | group hstart hgroup hs hlow hstop =>
    dsimp only at hword
    exact .group (hbody ▸ hstart) ((htype _ _).2 hgroup)
      ((hword (by omega) (by omega)).trans hs) hlow (hsize ▸ hstop)
  | record hstart hgroup hs hformId hstop =>
    dsimp only at hword
    exact .record (hbody ▸ hstart) (mt (htype _ _).1 hgroup)
      ((hword (by omega) (by omega)).trans hs) ((hword (by omega) (by omega)).trans hformId)
      (hsize ▸ hstop)
  | @field p length role hstart hlength hstop hrole =>
    dsimp only at hword hsame
    have hown : u16? b' (p.offset + 4) = u16? b (p.offset + 4) :=
      u16?_congr hsize fun j hj hj' => hsame j hj (by omega)
    refine .field hstart ?_ (hbody ▸ hstop) ?_
    · rw [Place.length, hown]
      exact hlength
    · cases hrole with
      | length hl hfour hn =>
        exact .length ((htype _ _).2 hl) hfour ((hword (by omega) (by omega)).trans hn)
      | version hv hfour hn =>
        exact .version ((htype _ _).2 hv) hfour ((hword (by omega) (by omega)).trans hn)
      | master hm =>
        have hname : slice b' (p.offset + 6) (p.offset + 6 + length) =
            slice b (p.offset + 6) (p.offset + 6 + length) :=
          slice_congr fun i hi hi' => hsame i (by omega) hi'
        exact hname ▸ .master ((htype _ _).2 hm)
      | other hlength hversion hmaster =>
        exact .other (fun h => hlength (h.imp_left (htype _ _).1))
          (fun h => hversion (h.imp_left (htype _ _).1)) (mt (htype _ _).1 hmaster)

/-- Past the type of a header and before the next header there is no type. -/
theorem Walk.no_type_between {r : Place} (hstep : Step seen b p h q) (hrest : Walk seen b q hs r)
    {i : Nat} (hi : p.offset + 4 ≤ i) (hi' : i < q.offset) :
    ¬ ∃ x ∈ h :: hs, x.offset ≤ i ∧ i < x.offset + 4 := by
  have hoffset := hstep.offset_eq
  rintro ⟨x, hx, hle, hlt⟩
  rcases List.mem_cons.1 hx with rfl | hx
  · omega
  · have := hrest.le_of_mem x hx
    omega

theorem Walk.retype (hwalk : Walk lowSeven b p hs q) (hsize : b'.size = b.size)
    (hbody : bodyOffset b' = bodyOffset b)
    (htype : ∀ offset t, HasType lowSeven b' offset t ↔ HasType lowSeven b offset t)
    (hsame : ∀ i, p.offset ≤ i →
      b'.data[i]? = b.data[i]? ∨ ∃ h ∈ hs, h.offset ≤ i ∧ i < h.offset + 4) :
    Walk lowSeven b' p hs q := by
  induction hwalk with
  | nil => exact .nil
  | @cons p q r h hs hstep hrest ih =>
    have hoffset := hstep.offset_eq
    have hadvances := hstep.advances
    refine .cons (hstep.retype hsize hbody htype fun i hi hi' => ?_) (ih fun i hi => ?_)
    · exact (hsame i (by omega)).resolve_right (Walk.no_type_between hstep hrest hi hi')
    · refine (hsame i (by omega)).imp_right ?_
      rintro ⟨x, hx, hle, hlt⟩
      rcases List.mem_cons.1 hx with rfl | hx
      · omega
      · exact ⟨x, hx, hle, hlt⟩

/-- Bytes that differ from others in the top bits of types only have the same headers. -/
theorem Reads.retype (hreads : Reads lowSeven b hs) (hb : Retyped hs b b') :
    Reads lowSeven b' hs := by
  have hsize := hb.size_eq
  have hbody : bodyOffset b' = bodyOffset b := by
    obtain ⟨flags, rest, rfl, hstep, length?, hwalk⟩ := reads_iff.1 hreads
    rw [bodyOffset, bodyOffset, u32?_congr hsize fun i hi hi' => ?_]
    exact (hb.types i).resolve_right
      (Walk.no_type_between hstep hwalk hi (show i < 24 by omega))
  obtain ⟨hsmall, length?, hwalk⟩ := hreads
  refine ⟨hsize ▸ hsmall, length?, ?_⟩
  rw [hsize]
  exact hwalk.retype hsize hbody (fun _ _ => hb.hasType_iff) fun i _ => hb.types i

/-! ## The law of types -/

/-- Types are told from each other by the low seven bits of their bytes, at every header of every
file. A plugin is read as the walk that sees these bits says, and its master flag if they show the
type of a header record in the first four bytes. Of files that are refused too, all past the header
record is read from header to header as the steps of this walk say, and refused where there is none.
The headers of a plugin are no others; their types are told byte by byte exactly if none that counts
has a top bit set; and to set or clear the top bits of types changes nothing. -/
theorem types_told_by_low_bits (b : ByteArray) (file : String) (format : Format) :
    (∀ s, Structure.ofBytes b file format = .ok s ↔
      ∃ hs, Reads lowSeven b hs ∧ Structure.ofHeaders format hs = s) ∧
    (∀ master, isMasterFlagged b file = .ok master ↔
      24 ≤ b.size ∧ HasType lowSeven b 0 .header ∧
        ∃ flags, u32? b 8 = some flags ∧ hasFlag flags 1 = master) ∧
    (∀ flags, Step lowSeven b ⟨0, none⟩ ⟨0, .header flags⟩ ⟨24, none⟩ →
      Structure.ofBytes b file format = (readFrom b file ⟨24, none⟩ {} #[]).map fun r =>
        Structure.build format.layout flags r.1 r.2.toList) ∧
    (∀ p facts found, 24 ≤ p.offset → p.offset < b.size → bodyOffset b ≤ b.size →
      (∀ h q, Step lowSeven b p h q → readFrom b file p facts found =
        readFrom b file q (h.role.addTo facts) (found ++ h.role.formId?.toArray)) ∧
      ((∀ h q, ¬ Step lowSeven b p h q) → ∃ f, readFrom b file p facts found = .error f)) ∧
    (∀ hs, Reads lowSeven b hs →
      (∀ hs', Reads lowSeven b hs' → hs' = hs) ∧
      (Reads id b hs ↔ ∀ h ∈ hs, h.role.reserved?.isSome →
        ∀ x ∈ slice b h.offset (h.offset + 4), x < 0x80)) ∧
    ∀ hs b', Retyped hs b b' → (Reads lowSeven b' hs ↔ Reads lowSeven b hs) := by
  refine ⟨fun s => ofBytes_eq_ok_iff, fun master => isMasterFlagged_eq_ok_iff,
    fun flags hstep => ofBytes_of_start file format hstep, ?_, ?_, ?_⟩
  · intro p facts found hstart hp hbody
    refine ⟨fun h q hstep => readFrom_of_step hstep hstart hbody, fun hnone => ?_⟩
    cases hread : readFrom b file p facts found with
    | error f => exact ⟨f, rfl⟩
    | ok r =>
      obtain ⟨h, q, hstep⟩ := exists_step_of_readFrom hread hstart hp hbody
      exact absurd hstep (hnone h q)
  · intro hs hreads
    exact ⟨fun _ => hreads.unique, hreads.exact_iff⟩
  · intro hs b' hb
    exact ⟨fun hreads => hreads.retype hb.symm, fun hreads => hreads.retype hb⟩

/-- A plugin with a master, a group of one record and another record after it. Something may be
added to the first bytes of the types of its header, its master and its group. -/
def sample (header master group : UInt8) : ByteArray :=
  ⟨([0x54 ||| header, 0x45, 0x53, 0x34] ++ le32 8 ++ le32 1 ++ List.replicate 12 0 ++
    [0x4D ||| master, 0x41, 0x53, 0x54] ++ le16 2 ++ [0x41, 0] ++
    [0x47 ||| group, 0x52, 0x55, 0x50] ++ le32 48 ++ List.replicate 16 0 ++
    [0x57, 0x45, 0x41, 0x50] ++ List.replicate 8 0 ++ le32 0x01000800 ++ List.replicate 8 0 ++
    [0x57, 0x45, 0x41, 0x50] ++ List.replicate 8 0 ++ le32 0x01000801 ++
    List.replicate 8 0).toArray⟩

/-- Types with top bits set are taken for those without. Byte by byte the second of these files has
no master and one record. -/
theorem damaged_types_taken :
    ((Structure.ofBytes (sample 0x80 0 0) "a.esp" .skyrimSE).isOk = true ∧
      isMasterFlagged (sample 0x80 0 0) "a.esp" = .ok true ∧
      slice (sample 0x80 0 0) 0 4 ≠ [0x54, 0x45, 0x53, 0x34]) ∧
    (Structure.ofBytes (sample 0 0x80 0x80) "a.esp" .skyrimSE).toOption.map
        (fun s => (s.masters, s.recordCount)) = some (["A"], 2) ∧
      slice (sample 0 0x80 0x80) 24 28 ≠ [0x4D, 0x41, 0x53, 0x54] ∧
      slice (sample 0 0x80 0x80) 32 36 ≠ [0x47, 0x52, 0x55, 0x50] ∧
      Reads id (sample 0 0x80 0x80) [⟨0, .header 1⟩, ⟨24, .other⟩, ⟨32, .record 0⟩] := by
  have hheader : Step id (sample 0 0x80 0x80) ⟨0, none⟩ ⟨0, .header 1⟩ ⟨24, none⟩ :=
    .header (by decide +kernel) (show u32? _ 4 = some 8 by decide +kernel) (by decide +kernel)
      (by decide +kernel)
  have hfield : Step id (sample 0 0x80 0x80) ⟨24, none⟩ ⟨24, .other⟩ ⟨32, none⟩ :=
    .field (by decide) (show Place.length _ _ = some 2 by decide +kernel) (by decide +kernel)
      (.other (by decide +kernel) (by decide +kernel) (by decide +kernel))
  have hrecord : Step id (sample 0 0x80 0x80) ⟨32, none⟩ ⟨32, .record 0⟩ ⟨104, none⟩ :=
    @Step.record id (sample 0 0x80 0x80) ⟨32, none⟩ 48 0 (by decide +kernel) (by decide +kernel)
      (by decide +kernel) (by decide +kernel) (by decide +kernel)
  refine ⟨⟨by decide +kernel, by decide +kernel, by decide +kernel⟩, by decide +kernel,
    by decide +kernel, by decide +kernel, by decide +kernel, none, ?_⟩
  have hsize : (sample 0 0x80 0x80).size = 104 := by decide +kernel
  rw [hsize]
  exact .cons hheader (.cons hfield (.cons hrecord .nil))

/-- The headers of the file to whose types nothing is added. -/
def sampleHeaders : List Header :=
  [⟨0, .header 1⟩, ⟨24, .master "A"⟩, ⟨32, .group⟩, ⟨56, .record 0x01000800⟩,
    ⟨80, .record 0x01000801⟩]

theorem reads_sample : Reads lowSeven (sample 0 0 0) sampleHeaders := by
  have hheader : Step lowSeven (sample 0 0 0) ⟨0, none⟩ ⟨0, .header 1⟩ ⟨24, none⟩ :=
    .header (by decide +kernel) (show u32? _ 4 = some 8 by decide +kernel) (by decide +kernel)
      (by decide +kernel)
  have hname : masterName (slice (sample 0 0 0) 30 32) = "A" := by decide +kernel
  have hfield : Step lowSeven (sample 0 0 0) ⟨24, none⟩ ⟨24, .master "A"⟩ ⟨32, none⟩ :=
    .field (by decide) (show Place.length _ _ = some 2 by decide +kernel) (by decide +kernel)
      (hname ▸ .master (by decide +kernel))
  have hgroup : Step lowSeven (sample 0 0 0) ⟨32, none⟩ ⟨32, .group⟩ ⟨56, none⟩ :=
    .group (by decide +kernel) (by decide +kernel) (show u32? _ 36 = some 48 by decide +kernel)
      (by decide) (by decide +kernel)
  have hinner : Step lowSeven (sample 0 0 0) ⟨56, none⟩ ⟨56, .record 0x01000800⟩ ⟨80, none⟩ :=
    @Step.record lowSeven (sample 0 0 0) ⟨56, none⟩ 0 0x01000800 (by decide +kernel)
      (by decide +kernel) (by decide +kernel) (by decide +kernel) (by decide +kernel)
  have houter : Step lowSeven (sample 0 0 0) ⟨80, none⟩ ⟨80, .record 0x01000801⟩ ⟨104, none⟩ :=
    @Step.record lowSeven (sample 0 0 0) ⟨80, none⟩ 0 0x01000801 (by decide +kernel)
      (by decide +kernel) (by decide +kernel) (by decide +kernel) (by decide +kernel)
  have hsize : (sample 0 0 0).size = 104 := by decide +kernel
  refine ⟨by omega, none, ?_⟩
  rw [hsize]
  exact .cons hheader (.cons hfield (.cons hgroup (.cons hinner (.cons houter .nil))))

theorem retyped_sample : Retyped sampleHeaders (sample 0 0 0) (sample 0x80 0x80 0x80) := by
  have hbeyond (i : Nat) (hi : ¬ i < 104) :
      (sample 0x80 0x80 0x80).data[i]? = (sample 0 0 0).data[i]? := by
    have hsize : (sample 0 0 0).data.size = 104 := by decide +kernel
    have hsize' : (sample 0x80 0x80 0x80).data.size = 104 := by decide +kernel
    rw [Array.getElem?_eq_none_iff.2 (by omega), Array.getElem?_eq_none_iff.2 (by omega)]
  have halike : ∀ i < 104, (sample 0x80 0x80 0x80).data[i]?.map lowSeven =
      (sample 0 0 0).data[i]?.map lowSeven := by decide +kernel
  have htypes : ∀ i < 104, (sample 0x80 0x80 0x80).data[i]? = (sample 0 0 0).data[i]? ∨
      ∃ h ∈ sampleHeaders, h.offset ≤ i ∧ i < h.offset + 4 := by decide +kernel
  constructor
  · intro i
    by_cases hi : i < 104
    · exact halike i hi
    · rw [hbeyond i hi]
  · intro i
    by_cases hi : i < 104
    · exact htypes i hi
    · exact .inl (hbeyond i hi)

/-- With the top bits set in the types of the header, the master and the group, a plugin is still
the same, though not byte by byte. -/
theorem types_told_by_low_bits_damaged :
    Retyped sampleHeaders (sample 0 0 0) (sample 0x80 0x80 0x80) ∧
      Reads lowSeven (sample 0x80 0x80 0x80) sampleHeaders ∧
      ¬ Reads id (sample 0x80 0x80 0x80) sampleHeaders ∧
      Structure.ofBytes (sample 0x80 0x80 0x80) "a.esp" .skyrimSE =
        .ok (Structure.ofHeaders .skyrimSE sampleHeaders) := by
  obtain ⟨-, -, -, -, -, hretyped⟩ := types_told_by_low_bits (sample 0 0 0) "a.esp" .skyrimSE
  have hreads : Reads lowSeven (sample 0x80 0x80 0x80) sampleHeaders :=
    (hretyped _ _ retyped_sample).2 reads_sample
  obtain ⟨hofBytes, -, -, -, hexact, -⟩ :=
    types_told_by_low_bits (sample 0x80 0x80 0x80) "a.esp" .skyrimSE
  refine ⟨retyped_sample, hreads, fun hid => ?_, (hofBytes _).2 ⟨_, hreads, rfl⟩⟩
  have hlow : ∀ x ∈ slice (sample 0x80 0x80 0x80) 0 4, x < 0x80 :=
    (hexact _ hreads).2.1 hid ⟨0, .header 1⟩ (by decide) rfl
  exact absurd (hlow 0xD4 (by decide +kernel)) (by decide)

end PluginAudit.Plugin
