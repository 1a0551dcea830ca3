import Mathlib.Data.List.Basic
import PluginAudit.Proofs.NestedGroups

/-!
# The walk over the headers of a plugin

What the header of a record, a group or a subrecord is taken for hangs on its type. A `Walk` goes
from header to header and says of each what it is taken for; how much of a byte of a type it sees is
a parameter: all of it (`id`) or all but the top bit (`lowSeven`).

A plugin is read by the walk that sees no top bits: the two loops go its way (`readFrom_of_step`,
`exists_step_of_readFrom`), and the structure is that of the headers on it (`ofBytes_eq_ok_iff`).
-/

namespace PluginAudit.Plugin

open Bytes

/-- The types that are told from all others. -/
inductive Reserved where
  | header
  | length
  | version
  | master
  | group
  deriving Repr, DecidableEq

namespace Reserved

def text : Reserved → String
  | header => "TES4"
  | length => "XXXX"
  | version => "HEDR"
  | master => "MAST"
  | group => "GRUP"

def bytes : Reserved → List UInt8
  | header => [0x54, 0x45, 0x53, 0x34]
  | length => [0x58, 0x58, 0x58, 0x58]
  | version => [0x48, 0x45, 0x44, 0x52]
  | master => [0x4D, 0x41, 0x53, 0x54]
  | group => [0x47, 0x52, 0x55, 0x50]

end Reserved

/-- A byte without its top bit. -/
def lowSeven (x : UInt8) : UInt8 := x &&& 0x7F

/-- The four bytes at an offset are those of a type, as far as they are seen. -/
def HasType (seen : UInt8 → UInt8) (b : ByteArray) (offset : Nat) (t : Reserved) : Prop :=
  (slice b offset (offset + 4)).map seen = t.bytes

instance (seen : UInt8 → UInt8) (b : ByteArray) (offset : Nat) (t : Reserved) :
    Decidable (HasType seen b offset t) :=
  inferInstanceAs (Decidable (_ = _))

/-- What a header is taken for. -/
inductive Role where
  /-- The record that opens a plugin. -/
  | header (flags : UInt32)
  /-- The subrecord that holds the length of the next. -/
  | length (n : Nat)
  /-- The subrecord with the version of the header. -/
  | version (v : Binary64)
  /-- A subrecord that names a master. -/
  | master (name : String)
  /-- Any other subrecord. -/
  | other
  /-- A group, which is entered. -/
  | group
  /-- A record, which is counted and passed over. -/
  | record (formId : UInt32)
  deriving Repr, DecidableEq

namespace Role

/-- The type that a header has to have for its role. -/
def reserved? : Role → Option Reserved
  | header _ => some .header
  | length _ => some .length
  | version _ => some .version
  | master _ => some .master
  | group => some .group
  | other | record _ => none

/-- The length set for the next subrecord. -/
def length? : Role → Option Nat
  | length n => some n
  | _ => none

def flags? : Role → Option UInt32
  | header flags => some flags
  | _ => none

def formId? : Role → Option UInt32
  | record formId => some formId
  | _ => none

/-- The facts of the header with what a subrecord adds to them. -/
def addTo (facts : HeaderFacts) : Role → HeaderFacts
  | version v => { facts with version := v }
  | master name => { facts with masters := facts.masters ++ [name] }
  | _ => facts

end Role

/-- A header of a plugin and what it is taken for. -/
structure Header where
  offset : Nat
  role : Role
  deriving Repr, DecidableEq

/-- Where the next header is. -/
structure Place where
  offset : Nat
  /-- The length set for the subrecord there. -/
  length? : Option Nat
  deriving Repr, DecidableEq

/-- The length of the subrecord at a place: the one set for it, or else its own. -/
def Place.length (b : ByteArray) (p : Place) : Option Nat :=
  p.length?.or ((u16? b (p.offset + 4)).map UInt16.toNat)

/-- What a subrecord of a length is taken for. -/
inductive FieldRole (seen : UInt8 → UInt8) (b : ByteArray) (offset length : Nat) : Role → Prop
  | length {n : UInt32} (htype : HasType seen b offset .length) (hlength : length = 4)
    (hn : u32? b (offset + 6) = some n) : FieldRole seen b offset length (.length n.toNat)
  | version {v : UInt32} (htype : HasType seen b offset .version) (hlength : 4 ≤ length)
    (hv : u32? b (offset + 6) = some v) :
    FieldRole seen b offset length (.version (Binary64.ofBits32 v).roundHundredths)
  | master (htype : HasType seen b offset .master) :
    FieldRole seen b offset length
      (.master (masterName (slice b (offset + 6) (offset + 6 + length))))
  | other (hlength : ¬ (HasType seen b offset .length ∧ length = 4))
    (hversion : ¬ (HasType seen b offset .version ∧ 4 ≤ length))
    (hmaster : ¬ HasType seen b offset .master) : FieldRole seen b offset length .other

/-- The way from one header to the next: the record that opens the plugin, a subrecord of it that
ends in time, or a group or a record of the body that does. -/
inductive Step (seen : UInt8 → UInt8) (b : ByteArray) : Place → Header → Place → Prop
  | header {length? : Option Nat} {size flags : UInt32} (htype : HasType seen b 0 .header)
    (hsize : u32? b 4 = some size) (hflags : u32? b 8 = some flags)
    (hstop : 24 + size.toNat ≤ b.size) :
    Step seen b ⟨0, length?⟩ ⟨0, .header flags⟩ ⟨24, none⟩
  | field {p : Place} {length : Nat} {role : Role} (hstart : 24 ≤ p.offset)
    (hlength : p.length b = some length) (hstop : p.offset + 6 + length ≤ bodyOffset b)
    (hrole : FieldRole seen b p.offset length role) :
    Step seen b p ⟨p.offset, role⟩ ⟨p.offset + 6 + length, role.length?⟩
  | group {p : Place} {size : UInt32} (hstart : bodyOffset b ≤ p.offset)
    (htype : HasType seen b p.offset .group) (hsize : u32? b (p.offset + 4) = some size)
    (hlow : 24 ≤ size.toNat) (hstop : p.offset + size.toNat ≤ b.size) :
    Step seen b p ⟨p.offset, .group⟩ ⟨p.offset + 24, none⟩
  | record {p : Place} {size formId : UInt32} (hstart : bodyOffset b ≤ p.offset)
    (htype : ¬ HasType seen b p.offset .group) (hsize : u32? b (p.offset + 4) = some size)
    (hformId : u32? b (p.offset + 12) = some formId)
    (hstop : p.offset + 24 + size.toNat ≤ b.size) :
    Step seen b p ⟨p.offset, .record formId⟩ ⟨p.offset + 24 + size.toNat, none⟩

/-- The headers on the way from one place to another. -/
inductive Walk (seen : UInt8 → UInt8) (b : ByteArray) : Place → List Header → Place → Prop
  | nil {p : Place} : Walk seen b p [] p
  | cons {p q r : Place} {h : Header} {hs : List Header} (hstep : Step seen b p h q)
    (hrest : Walk seen b q hs r) : Walk seen b p (h :: hs) r

/-- The bytes are a plugin with these headers. -/
structure Reads (seen : UInt8 → UInt8) (b : ByteArray) (hs : List Header) : Prop where
  size : 24 ≤ b.size
  walk : ∃ length?, Walk seen b ⟨0, none⟩ hs ⟨b.size, length?⟩

/-- The identifiers of the records among some headers. -/
def formIdsOf (hs : List Header) : List UInt32 := hs.filterMap (·.role.formId?)

/-- The facts of the header with what some headers add to them. -/
def addFacts (facts : HeaderFacts) (hs : List Header) : HeaderFacts :=
  hs.foldl (fun facts h => h.role.addTo facts) facts

/-- The structure of a plugin with given headers. -/
def Structure.ofHeaders (format : Format) (hs : List Header) : Structure :=
  build format.layout ((hs.findSome? (·.role.flags?)).getD 0) (addFacts {} hs) (formIdsOf hs)

variable {seen : UInt8 → UInt8} {b : ByteArray}

/-! ## Types -/

theorem Reserved.text_eq (t : Reserved) :
    t.text = String.ofList (t.bytes.map fun x => Char.ofNat x.toNat) := by
  cases t <;> rfl

theorem charOf_injective : Function.Injective fun x : UInt8 => Char.ofNat x.toNat := by
  have hnat : ∀ x : UInt8, (Char.ofNat x.toNat).toNat = x.toNat := fun x => by
    have hx := x.toNat_lt
    have hvalid : x.toNat.isValidChar := .inl (by omega)
    rw [Char.ofNat, dif_pos hvalid]
    rfl
  intro x y h
  rw [← UInt8.toNat_inj, ← hnat x, ← hnat y]
  exact congrArg Char.toNat h

theorem typeAt_eq_text_iff {offset : Nat} {t : Reserved} :
    typeAt b offset = t.text ↔ HasType lowSeven b offset t := by
  have hmap : (slice b offset (offset + 4)).map (fun x => Char.ofNat (x &&& 0x7F).toNat) =
      ((slice b offset (offset + 4)).map lowSeven).map fun x => Char.ofNat x.toNat := by
    rw [List.map_map]
    rfl
  have hinj := List.map_injective_iff.2 charOf_injective
  rw [typeAt, t.text_eq, hmap, String.ofList_inj, hinj.eq_iff, HasType]

/-- No two types are the same. -/
theorem HasType.unique {offset : Nat} {t t' : Reserved} (h : HasType seen b offset t)
    (h' : HasType seen b offset t') : t = t' := by
  have hbytes : t.bytes = t'.bytes := h.symm.trans h'
  cases t <;> cases t' <;> first | rfl | exact absurd hbytes (by decide)

theorem HasType.not_other {offset : Nat} {t t' : Reserved} (h : HasType seen b offset t)
    (hne : t ≠ t') : ¬ HasType seen b offset t' :=
  fun h' => hne (h.unique h')

/-! ## The steps of a walk -/

theorem le_bodyOffset (b : ByteArray) : 24 ≤ bodyOffset b := Nat.le_add_right ..

theorem bodyOffset_eq {size : UInt32} (hsize : u32? b 4 = some size) :
    bodyOffset b = 24 + size.toNat := by
  rw [bodyOffset, hsize]
  rfl

theorem FieldRole.unique {offset length : Nat} {r r' : Role}
    (h : FieldRole seen b offset length r) (h' : FieldRole seen b offset length r') : r = r' := by
  cases h with
  | length htype hlength hn =>
    cases h' with
    | length _ _ hn' => rw [Option.some.inj (hn.symm.trans hn')]
    | version htype' => cases htype.unique htype'
    | master htype' => cases htype.unique htype'
    | other hno => exact absurd ⟨htype, hlength⟩ hno
  | version htype hlength hv =>
    cases h' with
    | length htype' => cases htype.unique htype'
    | version _ _ hv' => rw [Option.some.inj (hv.symm.trans hv')]
    | master htype' => cases htype.unique htype'
    | other _ hno => exact absurd ⟨htype, hlength⟩ hno
  | master htype =>
    cases h' with
    | length htype' => cases htype.unique htype'
    | version htype' => cases htype.unique htype'
    | master => rfl
    | other _ _ hno => exact absurd htype hno
  | other hlength hversion hmaster =>
    cases h' with
    | length htype' hlength' => exact absurd ⟨htype', hlength'⟩ hlength
    | version htype' hlength' => exact absurd ⟨htype', hlength'⟩ hversion
    | master htype' => exact absurd htype' hmaster
    | other => rfl

theorem exists_u32? {i : Nat} (h : i + 4 ≤ b.size) : ∃ w, u32? b i = some w :=
  Option.isSome_iff_exists.1 (isSome_u32?.2 h)

/-- Every subrecord that lies inside the file is taken for something. -/
theorem exists_fieldRole {offset length : Nat}
    (h : offset + 6 + length ≤ b.size) : ∃ role, FieldRole seen b offset length role := by
  by_cases hlength : HasType seen b offset .length ∧ length = 4
  · obtain ⟨n, hn⟩ := exists_u32? (show offset + 6 + 4 ≤ b.size by omega)
    exact ⟨_, .length hlength.1 hlength.2 hn⟩
  · by_cases hversion : HasType seen b offset .version ∧ 4 ≤ length
    · obtain ⟨v, hv⟩ := exists_u32? (show offset + 6 + 4 ≤ b.size by omega)
      exact ⟨_, .version hversion.1 hversion.2 hv⟩
    · by_cases hmaster : HasType seen b offset .master
      · exact ⟨_, .master hmaster⟩
      · exact ⟨_, .other hlength hversion hmaster⟩

namespace Step

variable {p q : Place} {h : Header}

theorem offset_eq (hstep : Step seen b p h q) : h.offset = p.offset := by
  cases hstep <;> rfl

theorem advances (hstep : Step seen b p h q) : p.offset + 6 ≤ q.offset := by
  cases hstep <;> dsimp only <;> omega

theorem lt_size (hstep : Step seen b p h q) (hbody : bodyOffset b ≤ b.size) :
    p.offset < b.size := by
  cases hstep with
  | header _ _ _ hstop =>
    show 0 < b.size
    omega
  | field _ _ hstop => omega
  | group _ _ _ hlow hstop => omega
  | record _ _ _ _ hstop => omega

theorem le_size (hstep : Step seen b p h q) (hbody : bodyOffset b ≤ b.size) :
    q.offset ≤ b.size := by
  cases hstep with
  | header _ _ _ hstop =>
    show 24 ≤ b.size
    omega
  | field _ _ hstop => exact Nat.le_trans hstop hbody
  | group _ _ _ hlow hstop =>
    dsimp only
    omega
  | record _ _ _ _ hstop => exact hstop

/-- A header has the type of its role. -/
theorem hasType (hstep : Step seen b p h q) :
    ∀ t ∈ h.role.reserved?, HasType seen b h.offset t := by
  intro t ht
  cases hstep with
  | header htype => cases ht; exact htype
  | field _ _ _ hrole =>
    cases hrole with
    | length htype => cases ht; exact htype
    | version htype => cases ht; exact htype
    | master htype => cases ht; exact htype
    | other => cases ht
  | group _ htype => cases ht; exact htype
  | record => cases ht

/-- The first step of a walk is over the header record. -/
theorem start (hstep : Step seen b p h q) (hp : p.offset = 0) :
    ∃ size flags, HasType seen b 0 .header ∧ u32? b 4 = some size ∧ u32? b 8 = some flags ∧
      24 + size.toNat ≤ b.size ∧ h = ⟨0, .header flags⟩ ∧ q = ⟨24, none⟩ := by
  have hbody := le_bodyOffset b
  cases hstep with
  | header htype hsize hflags hstop => exact ⟨_, _, htype, hsize, hflags, hstop, rfl, rfl⟩
  | field => omega
  | group => omega
  | record => omega

theorem bodyOffset_le (hstep : Step seen b p h q) (hp : p.offset = 0) :
    bodyOffset b ≤ b.size := by
  obtain ⟨size, flags, -, hsize, -, hstop, -⟩ := hstep.start hp
  rwa [bodyOffset_eq hsize]

theorem unique {h' : Header} {q' : Place} (hstep : Step seen b p h q)
    (hstep' : Step seen b p h' q') : h = h' ∧ q = q' := by
  by_cases hp : p.offset = 0
  · obtain ⟨_, flags, -, -, hflags, -, rfl, rfl⟩ := hstep.start hp
    obtain ⟨_, flags', -, -, hflags', -, rfl, rfl⟩ := hstep'.start hp
    rw [Option.some.inj (hflags.symm.trans hflags')]
    exact ⟨rfl, rfl⟩
  · cases hstep with
    | header => exact absurd rfl hp
    | field hstart hlength hstop hrole =>
      cases hstep' with
      | header => exact absurd rfl hp
      | field _ hlength' _ hrole' =>
        cases hlength.symm.trans hlength'
        rw [hrole.unique hrole']
        exact ⟨rfl, rfl⟩
      | group hstart' => omega
      | record hstart' => omega
    | group hstart htype hsize =>
      cases hstep' with
      | header => exact absurd rfl hp
      | field _ _ hstop' => omega
      | group => exact ⟨rfl, rfl⟩
      | record _ htype' => exact absurd htype htype'
    | record hstart htype hsize hformId =>
      cases hstep' with
      | header => exact absurd rfl hp
      | field _ _ hstop' => omega
      | group _ htype' => exact absurd htype' htype
      | record _ _ hsize' hformId' =>
        cases hsize.symm.trans hsize'
        cases hformId.symm.trans hformId'
        exact ⟨rfl, rfl⟩

end Step

namespace Walk

variable {p q : Place} {hs : List Header}

theorem le_of_mem (hwalk : Walk seen b p hs q) : ∀ h ∈ hs, p.offset ≤ h.offset := by
  induction hwalk with
  | nil => simp
  | cons hstep _ ih =>
    have hadvances := hstep.advances
    rintro h (_ | ⟨_, hh⟩)
    · exact Nat.le_of_eq hstep.offset_eq.symm
    · have := ih h hh
      omega

theorem hasType (hwalk : Walk seen b p hs q) :
    ∀ h ∈ hs, ∀ t ∈ h.role.reserved?, HasType seen b h.offset t := by
  induction hwalk with
  | nil => simp
  | cons hstep _ ih => exact List.forall_mem_cons.2 ⟨hstep.hasType, ih⟩

theorem unique {hs' : List Header} {q' : Place} (hwalk : Walk seen b p hs q)
    (hwalk' : Walk seen b p hs' q') (hbody : bodyOffset b ≤ b.size) (hq : q.offset = b.size)
    (hq' : q'.offset = b.size) : hs' = hs := by
  induction hwalk generalizing hs' with
  | nil =>
    cases hwalk' with
    | nil => rfl
    | cons hstep' => exact absurd (hstep'.lt_size hbody) (by omega)
  | cons hstep _ ih =>
    cases hwalk' with
    | nil => exact absurd (hstep.lt_size hbody) (by omega)
    | cons hstep' hrest' =>
      obtain ⟨rfl, rfl⟩ := hstep.unique hstep'
      rw [ih hrest' hq]

end Walk

/-! ## The loops go the way of the walk -/

section Loops

variable {p q : Place} {h : Header}

/-- A subrecord is read as what it is taken for without the top bits of its type. -/
theorem readSubrecord_of_role {offset length : Nat} {role : Role}
    (hrole : FieldRole lowSeven b offset length role) (file : String) (facts : HeaderFacts) :
    readSubrecord b file (typeAt b offset) (offset + 6) length facts =
      .ok (role.addTo facts, role.length?) := by
  have hlength : typeAt b offset = "XXXX" ↔ HasType lowSeven b offset .length :=
    typeAt_eq_text_iff (t := .length)
  have hversion : typeAt b offset = "HEDR" ↔ HasType lowSeven b offset .version :=
    typeAt_eq_text_iff (t := .version)
  have hmaster : typeAt b offset = "MAST" ↔ HasType lowSeven b offset .master :=
    typeAt_eq_text_iff (t := .master)
  simp only [readSubrecord, hlength, hversion, hmaster]
  cases hrole with
  | length htype hfour hn =>
    rw [if_pos ⟨htype, hfour⟩, word32, hn]
    rfl
  | version htype hfour hv =>
    have hlength : ¬ HasType lowSeven b offset .length := htype.not_other (by decide)
    rw [if_neg fun h => hlength h.1, if_pos ⟨htype, hfour⟩, word32, hv]
    rfl
  | master htype =>
    have hlength : ¬ HasType lowSeven b offset .length := htype.not_other (by decide)
    have hversion : ¬ HasType lowSeven b offset .version := htype.not_other (by decide)
    rw [if_neg fun h => hlength h.1, if_neg fun h => hversion h.1, if_pos htype]
    rfl
  | other hlength hversion hmaster =>
    rw [if_neg hlength, if_neg hversion, if_neg hmaster]
    rfl

theorem subrecordLength_eq_ok_iff (file : String) (p : Place) {n : Nat} :
    subrecordLength b file p.offset p.length? = .ok n ↔ p.length b = some n := by
  cases hset : p.length? with
  | some m => simp [subrecordLength, Place.length, hset]
  | none =>
    rw [subrecordLength, Place.length, hset, word16]
    cases u16? b (p.offset + 4) <;> simp

theorem readSubrecords_of_step (hstep : Step lowSeven b p h q) (hstart : 24 ≤ p.offset)
    (hp : p.offset < bodyOffset b) (file : String) (facts : HeaderFacts) :
    readSubrecords b file (bodyOffset b) p.offset p.length? facts =
      readSubrecords b file (bodyOffset b) q.offset q.length? (h.role.addTo facts) := by
  cases hstep with
  | header => exact absurd (show 24 ≤ 0 from hstart) (by decide)
  | group hbody => omega
  | record hbody => omega
  | @field p length role _ hlength hstop hrole =>
    have hround : headerRound b file (bodyOffset b) ⟨p.offset, p.length?, facts⟩ =
        .ok ⟨p.offset + 6 + length, role.length?, role.addTo facts⟩ := by
      have hread : subrecordLength b file p.offset p.length? = .ok length :=
        (subrecordLength_eq_ok_iff file p).2 hlength
      have htrunc : ¬ bodyOffset b < p.offset + 6 := by omega
      rw [headerRound]
      simp only [subrecordHeaderSize, htrunc, if_false, hread, bind, Except.bind,
        Nat.not_lt.2 hstop, readSubrecord_of_role hrole]
      rfl
    exact readSubrecords_of_round (p := ⟨p.offset, p.length?, facts⟩) hp hround

/-- Where the loop over subrecords goes on, there is a step to go. -/
theorem exists_step_of_readSubrecords {file : String} {facts facts' : HeaderFacts}
    (hread : readSubrecords b file (bodyOffset b) p.offset p.length? facts = .ok facts')
    (hstart : 24 ≤ p.offset) (hp : p.offset < bodyOffset b) (hbody : bodyOffset b ≤ b.size) :
    ∃ h q, Step lowSeven b p h q := by
  rw [readSubrecords_eq b file (bodyOffset b) ⟨p.offset, p.length?, facts⟩, if_pos hp] at hread
  obtain ⟨q, hround, -⟩ := exists_of_bind_ok hread
  rw [headerRound] at hround
  by_cases htrunc : bodyOffset b < p.offset + subrecordHeaderSize
  · rw [if_pos htrunc] at hround
    cases hround
  · rw [if_neg htrunc] at hround
    obtain ⟨length, hlength, hround⟩ := exists_of_bind_ok hround
    by_cases hover : bodyOffset b < p.offset + subrecordHeaderSize + length
    · rw [if_pos hover] at hround
      cases hround
    · have hstop : p.offset + 6 + length ≤ bodyOffset b := Nat.le_of_not_lt hover
      obtain ⟨role, hrole⟩ := exists_fieldRole (Nat.le_trans hstop hbody)
      exact ⟨_, _, .field hstart ((subrecordLength_eq_ok_iff file p).1 hlength) hstop hrole⟩

theorem readFormIds_of_step (hstep : Step lowSeven b p h q) (hp : bodyOffset b ≤ p.offset)
    (hbody : bodyOffset b ≤ b.size) (file : String) (found : Array UInt32) :
    readFormIds b file p.offset found =
      readFormIds b file q.offset (found ++ h.role.formId?.toArray) := by
  have hgroup : typeAt b p.offset = "GRUP" ↔ HasType lowSeven b p.offset .group :=
    typeAt_eq_text_iff (t := .group)
  have hsize := hstep.lt_size hbody
  refine readFormIds_of_round (p := ⟨p.offset, found⟩)
    (q := ⟨q.offset, found ++ h.role.formId?.toArray⟩) hsize ?_
  cases hstep with
  | header =>
    have := le_bodyOffset b
    exact absurd (show 24 ≤ 0 from Nat.le_trans this hp) (by decide)
  | field _ _ hstop => omega
  | @group p size _ htype hword hlow hstop =>
    have htrunc : ¬ b.size < p.offset + 24 := by omega
    have hbad : ¬ (size.toNat < 24 ∨ b.size < p.offset + size.toNat) := by omega
    rw [bodyRound]
    simp only [recordHeaderSize, htrunc, if_false, word32, hword, hgroup, htype, if_true, hbad,
      bind, Except.bind]
    simp [Role.formId?, pure, Except.pure]
  | @record p size formId _ htype hword hformId hstop =>
    have htrunc : ¬ b.size < p.offset + 24 := by omega
    rw [bodyRound]
    simp only [recordHeaderSize, htrunc, if_false, word32, hword, hgroup, htype, hformId, bind,
      Except.bind, Nat.not_lt.2 hstop]
    simp [Role.formId?, pure, Except.pure]

/-- Where the loop over records and groups goes on, there is a step to go. -/
theorem exists_step_of_readFormIds {file : String} {found ids : Array UInt32}
    (hread : readFormIds b file p.offset found = .ok ids) (hstart : bodyOffset b ≤ p.offset)
    (hp : p.offset < b.size) : ∃ h q, Step lowSeven b p h q := by
  obtain ⟨⟨next, found'⟩, hround, -⟩ := exists_bodyRound (p := ⟨p.offset, found⟩) hread hp
  obtain ⟨stop, hmember, hnext, hstop⟩ := member_of_bodyRound hround
  dsimp only at hmember hnext
  cases hmember with
  | record htype hsize =>
    obtain ⟨formId, hformId⟩ := exists_u32? (show p.offset + 12 + 4 ≤ b.size by omega)
    exact ⟨_, _, .record hstart (fun h => htype (typeAt_eq_text_iff.2 h)) hsize hformId hstop⟩
  | group htype hsize =>
    exact ⟨_, _, .group hstart (typeAt_eq_text_iff.1 htype) hsize (by omega) hstop⟩

end Loops

/-! ## From a place to the end -/

/-- What is read from a place on, after what was found before it. -/
def readFrom (b : ByteArray) (file : String) (p : Place) (facts : HeaderFacts)
    (found : Array UInt32) : Except Fault (HeaderFacts × Array UInt32) := do
  let facts ← readSubrecords b file (bodyOffset b) p.offset p.length? facts
  let found ← readFormIds b file (max (bodyOffset b) p.offset) found
  return (facts, found)

section ReadFrom

variable {p q : Place} {h : Header} {file : String} {facts : HeaderFacts} {found : Array UInt32}

theorem readSubrecords_of_le {length? : Option Nat} {offset : Nat} (hp : bodyOffset b ≤ offset) :
    readSubrecords b file (bodyOffset b) offset length? facts = .ok facts :=
  (readSubrecords_eq b file (bodyOffset b) ⟨offset, length?, facts⟩).trans
    (if_neg (Nat.not_lt.2 hp))

theorem readFrom_of_step (hstep : Step lowSeven b p h q) (hstart : 24 ≤ p.offset)
    (hbody : bodyOffset b ≤ b.size) :
    readFrom b file p facts found =
      readFrom b file q (h.role.addTo facts) (found ++ h.role.formId?.toArray) := by
  have hadvances := hstep.advances
  rw [readFrom, readFrom]
  -- In the header record the first loop goes on and the second begins where it did; in the body the
  -- first is at its end.
  by_cases hp : p.offset < bodyOffset b
  · obtain ⟨hq, hformId⟩ : q.offset ≤ bodyOffset b ∧ h.role.formId? = none := by
      cases hstep with
      | header => exact absurd (show 24 ≤ 0 from hstart) (by decide)
      | field _ _ hstop hrole => exact ⟨hstop, by cases hrole <;> rfl⟩
      | group hbody => omega
      | record hbody => omega
    rw [readSubrecords_of_step hstep hstart hp, Nat.max_eq_left (Nat.le_of_lt hp),
      Nat.max_eq_left hq, hformId, Option.toArray_none, Array.append_empty]
  · have hp := Nat.le_of_not_lt hp
    have hfacts : h.role.addTo facts = facts := by
      cases hstep with
      | header => rfl
      | field _ _ hstop => omega
      | group => rfl
      | record => rfl
    rw [hfacts, readSubrecords_of_le hp, readSubrecords_of_le (by omega), Nat.max_eq_right hp,
      Nat.max_eq_right (by omega), readFormIds_of_step hstep hp hbody]

theorem exists_step_of_readFrom {r : HeaderFacts × Array UInt32}
    (hread : readFrom b file p facts found = .ok r) (hstart : 24 ≤ p.offset)
    (hp : p.offset < b.size) (hbody : bodyOffset b ≤ b.size) :
    ∃ h q, Step lowSeven b p h q := by
  obtain ⟨facts', hfields, hread⟩ := exists_of_bind_ok hread
  obtain ⟨ids, hmembers, -⟩ := exists_of_bind_ok hread
  by_cases hfield : p.offset < bodyOffset b
  · exact exists_step_of_readSubrecords hfields hstart hfield hbody
  · have hmember := Nat.le_of_not_lt hfield
    rw [Nat.max_eq_right hmember] at hmembers
    exact exists_step_of_readFormIds hmembers hmember hp

theorem toArray_formIdsOf_cons (found : Array UInt32) (h : Header) (hs : List Header) :
    found ++ (formIdsOf (h :: hs)).toArray =
      found ++ h.role.formId?.toArray ++ (formIdsOf hs).toArray := by
  rw [formIdsOf, List.filterMap_cons, formIdsOf]
  cases h.role.formId? <;> simp

/-- What is read from a place on is what the headers on the walk to the end say. -/
theorem readFrom_eq_ok_iff {r : HeaderFacts × Array UInt32} (hstart : 24 ≤ p.offset)
    (hp : p.offset ≤ b.size) (hbody : bodyOffset b ≤ b.size) :
    readFrom b file p facts found = .ok r ↔ ∃ hs length?,
      Walk lowSeven b p hs ⟨b.size, length?⟩ ∧
        (addFacts facts hs, found ++ (formIdsOf hs).toArray) = r := by
  -- By induction on what is left of the file.
  induction hleft : b.size - p.offset using Nat.strongRecOn generalizing p facts found with
  | ind left ih =>
    by_cases hend : p.offset = b.size
    · have hread : readFrom b file p facts found = .ok (facts, found) := by
        rw [readFrom, readSubrecords_of_le (by omega), Nat.max_eq_right (by omega), hend,
          readFormIds, if_neg (Nat.lt_irrefl _)]
        rfl
      rw [hread]
      constructor
      · rintro ⟨⟩
        refine ⟨[], p.length?, hend ▸ .nil, ?_⟩
        simp [addFacts, formIdsOf]
      · rintro ⟨hs, length?, hwalk, rfl⟩
        cases hwalk with
        | nil => simp [addFacts, formIdsOf]
        | cons hstep =>
          have := hstep.lt_size hbody
          omega
    · have hlt : p.offset < b.size := by omega
      have hnext {h : Header} {q : Place} (hstep : Step lowSeven b p h q) :
          readFrom b file p facts found = .ok r ↔ ∃ hs length?,
            Walk lowSeven b q hs ⟨b.size, length?⟩ ∧
              (addFacts facts (h :: hs), found ++ (formIdsOf (h :: hs)).toArray) = r := by
        have hadvances := hstep.advances
        have hsize := hstep.le_size hbody
        rw [readFrom_of_step hstep hstart hbody, ih (b.size - q.offset) (by omega) (by omega) hsize
          rfl]
        simp only [toArray_formIdsOf_cons]
        rfl
      constructor
      · intro hread
        obtain ⟨h, q, hstep⟩ := exists_step_of_readFrom hread hstart hlt hbody
        obtain ⟨hs, length?, hwalk, hr⟩ := (hnext hstep).1 hread
        exact ⟨h :: hs, length?, .cons hstep hwalk, hr⟩
      · rintro ⟨hs, length?, hwalk, hr⟩
        cases hwalk with
        | nil => exact absurd rfl hend
        | cons hstep hrest => exact (hnext hstep).2 ⟨_, _, hrest, hr⟩

end ReadFrom

/-! ## Whole plugins -/

theorem checkHeader_eq_ok_iff {file : String} :
    checkHeader b file = .ok () ↔ 24 ≤ b.size ∧ HasType lowSeven b 0 .header := by
  have htype : typeAt b 0 = "TES4" ↔ HasType lowSeven b 0 .header :=
    typeAt_eq_text_iff (t := .header)
  rw [← htype]
  constructor
  · intro hcheck
    rcases checkHeader_cases b file with ⟨f, hf, -⟩ | ⟨-, hsize⟩
    · cases hf.symm.trans hcheck
    · rw [checkHeader, recordHeaderSize, if_neg (Nat.not_lt.2 hsize)] at hcheck
      by_cases hheader : typeAt b 0 = "TES4"
      · exact ⟨hsize, hheader⟩
      · rw [if_pos hheader] at hcheck
        cases hcheck
  · rintro ⟨hsize, hheader⟩
    rw [checkHeader, recordHeaderSize, if_neg (Nat.not_lt.2 hsize), if_neg (not_not_intro hheader)]

/-- Past its header record, a plugin is what is read from the end of it on. -/
theorem ofBytes_of_start {flags : UInt32} (file : String) (format : Format)
    (hstep : Step lowSeven b ⟨0, none⟩ ⟨0, .header flags⟩ ⟨24, none⟩) :
    Structure.ofBytes b file format = (readFrom b file ⟨24, none⟩ {} #[]).map fun r =>
      Structure.build format.layout flags r.1 r.2.toList := by
  obtain ⟨size, _, htype, hsize, hflags, hstop, ⟨⟩, -⟩ := hstep.start rfl
  have hcheck : checkHeader b file = .ok () := checkHeader_eq_ok_iff.2 ⟨by omega, htype⟩
  have hword : word32 b file 4 = .ok size := by rw [word32, hsize]
  have hflagsWord : word32 b file 8 = .ok flags := by rw [word32, hflags]
  rw [Structure.ofBytes, readFrom, bodyOffset_eq hsize, Nat.max_eq_left (Nat.le_add_right ..),
    hcheck, hword, hflagsWord]
  dsimp only [bind, Except.bind, recordHeaderSize, pure, Except.pure]
  rw [if_neg (Nat.not_lt.2 hstop)]
  cases readSubrecords b file (24 + size.toNat) 24 none {} with
  | error f => rfl
  | ok facts =>
    dsimp only
    cases readFormIds b file (24 + size.toNat) #[] <;> rfl

/-- A plugin that is read begins with a header record that ends in time. -/
theorem exists_start_of_ofBytes {file : String} {format : Format} {s : Structure}
    (h : Structure.ofBytes b file format = .ok s) :
    ∃ flags, Step lowSeven b ⟨0, none⟩ ⟨0, .header flags⟩ ⟨24, none⟩ := by
  obtain ⟨_, hcheck, h⟩ := exists_of_bind_ok h
  obtain ⟨hsmall, htype⟩ := checkHeader_eq_ok_iff.1 hcheck
  obtain ⟨size, hsize, hword⟩ := word32_eq_ok b file 4 (by omega)
  obtain ⟨flags, hflags, hflagsWord⟩ := word32_eq_ok b file 8 (by omega)
  rw [hword, hflagsWord] at h
  dsimp only [bind, Except.bind] at h
  by_cases hover : b.size < recordHeaderSize + size.toNat
  · rw [if_pos hover] at h
    cases h
  · exact ⟨flags, .header htype hsize hflags (Nat.le_of_not_lt hover)⟩

/-- The headers of a plugin are that of its header record and those after it. -/
theorem reads_iff {hs : List Header} :
    Reads seen b hs ↔ ∃ flags rest, hs = ⟨0, .header flags⟩ :: rest ∧
      Step seen b ⟨0, none⟩ ⟨0, .header flags⟩ ⟨24, none⟩ ∧
      ∃ length?, Walk seen b ⟨24, none⟩ rest ⟨b.size, length?⟩ := by
  constructor
  · rintro ⟨hsize, length?, hwalk⟩
    generalize hp : (⟨0, none⟩ : Place) = p at hwalk
    generalize hr : (⟨b.size, length?⟩ : Place) = r at hwalk
    cases hwalk with
    | nil =>
      have hempty : 0 = b.size := congrArg Place.offset (hp.trans hr.symm)
      omega
    | cons hstep hrest =>
      subst hp hr
      obtain ⟨size, flags, -, -, -, -, rfl, rfl⟩ := hstep.start rfl
      exact ⟨flags, _, rfl, hstep, length?, hrest⟩
  · rintro ⟨flags, rest, rfl, hstep, length?, hwalk⟩
    obtain ⟨size, -, -, -, -, hstop, -⟩ := hstep.start rfl
    exact ⟨by omega, length?, .cons hstep hwalk⟩

/-- A plugin is read exactly if a walk goes to its end, and it is what the headers say. -/
theorem ofBytes_eq_ok_iff {file : String} {format : Format} {s : Structure} :
    Structure.ofBytes b file format = .ok s ↔
      ∃ hs, Reads lowSeven b hs ∧ Structure.ofHeaders format hs = s := by
  have hrest {flags : UInt32} (hstep : Step lowSeven b ⟨0, none⟩ ⟨0, .header flags⟩ ⟨24, none⟩)
      (r : HeaderFacts × Array UInt32) :
      readFrom b file ⟨24, none⟩ {} #[] = .ok r ↔ ∃ hs length?,
        Walk lowSeven b ⟨24, none⟩ hs ⟨b.size, length?⟩ ∧
          (addFacts {} hs, #[] ++ (formIdsOf hs).toArray) = r :=
    have hbody := hstep.bodyOffset_le rfl
    readFrom_eq_ok_iff (Nat.le_refl 24) (Nat.le_trans (le_bodyOffset b) hbody) hbody
  constructor
  · intro h
    obtain ⟨flags, hstep⟩ := exists_start_of_ofBytes h
    rw [ofBytes_of_start file format hstep, map_eq_ok_iff] at h
    obtain ⟨r, hread, rfl⟩ := h
    obtain ⟨rest, length?, hwalk, rfl⟩ := (hrest hstep r).1 hread
    refine ⟨_, reads_iff.2 ⟨flags, rest, rfl, hstep, length?, hwalk⟩, ?_⟩
    rw [Array.empty_append]
    rfl
  · rintro ⟨hs, hreads, rfl⟩
    obtain ⟨flags, rest, rfl, hstep, length?, hwalk⟩ := reads_iff.1 hreads
    rw [ofBytes_of_start file format hstep, map_eq_ok_iff]
    refine ⟨_, (hrest hstep _).2 ⟨rest, length?, hwalk, rfl⟩, ?_⟩
    rw [Array.empty_append]
    rfl

theorem isMasterFlagged_eq_ok_iff {file : String} {master : Bool} :
    isMasterFlagged b file = .ok master ↔
      24 ≤ b.size ∧ HasType lowSeven b 0 .header ∧
        ∃ flags, u32? b 8 = some flags ∧ hasFlag flags 1 = master := by
  unfold isMasterFlagged
  cases hcheck : checkHeader b file with
  | error f =>
    constructor
    · intro h
      cases h
    · rintro ⟨hsize, htype, -⟩
      cases hcheck.symm.trans (checkHeader_eq_ok_iff.2 ⟨hsize, htype⟩)
  | ok =>
    obtain ⟨hsize, htype⟩ := checkHeader_eq_ok_iff.1 hcheck
    obtain ⟨flags, hflags, hword⟩ := word32_eq_ok b file 8 (by omega)
    rw [hword, hflags]
    simp [hsize, htype, bind, Except.bind, pure, Except.pure]

/-- A plugin has its headers and no others. -/
theorem Reads.unique {hs hs' : List Header} (h : Reads seen b hs) (h' : Reads seen b hs') :
    hs' = hs := by
  obtain ⟨_, _, -, hstep, -⟩ := reads_iff.1 h
  obtain ⟨_, hwalk⟩ := h.walk
  obtain ⟨_, hwalk'⟩ := h'.walk
  exact hwalk.unique hwalk' (hstep.bodyOffset_le rfl) rfl rfl

end PluginAudit.Plugin
