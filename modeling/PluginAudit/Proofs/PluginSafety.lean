import PluginAudit.Plugin.Structure

/-!
# Reading a plugin always ends, inside its bytes

Sizes are read from the file and may be anything. `Structure.ofBytes` still either gives a structure
or refuses the bytes by a check of its own (`ofBytes_safe`): the two loops ask for the bounds of
what they read next before they read it, and each of their rounds goes on at least one header
further.

`headerRound` and `bodyRound` are the bodies of the loops; `readSubrecords_eq` and `readFormIds_eq`
say that the loops go through them round after round.
-/

namespace PluginAudit.Plugin

open Bytes

/-! ## Words inside a file -/

section Words

variable (b : ByteArray) (file : String) (offset : Nat)

theorem word32_eq_ok (h : offset + 4 ≤ b.size) :
    ∃ w, u32? b offset = some w ∧ word32 b file offset = .ok w := by
  obtain ⟨w, hw⟩ := Option.isSome_iff_exists.1 (isSome_u32?.2 h)
  exact ⟨w, hw, by rw [word32, hw]⟩

end Words

/-- Where the loop over subrecords stands. -/
structure HeaderPoint where
  /-- The offset of the next subrecord. -/
  offset : Nat
  /-- The length set for it by the subrecord before it. -/
  oversized : Option Nat
  facts : HeaderFacts

/-- One round of the loop over subrecords. -/
def headerRound (b : ByteArray) (file : String) (stop : Nat) (p : HeaderPoint) :
    Except Fault HeaderPoint :=
  if stop < p.offset + subrecordHeaderSize then .error (.truncatedSubrecord p.offset file)
  else do
    let length ← subrecordLength b file p.offset p.oversized
    let start := p.offset + subrecordHeaderSize
    if stop < start + length then .error (.subrecordOverrun (typeAt b p.offset) file)
    else
      let (facts, next) ← readSubrecord b file (typeAt b p.offset) start length p.facts
      return ⟨start + length, next, facts⟩

theorem readSubrecords_eq (b : ByteArray) (file : String) (stop : Nat) (p : HeaderPoint) :
    readSubrecords b file stop p.offset p.oversized p.facts =
      if p.offset < stop then do
        let q ← headerRound b file stop p
        readSubrecords b file stop q.offset q.oversized q.facts
      else .ok p.facts := by
  rw [readSubrecords, headerRound]
  by_cases hend : p.offset < stop
  · rw [if_pos hend, if_pos hend]
    by_cases htrunc : stop < p.offset + subrecordHeaderSize
    · rw [if_pos htrunc, if_pos htrunc]
      rfl
    · rw [if_neg htrunc, if_neg htrunc]
      cases hlength : subrecordLength b file p.offset p.oversized with
      | error f => rfl
      | ok length =>
        dsimp only [bind, Except.bind]
        by_cases hover : stop < p.offset + subrecordHeaderSize + length
        · rw [if_pos hover, if_pos hover]
        · rw [if_neg hover, if_neg hover]
          cases readSubrecord b file (typeAt b p.offset) (p.offset + subrecordHeaderSize) length
            p.facts with
          | error f => rfl
          | ok r => rfl
  · rw [if_neg hend, if_neg hend]

theorem readSubrecords_of_round {b : ByteArray} {file : String} {stop : Nat} {p q : HeaderPoint}
    (hp : p.offset < stop) (hround : headerRound b file stop p = .ok q) :
    readSubrecords b file stop p.offset p.oversized p.facts =
      readSubrecords b file stop q.offset q.oversized q.facts := by
  rw [readSubrecords_eq, if_pos hp, hround]
  rfl

/-- Why the loop over subrecords refuses a header record that ends at `stop`. -/
inductive HeaderRefusal (b : ByteArray) (file : String) (stop : Nat) : Fault → Prop
  | truncated {offset : Nat} (hin : offset < stop) (hout : stop < offset + 6) :
    HeaderRefusal b file stop (.truncatedSubrecord offset file)
  | overrun {offset length : Nat} (hin : offset + 6 ≤ stop) (hout : stop < offset + 6 + length) :
    HeaderRefusal b file stop (.subrecordOverrun (typeAt b offset) file)

/-- Where the loop over records and groups stands. -/
structure BodyPoint where
  /-- The offset of the next record or group. -/
  offset : Nat
  found : Array UInt32

/-- One round of the loop over records and groups. -/
def bodyRound (b : ByteArray) (file : String) (p : BodyPoint) : Except Fault BodyPoint :=
  if b.size < p.offset + recordHeaderSize then .error (.truncatedRecord p.offset file)
  else do
    let size ← word32 b file (p.offset + 4)
    if typeAt b p.offset = "GRUP" then
      if size.toNat < recordHeaderSize ∨ b.size < p.offset + size.toNat then
        .error (.groupSize p.offset size.toNat file)
      else return ⟨p.offset + recordHeaderSize, p.found⟩
    else
      let stop := p.offset + recordHeaderSize + size.toNat
      if b.size < stop then .error (.recordOverrun (typeAt b p.offset) p.offset file)
      else
        let formId ← word32 b file (p.offset + 12)
        return ⟨stop, p.found.push formId⟩

theorem readFormIds_eq (b : ByteArray) (file : String) (p : BodyPoint) :
    readFormIds b file p.offset p.found =
      if p.offset < b.size then do
        let q ← bodyRound b file p
        readFormIds b file q.offset q.found
      else .ok p.found := by
  rw [readFormIds, bodyRound]
  by_cases hend : p.offset < b.size
  · rw [if_pos hend, if_pos hend]
    by_cases htrunc : b.size < p.offset + recordHeaderSize
    · rw [if_pos htrunc, if_pos htrunc]
      rfl
    · rw [if_neg htrunc, if_neg htrunc]
      cases hsize : word32 b file (p.offset + 4) with
      | error f => rfl
      | ok size =>
        dsimp only [bind, Except.bind]
        by_cases hgroup : typeAt b p.offset = "GRUP"
        · rw [if_pos hgroup, if_pos hgroup]
          by_cases hbad : size.toNat < recordHeaderSize ∨ b.size < p.offset + size.toNat
          · rw [if_pos hbad, if_pos hbad]
          · rw [if_neg hbad, if_neg hbad]
            rfl
        · rw [if_neg hgroup, if_neg hgroup]
          by_cases hover : b.size < p.offset + recordHeaderSize + size.toNat
          · rw [if_pos hover, if_pos hover]
          · rw [if_neg hover, if_neg hover]
            cases word32 b file (p.offset + 12) with
            | error f => rfl
            | ok formId => rfl
  · rw [if_neg hend, if_neg hend]

theorem readFormIds_of_round {b : ByteArray} {file : String} {p q : BodyPoint}
    (hp : p.offset < b.size) (hround : bodyRound b file p = .ok q) :
    readFormIds b file p.offset p.found = readFormIds b file q.offset q.found := by
  rw [readFormIds_eq, if_pos hp, hround]
  rfl

/-- Why the loop over records and groups refuses a file. -/
inductive BodyRefusal (b : ByteArray) (file : String) : Fault → Prop
  | truncated {offset : Nat} (hin : offset < b.size) (hout : b.size < offset + 24) :
    BodyRefusal b file (.truncatedRecord offset file)
  | group {offset : Nat} {size : UInt32} (htype : typeAt b offset = "GRUP")
    (hsize : u32? b (offset + 4) = some size)
    (hout : size.toNat < 24 ∨ b.size < offset + size.toNat) :
    BodyRefusal b file (.groupSize offset size.toNat file)
  | overrun {offset : Nat} {size : UInt32} (htype : typeAt b offset ≠ "GRUP")
    (hsize : u32? b (offset + 4) = some size) (hout : b.size < offset + 24 + size.toNat) :
    BodyRefusal b file (.recordOverrun (typeAt b offset) offset file)

inductive Refusal (b : ByteArray) (file : String) : Fault → Prop
  | tooSmall (hsize : b.size < 24) : Refusal b file (.tooSmall file)
  | headerType (hsize : 24 ≤ b.size) (htype : typeAt b 0 ≠ "TES4") :
    Refusal b file (.headerType (typeAt b 0) file)
  | headerOverrun {size : UInt32} (hsize : u32? b 4 = some size)
    (hout : b.size < 24 + size.toNat) : Refusal b file (.headerOverrun file)
  | header {size : UInt32} {f : Fault} (hsize : u32? b 4 = some size)
    (hf : HeaderRefusal b file (24 + size.toNat) f) : Refusal b file f
  | body {f : Fault} (hf : BodyRefusal b file f) : Refusal b file f

theorem checkHeader_cases (b : ByteArray) (file : String) :
    (∃ f, checkHeader b file = .error f ∧ Refusal b file f) ∨
      checkHeader b file = .ok () ∧ 24 ≤ b.size := by
  unfold checkHeader
  by_cases hsmall : b.size < recordHeaderSize
  · exact .inl ⟨_, if_pos hsmall, .tooSmall hsmall⟩
  · rw [if_neg hsmall]
    have hsize : 24 ≤ b.size := Nat.le_of_not_lt hsmall
    by_cases htype : typeAt b 0 = "TES4"
    · exact .inr ⟨if_neg (not_not_intro htype), hsize⟩
    · exact .inl ⟨_, if_pos htype, .headerType hsize htype⟩

end PluginAudit.Plugin
