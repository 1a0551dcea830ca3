import Mathlib.Logic.Relation
import PluginAudit.Proofs.Attempts
import PluginAudit.Proofs.PluginSafety

/-!
# Groups that hold their members

The walk over the records of a plugin enters groups without remembering where they end, so nothing
keeps what begins in a group from ending beyond it (`crossing_accepted`). `readMembers` is the walk
that keeps to the groups: it reads the members of a group up to its end and no further. The two
agree wherever nothing crosses the end of a group, and where something does only the walk that keeps
to the groups refuses the file (`ofBytesNested_iff`).
-/

namespace PluginAudit.Plugin

open Bytes Relation

/-- At an offset stands the header of a record or a group: the walk goes on at `next`, and what the
header opens ends at `stop`. A record is passed over, a group entered. -/
inductive Member (b : ByteArray) (offset : Nat) : (next stop : Nat) → Prop
  | record {size : UInt32} (htype : typeAt b offset ≠ "GRUP")
    (hsize : u32? b (offset + 4) = some size) :
    Member b offset (offset + 24 + size.toNat) (offset + 24 + size.toNat)
  | group {size : UInt32} (htype : typeAt b offset = "GRUP")
    (hsize : u32? b (offset + 4) = some size) :
    Member b offset (offset + 24) (offset + size.toNat)

/-- The bytes from an offset to another split into records and groups, and those of each group into
its members. -/
inductive Splits (b : ByteArray) : (offset stop : Nat) → Prop
  | nil {stop : Nat} : Splits b stop stop
  | member {offset next memberStop stop : Nat} (h : Member b offset next memberStop)
    (hcontents : Splits b next memberStop) (hrest : Splits b memberStop stop) :
    Splits b offset stop

/-- The walk from an offset comes to another. -/
def Visits (b : ByteArray) : Nat → Nat → Prop :=
  ReflTransGen fun offset next => ∃ stop, Member b offset next stop

/-- On the walk from an offset something begins in a group and ends beyond it. -/
def Crosses (b : ByteArray) (start : Nat) : Prop :=
  ∃ group next stop member memberNext memberStop, Visits b start group ∧
    Member b group next stop ∧ Visits b next member ∧ member < stop ∧
    Member b member memberNext memberStop ∧ stop < memberStop

/-- The identifiers of the members between an offset and the end of a group, after those found
before. Whatever a group holds has to end with it or before. -/
def readMembers (b : ByteArray) (file : String) (stop offset : Nat) (found : Array UInt32) :
    Except Fault (Array UInt32) :=
  if offset < stop then
    if stop < offset + recordHeaderSize then .error (.truncatedRecord offset file)
    else
      match word32 b file (offset + 4) with
      | .error f => .error f
      | .ok size =>
        if typeAt b offset = "GRUP" then
          if size.toNat < recordHeaderSize ∨ stop < offset + size.toNat then
            .error (.groupSize offset size.toNat file)
          else
            match readMembers b file (offset + size.toNat) (offset + recordHeaderSize) found with
            | .error f => .error f
            | .ok found => readMembers b file stop (offset + size.toNat) found
        else
          if stop < offset + recordHeaderSize + size.toNat then
            .error (.recordOverrun (typeAt b offset) offset file)
          else
            match word32 b file (offset + 12) with
            | .error f => .error f
            | .ok formId =>
              readMembers b file stop (offset + recordHeaderSize + size.toNat) (found.push formId)
  else .ok found
  termination_by stop - offset
  decreasing_by all_goals simp only [recordHeaderSize] at *; omega

/-- The structure of a plugin whose identifiers are read in a given way from where its header record
ends. -/
def ofBody (b : ByteArray) (file : String) (format : Format)
    (body : Nat → Except Fault (Array UInt32)) : Except Fault Structure := do
  checkHeader b file
  let size ← word32 b file 4
  let flags ← word32 b file 8
  let stop := recordHeaderSize + size.toNat
  if b.size < stop then .error (.headerOverrun file)
  let header ← readSubrecords b file stop recordHeaderSize none {}
  let formIds ← body stop
  return Structure.build format.layout flags header formIds.toList

/-- The structure of a plugin, its groups read each up to its own end. -/
def ofBytesNested (b : ByteArray) (file : String) (format : Format) : Except Fault Structure :=
  ofBody b file format fun start => readMembers b file b.size start #[]

/-- Where the header record of a plugin ends. -/
def bodyOffset (b : ByteArray) : Nat := 24 + ((u32? b 4).map UInt32.toNat).getD 0

variable {b : ByteArray}

/-! ## The way of the walk -/

theorem Member.unique {offset next stop next' stop' : Nat} (h : Member b offset next stop)
    (h' : Member b offset next' stop') : next = next' ∧ stop = stop' := by
  cases h with
  | record htype hsize =>
    cases h' with
    | record _ hsize' =>
      cases hsize.symm.trans hsize'
      exact ⟨rfl, rfl⟩
    | group htype' _ => exact absurd htype' htype
  | group htype hsize =>
    cases h' with
    | record htype' _ => exact absurd htype htype'
    | group _ hsize' =>
      cases hsize.symm.trans hsize'
      exact ⟨rfl, rfl⟩

theorem Member.advances {offset next stop : Nat} (h : Member b offset next stop) :
    offset + 24 ≤ next := by
  cases h with
  | record => omega
  | group => omega

theorem Member.lt_size {offset next stop : Nat} (h : Member b offset next stop) :
    offset < b.size := by
  have hword : ∃ size, u32? b (offset + 4) = some size := by
    cases h with
    | record _ hsize => exact ⟨_, hsize⟩
    | group _ hsize => exact ⟨_, hsize⟩
  have hinside := isSome_u32?.1 (Option.isSome_iff_exists.2 hword)
  omega

namespace Visits

variable {offset next m n : Nat}

theorem step {stop : Nat} (h : Member b offset next stop) (hm : Visits b next m) :
    Visits b offset m :=
  ReflTransGen.head ⟨stop, h⟩ hm

theorem le (h : Visits b offset m) : offset ≤ m := by
  induction h with
  | refl => exact Nat.le_refl _
  | tail _ hnext ih =>
    obtain ⟨stop, hmember⟩ := hnext
    have := hmember.advances
    omega

/-- The walk comes to the farther of two offsets through the nearer. -/
theorem of_le (hm : Visits b offset m) (hn : Visits b offset n) (hle : m ≤ n) :
    Visits b m n := by
  have hunique : Relator.RightUnique fun offset next => ∃ stop, Member b offset next stop := by
    rintro o p q ⟨_, hp⟩ ⟨_, hq⟩
    exact (hp.unique hq).1
  rcases ReflTransGen.total_of_right_unique hunique hm hn with h | h
  · exact h
  · have hback : n ≤ m := le h
    have heq : m = n := by omega
    exact heq ▸ .refl

/-- The walk is at its start or has passed what stands there. -/
theorem cases_member {stop : Nat} (h : Member b offset next stop) (hm : Visits b offset m) :
    m = offset ∨ Visits b next m := by
  rcases ReflTransGen.cases_head hm with heq | ⟨next', ⟨stop', hmember⟩, hrest⟩
  · exact .inl heq.symm
  · rw [(h.unique hmember).1]
    exact .inr hrest

end Visits

theorem Crosses.mono {start start' : Nat} (hvisit : Visits b start start') (h : Crosses b start') :
    Crosses b start := by
  obtain ⟨group, next, stop, member, memberNext, memberStop, hgroup, h⟩ := h
  exact ⟨group, next, stop, member, memberNext, memberStop, hvisit.trans hgroup, h⟩

/-! ## Splitting into members -/

namespace Splits

variable {offset stop m : Nat}

theorem le (h : Splits b offset stop) : offset ≤ stop := by
  induction h with
  | nil => exact Nat.le_refl _
  | member h _ _ ihContents ihRest =>
    have := h.advances
    omega

theorem visits (h : Splits b offset stop) : Visits b offset stop := by
  induction h with
  | nil => exact .refl
  | member h _ _ ihContents ihRest => exact .step h (ihContents.trans ihRest)

/-- What the walk comes to before the end is split into members too, and ends in time. -/
theorem of_visits (h : Splits b offset stop) (hm : Visits b offset m) (hlt : m < stop) :
    ∃ next memberStop, Member b m next memberStop ∧ Splits b next memberStop ∧
      memberStop ≤ stop := by
  induction h with
  | nil => exact absurd hm.le (by omega)
  | @member offset next memberStop stop h hcontents hrest ihContents ihRest =>
    rcases hm.cases_member h with rfl | hm
    · exact ⟨next, memberStop, h, hcontents, hrest.le⟩
    · by_cases hinner : m < memberStop
      · obtain ⟨next', stop', hmember, hsplits, hle⟩ := ihContents hm hinner
        exact ⟨next', stop', hmember, hsplits, Nat.le_trans hle hrest.le⟩
      · exact ihRest (hcontents.visits.of_le hm (Nat.le_of_not_lt hinner)) hlt

theorem not_crosses (h : Splits b offset b.size) : ¬ Crosses b offset := by
  rintro ⟨group, next, stop, member, memberNext, memberStop, hgroup, hopens, hmember, hlt, hends,
    hbeyond⟩
  obtain ⟨next', stop', hopens', hsplits, -⟩ := h.of_visits hgroup hopens.lt_size
  obtain ⟨rfl, rfl⟩ := hopens.unique hopens'
  obtain ⟨memberNext', memberStop', hends', -, hle⟩ := hsplits.of_visits hmember hlt
  obtain ⟨-, rfl⟩ := hends.unique hends'
  omega

end Splits

/-! ## What the walk accepts -/

/-- The walk from an offset accepts the rest of a file. -/
def Accepted (b : ByteArray) (file : String) (offset : Nat) : Prop :=
  ∃ found ids, readFormIds b file offset found = .ok ids

/-- A round passes a member that ends in the file. -/
theorem member_of_bodyRound {file : String} {p q : BodyPoint}
    (h : bodyRound b file p = .ok q) :
    ∃ stop, Member b p.offset q.offset stop ∧ q.offset ≤ stop ∧ stop ≤ b.size := by
  unfold bodyRound at h
  by_cases htrunc : b.size < p.offset + recordHeaderSize
  · rw [if_pos htrunc] at h
    cases h
  · rw [if_neg htrunc] at h
    have hhead : p.offset + 24 ≤ b.size := Nat.le_of_not_lt htrunc
    obtain ⟨size, hsize, hword⟩ := word32_eq_ok b file (p.offset + 4) (by omega)
    rw [hword] at h
    dsimp only [bind, Except.bind] at h
    by_cases hgroup : typeAt b p.offset = "GRUP"
    · rw [if_pos hgroup] at h
      by_cases hbad : size.toNat < recordHeaderSize ∨ b.size < p.offset + size.toNat
      · rw [if_pos hbad] at h
        cases h
      · rw [if_neg hbad] at h
        cases h
        simp only [recordHeaderSize] at hbad
        exact ⟨_, .group hgroup hsize, by simp only [recordHeaderSize]; omega, by omega⟩
    · rw [if_neg hgroup] at h
      by_cases hover : b.size < p.offset + recordHeaderSize + size.toNat
      · rw [if_pos hover] at h
        cases h
      · rw [if_neg hover] at h
        obtain ⟨formId, -, hformId⟩ := word32_eq_ok b file (p.offset + 12) (by omega)
        rw [hformId] at h
        cases h
        exact ⟨_, .record hgroup hsize, Nat.le_refl _, Nat.le_of_not_lt hover⟩

theorem exists_bodyRound {file : String} {p : BodyPoint} {ids : Array UInt32}
    (h : readFormIds b file p.offset p.found = .ok ids) (hp : p.offset < b.size) :
    ∃ q, bodyRound b file p = .ok q ∧ readFormIds b file q.offset q.found = .ok ids := by
  rw [readFormIds_eq, if_pos hp] at h
  exact exists_of_bind_ok h

namespace Accepted

variable {file : String} {offset : Nat}

theorem member (h : Accepted b file offset) (hoffset : offset < b.size) :
    ∃ next stop, Member b offset next stop ∧ next ≤ stop ∧ stop ≤ b.size ∧
      Accepted b file next := by
  obtain ⟨found, ids, hread⟩ := h
  obtain ⟨q, hround, hq⟩ := exists_bodyRound (p := ⟨offset, found⟩) hread hoffset
  obtain ⟨stop, hmember, hle, hstop⟩ := member_of_bodyRound hround
  exact ⟨q.offset, stop, hmember, hle, hstop, q.found, ids, hq⟩

theorem visits (h : Accepted b file offset) {m : Nat} (hm : Visits b offset m) :
    Accepted b file m := by
  induction hm with
  | refl => exact h
  | tail _ hnext ih =>
    obtain ⟨stop, hmember⟩ := hnext
    obtain ⟨next, stop', hmember', -, -, haccepted⟩ := ih.member hmember.lt_size
    rw [(hmember.unique hmember').1]
    exact haccepted

/-- Where nothing crosses the end of a group, an accepted file splits into members. -/
theorem splits {stop : Nat} (h : Accepted b file offset) (hle : offset ≤ stop)
    (hstop : stop ≤ b.size) (hcrosses : ¬ Crosses b offset)
    (hends : ∀ m next memberStop, Visits b offset m → m < stop → Member b m next memberStop →
      memberStop ≤ stop) : Splits b offset stop := by
  -- By induction on what is left before the end: first the contents of what stands at the offset,
  -- then the rest.
  induction hleft : stop - offset using Nat.strongRecOn generalizing offset stop with
  | ind left ih =>
    by_cases hend : offset = stop
    · exact hend ▸ .nil
    · obtain ⟨next, memberStop, hmember, hnext, -, haccepted⟩ := h.member (by omega)
      have hadvances := hmember.advances
      have hwithin : memberStop ≤ stop := hends _ _ _ .refl (by omega) hmember
      have hfirst : Visits b offset next := .step hmember .refl
      have hcontents : Splits b next memberStop := by
        refine ih (memberStop - next) (by omega) haccepted hnext (by omega)
          (fun hc => hcrosses (hc.mono hfirst)) (fun m mNext mStop hm hlt hm' => ?_) rfl
        refine Nat.le_of_not_lt fun hbeyond => hcrosses ?_
        exact ⟨offset, next, memberStop, m, mNext, mStop, .refl, hmember, hm, hlt, hm', hbeyond⟩
      have hpast : Visits b offset memberStop := hfirst.trans hcontents.visits
      refine .member hmember hcontents ?_
      exact ih (stop - memberStop) (by omega) (h.visits hpast) hwithin hstop
        (fun hc => hcrosses (hc.mono hpast))
        (fun m mNext mStop hm hlt hm' => hends m mNext mStop (hpast.trans hm) hlt hm') rfl

theorem splits_iff (h : Accepted b file offset) (hoffset : offset ≤ b.size) :
    Splits b offset b.size ↔ ¬ Crosses b offset := by
  refine ⟨Splits.not_crosses, fun hcrosses => h.splits hoffset (Nat.le_refl _) hcrosses ?_⟩
  intro m next memberStop hm hlt hmember
  obtain ⟨next', stop', hmember', -, hstop, -⟩ := (h.visits hm).member hlt
  rw [(hmember.unique hmember').2]
  exact hstop

end Accepted

/-! ## Reading group by group -/

theorem map_eq_ok_iff {α β : Type} {x : Except Fault α} {g : α → β} {b : β} :
    x.map g = .ok b ↔ ∃ a, x = .ok a ∧ g a = b := by
  cases x <;> simp [Except.map]

theorem readMembers_self (file : String) (stop : Nat) (found : Array UInt32) :
    readMembers b file stop stop found = .ok found := by
  rw [readMembers, if_neg (Nat.lt_irrefl _)]

/-- What stands at an offset is refused if it ends too late; otherwise its contents are read as by
the walk, and then the rest. -/
theorem readMembers_cases {stop offset : Nat} (hoffset : offset < stop) (hstop : stop ≤ b.size)
    (file : String) (found : Array UInt32) :
    ((∃ f, readMembers b file stop offset found = .error f) ∧
      ∀ next memberStop, Member b offset next memberStop → next ≤ memberStop → stop < memberStop) ∨
    ∃ next memberStop found', Member b offset next memberStop ∧ next ≤ memberStop ∧
      memberStop ≤ stop ∧ bodyRound b file ⟨offset, found⟩ = .ok ⟨next, found'⟩ ∧
      readMembers b file stop offset found =
        readMembers b file memberStop next found' >>= readMembers b file stop memberStop := by
  rw [readMembers, if_pos hoffset, bodyRound]
  by_cases htrunc : stop < offset + recordHeaderSize
  · rw [if_pos htrunc]
    refine .inl ⟨⟨_, rfl⟩, fun next memberStop hmember hle => ?_⟩
    have := hmember.advances
    simp only [recordHeaderSize] at htrunc
    omega
  · rw [if_neg htrunc]
    simp only [recordHeaderSize] at htrunc
    obtain ⟨size, hsize, hword⟩ := word32_eq_ok b file (offset + 4) (by omega)
    rw [if_neg (by simp only [recordHeaderSize]; omega), hword]
    dsimp only [bind, Except.bind]
    by_cases hgroup : typeAt b offset = "GRUP"
    · rw [if_pos hgroup, if_pos hgroup]
      have hmember : Member b offset (offset + 24) (offset + size.toNat) := .group hgroup hsize
      by_cases hbad : size.toNat < recordHeaderSize ∨ stop < offset + size.toNat
      · rw [if_pos hbad]
        refine .inl ⟨⟨_, rfl⟩, fun next memberStop hmember' hle => ?_⟩
        obtain ⟨rfl, rfl⟩ := hmember.unique hmember'
        simp only [recordHeaderSize] at hbad
        omega
      · rw [if_neg hbad]
        simp only [recordHeaderSize] at hbad
        rw [if_neg (by simp only [recordHeaderSize]; omega)]
        refine .inr ⟨_, _, found, hmember, by omega, by omega, rfl, ?_⟩
        rw [recordHeaderSize]
        cases readMembers b file (offset + size.toNat) (offset + 24) found <;> rfl
    · rw [if_neg hgroup, if_neg hgroup]
      have hmember : Member b offset (offset + 24 + size.toNat) (offset + 24 + size.toNat) :=
        .record hgroup hsize
      by_cases hover : stop < offset + recordHeaderSize + size.toNat
      · rw [if_pos hover]
        refine .inl ⟨⟨_, rfl⟩, fun next memberStop hmember' _ => ?_⟩
        obtain ⟨rfl, rfl⟩ := hmember.unique hmember'
        exact hover
      · rw [if_neg hover]
        simp only [recordHeaderSize] at hover
        obtain ⟨formId, -, hformId⟩ := word32_eq_ok b file (offset + 12) (by omega)
        rw [if_neg (by simp only [recordHeaderSize]; omega), hformId]
        refine .inr ⟨_, _, found.push formId, hmember, Nat.le_refl _, by omega, rfl, ?_⟩
        rw [recordHeaderSize, readMembers_self]

/-- What is read group by group splits into members, and the walk finds the same. -/
theorem splits_of_readMembers {file : String} {stop offset : Nat} {found ids : Array UInt32}
    (h : readMembers b file stop offset found = .ok ids) (hle : offset ≤ stop)
    (hstop : stop ≤ b.size) :
    Splits b offset stop ∧
      readFormIds b file offset found = readFormIds b file stop ids := by
  -- By induction on what is left before the end, as the bytes split.
  induction hleft : stop - offset using Nat.strongRecOn
    generalizing offset stop found ids with
  | ind left ih =>
    by_cases hend : offset = stop
    · subst hend
      rw [readMembers_self] at h
      cases h
      exact ⟨.nil, rfl⟩
    · have hoffset : offset < stop := by omega
      rcases readMembers_cases hoffset hstop file found with
        ⟨⟨f, hf⟩, -⟩ | ⟨next, memberStop, found', hmember, hnext, hwithin, hround, heq⟩
      · cases hf.symm.trans h
      · have hadvances := hmember.advances
        rw [heq] at h
        obtain ⟨inner, hread, h⟩ := exists_of_bind_ok h
        obtain ⟨hcontents, hwalk⟩ := ih (memberStop - next) (by omega) hread hnext (by omega) rfl
        obtain ⟨hrest, hwalk'⟩ := ih (stop - memberStop) (by omega) h hwithin hstop rfl
        refine ⟨.member hmember hcontents hrest, ?_⟩
        calc readFormIds b file offset found
            = readFormIds b file next found' :=
              readFormIds_of_round (p := ⟨offset, found⟩) (q := ⟨next, found'⟩)
                hmember.lt_size hround
          _ = readFormIds b file memberStop inner := hwalk
          _ = readFormIds b file stop ids := hwalk'

/-- What splits into members and is accepted by the walk is read group by group. -/
theorem Splits.readMembers_eq {file : String} {stop offset : Nat} (h : Splits b offset stop)
    (hstop : stop ≤ b.size) {found ids : Array UInt32}
    (hwalk : readFormIds b file offset found = .ok ids) :
    ∃ read, readMembers b file stop offset found = .ok read ∧
      readFormIds b file stop read = .ok ids := by
  induction h generalizing found with
  | nil => exact ⟨found, readMembers_self file _ found, hwalk⟩
  | @member offset next memberStop stop h hcontents hrest ihContents ihRest =>
    have hnext := hcontents.le
    have hwithin := hrest.le
    have hadvances := h.advances
    have hoffset : offset < stop := by omega
    rcases readMembers_cases hoffset hstop file found with
      ⟨-, hlate⟩ | ⟨next', memberStop', found', hmember, -, -, hround, heq⟩
    · have := hlate _ _ h hnext
      omega
    · obtain ⟨rfl, rfl⟩ := h.unique hmember
      have hwalk' : readFormIds b file next found' = .ok ids := by
        rw [← hwalk]
        exact (readFormIds_of_round (p := ⟨offset, found⟩) (q := ⟨next, found'⟩)
          h.lt_size hround).symm
      obtain ⟨inner, hinner, hwalk'⟩ := ihContents (by omega) hwalk'
      obtain ⟨read, hread, hwalk'⟩ := ihRest hstop hwalk'
      exact ⟨read, by rw [heq, hinner]; exact hread, hwalk'⟩

theorem readMembers_eq_ok_iff {file : String} {offset : Nat} (hoffset : offset ≤ b.size)
    {found ids : Array UInt32} :
    readMembers b file b.size offset found = .ok ids ↔
      readFormIds b file offset found = .ok ids ∧ Splits b offset b.size := by
  have hend (found : Array UInt32) : readFormIds b file b.size found = .ok found := by
    rw [readFormIds, if_neg (Nat.lt_irrefl _)]
  constructor
  · intro h
    obtain ⟨hsplits, hwalk⟩ := splits_of_readMembers h hoffset (Nat.le_refl _)
    exact ⟨hwalk.trans (hend ids), hsplits⟩
  · rintro ⟨hwalk, hsplits⟩
    obtain ⟨read, hread, hwalk⟩ := hsplits.readMembers_eq (Nat.le_refl _) hwalk
    rw [hend] at hwalk
    rw [hread, hwalk]

/-! ## The whole file -/

theorem ofBytes_eq_ofBody (b : ByteArray) (file : String) (format : Format) :
    Structure.ofBytes b file format =
      ofBody b file format fun start => readFormIds b file start #[] := rfl

/-- The header of a file is refused, or all depends on the identifiers after it. -/
theorem ofBody_cases (b : ByteArray) (file : String) (format : Format) :
    (∃ f, ∀ body, ofBody b file format body = .error f) ∨
      bodyOffset b ≤ b.size ∧ ∃ build : Array UInt32 → Structure, ∀ body,
        ofBody b file format body = (body (bodyOffset b)).map build := by
  unfold ofBody
  rcases checkHeader_cases b file with ⟨f, hf, -⟩ | ⟨hchecked, hsmall⟩
  · rw [hf]
    exact .inl ⟨f, fun _ => rfl⟩
  · obtain ⟨size, hsize, hword⟩ := word32_eq_ok b file 4 (by omega)
    obtain ⟨flags, -, hflags⟩ := word32_eq_ok b file 8 (by omega)
    rw [hchecked, hword, hflags]
    dsimp only [bind, Except.bind]
    have hbody : bodyOffset b = recordHeaderSize + size.toNat := by
      rw [bodyOffset, hsize]
      rfl
    by_cases hover : b.size < recordHeaderSize + size.toNat
    · exact .inl ⟨_, fun _ => if_pos hover⟩
    · simp only [if_neg hover]
      rw [← hbody]
      dsimp only [pure, Except.pure]
      cases readSubrecords b file (bodyOffset b) recordHeaderSize none {} with
      | error f => exact .inl ⟨f, fun _ => rfl⟩
      | ok header =>
        refine .inr ⟨by omega, fun ids => Structure.build format.layout flags header ids.toList,
          fun body => ?_⟩
        cases body (bodyOffset b) <;> rfl

/-- Reading a plugin group by group gives a structure exactly if the walk does and nothing in the
file crosses the end of a group, and it gives the same. The files that the walk accepts and in which
nothing crosses the end of a group are those that split into members. -/
theorem ofBytesNested_iff (b : ByteArray) (file : String) (format : Format) (s : Structure) :
    (ofBytesNested b file format = .ok s ↔
      Structure.ofBytes b file format = .ok s ∧ ¬ Crosses b (bodyOffset b)) ∧
    (Structure.ofBytes b file format = .ok s ∧ Splits b (bodyOffset b) b.size ↔
      Structure.ofBytes b file format = .ok s ∧ ¬ Crosses b (bodyOffset b)) := by
  have hnested {ids : Array UInt32} (h : bodyOffset b ≤ b.size) :
      readMembers b file b.size (bodyOffset b) #[] = .ok ids ↔
        readFormIds b file (bodyOffset b) #[] = .ok ids ∧ Splits b (bodyOffset b) b.size :=
    readMembers_eq_ok_iff h
  rw [ofBytes_eq_ofBody, ofBytesNested]
  rcases ofBody_cases b file format with ⟨f, hf⟩ | ⟨hoffset, build, hbuild⟩
  · simp [hf]
  · have hsplits {ids : Array UInt32} (h : readFormIds b file (bodyOffset b) #[] = .ok ids) :
        Splits b (bodyOffset b) b.size ↔ ¬ Crosses b (bodyOffset b) :=
      Accepted.splits_iff ⟨#[], ids, h⟩ hoffset
    simp only [hbuild, map_eq_ok_iff, hnested hoffset]
    refine ⟨⟨?_, ?_⟩, ⟨?_, ?_⟩⟩
    · rintro ⟨ids, ⟨hread, hs⟩, hbuilt⟩
      exact ⟨⟨ids, hread, hbuilt⟩, (hsplits hread).1 hs⟩
    · rintro ⟨⟨ids, hread, hbuilt⟩, hcrosses⟩
      exact ⟨ids, ⟨hread, (hsplits hread).2 hcrosses⟩, hbuilt⟩
    · rintro ⟨⟨ids, hread, hbuilt⟩, hs⟩
      exact ⟨⟨ids, hread, hbuilt⟩, (hsplits hread).1 hs⟩
    · rintro ⟨⟨ids, hread, hbuilt⟩, hcrosses⟩
      exact ⟨⟨ids, hread, hbuilt⟩, (hsplits hread).2 hcrosses⟩

/-- A group of 30 bytes with a record of 34 bytes, all that there is after the header. -/
theorem crossing_accepted :
    let b : ByteArray := ⟨("TES4".toUTF8.toList ++ List.replicate 20 0 ++
      "GRUP".toUTF8.toList ++ [30] ++ List.replicate 19 0 ++
      "WEAP".toUTF8.toList ++ [10] ++ List.replicate 29 0).toArray⟩
    (Structure.ofBytes b "a.esp" .skyrimSE).isOk = true ∧
      (ofBytesNested b "a.esp" .skyrimSE).isOk = false ∧ ¬ Splits b (bodyOffset b) b.size := by
  intro b
  have hbody : bodyOffset b = 24 := by decide +kernel
  have hgroupSize : u32? b (24 + 4) = some 30 := by decide +kernel
  have hgroup : Member b 24 48 54 := .group (by decide +kernel) hgroupSize
  have hrecordSize : u32? b (48 + 4) = some 10 := by decide +kernel
  have hrecord : Member b 48 82 82 := .record (by decide +kernel) hrecordSize
  refine ⟨by decide +kernel, by decide +kernel, fun hsplits => ?_⟩
  rw [hbody] at hsplits
  exact hsplits.not_crosses
    ⟨24, 48, 54, 48, 82, 82, .refl, hgroup, .refl, by decide, hrecord, by decide⟩

end PluginAudit.Plugin
