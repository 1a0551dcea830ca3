import Mathlib.Data.List.Nodup
import PluginAudit.Proofs.ListedFiles
import PluginAudit.Proofs.LowerCase

/-!
# The checksum of the context

A condition that asks for the checksum of the plugin it stands for is answered from what is known of
that plugin, if it names the plugin or leads to its file. Any other way of answering would read the
file at the place the condition leads to. Both give the same answer, whatever has become known of
the plugin by then (`checksum_of_context`), as long as the names in the data directory differ by
more than letter case.
-/

namespace PluginAudit

namespace Host

/-- A host refuses the structure of a plugin only because the plugin is not well formed. -/
def RefusesOnlyMalformed (host : Fixed) : Prop :=
  ∀ content file f, host (.structureOf content file) = .error f → ∃ fault, f = .plugin fault

theorem Memory.refusesOnlyMalformed {h : Memory} (hknown : h.unknownStructures = []) :
    RefusesOnlyMalformed h.answer := by
  intro content file f hf
  have hstructure : h.structureOf file = .error f := hf
  rw [Memory.structureOf, hknown, if_neg List.not_mem_nil] at hstructure
  split at hstructure
  · cases hstructure
  · cases hstructure
  · next fault _ => exact ⟨fault, (Except.error.inj hstructure).symm⟩

end Host

namespace Condition

open Inspection Path Text Host

variable {host : Fixed} {dirs : Directories}

/-! ## The checksum of a plugin -/

/-- The checksum that is known of a plugin is that of its file. -/
theorem outcome_packageChecksum (hstructure : RefusesOnlyMalformed host) (p : Package) :
    outcome host none p.checksum =
      Except.map Crc32.checksum (host (.contentOf p.path) : Except Failure ByteArray) := by
  have hchecksum : outcome host none p.checksum =
      (outcome host none p.readFacts).map (·.checksum) := by
    rw [Package.checksum, outcome_bind, outcome_facts_none]
    cases outcome host none p.readFacts <;> rfl
  rw [hchecksum, Package.outcome_readFacts]
  cases (host (.contentOf p.path) : Except Failure ByteArray) with
  | error f => rfl
  | ok content =>
    obtain ⟨found, hs⟩ := Package.exists_structureFound fun _ => hstructure content p.name
    show Except.map _ (Except.map _ (p.structureFound host content)) = _
    rw [hs]
    rfl

/-! ## Where a file has a checksum -/

/-- Whether the file at a place has a checksum. -/
def checksumAt (host : Fixed) (place : String) (crc : UInt32) : Except Failure Bool := do
  let there : Bool ← host (.isFile place)
  if there then
    let content : ByteArray ← host (.contentOf place)
    return Crc32.checksum content = crc
  else return false

theorem outcome_checksumAt (place : String) (crc : UInt32) :
    outcome host none (do
      let there : Bool ← Inspection.ask (.isFile place)
      if there then
        let content : ByteArray ← Inspection.ask (.contentOf place)
        return decide (Crc32.checksum content = crc)
      else return false) = checksumAt host place crc := by
  refine (outcome_ask_bind (q := .isFile place) host none _).trans (bind_congr fun there => ?_)
  cases there with
  | false => rfl
  | true => exact outcome_ask_bind (q := .contentOf place) host none _

theorem outcome_hasChecksum_none (path : String) (crc : UInt32) :
    outcome host none (hasChecksum dirs none path crc) =
      outcome host none (locate dirs path) >>= fun
        | none => .ok false
        | some place => checksumAt host place crc := by
  rw [hasChecksum, outcome_bind, after_locate]
  refine bind_congr fun place? => ?_
  cases place? with
  | none => rfl
  | some place => exact outcome_checksumAt place crc

theorem outcome_hasChecksum_some (p : Package) (path : String) (crc : UInt32) :
    outcome host none (hasChecksum dirs (some p) path crc) =
      if lowerString path = lowerString p.name then
        (outcome host none p.checksum).map (decide <| · = crc)
      else outcome host none (locate dirs path) >>= fun
        | none => .ok false
        | some place =>
          if place = p.path then (outcome host none p.checksum).map (decide <| · = crc)
          else checksumAt host place crc := by
  have ofContext : outcome host none (do return decide ((← p.checksum) = crc)) =
      (outcome host none p.checksum).map (decide <| · = crc) := by
    rw [outcome_bind]
    cases outcome host none p.checksum <;> rfl
  unfold hasChecksum
  dsimp only
  split
  · exact ofContext
  rw [outcome_bind, after_locate]
  refine bind_congr fun place? => ?_
  cases place? with
  | none => rfl
  | some place =>
    dsimp only
    split
    · exact ofContext
    · exact outcome_checksumAt place crc

/-- Where there is a file, its checksum is looked for in its content. -/
theorem checksumAt_of_hasFile {place : String} (h : hasFile host place = true) (crc : UInt32) :
    checksumAt host place crc =
      (Except.map Crc32.checksum (host (.contentOf place) : Except Failure ByteArray)).map
        (decide <| · = crc) := by
  rw [checksumAt, isFile_of_hasFile h]
  cases (host (.contentOf place) : Except Failure ByteArray) <;> rfl

/-! ## The file of the context -/

/-- Among names that differ by more than letter case, only one has a given lower case. -/
theorem filter_lowerString_eq {names : List String} (h : (names.map lowerString).Nodup)
    {name : String} (hname : name ∈ names) :
    (names.filter fun n => lowerString n = lowerString name) = [name] := by
  have hfilter : (names.filter fun n => lowerString n = lowerString name) =
      names.filter (· == name) := by
    refine List.filter_congr fun n hn => ?_
    rw [Bool.eq_iff_iff, decide_eq_true_eq, beq_iff_eq]
    exact ⟨fun he => List.inj_on_of_nodup_map h hn hname he, fun he => he ▸ rfl⟩
  rw [hfilter, List.filter_beq, List.count_eq_one_of_mem (List.Nodup.of_map _ h) hname]
  rfl

/-- What a host found in the data directory itself is the path of one of its names. -/
structure InData (host : Fixed) (dirs : Directories) (p : Package) : Prop where
  /-- Its name is listed in the data directory. -/
  listed : ∃ names : List String, host (.listDirectory (resolve dirs.data "")) = .ok names ∧
    p.name ∈ names
  path_eq : p.path = child (resolve dirs.data "") p.name
  hasFile : hasFile host p.path = true

theorem inData_of_found (hhost : FindsFiles host dirs) {keep : String → Bool}
    {paths : List String} (hfound : host (.findFiles "" keep) = .ok paths) {p : Package}
    (hp : p.path ∈ paths) : InData host dirs p := by
  obtain ⟨names, hnames, rfl⟩ := hhost.eq_ok hfound
  obtain ⟨name, hname, hpath⟩ := List.mem_map.1 hp
  obtain ⟨hkept, hfile⟩ := List.mem_filter.1 hname
  have hlisted : name ∈ names := List.mem_of_mem_filter hkept
  have hbase : p.name = name := by
    have hplace : ∀ p ∈ resolveSegments dirs.data "", IsName p := isName_of_mem_resolveSegments
    have h := basename_child hplace (hhost.isName hnames name hlisted)
    rwa [String.ofList_toList, ← resolve, hpath] at h
  refine ⟨⟨names, hnames, hbase ▸ hlisted⟩, ?_, ?_⟩
  · rw [hbase, hpath]
  · rw [← hpath, hfile]

/-- A path that names a plugin leads to its file. -/
theorem locate_of_name (hhost : FindsFiles host dirs) {names : List String}
    (hnames : host (.listDirectory (resolve dirs.data "")) = .ok names)
    (hcase : (names.map lowerString).Nodup) {p : Package} (hp : InData host dirs p) {path : String}
    (hpath : lowerString path = lowerString p.name) :
    outcome host none (locate dirs path) = .ok (some p.path) := by
  obtain ⟨⟨names', hnames', hlisted⟩, hchild, hfile⟩ := hp
  cases Except.ok.inj (hnames.symm.trans hnames')
  have hslash : '/' ∉ path.toList := by
    rw [← slash_mem_lowerString, hpath, slash_mem_lowerString]
    exact (hhost.isName hnames p.name hlisted).2.1
  have hdata : fromGame? path = none := by
    rw [Option.eq_none_iff_forall_ne_some]
    intro rest hrest
    rw [fromGame?_eq_some_iff.1 hrest] at hslash
    exact hslash (by simp)
  have hsplit : split path = ("", path) := by
    have hd : IsDirectoryPart "" := .inl rfl
    have h := split_append hd hslash
    rwa [String.empty_append] at h
  have hinside : checkInsideData dirs "" path = .ok () := by
    rw [checkInsideData, if_pos (isInside_resolve_empty dirs.data)]
  have hfound : host (.findFiles "" fun file => lowerString file = lowerString path) =
      .ok [p.path] := by
    rw [hhost.findFiles, hnames, hpath]
    show filesAmong host _ (names.filter _) = _
    rw [filter_lowerString_eq hcase hlisted, filesAmong_eq]
    · rw [List.filter_cons_of_pos (by rw [← hchild, hfile]), List.filter_nil, List.map_singleton,
        ← hchild]
      rfl
    · intro name hname
      rw [List.mem_singleton.1 hname, ← hchild]
      exact ⟨true, isFile_of_hasFile hfile⟩
  rw [outcome_locate_data none hdata, hsplit, hinside, hfound]
  rfl

/-- With the plugin in whose metadata it stands as context, a condition finds the same checksums as
without, whatever has become known of the plugin. -/
theorem checksum_of_context (hhost : FindsFiles host dirs)
    (hcase : ∀ names : List String, host (.listDirectory (resolve dirs.data "")) = .ok names →
      (names.map lowerString).Nodup)
    (hstructure : RefusesOnlyMalformed host) {keep : String → Bool} {paths : List String}
    (hfound : host (.findFiles "" keep) = .ok paths) {p : Package} (hp : p.path ∈ paths)
    {s : Option Facts} (hs : Since host (some p) none s) (path : String) (crc : UInt32) :
    outcome host s ((Call.checksum path crc).holds dirs (some p)) =
      outcome host none ((Call.checksum path crc).holds dirs none) := by
  have hin : InData host dirs p := inData_of_found hhost hfound hp
  obtain ⟨names, hnames, -⟩ := hin.listed
  have hcontext : (outcome host none p.checksum).map (decide <| · = crc) =
      checksumAt host p.path crc := by
    rw [outcome_packageChecksum hstructure, checksumAt_of_hasFile hin.hasFile]
  have hsteady : outcome host s (hasChecksum dirs (some p) path crc) =
      outcome host none (hasChecksum dirs (some p) path crc) :=
    ((composed_hasChecksum dirs path crc : Composed false (some p) _).steady s hs).1
  show outcome host s (hasChecksum dirs (some p) path crc) =
    outcome host none (hasChecksum dirs none path crc)
  rw [hsteady, outcome_hasChecksum_some, outcome_hasChecksum_none, hcontext]
  split
  next hname =>
    rw [locate_of_name hhost hnames (hcase names hnames) hin hname]
    rfl
  next =>
    refine bind_congr fun place? => ?_
    cases place? with
    | none => rfl
    | some place =>
      dsimp only
      split
      · next hplace => rw [hplace]
      · rfl

/-- A plugin that is not well formed still has a checksum, and a way with a detour leads to its
file. -/
theorem checksum_of_context_detour :
    let h : Memory := {
      files := [("/game/Data/A.esp", "123456789".toUTF8), ("/game/Data/x/b.txt", "b".toUTF8)]
      structures := [("A.esp", .error (.tooSmall "A.esp"))] }
    let p : Package := ⟨"/game/Data/A.esp"⟩
    let known := after h.answer none p.checksum
    let call (crc : UInt32) : Call := .checksum "x/../A.esp" crc
    FindsFiles h.answer h.directories ∧
      (∀ names : List String,
        h.answer (.listDirectory (resolve h.directories.data "")) = .ok names →
          (names.map lowerString).Nodup) ∧
      RefusesOnlyMalformed h.answer ∧
      h.answer (.findFiles "" isPluginName) = .ok [p.path] ∧ p.path ∈ [p.path] ∧
      Since h.answer (some p) none known ∧
      ∀ crc,
        outcome h.answer known ((call crc).holds h.directories (some p)) =
            .ok (decide (0xCBF43926 = crc)) ∧
          outcome h.answer none ((call crc).holds h.directories none) =
            .ok (decide (0xCBF43926 = crc)) := by
  intro h p known call
  have hhost : FindsFiles h.answer h.directories := Memory.findsFiles (by decide +kernel)
  have hcase : ∀ names : List String,
      h.answer (.listDirectory (resolve h.directories.data "")) = .ok names →
        (names.map lowerString).Nodup := by
    intro names hnames
    rw [← Except.ok.inj hnames]
    decide +kernel
  have hstructure : RefusesOnlyMalformed h.answer := Memory.refusesOnlyMalformed rfl
  have hfiles : h.findFiles "" isPluginName = ["/game/Data/A.esp"] := by decide +kernel
  have hfound : h.answer (.findFiles "" isPluginName) = .ok [p.path] := congrArg Except.ok hfiles
  have hp : p.path ∈ [p.path] := List.mem_singleton_self _
  have hs : Since h.answer (some p) none known :=
    ((composed_checksum rfl : Composed false (some p) _).steady none .refl).2
  have hlocate : outcome h.answer none (locate h.directories "x/../A.esp") = .ok (some p.path) := by
    have hthere : h.findFiles (split "x/../A.esp").1
        (fun file => lowerString file = lowerString (split "x/../A.esp").2) = [p.path] := by
      decide +kernel
    have hinside : checkInsideData h.directories (split "x/../A.esp").1 "x/../A.esp" = .ok () :=
      if_pos (by decide +kernel)
    rw [outcome_locate_data none (by decide +kernel), hinside]
    show Except.ok (h.findFiles _ _).head? = _
    rw [hthere]
    rfl
  have hvalue (crc : UInt32) : outcome h.answer none ((call crc).holds h.directories none) =
      .ok (decide (0xCBF43926 = crc)) := by
    have hcrc : Crc32.checksum "123456789".toUTF8 = 0xCBF43926 := by decide +kernel
    have hcontent : h.answer (.contentOf p.path) = .ok "123456789".toUTF8 := rfl
    show outcome h.answer none (hasChecksum h.directories none "x/../A.esp" crc) = _
    rw [outcome_hasChecksum_none, hlocate]
    show checksumAt h.answer p.path crc = _
    rw [checksumAt_of_hasFile rfl, hcontent, ← hcrc]
    rfl
  refine ⟨hhost, hcase, hstructure, hfound, hp, hs, fun crc => ⟨?_, hvalue crc⟩⟩
  rw [← hvalue crc]
  exact checksum_of_context hhost hcase hstructure hfound hp hs _ _

end Condition

end PluginAudit
